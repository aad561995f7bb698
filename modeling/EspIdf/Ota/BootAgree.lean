import EspIdf.Ota.BootPartition

/-!
# The application and the bootloader agree on the partition that boots

* `Contiguous.factory_eq`, `ota_eq`, … : the bootloader's copy of the table has what `esp_partition_find_first` finds;
* `tableChoice` : the partition two entries choose, by the table;
* `Contiguous.espOtaGetBootPartition_eq`, `Contiguous.boot_run` : both programs take it, each for its own entries.
-/

namespace EspIdf.Ota

open NorFlash Word32

/-! ## Subtypes -/

theorem isOtaSubtype_iff (subtype : UInt8) : IsOtaSubtype subtype ↔ subtype.toNat / 16 = 1 := by
  have h : ∀ i < 256, IsOtaSubtype (.ofNat i) ↔ i / 16 = 1 := by decide +kernel
  have := h subtype.toNat subtype.toNat_lt
  rwa [UInt8.ofNat_toNat] at this

theorem otaIndex_toNat (subtype : UInt8) : (subtype &&& partSubtypeOtaMask).toNat = subtype.toNat % 16 := by
  have h : ∀ i < 256, (UInt8.ofNat i &&& partSubtypeOtaMask).toNat = i % 16 := by decide +kernel
  have := h subtype.toNat subtype.toNat_lt
  rwa [UInt8.ofNat_toNat] at this

theorem otaSubtype_toNat {k : Nat} (h : k ≤ 16) : (partSubtypeOtaFlag + .ofNat k).toNat = 16 + k := by
  rw [UInt8.toNat_add, UInt8.toNat_ofNat']
  change (16 + k % 256) % 256 = 16 + k
  omega

/-- The subtype of an OTA slot. -/
theorem otaSubtype_iff {subtype : UInt8} {k : Nat} (h : k < 16) :
    subtype = partSubtypeOtaFlag + .ofNat k ↔ IsOtaSubtype subtype ∧ (subtype &&& partSubtypeOtaMask).toNat = k := by
  rw [isOtaSubtype_iff, otaIndex_toNat, ← UInt8.toNat_inj, otaSubtype_toNat h.le]
  omega

/-! ## The bootloader's copy of the table -/

namespace BootloaderState

theorem not_ota_factory : ¬IsOtaSubtype partSubtypeFactory := by decide

theorem not_ota_test : ¬IsOtaSubtype partSubtypeTest := by decide

variable (bs : BootloaderState) (p : PartitionInfo)

theorem loadEntry_factory :
    (bs.loadEntry p).factory = if p.IsApp partSubtypeFactory then p.pos else bs.factory := by
  unfold loadEntry
  by_cases hp : p.IsApp partSubtypeFactory
  · rw [if_pos hp, if_pos hp.1, if_pos hp.2]
  · rw [if_neg hp]
    split_ifs with happ hfactory <;> first | rfl | exact absurd ⟨happ, hfactory⟩ hp

theorem loadEntry_test : (bs.loadEntry p).test = if p.IsApp partSubtypeTest then p.pos else bs.test := by
  unfold loadEntry
  by_cases hp : p.IsApp partSubtypeTest
  · rw [if_pos hp, if_pos hp.1, hp.2, if_neg (by decide), if_pos rfl]
  · rw [if_neg hp]
    split_ifs with happ _ htest <;> first | rfl | exact absurd ⟨happ, htest⟩ hp

theorem loadEntry_otaInfo : (bs.loadEntry p).otaInfo = if p.IsOtaData then p.pos else bs.otaInfo := by
  unfold loadEntry
  by_cases hp : p.IsOtaData
  · rw [if_pos hp, hp.1, if_neg (by decide), if_pos rfl, if_pos hp.2]
  · rw [if_neg hp]
    split_ifs with _ _ _ _ hdata hota <;> first | rfl | exact absurd ⟨hdata, hota⟩ hp

/-- The entry of an OTA slot. -/
theorem loadEntry_slot (h : p.IsOtaApp) : bs.loadEntry p = { bs with
    ota := Function.update bs.ota (p.subtype &&& partSubtypeOtaMask).toNat p.pos
    appCount := bs.appCount + 1 } := by
  have hfactory : p.subtype ≠ partSubtypeFactory := fun e => not_ota_factory (e ▸ h.2)
  have htest : p.subtype ≠ partSubtypeTest := fun e => not_ota_test (e ▸ h.2)
  unfold loadEntry
  rw [if_pos h.1, if_neg hfactory, if_neg htest, if_pos h.2]

/-- Any other entry leaves the OTA slots as they are. -/
theorem loadEntry_other (h : ¬p.IsOtaApp) : (bs.loadEntry p).ota = bs.ota ∧ (bs.loadEntry p).appCount = bs.appCount := by
  unfold loadEntry
  split_ifs with happ _ _ hota <;> first | exact ⟨rfl, rfl⟩ | exact absurd ⟨happ, hota⟩ h

theorem loadEntry_appCount : (bs.loadEntry p).appCount = bs.appCount + if p.IsOtaApp then 1 else 0 := by
  by_cases hp : p.IsOtaApp
  · rw [loadEntry_slot bs p hp, if_pos hp]
  · rw [(loadEntry_other bs p hp).2, if_neg hp]
    rfl

theorem loadEntry_ota {k : Nat} (h : k < 16) :
    (bs.loadEntry p).ota k = if p.IsApp (partSubtypeOtaFlag + .ofNat k) then p.pos else bs.ota k := by
  by_cases hp : p.IsOtaApp
  · rw [loadEntry_slot bs p hp]
    change Function.update bs.ota _ p.pos k = _
    by_cases hk : p.subtype = partSubtypeOtaFlag + .ofNat k
    · rw [if_pos ⟨hp.1, hk⟩, ((otaSubtype_iff h).mp hk).2, Function.update_self]
    · rw [if_neg fun e => hk e.2, Function.update_of_ne]
      exact fun e => hk ((otaSubtype_iff h).mpr ⟨hp.2, e.symm⟩)
  · rw [(loadEntry_other bs p hp).1, if_neg]
    exact fun e => hp ⟨e.1, ((otaSubtype_iff h).mp e.2).1⟩

/-- A field of which the table has at most one entry. -/
theorem foldl_field {proj : BootloaderState → PartitionPos} {P : PartitionInfo → Prop} [DecidablePred P]
    (hstep : ∀ bs p, proj (bs.loadEntry p) = if P p then p.pos else proj bs) {table : List PartitionInfo}
    (hone : (table.countP fun p => P p) ≤ 1) (bs : BootloaderState) :
    proj (table.foldl loadEntry bs) = ((table.find? fun p => P p).map PartitionInfo.pos).getD (proj bs) := by
  induction table generalizing bs with
  | nil => rfl
  | cons p table ih =>
      rw [List.foldl_cons]
      by_cases hp : P p
      · rw [List.countP_cons_of_pos (by simpa using hp)] at hone
        have hnone : (table.find? fun p => P p) = none := by
          have h0 : (table.countP fun p => P p) = 0 := by omega
          rw [List.countP_eq_zero] at h0
          exact List.find?_eq_none.mpr h0
        rw [ih (by omega), hnone, List.find?_cons_of_pos (by simpa using hp), hstep, if_pos hp]
        rfl
      · rw [List.countP_cons_of_neg (by simpa using hp)] at hone
        rw [ih hone, List.find?_cons_of_neg (by simpa using hp), hstep, if_neg hp]

theorem foldl_appCount (table : List PartitionInfo) (bs : BootloaderState) :
    (table.foldl loadEntry bs).appCount = bs.appCount + table.countP fun p => p.IsOtaApp := by
  induction table generalizing bs with
  | nil => rfl
  | cons p table ih =>
      rw [List.foldl_cons, ih, List.countP_cons, loadEntry_appCount]
      simp only [decide_eq_true_eq]
      omega

end BootloaderState

/-! ## Tables with contiguous OTA slots -/

namespace Contiguous

open BootloaderState

variable {table : List PartitionInfo} {n : Nat} {otadata : PartitionInfo}

/-- The entries for one OTA slot. -/
theorem slot_count (h : Contiguous table n otadata) {k : Nat} (hk : k < 16) :
    (table.countP fun p => p.IsApp (partSubtypeOtaFlag + .ofNat k)) = if k < n then 1 else 0 := by
  have hn : n ≤ 16 := h.le_max
  have hcount : (table.countP fun p => p.IsApp (partSubtypeOtaFlag + .ofNat k)) =
      ((table.filter fun p => p.IsOtaApp).map PartitionInfo.subtype).count (partSubtypeOtaFlag + .ofNat k) := by
    rw [List.count_eq_countP, List.countP_map, List.countP_filter]
    apply List.countP_congr
    intro p _
    have hota := @otaSubtype_iff (partSubtypeOtaFlag + .ofNat k) k hk
    simp only [decide_eq_true_eq, Function.comp_apply, beq_iff_eq, Bool.and_eq_true]
    unfold PartitionInfo.IsApp PartitionInfo.IsOtaApp
    constructor
    · rintro ⟨happ, hsub⟩
      exact ⟨hsub, happ, hsub ▸ (hota.mp rfl).1⟩
    · rintro ⟨hsub, happ, -⟩
      exact ⟨happ, hsub⟩
  have hrange : ((List.range n).map fun k => partSubtypeOtaFlag + UInt8.ofNat k).count
      (partSubtypeOtaFlag + .ofNat k) = (List.range n).count k := by
    rw [List.count_eq_countP, List.countP_map, List.count_eq_countP]
    apply List.countP_congr
    intro i hi
    rw [List.mem_range] at hi
    simp only [Function.comp_apply, beq_iff_eq, ← UInt8.toNat_inj, otaSubtype_toNat hk.le,
      otaSubtype_toNat (show i ≤ 16 by omega)]
    omega
  rw [hcount, h.slots.count_eq, hrange, List.nodup_range.count]
  simp only [List.mem_range]

/-- There is an entry for an OTA slot below `n` only. -/
theorem slot_isSome (h : Contiguous table n otadata) {k : Nat} (hk : k < 16) :
    (espPartitionFindFirst table partTypeApp (partSubtypeOtaFlag + .ofNat k)).isSome ↔ k < n := by
  have hcount := h.slot_count hk
  change (table.find? fun p => p.IsApp (partSubtypeOtaFlag + .ofNat k)).isSome ↔ k < n
  rw [List.find?_isSome]
  constructor
  · intro hex
    have := List.countP_pos_iff.mpr hex
    by_contra hn
    rw [if_neg hn] at hcount
    omega
  · intro hlt
    rw [if_pos hlt] at hcount
    exact List.countP_pos_iff.mp (by omega)

/-- A field of the bootloader's table. -/
theorem field_eq {proj : BootloaderState → PartitionPos} {type subtype : UInt8}
    (hstep : ∀ bs p, proj (bs.loadEntry p) = if p.type = type ∧ p.subtype = subtype then p.pos else proj bs)
    (hzero : proj zero = noPartition)
    (hone : (table.countP fun p => p.type = type ∧ p.subtype = subtype) ≤ 1) :
    proj (loadPartitionTable table) =
      ((espPartitionFindFirst table type subtype).map PartitionInfo.pos).getD noPartition :=
  hzero ▸ foldl_field hstep hone zero

theorem factory_eq (h : Contiguous table n otadata) : (loadPartitionTable table).factory =
    ((espPartitionFindFirst table partTypeApp partSubtypeFactory).map PartitionInfo.pos).getD noPartition :=
  field_eq loadEntry_factory rfl h.one_factory

theorem test_eq (h : Contiguous table n otadata) : (loadPartitionTable table).test =
    ((espPartitionFindFirst table partTypeApp partSubtypeTest).map PartitionInfo.pos).getD noPartition :=
  field_eq loadEntry_test rfl h.one_test

theorem ota_eq (h : Contiguous table n otadata) {k : Nat} (hk : k < 16) : (loadPartitionTable table).ota k =
    ((espPartitionFindFirst table partTypeApp (partSubtypeOtaFlag + .ofNat k)).map PartitionInfo.pos).getD
      noPartition := by
  apply @field_eq _ (fun bs => bs.ota k) _ _ (fun bs p => loadEntry_ota bs p hk) rfl
  have hcount := h.slot_count hk
  split_ifs at hcount
  · exact hcount.le
  · exact hcount.le.trans (Nat.zero_le 1)

theorem appCount_eq (h : Contiguous table n otadata) : (loadPartitionTable table).appCount = n := by
  have hlen := h.slots.length_eq
  rw [List.length_map, List.length_map, List.length_range, ← List.countP_eq_length_filter] at hlen
  unfold loadPartitionTable
  rw [foldl_appCount, hlen]
  exact Nat.zero_add n

theorem otadata_eq (h : Contiguous table n otadata) :
    espPartitionFindFirst table partTypeData partSubtypeDataOta = some otadata := by
  change (table.find? fun p => p.IsOtaData) = some otadata
  rw [← List.head?_filter, h.otadata_only]
  rfl

theorem otadata_mem (h : Contiguous table n otadata) : otadata ∈ table :=
  List.mem_of_find?_eq_some h.otadata_eq

theorem otaInfo_eq (h : Contiguous table n otadata) : (loadPartitionTable table).otaInfo = otadata.pos := by
  have hone : (table.countP fun p => p.IsOtaData) ≤ 1 := by
    rw [List.countP_eq_length_filter, h.otadata_only]
    exact le_rfl
  rw [field_eq loadEntry_otaInfo rfl hone, h.otadata_eq]
  rfl

end Contiguous

/-! ## The choice -/

/-- The partition for the app of an OTA slot. -/
def otaPartition (table : List PartitionInfo) (slot : Nat) : Option PartitionInfo :=
  espPartitionFindFirst table partTypeApp (partSubtypeOtaFlag + .ofNat slot)

/-- The OTA slot a sequence number names. -/
def slotOf (n : Nat) (seq : UInt32) : Nat := ((seq - 1) % .ofNat n : UInt32).toNat

/-- The partition that two entries choose in a table with `n` OTA slots. -/
def tableChoice (table : List PartitionInfo) (n : Nat) (two : TwoOtadata) : Option PartitionInfo :=
  if n = 0 then findDefaultBootPartition table
  else
    match getActiveOtadata two with
    | none => findDefaultBootPartition table
    | some active => otaPartition table (slotOf n (two active).otaSeq)

theorem slotOf_lt {n : Nat} (hpos : 0 < n) (hle : n ≤ 16) (seq : UInt32) : slotOf n seq < n := by
  unfold slotOf
  rw [UInt32.toNat_mod, toNat_ofNat_of_lt (by omega)]
  exact Nat.mod_lt _ hpos

namespace BootloaderState

variable (bs : BootloaderState) (rollback : Bool) (imageOk : PartitionPos → Bool)

/-- What the bootloader selects for the entries it has. -/
def verdict (two : TwoOtadata) : Int × Bool :=
  if ((two 0).SelectInvalid ∧ (two 1).SelectInvalid) ∨ bs.appCount = 0 then
    if bs.factory.offset ≠ 0 then (factoryIndex, false) else (0, (two 0).Initial ∧ (two 1).Initial)
  else
    match getActiveOtadata two with
    | none => (factoryIndex, false)
    | some active => (Int.ofNat (slotOf bs.appCount (two active).otaSeq), false)

/-- The partition whose image is started, from an index that is not the test app's. -/
def started (start : Int) : Option PartitionPos :=
  match (bs.tryOrder start).find? fun i => tryLoad imageOk (bs.indexToPartition i) with
  | some index => some (bs.indexToPartition index)
  | none => if tryLoad imageOk bs.test then some bs.test else none

theorem readOtadata_run (h : bs.otaInfo.offset ≠ 0) (hsize : 2 * 4096 ≤ bs.otaInfo.size) (img : Image) :
    bs.readOtadata () img = ⟨.ok (bs.otaInfo.entries img), (), []⟩ := by
  unfold readOtadata
  rw [if_neg h, if_neg (by omega)]
  have htwo : bs.otaInfo.entries img =
      ![OtaSelectEntry.ofBytes (readBytes img (bs.otaInfo.entryAddr 0) 32),
        OtaSelectEntry.ofBytes (readBytes img (bs.otaInfo.entryAddr 1) 32)] := by
    funext i
    match i with
    | 0 => rfl
    | 1 => rfl
  rw [htwo]
  rfl

theorem abortOne_run (two : TwoOtadata) (i : Fin 2) (img : Image) :
    ∃ ops, bs.abortOne rollback two i () img = ⟨.ok (), (), ops⟩ := by
  unfold abortOne
  split_ifs <;> exact ⟨_, rfl⟩

theorem selectBootIndex_run (two : TwoOtadata) (img : Image) :
    ∃ ops, bs.selectBootIndex rollback two () img = ⟨.ok (bs.verdict two), (), ops⟩ := by
  unfold selectBootIndex verdict
  split_ifs with hdefault hfactory
  · exact ⟨[], rfl⟩
  · exact ⟨[], rfl⟩
  · cases getActiveOtadata two with
    | none => exact ⟨[], rfl⟩
    | some active =>
        by_cases hnew : rollback ∧ (two active).otaState = imgNew
        · simp only [if_pos hnew]
          exact ⟨_, rfl⟩
        · simp only [if_neg hnew]
          exact ⟨_, rfl⟩

/-- The bootloader chooses among the entries in the flash, unconfirmed ones aborted if it supports rollback. -/
theorem getSelected_run (h : bs.otaInfo.offset ≠ 0) (hsize : 2 * 4096 ≤ bs.otaInfo.size) (img : Image) :
    ∃ ops, bs.getSelectedBootPartition rollback () img =
      ⟨.ok (bs.verdict (if rollback then aborted (bs.otaInfo.entries img) else bs.otaInfo.entries img)), (), ops⟩ := by
  unfold getSelectedBootPartition
  rw [if_neg h]
  obtain ⟨ops0, h0⟩ := bs.abortOne_run rollback (bs.otaInfo.entries img) 0 img
  obtain ⟨ops1, h1⟩ := bs.abortOne_run rollback (bs.otaInfo.entries img) 1 (applyAll ops0 img)
  obtain ⟨ops, hselect⟩ := bs.selectBootIndex_run rollback
    (if rollback then aborted (bs.otaInfo.entries img) else bs.otaInfo.entries img) (applyAll ops1 (applyAll ops0 img))
  exact ⟨_, by rw [bind_quiet (bs.readOtadata_run h hsize img), bind_run h0 (bind_run h1 hselect)]⟩

theorem loadBootImage_run {start : Int} (h : start ≠ testAppIndex) (initialContents : Bool) (img : Image) :
    ∃ ops, bs.loadBootImage imageOk start initialContents () img =
      ⟨(bs.started imageOk start).elim (.error .reset) .ok, (), ops⟩ := by
  unfold loadBootImage started
  rw [if_neg h]
  cases (bs.tryOrder start).find? fun i => tryLoad imageOk (bs.indexToPartition i) with
  | none =>
      dsimp only
      split_ifs <;> exact ⟨[], rfl⟩
  | some index =>
      dsimp only
      unfold setActualOtaSeq
      split_ifs <;> exact ⟨_, rfl⟩

theorem verdict_ne_test (two : TwoOtadata) : (bs.verdict two).1 ≠ testAppIndex := by
  have hfactory : factoryIndex ≠ testAppIndex := by decide
  have hzero : (0 : Int) ≠ testAppIndex := by decide
  unfold verdict
  split_ifs
  · exact hfactory
  · exact hzero
  · cases getActiveOtadata two with
    | none => exact hfactory
    | some active =>
        change Int.ofNat _ ≠ Int.negSucc 1
        exact Int.noConfusion

theorem boot_run (h : bs.otaInfo.offset ≠ 0) (hsize : 2 * 4096 ≤ bs.otaInfo.size) (img : Image) :
    (bs.boot rollback imageOk () img).result = (bs.started imageOk (bs.verdict (if rollback then
      aborted (bs.otaInfo.entries img) else bs.otaInfo.entries img)).1).elim (.error .reset) .ok := by
  obtain ⟨ops, hselect⟩ := bs.getSelected_run rollback h hsize img
  obtain ⟨ops', hload⟩ := bs.loadBootImage_run imageOk (bs.verdict_ne_test
    (if rollback then aborted (bs.otaInfo.entries img) else bs.otaInfo.entries img)) _ (applyAll ops img)
  unfold boot
  rw [bind_run hselect hload]

end BootloaderState

namespace Contiguous

open BootloaderState

variable {table : List PartitionInfo} {n : Nat} {otadata : PartitionInfo}

/-! ### The application -/

/-- The loop of `esp_ota_get_app_partition_count` stops at the first slot that is not there. -/
theorem countFrom_eq (h : Contiguous table n otadata) (hnone : otaPartition table n = none) (fuel : Nat) {count : Nat}
    (hle : count ≤ n) (hfuel : n < count + fuel) : appPartitionCountFrom table count fuel = some n := by
  have hn : n ≤ 16 := h.le_max
  induction fuel generalizing count with
  | zero => omega
  | succ fuel ih =>
      unfold appPartitionCountFrom
      rcases Nat.eq_or_lt_of_le hle with rfl | hlt
      · change espPartitionFindFirst _ _ _ = none at hnone
        rw [hnone]
      · obtain ⟨p, hp⟩ := Option.isSome_iff_exists.mp ((h.slot_isSome (by omega)).mpr hlt)
        rw [hp]
        change (if count < 16 then appPartitionCountFrom table (count + 1) fuel else none) = some n
        rw [if_pos (by omega)]
        exact ih hlt (by omega)

/-- After the last slot there is none, but a test app has the subtype after slot 15. -/
theorem otaPartition_none (h : Contiguous table n otadata)
    (htest : n = 16 → espPartitionFindFirst table partTypeApp partSubtypeTest = none) :
    otaPartition table n = none := by
  have hn : n ≤ 16 := h.le_max
  rcases Nat.eq_or_lt_of_le hn with rfl | hlt
  · exact htest rfl
  · have hsome := (h.slot_isSome hlt).not.mpr (Nat.lt_irrefl n)
    exact Option.not_isSome_iff_eq_none.mp hsome

/-- With 16 slots the test app is counted as one more, and the assertion fails. -/
theorem espOtaGetBootPartition_asserts (h : Contiguous table 16 otadata)
    (htest : (espPartitionFindFirst table partTypeApp partSubtypeTest).isSome) (img : Image) :
    espOtaGetBootPartition table img = none := by
  have hfrom : ∀ fuel count, count + fuel = 17 → appPartitionCountFrom table count fuel = none := by
    intro fuel
    induction fuel with
    | zero => exact fun _ _ => rfl
    | succ fuel ih =>
        intro count hcount
        have hsome : (espPartitionFindFirst table partTypeApp (partSubtypeOtaFlag + .ofNat count)).isSome := by
          rcases Nat.eq_or_lt_of_le (show count ≤ 16 by omega) with rfl | hlt
          · exact htest
          · exact (h.slot_isSome hlt).mpr hlt
        obtain ⟨p, hp⟩ := Option.isSome_iff_exists.mp hsome
        unfold appPartitionCountFrom
        rw [hp]
        dsimp only
        split_ifs
        · exact ih (count + 1) (by omega)
        · rfl
  have hcount : espOtaGetAppPartitionCount table = none := hfrom 17 0 rfl
  unfold espOtaGetBootPartition
  rw [h.otadata_eq]
  dsimp only
  rw [hcount]

theorem espOtaGetBootPartition_eq (h : Contiguous table n otadata)
    (htest : n = 16 → espPartitionFindFirst table partTypeApp partSubtypeTest = none) (img : Image) :
    espOtaGetBootPartition table img = some (tableChoice table n (otadata.pos.entries img)) := by
  have hcount : espOtaGetAppPartitionCount table = some n :=
    h.countFrom_eq (h.otaPartition_none htest) 17 (Nat.zero_le n) (by have : n ≤ 16 := h.le_max; omega)
  unfold espOtaGetBootPartition tableChoice
  rw [h.otadata_eq]
  dsimp only
  rw [hcount]
  dsimp only
  generalize otadata.pos.entries img = two
  by_cases hn : n = 0
  · rw [if_pos (Or.inr hn), if_pos hn]
  · rw [if_neg hn]
    by_cases hinv : (two 0).SelectInvalid ∧ (two 1).SelectInvalid
    · rw [if_pos (Or.inl hinv), getActive_none hinv]
    · rw [if_neg (not_or.mpr ⟨hinv, hn⟩)]
      cases getActiveOtadata two with
      | none => rfl
      | some active => rfl

/-! ### The bootloader -/

/-- Where the bootloader looks for an OTA slot. -/
theorem indexToPartition_slot (h : Contiguous table n otadata) {k : Nat} (hk : k < n) :
    ∃ p, otaPartition table k = some p ∧ (loadPartitionTable table).indexToPartition k = p.pos := by
  have hn : n ≤ 16 := h.le_max
  obtain ⟨p, hp⟩ := Option.isSome_iff_exists.mp ((h.slot_isSome (by omega)).mpr hk)
  refine ⟨p, hp, ?_⟩
  unfold indexToPartition
  rw [if_neg (by unfold factoryIndex; omega), if_neg (by unfold testAppIndex; omega),
    if_pos ⟨by omega, by unfold maxOtaSlots; omega, by rw [h.appCount_eq]; omega⟩, Int.toNat_natCast,
    h.ota_eq (by omega), hp]
  rfl

/-- The default: the factory app, else the first OTA slot, else the test app. -/
theorem findDefault_eq (h : Contiguous table n otadata) : findDefaultBootPartition table =
    (espPartitionFindFirst table partTypeApp partSubtypeFactory).or
      (if n = 0 then espPartitionFindFirst table partTypeApp partSubtypeTest else otaPartition table 0) := by
  unfold findDefaultBootPartition
  cases espPartitionFindFirst table partTypeApp partSubtypeFactory with
  | some p => rfl
  | none =>
      rw [Option.none_or]
      by_cases hn : n = 0
      · have hslots : ((List.range 16).findSome? fun s =>
            espPartitionFindFirst table partTypeApp (partSubtypeOtaFlag + .ofNat s)) = none := by
          rw [List.findSome?_eq_none_iff]
          intro k hk
          have hsome := (h.slot_isSome (List.mem_range.mp hk)).not.mpr (by omega)
          exact Option.not_isSome_iff_eq_none.mp hsome
        rw [hslots, if_pos hn]
      · obtain ⟨p, hp⟩ := Option.isSome_iff_exists.mp ((h.slot_isSome (by omega)).mpr (Nat.pos_of_ne_zero hn))
        have hslots : ((List.range 16).findSome? fun s =>
            espPartitionFindFirst table partTypeApp (partSubtypeOtaFlag + .ofNat s)) = some p := by
          rw [List.range_succ_eq_map, List.findSome?_cons, hp]
        rw [hslots, if_neg hn]
        exact hp.symm

theorem tryLoad_noPartition (imageOk : PartitionPos → Bool) : tryLoad imageOk noPartition = false := rfl

/-- A partition of the table is loaded where it is found. -/
theorem tryLoad_found {imageOk : PartitionPos → Bool} (hok : AllBootable table imageOk) {subtype : UInt8}
    {p : PartitionInfo} (hp : espPartitionFindFirst table partTypeApp subtype = some p) :
    tryLoad imageOk p.pos = true := by
  have happ := List.find?_some hp
  simp only [decide_eq_true_eq] at happ
  exact hok p (List.mem_of_find?_eq_some hp) happ.1

/-- An OTA slot is started if it is tried first. -/
theorem started_slot (h : Contiguous table n otadata) {imageOk : PartitionPos → Bool}
    (hok : AllBootable table imageOk) {k : Nat} (hk : k < n) :
    (loadPartitionTable table).started imageOk k = (otaPartition table k).map PartitionInfo.pos := by
  obtain ⟨p, hp, hindex⟩ := h.indexToPartition_slot hk
  have horder : (loadPartitionTable table).tryOrder k = (k : Int) ::
      ((List.range (k + 1)).map (fun i : Nat => (k : Int) - (i + 1 : Nat)) ++
        (List.range ((loadPartitionTable table).appCount - ((k : Int) + 1)).toNat).map
          fun i : Nat => (k : Int) + 1 + i) := by
    unfold BootloaderState.tryOrder
    rw [show ((k : Int) + 2).toNat = k + 1 + 1 by omega, List.range_succ_eq_map, List.map_cons, List.map_map,
      List.cons_append]
    exact congrArg (· :: _) (Int.sub_zero k)
  unfold started
  rw [horder, List.find?_cons_of_pos (by rw [hindex]; exact tryLoad_found hok hp), hp]
  exact congrArg some hindex

theorem started_of_find {bs : BootloaderState} {imageOk : PartitionPos → Bool} {start index : Int}
    (hfind : ((bs.tryOrder start).find? fun i => tryLoad imageOk (bs.indexToPartition i)) = some index) :
    bs.started imageOk start = some (bs.indexToPartition index) := by
  unfold started
  rw [hfind]

/-- Without a factory app and OTA slots the test app is left. -/
theorem started_test (h : Contiguous table n otadata) {imageOk : PartitionPos → Bool}
    (hok : AllBootable table imageOk) {start : Int}
    (hnone : ∀ i ∈ (loadPartitionTable table).tryOrder start,
      tryLoad imageOk ((loadPartitionTable table).indexToPartition i) = false) :
    (loadPartitionTable table).started imageOk start =
      (espPartitionFindFirst table partTypeApp partSubtypeTest).map PartitionInfo.pos := by
  have hfind : ((loadPartitionTable table).tryOrder start).find?
      (fun i => tryLoad imageOk ((loadPartitionTable table).indexToPartition i)) = none :=
    List.find?_eq_none.mpr fun i hi => by rw [hnone i hi]; exact Bool.false_ne_true
  unfold started
  rw [hfind]
  dsimp only
  rw [h.test_eq]
  cases htest : espPartitionFindFirst table partTypeApp partSubtypeTest with
  | none => rfl
  | some p => exact if_pos (tryLoad_found hok htest)

theorem indexToPartition_factory (h : Contiguous table n otadata) :
    (loadPartitionTable table).indexToPartition (-1) =
      ((espPartitionFindFirst table partTypeApp partSubtypeFactory).map PartitionInfo.pos).getD noPartition :=
  h.factory_eq

/-- From the index of the factory app the default is started. -/
theorem started_factory (h : Contiguous table n otadata) {imageOk : PartitionPos → Bool}
    (hok : AllBootable table imageOk) :
    (loadPartitionTable table).started imageOk factoryIndex =
      (findDefaultBootPartition table).map PartitionInfo.pos := by
  have horder : (loadPartitionTable table).tryOrder factoryIndex = (-1 : Int) ::
      (List.range n).map fun k : Nat => (-1 : Int) + 1 + k := by
    unfold BootloaderState.tryOrder factoryIndex
    rw [h.appCount_eq, show ((n : Int) - (-1 + 1)).toNat = n by omega]
    rfl
  have hfactory := h.indexToPartition_factory
  rw [h.findDefault_eq]
  cases hp : espPartitionFindFirst table partTypeApp partSubtypeFactory with
  | some p =>
      rw [hp] at hfactory
      have hfind : ((loadPartitionTable table).tryOrder factoryIndex).find?
          (fun i => tryLoad imageOk ((loadPartitionTable table).indexToPartition i)) = some (-1) := by
        rw [horder, List.find?_cons_of_pos]
        rw [hfactory]
        exact tryLoad_found hok hp
      rw [started_of_find hfind, hfactory]
      rfl
  | none =>
      rw [hp] at hfactory
      rw [Option.none_or]
      by_cases hn : n = 0
      · rw [if_pos hn]
        apply h.started_test hok
        intro i hi
        rw [horder, hn, List.range_zero, List.map_nil, List.mem_singleton] at hi
        rw [hi, hfactory]
        exact tryLoad_noPartition imageOk
      · obtain ⟨p, hslot, hindex⟩ := h.indexToPartition_slot (Nat.pos_of_ne_zero hn)
        have hfind : ((loadPartitionTable table).tryOrder factoryIndex).find?
            (fun i => tryLoad imageOk ((loadPartitionTable table).indexToPartition i)) = some ((0 : Nat) : Int) := by
          obtain ⟨m, rfl⟩ := Nat.exists_eq_succ_of_ne_zero hn
          rw [horder, List.find?_cons_of_neg, List.range_succ_eq_map, List.map_cons, List.find?_cons_of_pos]
          · rfl
          · change tryLoad imageOk ((loadPartitionTable table).indexToPartition ((0 : Nat) : Int)) = true
            rw [hindex]
            exact tryLoad_found hok hslot
          · rw [hfactory]
            exact Bool.false_ne_true
        rw [started_of_find hfind, if_neg hn, hslot, hindex]
        rfl

/-- Without a factory app the default is started from index 0 too. -/
theorem started_zero (h : Contiguous table n otadata) {imageOk : PartitionPos → Bool}
    (hok : AllBootable table imageOk)
    (hfactory : espPartitionFindFirst table partTypeApp partSubtypeFactory = none) :
    (loadPartitionTable table).started imageOk 0 = (findDefaultBootPartition table).map PartitionInfo.pos := by
  rw [h.findDefault_eq, hfactory, Option.none_or]
  by_cases hn : n = 0
  · rw [if_pos hn]
    apply h.started_test hok
    have horder : (loadPartitionTable table).tryOrder 0 = [0, -1] := by
      unfold BootloaderState.tryOrder
      rw [h.appCount_eq, hn]
      rfl
    have hindex : (loadPartitionTable table).indexToPartition 0 = noPartition := by
      unfold indexToPartition
      rw [if_neg (by decide), if_neg (by decide), if_neg (by rw [h.appCount_eq, hn]; omega)]
    have hnone := h.indexToPartition_factory
    rw [hfactory] at hnone
    intro i hi
    rw [horder, List.mem_cons, List.mem_singleton] at hi
    rcases hi with rfl | rfl
    · rw [hindex]
      exact tryLoad_noPartition imageOk
    · rw [hnone]
      exact tryLoad_noPartition imageOk
  · rw [if_neg hn]
    exact h.started_slot hok (Nat.pos_of_ne_zero hn)

/-- The bootloader starts the partition its entries choose. -/
theorem started_verdict (h : Contiguous table n otadata) {imageOk : PartitionPos → Bool}
    (hok : AllBootable table imageOk) (two : TwoOtadata) :
    (loadPartitionTable table).started imageOk ((loadPartitionTable table).verdict two).1 =
      (tableChoice table n two).map PartitionInfo.pos := by
  have hdefault : (if (loadPartitionTable table).factory.offset ≠ 0 then (factoryIndex, false)
      else ((0 : Int), decide ((two 0).Initial ∧ (two 1).Initial))).1 =
      if (espPartitionFindFirst table partTypeApp partSubtypeFactory).isSome then factoryIndex else 0 := by
    rw [h.factory_eq]
    cases hp : espPartitionFindFirst table partTypeApp partSubtypeFactory with
    | none => rfl
    | some p =>
        have hoffset := h.offset_ne p (List.mem_of_find?_eq_some hp)
        exact congrArg Prod.fst (if_pos hoffset)
  have hstart : (loadPartitionTable table).started imageOk
      (if (espPartitionFindFirst table partTypeApp partSubtypeFactory).isSome then factoryIndex else 0) =
      (findDefaultBootPartition table).map PartitionInfo.pos := by
    split_ifs with hp
    · exact h.started_factory hok
    · exact h.started_zero hok (Option.not_isSome_iff_eq_none.mp hp)
  unfold verdict tableChoice
  rw [h.appCount_eq]
  by_cases hn : n = 0
  · rw [if_pos (Or.inr hn), if_pos hn, hdefault]
    exact hstart
  · rw [if_neg hn]
    by_cases hinv : (two 0).SelectInvalid ∧ (two 1).SelectInvalid
    · rw [if_pos (Or.inl hinv), getActive_none hinv, hdefault]
      exact hstart
    · rw [if_neg (not_or.mpr ⟨hinv, hn⟩)]
      cases getActiveOtadata two with
      | none => exact h.started_factory hok
      | some active => exact h.started_slot hok (slotOf_lt (Nat.pos_of_ne_zero hn) h.le_max _)

/-- What the bootloader starts. -/
theorem boot_eq (h : Contiguous table n otadata) {imageOk : PartitionPos → Bool}
    (hok : AllBootable table imageOk) (rollback : Bool) (img : Image) :
    ((loadPartitionTable table).boot rollback imageOk () img).result =
      (tableChoice table n (if rollback then aborted (otadata.pos.entries img) else otadata.pos.entries img)).elim
        (.error .reset) fun p => .ok p.pos := by
  have hoffset := h.offset_ne otadata h.otadata_mem
  rw [BootloaderState.boot_run _ _ _ (by rw [h.otaInfo_eq]; exact hoffset) (by rw [h.otaInfo_eq]; exact h.two_sectors),
    h.otaInfo_eq, h.started_verdict hok]
  cases tableChoice table n (if rollback then aborted (otadata.pos.entries img) else otadata.pos.entries img) <;> rfl

end Contiguous

/-! ## Agreement -/

theorem OtaSelectEntry.abortPending_of_ne {s : OtaSelectEntry} (h : s.otaState ≠ imgPendingVerify) :
    s.abortPending = s :=
  if_neg h

theorem OtaSelectEntry.abortPending_invalid {s : OtaSelectEntry} (h : s.otaState = imgPendingVerify) :
    ¬s.abortPending.SelectValid := by
  unfold OtaSelectEntry.abortPending
  rw [if_pos h]
  exact fun hv => hv.1 (Or.inr (Or.inr rfl))

/-- An active entry that needs no confirmation stays active. -/
theorem active_aborted {two : TwoOtadata} {a : Fin 2} (ha : getActiveOtadata two = some a)
    (h : (two a).otaState ≠ imgPendingVerify) : getActiveOtadata (aborted two) = some a := by
  have hself : aborted two a = two a := OtaSelectEntry.abortPending_of_ne h
  rw [getActive_eq] at ha ⊢
  split_ifs at ha with h0 h1
  · obtain rfl := Option.some.inj ha
    refine if_pos ⟨hself ▸ h0.1, fun hv => ?_⟩
    obtain ⟨hvalid, hsame⟩ := OtaSelectEntry.abortPending_valid hv
    rw [hself, show aborted two 1 = two 1 from hsame]
    exact h0.2 hvalid
  · obtain rfl := Option.some.inj ha
    rw [hself, if_neg, if_pos h1]
    rintro ⟨hv, hle⟩
    obtain ⟨hvalid, hsame⟩ := OtaSelectEntry.abortPending_valid hv
    rw [show aborted two 0 = two 0 from hsame] at hle
    exact h0 ⟨hvalid, hle⟩

/-- After an active entry is aborted the other one is active, if it can be selected. -/
theorem active_fallback {two : TwoOtadata} {a : Fin 2} (h : (two a).otaState = imgPendingVerify) :
    getActiveOtadata (aborted two) =
      if (two (other a)).SelectValid ∧ (two (other a)).otaState ≠ imgPendingVerify then some (other a) else none := by
  have hself : ¬(aborted two a).SelectValid := OtaSelectEntry.abortPending_invalid h
  split_ifs with ho
  · apply active_of
    · change (two (other a)).abortPending.SelectValid
      rw [OtaSelectEntry.abortPending_of_ne ho.2]
      exact ho.1
    · rw [other_other]
      exact fun hv => absurd hv hself
  · rw [active_none]
    intro i hv
    rcases eq_or_other a i with rfl | rfl
    · exact hself hv
    · refine ho ⟨(OtaSelectEntry.abortPending_valid hv).1, fun hp => ?_⟩
      exact OtaSelectEntry.abortPending_invalid hp hv

section Agreement

variable {table : List PartitionInfo} {n : Nat} {otadata : PartitionInfo}

theorem choice_aborted {two : TwoOtadata}
    (h : n = 0 ∨ ∀ a, getActiveOtadata two = some a → (two a).otaState ≠ imgPendingVerify) :
    tableChoice table n (aborted two) = tableChoice table n two := by
  unfold tableChoice
  by_cases hn : n = 0
  · rw [if_pos hn, if_pos hn]
  · rw [if_neg hn, if_neg hn]
    cases ha : getActiveOtadata two with
    | none =>
        have hnone : getActiveOtadata (aborted two) = none :=
          active_none.mpr fun i hv => active_none.mp ha i (OtaSelectEntry.abortPending_valid hv).1
        rw [hnone]
    | some a =>
        rw [active_aborted ha ((h.resolve_left hn) a ha)]
        change otaPartition table (slotOf n (two a).abortPending.otaSeq) = _
        rw [OtaSelectEntry.abortPending_otaSeq]

theorem choice_fallback (hn : n ≠ 0) {two : TwoOtadata} {a : Fin 2} (h : (two a).otaState = imgPendingVerify) :
    tableChoice table n (aborted two) =
      if (two (other a)).SelectValid ∧ (two (other a)).otaState ≠ imgPendingVerify then
        otaPartition table (slotOf n (two (other a)).otaSeq)
      else findDefaultBootPartition table := by
  unfold tableChoice
  rw [if_neg hn, active_fallback h]
  split_ifs with ho
  · change otaPartition table (slotOf n (two (other a)).abortPending.otaSeq) = _
    rw [OtaSelectEntry.abortPending_otaSeq]
  · rfl

/-- `esp_ota_get_boot_partition` finds the partition that the bootloader starts at the next reset, except if the
bootloader supports rollback and the active entry is still to be confirmed: then it finds the slot of that entry, and
the bootloader starts the slot of the other entry, if it can be selected and needs no confirmation, or the default. -/
theorem boot_agrees (h : Contiguous table n otadata)
    (htest : ¬(n = maxOtaSlots ∧ (espPartitionFindFirst table partTypeApp partSubtypeTest).isSome))
    {imageOk : PartitionPos → Bool} (hok : AllBootable table imageOk) (rollback : Bool) (img : Image) :
    ∃ found, espOtaGetBootPartition table img = some found ∧
      (rollback = false ∨ n = 0 ∨ (∀ a, getActiveOtadata (otadata.pos.entries img) = some a →
          (otadata.pos.entries img a).otaState ≠ imgPendingVerify) →
        ((BootloaderState.loadPartitionTable table).boot rollback imageOk () img).result =
          found.elim (.error .reset) fun p => .ok p.pos) ∧
      (rollback = true → n ≠ 0 → ∀ a, getActiveOtadata (otadata.pos.entries img) = some a →
        (otadata.pos.entries img a).otaState = imgPendingVerify →
        found = otaPartition table (slotOf n (otadata.pos.entries img a).otaSeq) ∧
        ((BootloaderState.loadPartitionTable table).boot rollback imageOk () img).result =
          (if (otadata.pos.entries img (other a)).SelectValid ∧
              (otadata.pos.entries img (other a)).otaState ≠ imgPendingVerify then
            otaPartition table (slotOf n (otadata.pos.entries img (other a)).otaSeq)
          else findDefaultBootPartition table).elim (.error .reset) fun p => .ok p.pos) := by
  have hnone : n = 16 → espPartitionFindFirst table partTypeApp partSubtypeTest = none := fun hn =>
    Option.not_isSome_iff_eq_none.mp fun hsome => htest ⟨hn, hsome⟩
  refine ⟨_, h.espOtaGetBootPartition_eq hnone img, ?_, ?_⟩
  · intro hcase
    rw [h.boot_eq hok]
    cases rollback with
    | false => rfl
    | true =>
        rw [if_pos rfl, choice_aborted (hcase.resolve_left Bool.noConfusion)]
  · intro hrollback hn a ha hpending
    constructor
    · unfold tableChoice
      rw [if_neg hn, ha]
    · rw [h.boot_eq hok, if_pos hrollback, choice_fallback hn hpending]

/-! A table with two OTA slots, the app in slot 1 still to be confirmed, the one in slot 0 confirmed. -/

def trialOtadata : PartitionInfo := ⟨partTypeData, partSubtypeDataOta, ⟨0xd000, 0x2000⟩⟩
def trialOta (k : Nat) : PartitionInfo := ⟨partTypeApp, partSubtypeOtaFlag + .ofNat k, ⟨0x10000 + 0x100000 * k, 0x100000⟩⟩
def trialTable : List PartitionInfo := [trialOtadata, trialOta 0, trialOta 1]

def trialEntries : TwoOtadata := fun i =>
  ({ OtaSelectEntry.blank with otaState := if i = 0 then imgValid else imgPendingVerify } : OtaSelectEntry).withSeq
    (.ofNat i + 1)

def trialImage : Image :=
  program (program (fun _ => 0xFF) (trialOtadata.pos.entryAddr 0) (trialEntries 0).bytes)
    (trialOtadata.pos.entryAddr 1) (trialEntries 1).bytes

theorem trialTable_contiguous : Contiguous trialTable 2 trialOtadata where
  le_max := by decide
  slots := by decide
  one_factory := by decide
  one_test := by decide
  otadata_only := by decide
  two_sectors := by decide
  offset_ne := by decide

theorem trialTable_bootable : AllBootable trialTable fun _ => true := by
  unfold AllBootable trialTable
  decide

theorem trialEntries_eq : trialOtadata.pos.entries trialImage = trialEntries := by
  have h0 : trialOtadata.pos.entryAddr 0 = 0xd000 := rfl
  have h1 : trialOtadata.pos.entryAddr 1 = 0xe000 := rfl
  have hlen0 := (trialEntries 0).bytes_length
  have hlen1 := (trialEntries 1).bytes_length
  have hread : ∀ i, readBytes trialImage (trialOtadata.pos.entryAddr i) (trialEntries i).bytes.length =
      (trialEntries i).bytes := by
    intro i
    match i with
    | 0 =>
        have hout : readBytes trialImage (trialOtadata.pos.entryAddr 0) (trialEntries 0).bytes.length =
            readBytes (program (fun _ => 0xFF) (trialOtadata.pos.entryAddr 0) (trialEntries 0).bytes)
              (trialOtadata.pos.entryAddr 0) (trialEntries 0).bytes.length :=
          readBytes_congr fun a _ _ => program_out (Or.inl (by omega))
        rw [hout]
        exact readBytes_program_erased fun a _ _ => rfl
    | 1 => exact readBytes_program_erased fun a hlo hhi => program_out (by omega)
  funext i
  unfold PartitionPos.entries
  rw [← (trialEntries i).bytes_length, hread, OtaSelectEntry.ofBytes_bytes]

theorem trialEntries_valid (i : Fin 2) : (trialEntries i).SelectValid := by
  refine ⟨?_, OtaSelectEntry.withSeq_crc _ _⟩
  match i with
  | 0 => decide
  | 1 => decide

theorem trialEntries_active : getActiveOtadata trialEntries = some 1 :=
  active_of (trialEntries_valid 1) fun _ => by decide

/-- With two factory apps. -/
def twoFactories : List PartitionInfo :=
  [trialOtadata, ⟨partTypeApp, partSubtypeFactory, (trialOta 0).pos⟩, ⟨partTypeApp, partSubtypeFactory, (trialOta 1).pos⟩]

theorem trial_boot : ((BootloaderState.loadPartitionTable trialTable).boot true (fun _ => true) () trialImage).result =
    .ok (trialOta 0).pos := by
  have hslot : slotOf 2 (trialEntries 0).otaSeq = 0 := by decide
  have hother : (trialEntries (other 1)).SelectValid ∧ (trialEntries (other 1)).otaState ≠ imgPendingVerify :=
    ⟨trialEntries_valid 0, by decide⟩
  rw [trialTable_contiguous.boot_eq trialTable_bootable, trialEntries_eq, if_pos rfl,
    choice_fallback (a := 1) (by decide) rfl, if_pos hother]
  change (otaPartition trialTable (slotOf 2 (trialEntries 0).otaSeq)).elim _ _ = _
  rw [hslot]
  rfl

/-- The application takes the app in slot 1 for the one that boots next, the bootloader starts the one in slot 0. Of two
factory apps the application takes the first one, the bootloader the last. -/
theorem boot_disagrees :
    (espOtaGetBootPartition trialTable trialImage = some (some (trialOta 1)) ∧
      ((BootloaderState.loadPartitionTable trialTable).boot true (fun _ => true) () trialImage).result =
        .ok (trialOta 0).pos) ∧
    espOtaGetBootPartition twoFactories (fun _ => 0xFF) =
      some (some ⟨partTypeApp, partSubtypeFactory, (trialOta 0).pos⟩) ∧
    ((BootloaderState.loadPartitionTable twoFactories).boot false (fun _ => true) () fun _ => 0xFF).result =
      .ok (trialOta 1).pos := by
  refine ⟨⟨?_, trial_boot⟩, by decide +kernel, rfl⟩
  rw [trialTable_contiguous.espOtaGetBootPartition_eq (by decide), trialEntries_eq]
  unfold tableChoice
  rw [trialEntries_active]
  rfl

theorem boot_agrees_trial : ∃ found, espOtaGetBootPartition trialTable trialImage = some found ∧
    ((BootloaderState.loadPartitionTable trialTable).boot false (fun _ => true) () trialImage).result =
      found.elim (.error .reset) fun p => .ok p.pos := by
  obtain ⟨found, hfound, hboot, -⟩ := boot_agrees trialTable_contiguous (by decide) trialTable_bootable false trialImage
  exact ⟨found, hfound, hboot (Or.inl rfl)⟩

end Agreement

end EspIdf.Ota
