import EspIdf.Ota.OtaData

/-!
# The two entries, as the programs read and leave them

* `entries t img` : the entries in the flash (`entries_write`, `entries_erase`);
* one lemma a program : what it returns and the entries it leaves, as functions of the entries it finds
  (`setBootPartition_ota`, `markValid_run`, `getSelected_run`, …);
* `computeOtaSeq_spec` : the sequence number for a slot.
-/

namespace EspIdf.Ota

open Word32 Crc32 NorFlash

namespace OtaSelectEntry

theorem bytes_length (s : OtaSelectEntry) : s.bytes.length = 32 := by
  unfold bytes
  simp only [List.length_append, leBytes_length, Vector.length_toList]

theorem ofBytes_bytes (s : OtaSelectEntry) : ofBytes s.bytes = s := by
  obtain ⟨seq, label, state, crc⟩ := s
  have hlen : label.toList.length = 4 * 5 := Vector.length_toList
  have hwords : wordsOf (bytes ⟨seq, label, state, crc⟩) = seq :: (wordsOf label.toList ++ [state, crc]) := by
    unfold bytes
    rw [wordsOf_append 7 _ _ (by simp [leBytes_length]), wordsOf_append 6 _ _ (by simp [leBytes_length]),
      wordsOf_append 1 _ _ rfl]
    simp only [wordsOf_leBytes, List.append_assoc, List.cons_append, List.nil_append]
  have hlabel : (Vector.ofFn fun i : Fin 20 => (bytes ⟨seq, label, state, crc⟩).getD (4 + i) 0) = label := by
    apply Vector.ext
    intro i hi
    rw [Vector.getElem_ofFn]
    unfold bytes
    rw [List.append_assoc, List.append_assoc, List.getD_append_right _ _ _ _ (by rw [leBytes_length]; omega),
      leBytes_length, List.getD_append _ _ _ _ (by simp; omega)]
    simp [hi, List.getD_eq_getElem?_getD]
  have hwlen := wordsOf_length 5 label.toList hlen
  unfold ofBytes
  rw [hwords, hlabel]
  simp only [List.getD_eq_getElem?_getD, List.getElem?_cons_zero, List.getElem?_cons_succ, Option.getD_some]
  rw [List.getElem?_append_right (by omega), List.getElem?_append_right (by omega), hwlen]
  rfl

@[simp] theorem withSeq_otaSeq (s : OtaSelectEntry) (seq : UInt32) : (s.withSeq seq).otaSeq = seq := rfl

@[simp] theorem withSeq_otaState (s : OtaSelectEntry) (seq : UInt32) : (s.withSeq seq).otaState = s.otaState := rfl

theorem withSeq_crc (s : OtaSelectEntry) (seq : UInt32) : (s.withSeq seq).crc = (s.withSeq seq).selectCrc := rfl

@[simp] theorem blank_otaSeq : blank.otaSeq = seqMax := by
  decide

@[simp] theorem abortPending_otaSeq (s : OtaSelectEntry) : s.abortPending.otaSeq = s.otaSeq := by
  unfold abortPending
  split_ifs <;> rfl

@[simp] theorem abortPending_crc (s : OtaSelectEntry) : s.abortPending.crc = s.crc := by
  unfold abortPending
  split_ifs <;> rfl

@[simp] theorem abortPending_selectCrc (s : OtaSelectEntry) : s.abortPending.selectCrc = s.selectCrc := by
  unfold selectCrc
  rw [abortPending_otaSeq]

end OtaSelectEntry

/-! ## The entries in the flash -/

/-- The entries in the flash. -/
def entries (t : OtaTable) (img : Image) : TwoOtadata := fun i =>
  OtaSelectEntry.ofBytes (readBytes img (t.entryAddr i) 32)

/-- The operations that replace an entry. -/
def writeOps (t : OtaTable) (i : Fin 2) (s : OtaSelectEntry) : List Op :=
  [.erase (t.entryAddr i) 4096, .write (t.entryAddr i) s.bytes]

section Entries

variable (t : OtaTable)

theorem entryAddr_dvd (i : Fin 2) : 4096 ∣ t.entryAddr i := Nat.dvd_add t.aligned (Nat.dvd_mul_right _ _)

/-- The sectors of two entries are apart. -/
theorem entryAddr_apart {i j : Fin 2} (h : i ≠ j) :
    t.entryAddr i + 4096 ≤ t.entryAddr j ∨ t.entryAddr j + 4096 ≤ t.entryAddr i := by
  unfold OtaTable.entryAddr
  have hi := i.isLt
  have hj := j.isLt
  have hne : (i : Nat) ≠ j := fun e => h (Fin.ext e)
  omega

theorem readOtadata_run (img : Image) : readOtadata t () img = ⟨.ok (entries t img), (), []⟩ := by
  have e : entries t img = ![OtaSelectEntry.ofBytes (readBytes img (t.entryAddr 0) 32),
      OtaSelectEntry.ofBytes (readBytes img (t.entryAddr 1) 32)] := by
    funext i
    match i with
    | 0 => rfl
    | 1 => rfl
  rw [e]
  rfl

theorem writeOtadata_run (i : Fin 2) (s : OtaSelectEntry) (img : Image) :
    writeOtadata t i s () img = ⟨.ok (), (), writeOps t i s⟩ := by
  unfold writeOtadata writeOps
  rw [Nat.div_mul_cancel (entryAddr_dvd t i)]
  rfl

theorem writeOps_within (i : Fin 2) (s : OtaSelectEntry) :
    ∀ op ∈ writeOps t i s, op.Within (t.entryAddr i) 4096 := by
  have hlen := s.bytes_length
  intro op hop
  unfold writeOps at hop
  simp only [List.mem_cons, List.not_mem_nil, or_false] at hop
  rcases hop with rfl | rfl
  · exact ⟨le_rfl, le_rfl⟩
  · exact ⟨le_rfl, by omega⟩

/-- An entry whose sector no operation touches. -/
theorem entries_out {img img' : Image} {ops : List Op} {i j : Fin 2} (hne : i ≠ j)
    (h : ∀ op ∈ ops, op.Within (t.entryAddr i) 4096) (hc : Cut img ops img') :
    entries t img' j = entries t img j := by
  unfold entries
  rw [readBytes_congr]
  intro a h1 h2
  exact cut_out h hc (by have := entryAddr_apart t hne; omega)

theorem entries_write (img : Image) (i : Fin 2) (s : OtaSelectEntry) :
    entries t (applyAll (writeOps t i s) img) = Function.update (entries t img) i s := by
  funext j
  by_cases hj : i = j
  · subst hj
    rw [Function.update_self]
    have herased : ∀ a, t.entryAddr i ≤ a → a < t.entryAddr i + s.bytes.length →
        eraseRange img (t.entryAddr i) 4096 a = 0xFF := by
      intro a h1 h2
      rw [s.bytes_length] at h2
      exact eraseRange_in h1 (by omega)
    have hread := readBytes_program_erased herased
    rw [s.bytes_length] at hread
    exact (congrArg OtaSelectEntry.ofBytes hread).trans s.ofBytes_bytes
  · rw [Function.update_of_ne (Ne.symm hj)]
    exact entries_out t hj (writeOps_within t i s) (cut_all _ _)

theorem entries_erase (img : Image) (i : Fin 2) :
    entries t ((Op.erase (t.entryAddr i) 4096).apply img) = Function.update (entries t img) i .blank := by
  funext j
  by_cases hj : i = j
  · subst hj
    rw [Function.update_self]
    change OtaSelectEntry.ofBytes (readBytes (eraseRange _ _ _) _ _) = _
    rw [readBytes_eraseRange, List.drop_eq_nil_of_le (by simp), List.append_nil]
    rfl
  · rw [Function.update_of_ne (Ne.symm hj)]
    have hwithin : ∀ op ∈ [Op.erase (t.entryAddr i) 4096], op.Within (t.entryAddr i) 4096 := by
      intro op hop
      rw [List.mem_singleton] at hop
      subst hop
      exact ⟨le_rfl, le_rfl⟩
    exact entries_out t hj hwithin (cut_all _ _)

theorem entries_erased {img : Image} (h : ∀ a, t.otadata ≤ a → a < t.otadata + t.otadataSize → img a = 0xFF) :
    entries t img = fun _ => .blank := by
  funext j
  have hsize := t.two_sectors
  have hj := j.isLt
  unfold entries
  have e : readBytes img (t.entryAddr j) 32 = List.replicate 32 0xFF := by
    apply List.ext_getElem (by simp)
    intro i h1 h2
    rw [readBytes_length] at h1
    simp only [readBytes, List.getElem_map, List.getElem_range, List.getElem_replicate]
    exact h _ (by unfold OtaTable.entryAddr; omega) (by unfold OtaTable.entryAddr; omega)
  rw [e]
  rfl

theorem entries_eraseAll (img : Image) :
    entries t ((Op.erase t.otadata t.otadataSize).apply img) = fun _ => .blank :=
  entries_erased t fun _ h1 h2 => eraseRange_in h1 h2

end Entries

/-! ## Sequence numbers -/

theorem OtaTable.count_toNat (t : OtaTable) : t.count.toNat = t.appCount :=
  toNat_ofNat_of_lt (by have := t.le_max; omega)

theorem OtaTable.slot_lt (t : OtaTable) (s : OtaSelectEntry) : t.slot s < t.appCount := by
  unfold slot
  rw [UInt32.toNat_mod, t.count_toNat]
  exact Nat.mod_lt _ (by have := t.two_le; omega)

/-- The loop stops at the first candidate that is not below `current`. -/
theorem computeSeqFrom_spec {current base count : UInt32} (hcount : 0 < count.toNat)
    (hroom : current.toNat + count.toNat ≤ 2 ^ 32) (fuel i : Nat)
    (hi : base.toNat + i * count.toNat < current.toNat + count.toNat)
    (hfuel : current.toNat + count.toNat ≤ base.toNat + (i + fuel) * count.toNat) :
    ∃ j, computeSeqFrom current base count (.ofNat i) fuel = some (base + .ofNat j * count) ∧
      current.toNat ≤ base.toNat + j * count.toNat ∧ base.toNat + j * count.toNat < current.toNat + count.toNat := by
  have hcurrent := current.toNat_lt
  induction fuel generalizing i with
  | zero =>
      rw [Nat.add_zero] at hfuel
      omega
  | succ fuel ih =>
      have hi32 : i < 2 ^ 32 := by
        have := Nat.le_mul_of_pos_right i hcount
        omega
      have hmul : (UInt32.ofNat i * count).toNat = i * count.toNat := by
        rw [toNat_mul_of_lt (by rw [toNat_ofNat_of_lt hi32]; omega), toNat_ofNat_of_lt hi32]
      have hadd : (base + .ofNat i * count).toNat = base.toNat + i * count.toNat := by
        rw [toNat_add_of_lt (by rw [hmul]; omega), hmul]
      have hnext : UInt32.ofNat i + 1 = .ofNat (i + 1) := by
        rw [UInt32.ofNat_add]
        rfl
      unfold computeSeqFrom
      by_cases hlt : base + .ofNat i * count < current
      · rw [if_pos hlt, hnext]
        rw [UInt32.lt_iff_toNat_lt, hadd] at hlt
        have hsucc : (i + 1) * count.toNat = i * count.toNat + count.toNat := Nat.succ_mul _ _
        exact ih (i + 1) (by omega) (by rw [show i + 1 + fuel = i + (fuel + 1) by omega]; exact hfuel)
      · rw [if_neg hlt]
        rw [UInt32.lt_iff_toNat_lt, hadd] at hlt
        exact ⟨i, rfl, by omega, by omega⟩

/-- The number one step back from a multiple of `n` further on. -/
theorem pred_mod_of_base {n slot j : Nat} (hslot : slot < n) (hpos : 0 < (slot + 1) % n + j * n) :
    ((slot + 1) % n + j * n - 1) % n = slot := by
  rcases Nat.lt_or_ge (slot + 1) n with hlt | hge
  · rw [Nat.mod_eq_of_lt hlt, show slot + 1 + j * n - 1 = slot + j * n by omega, Nat.add_mul_mod_self_right,
      Nat.mod_eq_of_lt hslot]
  · obtain rfl : n = slot + 1 := by omega
    rw [Nat.mod_self, Nat.zero_add] at hpos ⊢
    obtain ⟨k, rfl⟩ : ∃ k, j = k + 1 := Nat.exists_eq_succ_of_ne_zero (by rintro rfl; omega)
    rw [Nat.succ_mul, show k * (slot + 1) + (slot + 1) - 1 = slot + k * (slot + 1) by omega,
      Nat.add_mul_mod_self_right, Nat.mod_eq_of_lt (by omega)]

/-- The sequence number for another slot is larger, by less than the number of slots, and names the slot. -/
theorem computeOtaSeq_spec (t : OtaTable) {active : OtaSelectEntry} {slot : Nat} (hslot : slot < t.appCount)
    (hpos : active.otaSeq ≠ 0) (hroom : active.otaSeq.toNat + t.appCount ≤ 2 ^ 32) (hne : t.slot active ≠ slot) :
    ∃ seq, computeOtaSeqForTargetSlot active.otaSeq (.ofNat slot) t.count = some seq ∧ active.otaSeq < seq ∧
      seq.toNat < active.otaSeq.toNat + t.appCount ∧ ((seq - 1) % t.count).toNat = slot := by
  have htwo := t.two_le
  have hmax := t.le_max
  have hcount := t.count_toNat
  have hslot32 : (UInt32.ofNat slot).toNat = slot := toNat_ofNat_of_lt (by omega)
  have hone : (1 : UInt32).toNat = 1 := rfl
  have hbase : ((UInt32.ofNat slot + 1) % t.count).toNat = (slot + 1) % t.appCount := by
    rw [UInt32.toNat_mod, toNat_add_of_lt (by rw [hslot32, hone]; omega), hslot32, hcount, hone]
  have hbaselt : (slot + 1) % t.appCount < t.appCount := Nat.mod_lt _ (by omega)
  have hcur : active.otaSeq.toNat ≠ 0 := fun e => hpos (UInt32.toNat_inj.mp e)
  have hstart : ((UInt32.ofNat slot + 1) % t.count).toNat + 0 * t.count.toNat < active.otaSeq.toNat + t.count.toNat := by
    rw [hbase, hcount]
    omega
  have hfuel : active.otaSeq.toNat + t.count.toNat ≤
      ((UInt32.ofNat slot + 1) % t.count).toNat + (0 + 2 ^ 32) * t.count.toNat := by
    rw [hbase, hcount]
    have := Nat.le_mul_of_pos_right (2 ^ 32) (show 0 < t.appCount by omega)
    omega
  obtain ⟨j, hrun, hge, hlt⟩ := computeSeqFrom_spec (by omega) (by rw [hcount]; omega) (2 ^ 32) 0 hstart hfuel
  rw [hbase, hcount] at hge hlt
  have hj : j < 2 ^ 32 := by
    have := Nat.le_mul_of_pos_right j (show 0 < t.appCount by omega)
    omega
  have hmul : (UInt32.ofNat j * t.count).toNat = j * t.appCount := by
    rw [toNat_mul_of_lt (by rw [toNat_ofNat_of_lt hj, hcount]; omega), toNat_ofNat_of_lt hj, hcount]
  have hseq : ((UInt32.ofNat slot + 1) % t.count + .ofNat j * t.count).toNat =
      (slot + 1) % t.appCount + j * t.appCount := by
    rw [toNat_add_of_lt (by rw [hbase, hmul]; omega), hbase, hmul]
  have hnames : (((UInt32.ofNat slot + 1) % t.count + .ofNat j * t.count - 1) % t.count).toNat = slot := by
    rw [UInt32.toNat_mod, toNat_sub_of_le (by rw [hseq, hone]; omega), hseq, hcount, hone]
    exact pred_mod_of_base hslot (by omega)
  refine ⟨_, ?_, ?_, ?_, hnames⟩
  · unfold computeOtaSeqForTargetSlot
    rw [if_neg (fun e => by rw [e] at hcount; change 0 = _ at hcount; omega)]
    exact hrun
  · rw [UInt32.lt_iff_toNat_lt]
    have hneq : active.otaSeq.toNat ≠ ((UInt32.ofNat slot + 1) % t.count + .ofNat j * t.count).toNat := by
      intro e
      apply hne
      unfold OtaTable.slot
      rw [UInt32.toNat_inj.mp e]
      exact hnames
    rw [hseq] at hneq ⊢
    omega
  · rw [hseq]
    exact hlt

/-! ## What the programs do -/

section Programs

variable (t : OtaTable) (img : Image)

theorem setBoot_ota_run {slot : Nat} (hslot : slot < t.appCount) : setBootPartition t true (.ota slot) () img =
    match nextOtadata t (entries t img) slot with
    | none => ⟨.error .hang, (), []⟩
    | some (i, seq) => ⟨.ok (), (), writeOps t i ({ entries t img i with otaState := imgNew }.withSeq seq)⟩ := by
  change espRewriteOtaData t slot () img = _
  unfold espRewriteOtaData
  rw [bind_quiet (readOtadata_run t img), if_neg (by omega)]
  cases nextOtadata t (entries t img) slot with
  | none => rfl
  | some next =>
      change writeOtadata t next.1 _ () img = _
      rw [writeOtadata_run, Function.update_self]

/-- Marking the active entry. -/
theorem workable_run (imageOk : AppPartition → Bool) (valid : Bool) : currentOtaIsWorkable t imageOk valid () img =
    match getActiveOtadata (entries t img) with
    | none => ⟨.error .fail, (), []⟩
    | some a =>
        if valid = false ∧ checkRollbackIsPossible t imageOk (entries t img) = false then
          ⟨.error .rollbackFailed, (), []⟩
        else if valid = true ∧ (entries t img a).otaState = imgValid then ⟨.ok (), (), []⟩
        else ⟨.ok (), (), writeOps t a ({ entries t img a with
          otaState := if valid then imgValid else imgInvalid }.withSeq (entries t img a).otaSeq)⟩ := by
  unfold currentOtaIsWorkable
  rw [bind_quiet (readOtadata_run t img)]
  cases getActiveOtadata (entries t img) with
  | none => rfl
  | some a =>
      cases valid with
      | true =>
          by_cases hs : (entries t img a).otaState = imgValid
          · simp only [hs, ne_eq, not_true_eq_false, if_true, if_false, Bool.true_eq_false, false_and, and_self]
            rfl
          · simp only [hs, ne_eq, not_false_eq_true, if_true, if_false, Bool.true_eq_false, false_and, and_false]
            change writeOtadata t a _ () img = _
            rw [writeOtadata_run, Function.update_self]
      | false =>
          by_cases hr : checkRollbackIsPossible t imageOk (entries t img) = false
          · simp only [hr, Bool.false_eq_true, and_self, if_true, if_false]
            rfl
          · simp only [hr, Bool.false_eq_true, Bool.true_eq_false, false_and, and_false, if_false]
            change writeOtadata t a _ () img = _
            rw [writeOtadata_run, Function.update_self]

theorem invalidate_run (running : AppPartition) : invalidateInactiveOtaDataSlot t running () img =
    match getActiveOtadata (entries t img) with
    | none => ⟨.error .fail, (), []⟩
    | some a =>
        if (entries t img (other a)).Initial ∨ running = .ota (t.slot (entries t img (other a))) then
          ⟨.error .fail, (), []⟩
        else ⟨.ok (), (), [.erase (t.entryAddr (other a)) 4096]⟩ := by
  unfold invalidateInactiveOtaDataSlot
  rw [bind_quiet (readOtadata_run t img)]
  cases getActiveOtadata (entries t img) with
  | none => rfl
  | some a =>
      by_cases h1 : (entries t img (other a)).Initial
      · simp only [if_pos h1, if_pos (Or.inl h1)]
        rfl
      · by_cases h2 : running = .ota (t.slot (entries t img (other a)))
        · simp only [if_neg h1, if_pos h2, if_pos (Or.inr h2)]
          rfl
        · simp only [if_neg h1, if_neg h2, if_neg (not_or.mpr ⟨h1, h2⟩)]
          rfl

/-- Starting an update leaves the entries as they are, or erases the inactive one. -/
theorem begin_run (running : AppPartition) (target : Nat) (inProgress : Bool) :
    ∃ res ops, otaBegin t running target inProgress () img = ⟨res, (), ops⟩ ∧
      (ops = [] ∨ ∃ a, getActiveOtadata (entries t img) = some a ∧ ops = [.erase (t.entryAddr (other a)) 4096] ∧
        runningPending t (entries t img) running = false ∧ running ≠ .ota (t.slot (entries t img (other a)))) := by
  unfold otaBegin
  by_cases hconflict : running = .ota target
  · exact ⟨_, _, by rw [if_pos hconflict]; rfl, Or.inl rfl⟩
  · rw [if_neg hconflict, bind_quiet (readOtadata_run t img)]
    cases hpending : runningPending t (entries t img) running with
    | true => exact ⟨_, [], rfl, Or.inl rfl⟩
    | false =>
        cases inProgress with
        | true => exact ⟨_, [], rfl, Or.inl rfl⟩
        | false =>
            refine ⟨.ok (), (invalidateInactiveOtaDataSlot t running () img).ops, rfl, ?_⟩
            rw [invalidate_run]
            cases hactive : getActiveOtadata (entries t img) with
            | none => exact Or.inl rfl
            | some a =>
                by_cases h : (entries t img (other a)).Initial ∨ running = .ota (t.slot (entries t img (other a)))
                · exact Or.inl (by simp only [if_pos h])
                · exact Or.inr ⟨a, rfl, by simp only [if_neg h], rfl, fun h2 => h (Or.inr h2)⟩

/-- The entries after the loop that aborts unconfirmed ones. -/
def aborted (two : TwoOtadata) : TwoOtadata := fun i => (two i).abortPending

/-- What the bootloader selects for entries of which none is unconfirmed. -/
def verdictOf (t : OtaTable) (two : TwoOtadata) : Int × Bool :=
  if (two 0).SelectInvalid ∧ (two 1).SelectInvalid then
    if t.factory then (-1, false) else (0, (two 0).Initial ∧ (two 1).Initial)
  else
    match getActiveOtadata two with
    | none => (-1, false)
    | some a => (Int.ofNat (t.slot (two a)), false)

/-- The entries after the selected one is marked. -/
def marked (two : TwoOtadata) : TwoOtadata :=
  match getActiveOtadata two with
  | none => two
  | some a =>
      if (two a).otaState = imgNew then Function.update two a { two a with otaState := imgPendingVerify } else two

/-- The operations of one round of the loop that marks entries as aborted. -/
def abortOps (t : OtaTable) (two : TwoOtadata) (i : Fin 2) : List Op :=
  if (two i).otaState = imgPendingVerify then writeOps t i (two i).abortPending else []

theorem abortOne_run (two : TwoOtadata) (i : Fin 2) : abortOne t two i () img = ⟨.ok (), (), abortOps t two i⟩ := by
  unfold abortOne abortOps
  by_cases hp : (two i).otaState = imgPendingVerify
  · rw [if_pos hp, if_pos hp]
    exact writeOtadata_run t i _ img
  · rw [if_neg hp, if_neg hp]
    rfl

theorem entries_abortOps (two : TwoOtadata) (i : Fin 2) (h : entries t img i = two i) :
    entries t (applyAll (abortOps t two i) img) = Function.update (entries t img) i (two i).abortPending := by
  unfold abortOps OtaSelectEntry.abortPending
  by_cases hp : (two i).otaState = imgPendingVerify
  · rw [if_pos hp, if_pos hp]
    exact entries_write t img i _
  · rw [if_neg hp, if_neg hp, ← h, Function.update_eq_self]
    rfl

/-- An entry that cannot be selected is not. -/
theorem getActive_none {two : TwoOtadata} (h : (two 0).SelectInvalid ∧ (two 1).SelectInvalid) :
    getActiveOtadata two = none := by
  have h0 : ¬(two 0).SelectValid := fun hv => hv.1 h.1
  have h1 : ¬(two 1).SelectValid := fun hv => hv.1 h.2
  unfold getActiveOtadata selectOtadata
  simp [h0, h1]

/-- The operations that mark the selected entry. -/
def markOps (t : OtaTable) (two : TwoOtadata) : List Op :=
  match getActiveOtadata two with
  | none => []
  | some a => if (two a).otaState = imgNew then writeOps t a { two a with otaState := imgPendingVerify } else []

theorem entries_markOps {two : TwoOtadata} (h : entries t img = two) :
    entries t (applyAll (markOps t two) img) = marked two := by
  unfold markOps marked
  cases getActiveOtadata two with
  | none => exact h
  | some a =>
      by_cases hnew : (two a).otaState = imgNew
      · simp only [if_pos hnew]
        rw [← h]
        exact entries_write t img a _
      · simp only [if_neg hnew]
        exact h

theorem selectBootIndex_run (two : TwoOtadata) : selectBootIndex t two () img =
    ⟨.ok (verdictOf t two), (), markOps t two⟩ := by
  unfold selectBootIndex verdictOf markOps
  by_cases hinv : (two 0).SelectInvalid ∧ (two 1).SelectInvalid
  · rw [getActive_none hinv, if_pos hinv, if_pos hinv]
    split_ifs <;> rfl
  · rw [if_neg hinv, if_neg hinv]
    cases hactive : getActiveOtadata two with
    | none => rfl
    | some a =>
        dsimp only
        by_cases hnew : (two a).otaState = imgNew
        · rw [if_pos hnew, if_pos hnew, bind_run (writeOtadata_run t a _ img) rfl]
          rfl
        · rw [if_neg hnew, if_neg hnew]
          rfl

/-- The operations of the bootloader's choice. -/
def selectOps (t : OtaTable) (two : TwoOtadata) : List Op :=
  abortOps t two 0 ++ (abortOps t two 1 ++ markOps t (aborted two))

theorem getSelected_run : getSelectedBootPartition t () img =
    ⟨.ok (verdictOf t (aborted (entries t img))), (), selectOps t (entries t img)⟩ := by
  unfold getSelectedBootPartition selectOps
  rw [bind_quiet (readOtadata_run t img), bind_run (abortOne_run t img _ 0)
    (bind_run (abortOne_run t _ _ 1) (selectBootIndex_run t _ _))]
  rfl

/-- The entries after both rounds of the loop. -/
theorem entries_abortAll : entries t (applyAll (abortOps t (entries t img) 1)
    (applyAll (abortOps t (entries t img) 0) img)) = aborted (entries t img) := by
  have h0 := entries_abortOps t img (entries t img) 0 rfl
  have h1 := entries_abortOps t (applyAll (abortOps t (entries t img) 0) img) (entries t img) 1 (by rw [h0]; rfl)
  rw [h1, h0]
  funext i
  match i with
  | 0 => rfl
  | 1 => rfl

theorem entries_selectOps :
    entries t (applyAll (selectOps t (entries t img)) img) = marked (aborted (entries t img)) := by
  unfold selectOps
  rw [applyAll_append, applyAll_append]
  exact entries_markOps t _ (entries_abortAll t img)

/-- The entry written at the first start without a factory app. -/
def actualEntry (index : Int) : OtaSelectEntry :=
  ({ OtaSelectEntry.blank with otaState := imgValid } : OtaSelectEntry).withSeq (.ofNat index.toNat + 1)

/-- The entries after the image at the first bootable index is loaded. -/
def settled (first : Option (Int × AppPartition)) (initialContents : Bool) (two : TwoOtadata) : TwoOtadata :=
  match first with
  | none => two
  | some (index, _) =>
      if -1 < index ∧ initialContents = true then Function.update two 0 (actualEntry index) else two

theorem loadBootImage_run (imageOk : AppPartition → Bool) (start : Int) (initialContents : Bool) :
    ∃ ops, loadBootImage t imageOk start initialContents () img =
      ⟨((firstBootable t imageOk start).map Prod.snd).elim (.error .reset) .ok, (), ops⟩ ∧
      entries t (applyAll ops img) = settled (firstBootable t imageOk start) initialContents (entries t img) := by
  unfold loadBootImage
  cases firstBootable t imageOk start with
  | none => exact ⟨[], rfl, rfl⟩
  | some first =>
      obtain ⟨index, p⟩ := first
      unfold settled setActualOtaSeq
      by_cases hinit : -1 < index ∧ initialContents = true
      · refine ⟨_, by simp only [if_pos hinit]; rw [bind_run (writeOtadata_run t 0 _ img) rfl]; rfl, ?_⟩
        simp only [if_pos hinit]
        exact entries_write t img 0 _
      · refine ⟨[], by simp only [if_neg hinit]; rfl, ?_⟩
        simp only [if_neg hinit]
        rfl

/-- The entries after the bootloader ran. -/
def booted (t : OtaTable) (imageOk : AppPartition → Bool) (two : TwoOtadata) : TwoOtadata :=
  settled (firstBootable t imageOk (verdictOf t (aborted two)).1) (verdictOf t (aborted two)).2 (marked (aborted two))

/-- What a start reports, from the index selected. -/
def bootResult (t : OtaTable) (imageOk : AppPartition → Bool) (start : Int) : Except OtaErr (Int × AppPartition) :=
  ((firstBootable t imageOk start).map Prod.snd).elim (.error .reset) fun p => .ok (start, p)

theorem boot_run (imageOk : AppPartition → Bool) : ∃ ops, boot t imageOk () img =
    ⟨bootResult t imageOk (verdictOf t (aborted (entries t img))).1, (), ops⟩ ∧
      entries t (applyAll ops img) = booted t imageOk (entries t img) := by
  have hrun := getSelected_run t img
  have hafter := entries_selectOps t img
  unfold booted
  generalize verdictOf t (aborted (entries t img)) = verdict at hrun ⊢
  obtain ⟨ops', hrun', hafter'⟩ := loadBootImage_run t (applyAll (selectOps t (entries t img)) img) imageOk
    verdict.1 verdict.2
  rw [hafter] at hafter'
  unfold boot bootResult
  cases hfirst : firstBootable t imageOk verdict.1 with
  | none =>
      rw [hfirst] at hrun' hafter'
      refine ⟨_, by rw [bind_run hrun (bind_error hrun')]; rfl, ?_⟩
      rw [applyAll_append, hafter']
  | some first =>
      rw [hfirst] at hrun' hafter'
      refine ⟨_, by rw [bind_run hrun (bind_run hrun' rfl)]; rfl, ?_⟩
      rw [applyAll_append, applyAll_append]
      exact hafter'

end Programs

end EspIdf.Ota
