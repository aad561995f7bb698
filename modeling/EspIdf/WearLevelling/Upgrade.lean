import EspIdf.WearLevelling.PowerLoss

/-!
# The update from version 1

* `V1Image d p img` : a flash formatted by version 1, with the dummy page at position `p`;
* `recordedPos` : the position the records of one copy of the state lead to;
* `Replayed` : one copy after its header and its first records are rewritten (`wp_writeRecords`);
* `wp_updateV1_V2` : the update marks the position it found as passed in both copies;
* `wp_init_upgrade` : `init` then finds the position after it, unless there is none;
* `upgrade_keeps_iff` : the update keeps the position exactly when it is the last one.
-/

namespace EspIdf.WearLevelling

open Word32 Crc32 NorFlash

/-- Version 1 wrote its CRC where version 2 has the device id. -/
structure WlState.IsV1 (s : WlState) : Prop where
  crc : s.crcV1 = s.wlDeviceId
  version : s.version = 1

/-- A flash formatted by version 1, its dummy page at position `p`: a record is set when its first byte is not erased. -/
structure V1Image (d : WlDevice) (p : Nat) (img : Image) : Prop where
  copy1 : (stateAt d.addrState1 img).IsV1
  copy2 : (stateAt d.addrState2 img).IsV1
  sameCrc : (stateAt d.addrState1 img).wlDeviceId = (stateAt d.addrState2 img).wlDeviceId
  notV2 : ¬(stateAt d.addrState1 img).CrcOk ∧ ¬(stateAt d.addrState2 img).CrcOk
  maxPos : (stateAt d.addrState1 img).wlPartMaxSecPos.toNat = d.pages + 1
  moveCount : (stateAt d.addrState1 img).wlDummySecMoveCount.toNat < d.pages
  le : p ≤ d.pages
  passed : ∀ i < p, img (d.slotAddr d.addrState1 i) ≠ 0xFF
  next : p < d.pages → img (d.slotAddr d.addrState1 p) = 0xFF

/-- The state the data of a version 1 flash is laid out with. -/
def WlDevice.stateV1 (d : WlDevice) (p : Nat) (img : Image) : WlState :=
  { stateAt d.addrState1 img with wlDummySecPos := .ofNat p }

/-- The header the update writes. -/
def WlState.upgraded (s : WlState) (rand : UInt32) : WlState :=
  let s := { s with version := 2, wlDummySecPos := 0, wlDeviceId := rand, reserved := Vector.replicate 7 0 }
  { s with crc32 := s.crcV2 }

theorem upgraded_crcOk (s : WlState) (rand : UInt32) : (s.upgraded rand).CrcOk := rfl

/-- The first of the records `i, i + 1, …` that is not set, or the last of them. -/
def recordedFrom (d : WlDevice) (addr id : UInt32) (img : Image) (i position : Nat) : Nat → Nat
  | 0 => position
  | n + 1 => if RecOk d addr id i img then recordedFrom d addr id img (i + 1) i n else i

/-- The position the copy at `addr` records. -/
def WlDevice.recordedPos (d : WlDevice) (addr : UInt32) (img : Image) : Nat :=
  recordedFrom d addr (stateAt addr img).wlDeviceId img 0 0 (stateAt addr img).wlPartMaxSecPos.toNat

section Upgrade
variable {d : WlDevice} {addr id rand : UInt32} {s : WlState} {r : WlRam} {img img' : Image} {p m : Nat}

theorem recordedFrom_eq (hp : p ≤ d.pages) (hpassed : ∀ i < p, RecOk d addr id i img)
    (hnot : p < d.pages → ¬RecOk d addr id p img) (n i position : Nat) (hi : i ≤ p) (hn : i + n = d.pages + 1) :
    recordedFrom d addr id img i position n = p := by
  induction n generalizing i position with
  | zero => omega
  | succ n ih =>
      unfold recordedFrom
      rcases Nat.lt_or_ge i p with hlt | hge
      · rw [if_pos (hpassed i hlt)]
        exact ih (i + 1) i hlt (by omega)
      · obtain rfl : i = p := le_antisymm hi hge
        split_ifs with hok
        · -- all records are set: the last position
          have hlast : ¬i < d.pages := fun hlt => hnot hlt hok
          obtain rfl : n = 0 := by omega
          rfl
        · rfl

theorem recordedPos_eq (hp : p ≤ d.pages) (hmax : (stateAt addr img).wlPartMaxSecPos.toNat = d.pages + 1)
    (hpassed : ∀ i < p, RecOk d addr (stateAt addr img).wlDeviceId i img)
    (hnot : p < d.pages → ¬RecOk d addr (stateAt addr img).wlDeviceId p img) : d.recordedPos addr img = p := by
  unfold WlDevice.recordedPos
  rw [hmax]
  exact recordedFrom_eq hp hpassed hnot _ 0 0 (Nat.zero_le _) (by omega)

/-! ## Rewriting one copy -/

/-- The copy at `addr` holds header `s` and the records of the first `m` positions. -/
structure Records (d : WlDevice) (addr : UInt32) (s : WlState) (m : Nat) (img : Image) : Prop where
  header : stateAt addr img = s
  passed : ∀ i < m, RecOk d addr s.wlDeviceId i img
  erased : ∀ i, m ≤ i → i ≤ d.pages → SlotErased d addr i img

/-- `img'` differs from `img` inside one copy, which holds header `s` and the records of the first `m` positions. -/
structure Replayed (d : WlDevice) (addr : UInt32) (s : WlState) (m : Nat) (img img' : Image) : Prop
    extends Records d addr s m img' where
  outside : ∀ a, a < addr.toNat ∨ addr.toNat + d.stateSize.toNat ≤ a → img' a = img a

theorem replayed_start (g : Geometry d) (hrec : 16 ≤ d.record) : Replayed d addr s 0 img (rewriteCopy d addr s img) := by
  obtain ⟨hheader, herased⟩ := rewriteCopy_done g hrec addr s img
  exact ⟨⟨hheader, fun i hi => absurd hi (Nat.not_lt_zero i), fun i _ hi => herased i hi⟩,
    fun a ha => rewriteCut_outside g rewriteCut_done ha⟩

/-- Programming the record of position `m`. -/
theorem Replayed.mark (g : Geometry d) (hrec : 16 ≤ d.record) (h : Replayed d addr s m img img') (hm : m ≤ d.pages)
    {b : List UInt8} (hb : IsRecord d { s with wlDummySecPos := .ofNat m } b) :
    Replayed d addr s (m + 1) img (d.mark addr m b img') := by
  have hcount := g.pages_le
  have hend := g.record_end (show m < d.recordCount.toNat by omega)
  have hm32 : (UInt32.ofNat m).toNat = m := toNat_ofNat_of_lt (by have := g.pages_lt; omega)
  have hother : ∀ i, i ≠ m → ∀ j < 16, d.mark addr m b img' (d.slotAddr addr i + j) = img' (d.slotAddr addr i + j) :=
    fun i hne => mark_other hrec (le_of_eq hb.1) hne
  have hok : RecOk d addr s.wlDeviceId m (d.mark addr m b img') := by
    have hmark : SlotClean d addr s.wlDeviceId m img' → RecOk d addr s.wlDeviceId m (d.mark addr m b img') := by
      have h' : SlotClean d addr s.wlDeviceId (UInt32.ofNat m).toNat img' →
          RecOk d addr s.wlDeviceId (UInt32.ofNat m).toNat (d.mark addr (UInt32.ofNat m).toNat b img') := mark_ok hrec hb
      rwa [hm32] at h'
    exact hmark (h.erased m le_rfl hm).clean
  refine ⟨⟨?_, ?_, ?_⟩, ?_⟩
  · rw [mark_header, h.header]
  · intro i hi
    rcases Nat.lt_or_eq_of_le (Nat.le_of_lt_succ hi) with hlt | rfl
    · exact (RecOk.congr (hother i (by omega))).mpr (h.passed i hlt)
    · exact hok
  · intro i hi hle
    exact (h.erased i (by omega) hle).congr (hother i (by omega))
  · intro a ha
    have hlen := hb.1
    unfold WlDevice.mark
    rw [program_out (by omega)]
    exact h.outside a ha

theorem wp_writeRecords (g : Geometry d) (hrec : 16 ≤ d.record) (hc : StateCopy d addr) (hp : p ≤ d.pages)
    (hid : r.state.wlDeviceId = s.wlDeviceId) (htemp : r.tempBuff.length = d.temp) (h : Replayed d addr s 0 img img') :
    Wp (fun _ => True) (d.writeRecords addr p) (fun _ r' img'' =>
      (∃ t, t.length = d.temp ∧ r' = { r with tempBuff := t }) ∧ Replayed d addr s (p + 1) img img'') r img' := by
  have hcount := g.pages_le
  have hrecLe := g.record_le
  have hclear : (clearTemp d.cfg.wlPosUpdateRecordSize.toNat r).tempBuff.length = d.temp := by
    simp only [clearTemp, List.length_append, List.length_replicate, List.length_drop, htemp]
    change d.record + (d.temp - d.record) = d.temp
    omega
  unfold WlDevice.writeRecords
  apply wp_bind
  apply wp_modifyRam trivial
  refine wp_loop (fun i r' img'' => (∃ t, t.length = d.temp ∧ r' = { r with tempBuff := t }) ∧
    Replayed d addr s i img img'') ?_ (fun _ _ _ => trivial) ⟨⟨_, hclear, rfl⟩, h⟩
  rintro i _ img'' hi ⟨⟨t, ht, rfl⟩, h⟩
  have hrecord : IsRecord d { s with wlDummySecPos := .ofNat i } (recordBytes d (.ofNat i) { r with tempBuff := t }) := by
    have hstate := isRecord_recordBytes (r := { r with
      state := { r.state with wlDummySecPos := .ofNat i }, tempBuff := t }) g ht
    obtain ⟨hlen, rest, hbytes⟩ := hstate
    refine ⟨hlen, rest, ?_⟩
    rw [← hid]
    exact hbytes
  refine wp_markPos g hc (by omega) ht (fun _ => trivial) ⟨⟨_, ?_, rfl⟩, h.mark g hrec (by omega) hrecord⟩
  have hlen : (fillOkBuff (.ofNat i) { r with tempBuff := t }).tempBuff.length = t.length :=
    fillOkBuff_length (by rw [ht]; exact g.temp_ge)
  exact hlen.trans ht

/-! ## The update -/

/-- The scan of version 1 finds the first record that is erased. -/
theorem wp_scanV1 (g : Geometry d) (hrec : 16 ≤ d.record) (h : V1Image d p img) (n i pos : Nat) (hi : i ≤ p) (hn : i + n = d.pages + 1) :
    Wp (fun _ => True) (d.scanV1 i pos n) (fun x r' img' => x = p ∧ r' = r ∧ img' = img) r img := by
  induction n generalizing i pos with
  | zero =>
      have := h.le
      omega
  | succ n ih =>
      have hcount := g.pages_le
      have hi' : i < d.recordCount.toNat := by omega
      have haddr := g.recordAddr_toNat g.copy1 hi'
      have hend := g.record_end hi'
      have hle := g.copy1.le
      have hrecLe := g.record_le
      have h1 : (1 : UInt32).toNat = 1 := rfl
      unfold WlDevice.scanV1
      apply wp_bind
      apply wp_partitionRead trivial (by rw [haddr, h1]; omega)
      rw [haddr, h1]
      have hbyte : readBytes img (d.addrState1.toNat + 64 + i * d.record) 1 = [img (d.slotAddr d.addrState1 i)] := rfl
      rw [hbyte]
      rcases Nat.lt_or_ge i p with hlt | hge
      · rw [if_neg (fun e => h.passed i hlt (List.singleton_inj.mp e))]
        exact ih (i + 1) i hlt (by omega)
      · obtain rfl : i = p := le_antisymm hi hge
        split_ifs with herased
        · exact wp_pure trivial ⟨rfl, rfl, rfl⟩
        · -- all records are set: the last position
          have hlast : ¬i < d.pages := fun hlt => herased (List.singleton_inj.mpr (h.next hlt))
          obtain rfl : n = 0 := by omega
          exact wp_pure trivial ⟨rfl, rfl, rfl⟩

/-- What the update leaves: the position it found in RAM, and records up to and including it in both copies. -/
structure Upgraded (d : WlDevice) (rand : UInt32) (p : Nat) (r : WlRam) (img : Image) (r' : WlRam) (img' : Image) :
    Prop where
  ram : ∃ t, t.length = d.temp ∧
    r' = { r with tempBuff := t, state := { r.state.upgraded rand with wlDummySecPos := .ofNat p } }
  copy1 : Records d d.addrState1 (r.state.upgraded rand) (p + 1) img'
  copy2 : Records d d.addrState2 (r.state.upgraded rand) (p + 1) img'
  data : AgreeData d img img'

theorem Records.copySame (g : Geometry d) (hrec : 16 ≤ d.record) (h : Records d addr s m img) (hm : m ≤ d.pages + 1)
    (hsame : CopySame d addr img img') : Records d addr s m img' where
  header := by rw [hsame.stateAt g, h.header]
  passed := fun i hi => (RecOk.congr (hsame.slot g hrec (by omega))).mpr (h.passed i hi)
  erased := fun i hi hle => (h.erased i hi hle).congr (hsame.slot g hrec hle)

/-- The update of a version 1 flash succeeds. -/
theorem wp_updateV1_V2 (g : Geometry d) (hrec : 16 ≤ d.record) (h : V1Image d p img) (rand : UInt32)
    (hstate : r.state = stateAt d.addrState1 img) (htemp : r.tempBuff.length = d.temp) :
    Wp (fun _ => True) (d.updateV1_V2 rand) (fun _ => Upgraded d rand p r img) r img := by
  have hle2 := g.copy2.le
  have hhead := g.header_le
  have hstate2 := g.state2_eq
  have hdata2 := g.copy2.ge
  have h64 : stateHeader.toNat = 64 := rfl
  have hp := h.le
  unfold WlDevice.updateV1_V2
  apply wp_bind
  apply wp_readState trivial (by omega)
  apply wp_bind
  apply wp_getRam trivial
  rw [hstate, if_pos ⟨h.copy1.crc, h.copy2.crc, h.sameCrc, h.copy1.version, h.copy2.version⟩, h.maxPos]
  apply wp_bind
  refine wp_mono (wp_scanV1 g hrec h _ 0 0 (Nat.zero_le _) (by omega)) ?_
  rintro _ r' img' ⟨rfl, hr, himg⟩
  rw [if_neg (by omega), hr, himg]
  apply wp_bind
  apply wp_setState trivial
  apply wp_bind
  apply wp_getRam trivial
  apply wp_rewriteCopy g g.copy1 fun _ _ => trivial
  apply wp_bind
  refine wp_mono (wp_writeRecords (s := r.state.upgraded rand) g hrec g.copy1 hp rfl htemp
    (replayed_start g hrec)) ?_
  rintro _ _ img₁ ⟨⟨t, ht, rfl⟩, h1⟩
  apply wp_rewriteCopy g g.copy2 fun _ _ => trivial
  apply wp_bind
  refine wp_mono (wp_writeRecords (s := r.state.upgraded rand) g hrec g.copy2 hp rfl ht
    (replayed_start g hrec)) ?_
  rintro _ _ img₂ ⟨⟨t', ht', rfl⟩, h2⟩
  apply wp_setState trivial
  have hcopy1 : CopySame d d.addrState1 img₁ img₂ := fun a _ ha => h2.outside a (Or.inl (by omega))
  refine ⟨⟨t', ht', rfl⟩, h1.toRecords.copySame g hrec (by omega) hcopy1, h2.toRecords, fun a ha => ?_⟩
  rw [h2.outside a (Or.inl (by omega)), h1.outside a (Or.inl ha)]

/-! ## Start-up -/

/-- Both copies hold header `s` and the records of the first `m` positions. -/
structure BothRecord (d : WlDevice) (s : WlState) (m : Nat) (img : Image) : Prop where
  copy1 : Records d d.addrState1 s m img
  copy2 : Records d d.addrState2 s m img

/-- What `init` leaves on such a flash. -/
structure Positioned (d : WlDevice) (s : WlState) (m : Nat) (r' : WlRam) : Prop where
  state : r'.state = { s with wlDummySecPos := .ofNat (min m d.pages) }
  tempLength : r'.tempBuff.length = d.temp

theorem Records.recordedPos (h : Records d addr s m img) (hmax : s.wlPartMaxSecPos.toNat = d.pages + 1) :
    d.recordedPos addr img = min m d.pages := by
  have hheader := h.header
  apply recordedPos_eq (Nat.min_le_right _ _)
  · rw [hheader, hmax]
  · intro i hi
    rw [hheader]
    exact h.passed i (by omega)
  · intro hlt
    exact (h.erased _ (by omega) (Nat.min_le_right _ _)).not_ok

theorem wp_recoverPos_records (g : Geometry d) (hrec : 16 ≤ d.record) (h : Records d d.addrState1 s m img)
    (hmax : s.wlPartMaxSecPos.toNat = d.pages + 1) (hid : r.state.wlDeviceId = s.wlDeviceId)
    (hmax' : r.state.wlPartMaxSecPos = s.wlPartMaxSecPos) (htemp : r.tempBuff.length = d.temp) :
    Wp (fun _ => True) d.recoverPos (fun _ r' img' =>
      (∃ t, t.length = d.temp ∧
        r' = { r with tempBuff := t, state := { r.state with wlDummySecPos := .ofNat (min m d.pages) } }) ∧
        img' = img) r img := by
  apply wp_recoverPos_at g hrec trivial (Nat.min_le_right _ _)
  · intro i hi
    rw [hid]
    exact h.passed i (by omega)
  · intro hlt
    exact (h.erased _ (by omega) (Nat.min_le_right _ _)).not_ok
  · rw [hmax', hmax]
  · exact htemp

/-- A restart leaves the flash alone and finds the position both copies record. -/
theorem wp_restart_records (g : Geometry d) (hrec : 16 ≤ d.record) (h : BothRecord d s m img) (hcrc : s.CrcOk)
    (hversion : s.version = d.cfg.version) (hmax : s.wlPartMaxSecPos.toNat = d.pages + 1) (rand : UInt32)
    (htemp : r.tempBuff.length = d.temp) :
    Wp (fun _ => True) (d.init rand) (fun _ r' img' => Positioned d s m r' ∧ img' = img) r img := by
  have h1 := h.copy1.header
  have h2 := h.copy2.header
  have hok1 : (stateAt d.addrState1 img).CrcOk := by
    rw [h1]
    exact hcrc
  have hok2 : (stateAt d.addrState2 img).CrcOk := by
    rw [h2]
    exact hcrc
  apply wp_init g rand trivial (Or.inl hok1)
  · intro _
    rw [h1, hversion]
  · intro _ _ _
    refine wp_mono (wp_recoverPos_records g hrec h.copy1 hmax (by rw [h1]) (by rw [h1]) htemp) ?_
    rintro _ _ _ ⟨⟨t, ht, rfl⟩, rfl⟩
    exact ⟨trivial, ⟨by rw [h1], ht⟩, rfl⟩
  · intro _ _ hne
    exact absurd (by rw [h1, h2]) hne
  · intro _ hbad
    exact absurd hok2 hbad
  · intro hbad
    exact absurd hok1 hbad

/-- `init` updates a version 1 flash, and finds the position after the one the update found. -/
theorem wp_init_upgrade (g : Geometry d) (hrec : 16 ≤ d.record) (h : V1Image d p img) (rand : UInt32)
    (htemp : r.tempBuff.length = d.temp) :
    Wp (fun _ => True) (d.init rand) (fun _ r' img' =>
      Positioned d ((stateAt d.addrState1 img).upgraded rand) (p + 1) r' ∧
        BothRecord d ((stateAt d.addrState1 img).upgraded rand) (p + 1) img' ∧ AgreeData d img img') r img := by
  have hle1 := g.copy1.le
  have hle2 := g.copy2.le
  have hhead := g.header_le
  have h64 : stateHeader.toNat = 64 := rfl
  unfold WlDevice.init
  apply wp_bind
  apply wp_modifyRam trivial
  apply wp_bind
  apply wp_attempt
  apply wp_bind
  apply wp_readState trivial (by omega)
  apply wp_setState trivial
  apply wp_bind
  apply wp_readState trivial (by omega)
  apply wp_bind
  apply wp_getRam trivial
  dsimp only
  rw [if_neg fun hok => h.notV2.1 hok.1, if_pos h.notV2]
  apply wp_bind
  have hupdate : Wp (fun _ => True) (d.updateV1_V2 rand) _
      { r with state := stateAt d.addrState1 img, initialized := false } img :=
    wp_updateV1_V2 g hrec h rand rfl htemp
  have hformat : d.updateOrFormat rand { r with state := stateAt d.addrState1 img, initialized := false } img =
      (d.updateV1_V2 rand).attempt { r with state := stateAt d.addrState1 img, initialized := false } img := by
    obtain ⟨⟨_, hres, -⟩, -⟩ := hupdate
    unfold WlDevice.updateOrFormat
    rw [hres]
  refine wp_of_eq hformat (wp_mono (wp_attempt hupdate) ?_)
  rintro _ _ img' ⟨⟨t, ht, rfl⟩, hcopy1, hcopy2, hdata⟩
  apply wp_bind
  refine wp_mono (wp_recoverPos_records g hrec hcopy1 h.maxPos rfl rfl ht) ?_
  rintro _ _ img'' ⟨⟨t', ht', rfl⟩, rfl⟩
  exact wp_modifyRam trivial ⟨⟨rfl, ht'⟩, ⟨hcopy1, hcopy2⟩, hdata⟩

/-! ## What the update keeps -/

/-- The position in RAM is `p`, and every logical byte is as the state `s` laid it out on `img`. -/
structure StillAt (d : WlDevice) (p : Nat) (s : WlState) (img : Image) (r' : WlRam) (img' : Image) : Prop where
  position : r'.state.wlDummySecPos.toNat = p
  content : ∀ a < d.flashSize.toNat, d.logical r'.state img' a = d.logical s img a

/-- `init` succeeds, the position in RAM and the one recorded in each copy are the version 1 position, and every logical
byte is as before, after `init` and after a restart. -/
structure UpgradeKeeps (d : WlDevice) (p : Nat) (rand : UInt32) (r : WlRam) (img : Image) : Prop where
  accepted : (d.init rand r img).result = .ok ()
  still : StillAt d p (d.stateV1 p img) img (d.init rand r img).ram ((d.init rand).flash r img)
  copy1 : d.recordedPos d.addrState1 ((d.init rand).flash r img) = p
  copy2 : d.recordedPos d.addrState2 ((d.init rand).flash r img) = p
  restart : ∀ rand' r', r'.tempBuff.length = d.temp →
    (d.init rand' r' ((d.init rand).flash r img)).result = .ok () ∧
      StillAt d p (d.stateV1 p img) img (d.init rand' r' ((d.init rand).flash r img)).ram
        ((d.init rand').flash r' ((d.init rand).flash r img))

theorem Positioned.still (g : Geometry d) (h : V1Image d p img) (hlast : p = d.pages) {r' : WlRam}
    (hpos : Positioned d ((stateAt d.addrState1 img).upgraded rand) (p + 1) r') (hdata : AgreeData d img img') :
    StillAt d p (d.stateV1 p img) img r' img' := by
  have hmin : min (p + 1) d.pages = p := by omega
  have hp32 : (UInt32.ofNat p).toNat = p := toNat_ofNat_of_lt (by have := g.pages_lt; have := h.le; omega)
  have hrange : (d.stateV1 p img).InRange d := ⟨h.maxPos, hp32.trans_le h.le, h.moveCount⟩
  have hstate := hpos.state
  rw [hmin] at hstate
  have hrange' : r'.state.InRange d := by
    rw [hstate]
    exact ⟨h.maxPos, hp32.trans_le h.le, h.moveCount⟩
  refine ⟨by rw [hstate]; exact hp32, fun a ha => ?_⟩
  rw [g.logical_eq_view hrange' ha, g.logical_eq_view hrange ha, g.view_congr hdata, hstate]
  rfl

/-- The update keeps the position, the data and what a restart finds exactly when the dummy page is at the last
position: else both copies mark one position too many as passed. -/
theorem upgrade_keeps_iff {cfg : WlConfig} {part : Partition} {mallocOk : Bool} {r₀ : WlRam} (ha : Aligned cfg part)
    (hrec : 16 ≤ cfg.wlPosUpdateRecordSize.toNat) (hcurrent : cfg.version = 2)
    (hcfg : config cfg part mallocOk = .ok (d, r₀)) (h : V1Image d p img) (rand : UInt32)
    (htemp : r.tempBuff.length = d.temp) : UpgradeKeeps d p rand r img ↔ p = d.pages := by
  have g := config_geometry ha hcfg
  obtain ⟨rfl, -⟩ := config_ok hcfg
  obtain ⟨⟨_, hres, hpos, hboth, hdata⟩, -⟩ := wp_init_upgrade g hrec h rand htemp
  have hp := h.le
  constructor
  · intro hkeeps
    have hcopy1 := hkeeps.copy1
    rw [hboth.copy1.recordedPos h.maxPos] at hcopy1
    omega
  · intro hlast
    have hmin : min (p + 1) (cfg.adopt.layout part).pages = p := by omega
    refine ⟨hres, hpos.still g h hlast hdata, ?_, ?_, fun rand' r' htemp' => ?_⟩
    · rw [hboth.copy1.recordedPos h.maxPos, hmin]
    · rw [hboth.copy2.recordedPos h.maxPos, hmin]
    · obtain ⟨⟨_, hres', hpos', hsame⟩, -⟩ :=
        wp_restart_records g hrec hboth (upgraded_crcOk _ _) hcurrent.symm h.maxPos rand' htemp'
      refine ⟨hres', hpos'.still g h hlast ?_⟩
      rw [hsame]
      exact hdata

end Upgrade

/-! ## A flash of two pages -/

/-- A version 1 header for `tinyDevice`. -/
def tinyHeaderV1 : WlState :=
  let s : WlState := ⟨0, 2, 0, 0, 1, 64, 1, 0, Vector.replicate 7 0, 0⟩
  { s with wlDeviceId := s.crcV1 }

/-- A version 1 flash at position `p`, with `1` in the first page and `2` in the second. -/
def tinyV1 (p : Nat) : Image :=
  let copy (addr : UInt32) (img : Image) :=
    program (program img addr.toNat tinyHeaderV1.bytes) (tinyDevice.slotAddr addr 0) (List.replicate (16 * p) 0)
  copy tinyDevice.addrState1 (copy tinyDevice.addrState2 (program (program erasedFlash 0 [1]) 64 [2]))

theorem v1Image_tinyV1_last : V1Image tinyDevice 1 (tinyV1 1) where
  copy1 := ⟨by decide +kernel, by decide +kernel⟩
  copy2 := ⟨by decide +kernel, by decide +kernel⟩
  sameCrc := by decide +kernel
  notV2 := by decide +kernel
  maxPos := by decide +kernel
  moveCount := by decide +kernel
  le := by decide
  passed := by decide +kernel
  next := fun h => absurd h (by decide)

theorem v1Image_tinyV1_first : V1Image tinyDevice 0 (tinyV1 0) where
  copy1 := ⟨by decide +kernel, by decide +kernel⟩
  copy2 := ⟨by decide +kernel, by decide +kernel⟩
  sameCrc := by decide +kernel
  notV2 := by decide +kernel
  maxPos := by decide +kernel
  moveCount := by decide +kernel
  le := by decide
  passed := fun i hi => absurd hi (Nat.not_lt_zero i)
  next := fun _ => by decide +kernel

theorem upgrade_keeps_iff_tiny : UpgradeKeeps tinyDevice 1 77 tinyRam (tinyV1 1) ↔ 1 = tinyDevice.pages := by
  have hcfg : config tinyConfig tinyPartition true = .ok (tinyDevice, tinyRam) := rfl
  exact upgrade_keeps_iff aligned_tinyConfig (by decide) rfl hcfg v1Image_tinyV1_last 77 rfl

/-- At position `0` no record is set. The update sets the first, so `init` finds position `1` and reads the logical page
from the page that was the dummy. -/
theorem upgrade_moves_position :
    config tinyConfig tinyPartition true = .ok (tinyDevice, tinyRam) ∧ V1Image tinyDevice 0 (tinyV1 0) ∧
      tinyDevice.logical (tinyDevice.stateV1 0 (tinyV1 0)) (tinyV1 0) 0 = 2 ∧
      tinyDevice.logical (tinyDevice.init 77 tinyRam (tinyV1 0)).ram.state
        ((tinyDevice.init 77).flash tinyRam (tinyV1 0)) 0 = 1 ∧
      ¬UpgradeKeeps tinyDevice 0 77 tinyRam (tinyV1 0) := by
  have hafter : tinyDevice.logical (tinyDevice.init 77 tinyRam (tinyV1 0)).ram.state
      ((tinyDevice.init 77).flash tinyRam (tinyV1 0)) 0 = 1 := by
    set_option maxRecDepth 4000 in
    decide +kernel
  have hbefore : tinyDevice.logical (tinyDevice.stateV1 0 (tinyV1 0)) (tinyV1 0) 0 = 2 := by decide +kernel
  refine ⟨rfl, v1Image_tinyV1_first, hbefore, hafter, fun h => ?_⟩
  have hread := h.still.content 0 (by decide)
  rw [hafter, hbefore] at hread
  exact absurd hread (by decide)

end EspIdf.WearLevelling
