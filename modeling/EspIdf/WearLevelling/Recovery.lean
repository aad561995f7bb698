import EspIdf.WearLevelling.Phases

/-!
# Recovery

* `wp_recoverPos_at` : the scan of the records finds the position they lead to;
* `wp_rebuild` : a copy rebuilt from the other one gets its header, and its records or none of them;
* `Recoverable` : what the flash must look like for `init` to find the position;
* `wp_init_phase` : `init` on any state area a power cut can leave;
* `wp_init_new` : `init` on a new flash.
-/

namespace EspIdf.WearLevelling

open Word32 Crc32 NorFlash

section Recovery
variable {d : WlDevice} {r : WlRam} {s : WlState} {img : Image} {C : Image → Prop}

/-! ## The scan of the records -/

theorem readBytes_take (img : Image) (addr : Nat) {m n : Nat} (h : m ≤ n) :
    (readBytes img addr n).take m = readBytes img addr m := by
  obtain ⟨k, rfl⟩ := Nat.exists_eq_add_of_le h
  rw [readBytes_append, List.take_append_of_le_length (by rw [readBytes_length]),
    List.take_of_length_le (by rw [readBytes_length])]

/-- The buffer holds a record when the flash does. -/
theorem okBuffSet_iff (hrec : 16 ≤ d.record) {addr : UInt32} {i : Nat} :
    okBuffSet (intoTemp (readBytes img (d.slotAddr addr i) d.record) r) (.ofNat i) = true ↔
      RecOk d addr r.state.wlDeviceId i img := by
  have htake : (intoTemp (readBytes img (d.slotAddr addr i) d.record) r).tempBuff.take 16 =
      readBytes img (d.slotAddr addr i) 16 := by
    unfold intoTemp
    rw [List.take_append_of_le_length (by rw [readBytes_length]; exact hrec), readBytes_take _ _ hrec]
  unfold okBuffSet RecOk okBytes
  rw [htake, decide_eq_true_iff]
  change wordsOf _ = okWords r.state.wlDeviceId _ ↔ _
  constructor
  · intro h
    rw [← h, flatMap_wordsOf 4 _ (by rw [readBytes_length])]
  · intro h
    rw [h, wordsOf_flatMap]

theorem wp_recoverPosFrom_at (g : Geometry d) (hrec : 16 ≤ d.record) (hC : C img) {p : Nat} (hp : p ≤ d.pages)
    (hpassed : ∀ i < p, RecOk d d.addrState1 r.state.wlDeviceId i img)
    (hnot : p < d.pages → ¬RecOk d d.addrState1 r.state.wlDeviceId p img) (n i position : Nat) (hi : i ≤ p)
    (hn : i + n = d.pages + 1) (htemp : r.tempBuff.length = d.temp) :
    Wp C (d.recoverPosFrom i position n) (fun x r' img' =>
      x = p ∧ (∃ t, t.length = d.temp ∧ r' = { r with tempBuff := t }) ∧ img' = img) r img := by
  induction n generalizing i position r with
  | zero => omega
  | succ n ih =>
      have hcount := g.pages_le
      have hi' : i < d.recordCount.toNat := by omega
      have haddr := g.recordAddr_toNat g.copy1 hi'
      have hend := g.record_end hi'
      have hle := g.copy1.le
      have hrecLe := g.record_le
      have hr : d.cfg.wlPosUpdateRecordSize.toNat = d.record := rfl
      have hlen : (intoTemp (readBytes img (d.slotAddr d.addrState1 i) d.record) r).tempBuff.length = d.temp := by
        rw [intoTemp_length (by rw [readBytes_length]; omega), htemp]
      unfold WlDevice.recoverPosFrom
      apply wp_bind
      apply wp_readTemp hC (by rw [haddr, hr]; omega)
      apply wp_bind
      apply wp_getRam hC
      rw [haddr, hr]
      change Wp C (if okBuffSet (intoTemp (readBytes img (d.slotAddr d.addrState1 i) d.record) r) (.ofNat i) then _ else _)
        _ _ _
      by_cases hok : okBuffSet (intoTemp (readBytes img (d.slotAddr d.addrState1 i) d.record) r) (.ofNat i) = true
      · rw [if_pos hok]
        rw [okBuffSet_iff hrec] at hok
        rcases Nat.lt_or_ge i p with hlt | hge
        · refine wp_mono (ih (by exact hpassed) (by exact hnot) (i + 1) i hlt (by omega) hlen) ?_
          rintro x _ _ ⟨hx, ⟨t, ht, rfl⟩, rfl⟩
          exact ⟨hx, ⟨t, ht, rfl⟩, rfl⟩
        · -- all records are set: the last position
          obtain rfl : i = p := le_antisymm hi hge
          have hlast : i = d.pages := by
            rcases Nat.lt_or_ge i d.pages with hlt | hge'
            · exact absurd hok (hnot hlt)
            · omega
          obtain rfl : n = 0 := by omega
          exact wp_pure hC ⟨rfl, ⟨_, hlen, rfl⟩, rfl⟩
      · rw [if_neg hok]
        rw [okBuffSet_iff hrec] at hok
        have hip : i = p := by
          by_contra hne
          exact hok (hpassed i (by omega))
        exact wp_pure hC ⟨hip, ⟨_, hlen, rfl⟩, rfl⟩

/-- `recoverPos` finds the position the records lead to. -/
theorem wp_recoverPos_at (g : Geometry d) (hrec : 16 ≤ d.record) (hC : C img) {p : Nat} (hp : p ≤ d.pages)
    (hpassed : ∀ i < p, RecOk d d.addrState1 r.state.wlDeviceId i img)
    (hnot : p < d.pages → ¬RecOk d d.addrState1 r.state.wlDeviceId p img)
    (hmax : r.state.wlPartMaxSecPos.toNat = d.pages + 1) (htemp : r.tempBuff.length = d.temp) :
    Wp C d.recoverPos (fun _ r' img' =>
      (∃ t, t.length = d.temp ∧ r' = { r with tempBuff := t, state := { r.state with wlDummySecPos := .ofNat p } }) ∧
        img' = img) r img := by
  have hlt := g.pages_lt
  unfold WlDevice.recoverPos
  apply wp_bind
  apply wp_getRam hC
  apply wp_bind
  rw [hmax]
  refine wp_mono (wp_recoverPosFrom_at g hrec hC hp hpassed hnot _ 0 0 (Nat.zero_le _) (by omega) htemp) ?_
  rintro x _ _ ⟨rfl, ⟨t, ht, rfl⟩, rfl⟩
  have hx32 : (UInt32.ofNat x).toNat = x := toNat_ofNat_of_lt (by omega)
  apply wp_bind
  apply wp_setState hC
  apply wp_setState hC
  refine ⟨⟨t, ht, ?_⟩, rfl⟩
  rw [if_neg]
  rintro ⟨e, -⟩
  have e' : (UInt32.ofNat x).toNat = r.state.wlPartMaxSecPos.toNat := congrArg UInt32.toNat e
  omega

/-! ## Rebuilding a copy -/

/-- The copy at `dst` has header `s` and, of each record, the bytes of the copy at `src` or erased ones. -/
structure Rebuilt (d : WlDevice) (src dst : UInt32) (s : WlState) (img img' : Image) : Prop where
  outside : ∀ a, a < dst.toNat ∨ dst.toNat + d.stateSize.toNat ≤ a → img' a = img a
  header : stateAt dst img' = s
  slots : ∀ i ≤ d.pages, ∀ j < 16, img' (d.slotAddr dst i + j) = 0xFF ∨
    img' (d.slotAddr dst i + j) = img (d.slotAddr src i + j)

/-- The two copies do not overlap. -/
def Apart (d : WlDevice) (src dst : UInt32) : Prop :=
  src.toNat + d.stateSize.toNat ≤ dst.toNat ∨ dst.toNat + d.stateSize.toNat ≤ src.toNat

theorem rebuilt_start (g : Geometry d) (hrec : 16 ≤ d.record) {src dst : UInt32} :
    Rebuilt d src dst s img (rewriteCopy d dst s img) := by
  obtain ⟨hheader, herased⟩ := rewriteCopy_done g hrec dst s img
  exact ⟨fun a ha => rewriteCut_outside g rewriteCut_done ha, hheader, fun i hi j hj => Or.inl (herased i hi j hj)⟩

/-- Programming any part of a record, as read from the other copy. -/
theorem Rebuilt.program (g : Geometry d) (hrec : 16 ≤ d.record) {src dst : UInt32} {img' : Image} (hap : Apart d src dst)
    (h : Rebuilt d src dst s img img') {i : Nat} (hi : i < d.recordCount.toNat) (k : Nat) :
    Rebuilt d src dst s img (d.mark dst i ((readBytes img' (d.slotAddr src i) d.record).take k) img') := by
  have hend := g.record_end hi
  generalize hxs : (readBytes img' (d.slotAddr src i) d.record).take k = xs
  have hlen : xs.length = min k d.record := by rw [← hxs, List.length_take, readBytes_length]
  refine ⟨?_, ?_, ?_⟩
  · intro a ha
    unfold WlDevice.mark
    rw [program_out (by omega)]
    exact h.outside a ha
  · rw [mark_header, h.header]
  · intro i' hi' j hj
    by_cases hne : i' = i
    · subst hne
      have hsrc : img' (d.slotAddr src i' + j) = img (d.slotAddr src i' + j) := by
        apply h.outside
        unfold Apart at hap
        unfold WlDevice.slotAddr
        omega
      have hold := h.slots i' hi' j hj
      have haddr : d.slotAddr dst i' = dst.toNat + 64 + i' * d.record := rfl
      unfold WlDevice.mark
      by_cases hk : j < k
      · right
        have hbyte : xs.getD j 0xFF = img (d.slotAddr src i' + j) := by
          rw [← hxs, List.getD_eq_getElem?_getD, List.getElem?_take_of_lt hk, ← List.getD_eq_getElem?_getD,
            readBytes_getD (by omega), hsrc]
        rw [program_in (by omega) (by omega), haddr, Nat.add_sub_cancel_left, hbyte, ← haddr]
        rcases hold with e | e
        · rw [e, and_allOnes]
        · rw [e, UInt8.and_self]
      · rw [program_out (by omega)]
        exact hold
    · rw [mark_other hrec (by omega) hne j hj]
      exact h.slots i' hi' j hj

theorem wp_rebuild (g : Geometry d) (hrec : 16 ≤ d.record) {src dst : UInt32} (hsrc : StateCopy d src)
    (hdst : StateCopy d dst) (hap : Apart d src dst) (htemp : r.tempBuff.length = d.temp)
    (hcut : ∀ img', RewriteCut d dst s img img' → C img') (hC : ∀ img', Rebuilt d src dst s img img' → C img') :
    Wp C (d.rebuild src dst s) (fun _ r' img' =>
      (∃ t, t.length = d.temp ∧ r' = { r with tempBuff := t }) ∧ Rebuilt d src dst s img img') r img := by
  unfold WlDevice.rebuild
  apply wp_rewriteCopy g hdst hcut
  refine wp_loop (fun _ r' img' =>
    (∃ t, t.length = d.temp ∧ r' = { r with tempBuff := t }) ∧ Rebuilt d src dst s img img') ?_ ?_
    ⟨⟨r.tempBuff, htemp, rfl⟩, rebuilt_start g hrec⟩
  · rintro i _ img' hi ⟨⟨t, ht, rfl⟩, h⟩
    have hsrcAddr := g.recordAddr_toNat hsrc hi
    have hdstAddr := g.recordAddr_toNat hdst hi
    have hend := g.record_end hi
    have hsrcLe := hsrc.le
    have hdstLe := hdst.le
    have hrecLe := g.record_le
    have hr : d.cfg.wlPosUpdateRecordSize.toNat = d.record := rfl
    apply wp_bind
    apply wp_readTemp (hC _ h) (by rw [hsrcAddr, hr]; omega)
    apply wp_bind
    apply wp_getRam (hC _ h)
    rw [hsrcAddr, hr]
    have hlen : (intoTemp (readBytes img' (d.slotAddr src i) d.record) { r with tempBuff := t }).tempBuff.length =
        d.temp := by
      rw [intoTemp_length (by rw [readBytes_length]; change _ ≤ t.length; omega)]
      exact ht
    have htake : (intoTemp (readBytes img' (d.slotAddr src i) d.record) { r with tempBuff := t }).tempBuff.take
        d.record = readBytes img' (d.slotAddr src i) d.record := by
      unfold intoTemp
      rw [List.take_append_of_le_length (by rw [readBytes_length]),
        List.take_of_length_le (by rw [readBytes_length])]
    change Wp C _ _ (intoTemp (readBytes img' (d.slotAddr src i) d.record) { r with tempBuff := t }) img'
    have hprog := fun k => h.program g hrec hap hi k
    split
    · apply wp_writeTemp
      · rw [hlen]
        exact hrecLe
      · rw [hdstAddr, hr]
        omega
      · intro k
        rw [hdstAddr, hr, htake]
        exact hC _ (hprog k)
      · rw [hdstAddr, hr, htake]
        have hall := hprog d.record
        rw [List.take_of_length_le (by rw [readBytes_length])] at hall
        exact ⟨⟨_, hlen, rfl⟩, hall⟩
    · exact wp_pure (hC _ h) ⟨⟨_, hlen, rfl⟩, h⟩
  · exact fun _ img' h => hC img' h.2

/-! ## Start-up after a power cut -/

/-- The branches of `init` when a header passes its CRC. -/
theorem wp_init (g : Geometry d) (rand : UInt32) (hC : C img) {Q : Unit → WlRam → Image → Prop}
    (hvalid : (stateAt d.addrState1 img).CrcOk ∨ (stateAt d.addrState2 img).CrcOk)
    (hversion : (stateAt d.addrState1 img).CrcOk → (stateAt d.addrState1 img).version = d.cfg.version)
    (hsame : (stateAt d.addrState1 img).CrcOk → (stateAt d.addrState2 img).CrcOk →
      (stateAt d.addrState1 img).crc32 = (stateAt d.addrState2 img).crc32 →
      Wp C d.recoverPos (fun _ r' img' => C img' ∧ Q () { r' with initialized := true } img')
        { r with state := stateAt d.addrState1 img, initialized := false } img)
    (hstale : (stateAt d.addrState1 img).CrcOk → (stateAt d.addrState2 img).CrcOk →
      (stateAt d.addrState1 img).crc32 ≠ (stateAt d.addrState2 img).crc32 →
      Wp C (d.rebuild d.addrState1 d.addrState2 (stateAt d.addrState1 img))
        (fun _ => Wp C d.recoverPos fun _ r' img' => C img' ∧ Q () { r' with initialized := true } img')
        { r with state := stateAt d.addrState1 img, initialized := false } img)
    (hfirst : (stateAt d.addrState1 img).CrcOk → ¬(stateAt d.addrState2 img).CrcOk →
      Wp C (d.rebuild d.addrState1 d.addrState2 (stateAt d.addrState1 img)) (fun _ r' img' =>
        C img' ∧ (stateAt d.addrState2 img').version = d.cfg.version ∧
          Q () { r' with state := stateAt d.addrState2 img', initialized := true } img')
        { r with state := stateAt d.addrState1 img, initialized := false } img)
    (hsecond : ¬(stateAt d.addrState1 img).CrcOk → (stateAt d.addrState2 img).CrcOk →
      Wp C (d.rebuild d.addrState2 d.addrState1 (stateAt d.addrState2 img)) (fun _ r' img' =>
        C img' ∧ (stateAt d.addrState1 img').version = d.cfg.version ∧
          Q () { r' with
            state := { stateAt d.addrState1 img' with
              wlDummySecPos := (stateAt d.addrState1 img').wlPartMaxSecPos - 1 }
            initialized := true } img')
        { r with state := stateAt d.addrState1 img, initialized := false } img) :
    Wp C (d.init rand) Q r img := by
  have hle1 := g.copy1.le
  have hle2 := g.copy2.le
  have hhead := g.header_le
  have h64 : stateHeader.toNat = 64 := rfl
  unfold WlDevice.init
  apply wp_bind
  apply wp_modifyRam hC
  apply wp_bind
  apply wp_attempt
  apply wp_bind
  apply wp_readState hC (by omega)
  apply wp_setState hC
  apply wp_bind
  apply wp_readState hC (by omega)
  apply wp_bind
  apply wp_getRam hC
  dsimp only
  by_cases h1 : (stateAt d.addrState1 img).CrcOk
  · by_cases h2 : (stateAt d.addrState2 img).CrcOk
    · rw [if_pos ⟨h1, h2⟩, if_neg (not_not.mpr (hversion h1))]
      by_cases hcrc : (stateAt d.addrState1 img).crc32 = (stateAt d.addrState2 img).crc32
      · rw [if_neg (not_not.mpr hcrc)]
        apply wp_bind
        refine wp_mono (hsame h1 h2 hcrc) ?_
        rintro _ r' img' ⟨hC', hQ⟩
        exact wp_modifyRam hC' hQ
      · rw [if_pos hcrc]
        apply wp_bind
        refine wp_mono (hstale h1 h2 hcrc) ?_
        intro _ r' img' hpos
        apply wp_bind
        refine wp_mono hpos ?_
        rintro _ r'' img'' ⟨hC', hQ⟩
        exact wp_modifyRam hC' hQ
    · rw [if_neg fun h => h2 h.2, if_neg fun h => h.1 h1, if_pos h1]
      apply wp_bind
      refine wp_mono (hfirst h1 h2) ?_
      rintro _ r' img' ⟨hC', hversion, hQ⟩
      apply wp_bind
      apply wp_readState hC' (by omega)
      apply wp_bind
      apply wp_setState hC'
      apply wp_bind
      apply wp_getRam hC'
      rw [if_neg (not_not.mpr hversion)]
      exact wp_modifyRam hC' hQ
  · have h2 : (stateAt d.addrState2 img).CrcOk := hvalid.resolve_left h1
    rw [if_neg fun h => h1 h.1, if_neg fun h => h.2 h2, if_neg h1]
    apply wp_bind
    refine wp_mono (hsecond h1 h2) ?_
    rintro _ r' img' ⟨hC', hversion, hQ⟩
    apply wp_bind
    apply wp_readState hC' (by omega)
    apply wp_bind
    apply wp_setState hC'
    apply wp_bind
    apply wp_getRam hC'
    rw [if_neg (not_not.mpr hversion)]
    exact wp_modifyRam hC' hQ

/-- The state `init` finds for position `p` of round `mc`. -/
def WlState.recovered (s : WlState) (p : Nat) (mc : UInt32) : WlState := { s.hdr mc with wlDummySecPos := .ofNat p }

/-- What `init` needs of the flash it starts on: no header passes its CRC by chance, and once copy 2 marks the last
position, copy 1 marks all positions before it. -/
structure Sound (d : WlDevice) (s : WlState) (img : Image) : Prop where
  whole : Whole d s img
  records : (stateAt d.addrState1 img).CrcOk → (stateAt d.addrState2 img).CrcOk →
    (stateAt d.addrState1 img).crc32 = (stateAt d.addrState2 img).crc32 →
    RecOk d d.addrState2 s.wlDeviceId d.pages img → ∀ i < d.pages, RecOk d d.addrState1 s.wlDeviceId i img

theorem Geometry.apart (g : Geometry d) : Apart d d.addrState1 d.addrState2 := Or.inl (le_of_eq g.state2_eq.symm)

theorem Geometry.apart' (g : Geometry d) : Apart d d.addrState2 d.addrState1 := Or.inr (le_of_eq g.state2_eq.symm)

section Phases
variable {mc : UInt32} {img' : Image} {p : Nat}

theorem Rebuilt.agreeData {src dst : UInt32} (hdst : StateCopy d dst) (h : Rebuilt d src dst s img img') :
    AgreeData d img img' := by
  have hge := hdst.ge
  exact fun a ha => h.outside a (Or.inl (by omega))

/-- Copy 2 rebuilt from a copy 1 without records. -/
theorem Rebuilt.steady_first (g : Geometry d) (hrec : 16 ≤ d.record)
    (h : Rebuilt d d.addrState1 d.addrState2 (s.hdr mc) img img') (header1 : stateAt d.addrState1 img = s.hdr mc)
    (erased : ∀ i ≤ d.pages, SlotErased d d.addrState1 i img) : Steady d s 0 mc img' := by
  have h2 := g.state2_eq
  have hcopy1 : CopySame d d.addrState1 img img' := fun a _ ha => h.outside a (Or.inl (by omega))
  have herased := hcopy1.erased g hrec erased
  refine .early g.pages_pos (by rw [hcopy1.stateAt g, header1]) h.header (fun i hi => absurd hi (Nat.not_lt_zero i))
    (herased 0 (Nat.zero_le _)).clean (herased 0 (Nat.zero_le _)).not_ok (fun i _ hi => herased i hi) ?_
  intro i hi j hj
  left
  rcases h.slots i hi j hj with e | e
  · exact e
  · rw [e, erased i hi j hj]

/-- Copy 1 rebuilt from a copy 2 that marks the last position. -/
theorem Rebuilt.steady_last (g : Geometry d) (hrec : 16 ≤ d.record)
    (h : Rebuilt d d.addrState2 d.addrState1 (s.hdr mc) img img') (header2 : stateAt d.addrState2 img = s.hdr mc)
    (last : RecOk d d.addrState2 s.wlDeviceId d.pages img)
    (clean2 : ∀ i ≤ d.pages, SlotClean d d.addrState2 s.wlDeviceId i img) : Steady d s d.pages mc img' := by
  have h2 := g.state2_eq
  have hcopy2 : CopySame d d.addrState2 img img' := fun a ha _ => h.outside a (Or.inr (by omega))
  exact .late h.header (by rw [hcopy2.stateAt g, header2])
    (Or.inr ((RecOk.congr (hcopy2.slot g hrec le_rfl)).mpr last)) (hcopy2.clean g hrec clean2)

/-- The cuts while copy 1 is rewritten from copy 2. -/
theorem phase_rewrite1 (g : Geometry d) (hrec : 16 ≤ d.record) (hwhole : WholeHeader d s d.addrState1 img')
    (header1 : ¬(stateAt d.addrState1 img).CrcOk) (header2 : stateAt d.addrState2 img = s.hdr mc)
    (last : RecOk d d.addrState2 s.wlDeviceId d.pages img)
    (clean2 : ∀ i ≤ d.pages, SlotClean d d.addrState2 s.wlDeviceId i img)
    (h : RewriteCut d d.addrState1 (s.hdr mc) img img') : Phase d s d.pages mc img' := by
  have hcopy2 := h.copy2 g
  have hheader2 : stateAt d.addrState2 img' = s.hdr mc := by rw [hcopy2.stateAt g, header2]
  have hlast := (RecOk.congr (hcopy2.slot g hrec le_rfl)).mpr last
  have hclean2 := hcopy2.clean g hrec clean2
  rcases rewriteCut_cases g hrec g.pages_lt_half hwhole h with e | e | ⟨e, -⟩
  · exact .wrap1 (by rwa [e]) hheader2 hlast hclean2
  · exact .wrap1 e hheader2 hlast hclean2
  · exact .steady (.late e hheader2 (Or.inr hlast) hclean2)

/-- Where the records of a sound state area lead. -/
theorem Steady.passed (h : Steady d s p mc img) (hsound : Sound d s img) :
    (∀ i < p, RecOk d d.addrState1 s.wlDeviceId i img) ∧
      (p < d.pages → ¬RecOk d d.addrState1 s.wlDeviceId p img) := by
  have hcrc1 : (stateAt d.addrState1 img).CrcOk := h.header1 ▸ hdr_crcOk s mc
  have hcrc2 : (stateAt d.addrState2 img).CrcOk := h.header2 ▸ hdr_crcOk s mc
  have hsame : (stateAt d.addrState1 img).crc32 = (stateAt d.addrState2 img).crc32 := by rw [h.header1, h.header2]
  have hrecords := hsound.records hcrc1 hcrc2 hsame
  cases h with
  | early hp header1 header2 passed clean1 notYet erased clean2 => exact ⟨passed, fun _ => notYet⟩
  | late header1 header2 passed clean2 =>
      exact ⟨passed.elim id hrecords, fun h => absurd h (Nat.lt_irrefl _)⟩

/-- The images a power cut can leave while `init` recovers position `p` of round `mc` from `img`. -/
def RecoverCut (d : WlDevice) (s : WlState) (p : Nat) (mc : UInt32) (img img' : Image) : Prop :=
  AgreeData d img img' ∧ (Whole d s img' → Phase d s p mc img')

/-- What `init` leaves: position `p` of round `mc`, the data as it was. -/
structure Recovered (d : WlDevice) (s : WlState) (p : Nat) (mc : UInt32) (img : Image) (r' : WlRam) (img' : Image) :
    Prop where
  state : r'.state = s.recovered p mc
  tempLength : r'.tempBuff.length = d.temp
  initialized : r'.initialized = true
  data : AgreeData d img img'
  steady : Steady d s p mc img'

/-- The scan of the records, from a steady state area. -/
theorem wp_recoverPos_steady (g : Geometry d) (hrec : 16 ≤ d.record) (hmax : s.wlPartMaxSecPos.toNat = d.pages + 1)
    (hstate : r.state = s.hdr mc) (htemp : r.tempBuff.length = d.temp) (hdata : AgreeData d img img')
    (hC : RecoverCut d s p mc img img') (hst : Steady d s p mc img')
    (hpassed : (∀ i < p, RecOk d d.addrState1 s.wlDeviceId i img') ∧
      (p < d.pages → ¬RecOk d d.addrState1 s.wlDeviceId p img')) :
    Wp (RecoverCut d s p mc img) d.recoverPos (fun _ r' img'' =>
      RecoverCut d s p mc img img'' ∧ Recovered d s p mc img { r' with initialized := true } img'') r img' := by
  have hid : r.state.wlDeviceId = s.wlDeviceId := by
    rw [hstate]
    rfl
  have hmax' : r.state.wlPartMaxSecPos.toNat = d.pages + 1 := by
    rw [hstate]
    exact hmax
  rw [← hid] at hpassed
  refine wp_mono (wp_recoverPos_at g hrec hC hst.pos_le hpassed.1 hpassed.2 hmax' htemp) ?_
  rintro _ _ _ ⟨⟨t, ht, rfl⟩, rfl⟩
  refine ⟨hC, ?_, ht, rfl, hdata, hst⟩
  dsimp only
  rw [hstate]
  rfl

/-- Rebuilding copy 2 from a copy 1 without records. -/
theorem wp_rebuild_second (g : Geometry d) (hrec : 16 ≤ d.record) (h : Phase d s 0 mc img)
    (header1 : stateAt d.addrState1 img = s.hdr mc) (erased : ∀ i ≤ d.pages, SlotErased d d.addrState1 i img)
    (htemp : r.tempBuff.length = d.temp) :
    Wp (RecoverCut d s 0 mc img) (d.rebuild d.addrState1 d.addrState2 (s.hdr mc)) (fun _ r' img' =>
      (∃ t, t.length = d.temp ∧ r' = { r with tempBuff := t }) ∧ RecoverCut d s 0 mc img img' ∧
        Rebuilt d d.addrState1 d.addrState2 (s.hdr mc) img img' ∧ Steady d s 0 mc img') r img := by
  have hreb : ∀ img', Rebuilt d d.addrState1 d.addrState2 (s.hdr mc) img img' → Steady d s 0 mc img' :=
    fun img' h => h.steady_first g hrec header1 erased
  have hcutR : ∀ img', Rebuilt d d.addrState1 d.addrState2 (s.hdr mc) img img' →
      RecoverCut d s 0 mc img img' := fun img' h => ⟨h.agreeData g.copy2, fun _ => .steady (hreb img' h)⟩
  refine wp_mono (wp_rebuild g hrec g.copy1 g.copy2 g.apart htemp ?_ hcutR) ?_
  · intro img' hrw
    refine ⟨hrw.agreeData g.copy2 g, fun hwhole => ?_⟩
    rcases phase_rewrite2 g hrec hwhole.2 header1 erased hrw with rfl | hphase
    · exact h
    · exact hphase
  · rintro _ r' img' ⟨hram, h⟩
    exact ⟨hram, hcutR img' h, h, hreb img' h⟩

/-- After a power cut `init` finds the position and the move count the data is laid out with. -/
theorem wp_init_phase (g : Geometry d) (hrec : 16 ≤ d.record) (rand : UInt32) (h : Phase d s p mc img)
    (hsound : Sound d s img) (hversion : s.version = d.cfg.version) (hmax : s.wlPartMaxSecPos.toNat = d.pages + 1)
    (htemp : r.tempBuff.length = d.temp) :
    Wp (RecoverCut d s p mc img) (d.init rand) (fun _ r' img' => Recovered d s p mc img r' img') r img := by
  have hC : RecoverCut d s p mc img img := ⟨fun _ _ => rfl, fun _ => h⟩
  have hok : (s.hdr mc).CrcOk := hdr_crcOk s mc
  cases h with
  | steady hst =>
      have header1 := hst.header1
      have header2 := hst.header2
      apply wp_init g rand hC
      · exact Or.inl (header1 ▸ hok)
      · intro _
        rw [header1]
        exact hversion
      · intro _ _ _
        exact wp_recoverPos_steady g hrec hmax header1 htemp (fun _ _ => rfl) hC hst (hst.passed hsound)
      · intro _ _ hne
        exact absurd (by rw [header1, header2]) hne
      · intro _ hnot
        exact absurd (header2 ▸ hok) hnot
      · intro hnot
        exact absurd (header1 ▸ hok) hnot
  | wrap1 header1 header2 last clean2 =>
      have hcut : ∀ img', RewriteCut d d.addrState1 (s.hdr mc) img img' →
          RecoverCut d s d.pages mc img img' := fun img' hrw =>
        ⟨hrw.agreeData g.copy1 g, fun hwhole => phase_rewrite1 g hrec hwhole.1 header1 header2 last clean2 hrw⟩
      have hreb : ∀ img', Rebuilt d d.addrState2 d.addrState1 (s.hdr mc) img img' →
          Steady d s d.pages mc img' := fun img' hreb => hreb.steady_last g hrec header2 last clean2
      have hcutR : ∀ img', Rebuilt d d.addrState2 d.addrState1 (s.hdr mc) img img' →
          RecoverCut d s d.pages mc img img' := fun img' h => ⟨h.agreeData g.copy1, fun _ => .steady (hreb img' h)⟩
      apply wp_init g rand hC
      · exact Or.inr (header2 ▸ hok)
      · intro hyes
        exact absurd hyes header1
      · intro hyes
        exact absurd hyes header1
      · intro hyes
        exact absurd hyes header1
      · intro hyes
        exact absurd hyes header1
      · intro _ _
        rw [header2]
        refine wp_mono (wp_rebuild g hrec g.copy2 g.copy1 g.apart' (by exact htemp) hcut hcutR) ?_
        rintro _ _ img' ⟨⟨t, ht, rfl⟩, h⟩
        refine ⟨hcutR img' h, by rw [h.header]; exact hversion, ?_, ht, rfl, h.agreeData g.copy1, hreb img' h⟩
        have hlt := g.pages_lt
        have h1 : (1 : UInt32).toNat = 1 := rfl
        have hpos : s.wlPartMaxSecPos - 1 = .ofNat d.pages := by
          apply UInt32.toNat_inj.mp
          rw [toNat_sub_of_le (by rw [h1]; omega), toNat_ofNat_of_lt (by omega), hmax, h1]
          rfl
        rw [h.header]
        unfold WlState.recovered
        rw [← hpos]
        rfl
  | @wrap2 _ mc₀ _ header1 header2 erased clean2 =>
      apply wp_init g rand hC
      · exact Or.inl (header1 ▸ hok)
      · intro _
        rw [header1]
        exact hversion
      · -- the rounds agree when there is only one
        intro _ _ hcrc
        rw [header1, header2] at hcrc
        obtain rfl : mc = mc₀ := hdr_crc_inj hcrc
        refine wp_recoverPos_steady g hrec hmax header1 htemp (fun _ _ => rfl) hC ?_ ?_
        · exact .early g.pages_pos header1 header2 (fun i hi => absurd hi (Nat.not_lt_zero i))
            (erased 0 (Nat.zero_le _)).clean (erased 0 (Nat.zero_le _)).not_ok (fun i _ hi => erased i hi) clean2
        · exact ⟨fun i hi => absurd hi (Nat.not_lt_zero i), fun _ => (erased 0 (Nat.zero_le _)).not_ok⟩
      · intro _ _ _
        have hphase : Phase d s 0 mc img := .wrap2 header1 header2 erased clean2
        rw [header1]
        refine wp_mono (wp_rebuild_second g hrec hphase header1 erased (by exact htemp)) ?_
        rintro _ _ img' ⟨⟨t, ht, rfl⟩, hcut, h, hst⟩
        have h2 := g.state2_eq
        have hcopy1 : CopySame d d.addrState1 img img' := fun a _ ha => h.outside a (Or.inl (by omega))
        have hnot := hcopy1.erased g hrec erased
        exact wp_recoverPos_steady g hrec hmax rfl ht (h.agreeData g.copy2) hcut hst
          ⟨fun i hi => absurd hi (Nat.not_lt_zero i), fun _ => (hnot 0 (Nat.zero_le _)).not_ok⟩
      · intro _ hnot
        exact absurd (header2 ▸ hdr_crcOk s mc₀) hnot
      · intro hnot
        exact absurd (header1 ▸ hok) hnot
  | wrap3 header1 header2 erased =>
      apply wp_init g rand hC
      · exact Or.inl (header1 ▸ hok)
      · intro _
        rw [header1]
        exact hversion
      · intro _ hyes
        exact absurd hyes header2
      · intro _ hyes
        exact absurd hyes header2
      · intro _ _
        have hphase : Phase d s 0 mc img := .wrap3 header1 header2 erased
        rw [header1]
        refine wp_mono (wp_rebuild_second g hrec hphase header1 erased (by exact htemp)) ?_
        rintro _ _ img' ⟨⟨t, ht, rfl⟩, hcut, h, hst⟩
        refine ⟨hcut, by rw [h.header]; exact hversion, ?_, ht, rfl, h.agreeData g.copy2, hst⟩
        rw [h.header]
        rfl
      · intro hnot
        exact absurd (header1 ▸ hok) hnot

end Phases

/-! ## A new flash -/

/-- The state area after a format. -/
theorem steady_formatted (g : Geometry d) (hrec : 16 ≤ d.record) (rand : UInt32) :
    Steady d (d.freshState rand s) 0 0 (d.formatted (d.freshState rand s) img) := by
  generalize hs : d.freshState rand s = s'
  have hhdr : s' = s'.hdr 0 := by
    subst hs
    rfl
  have h2 := g.state2_eq
  have hcfg := g.cfg_eq
  obtain ⟨e1, e1'⟩ := rewriteCopy_done g hrec d.addrState1 s' img
  obtain ⟨e2, e2'⟩ := rewriteCopy_done g hrec d.addrState2 s' (rewriteCopy d d.addrState1 s' img)
  have hstate : ∀ a < d.addrCfg.toNat, d.formatted s' img a =
      rewriteCopy d d.addrState2 s' (rewriteCopy d d.addrState1 s' img) a := by
    intro a ha
    unfold WlDevice.formatted
    rw [program_out (Or.inl ha), eraseRange_out (Or.inl ha)]
  have hcopy1 : CopySame d d.addrState1 (rewriteCopy d d.addrState1 s' img) (d.formatted s' img) := by
    intro a _ ha
    rw [hstate a (by omega)]
    exact rewriteCut_outside g rewriteCut_done (Or.inl (by omega))
  have hcopy2 : CopySame d d.addrState2 (rewriteCopy d d.addrState2 s' (rewriteCopy d d.addrState1 s' img))
      (d.formatted s' img) := fun a _ ha => hstate a (by omega)
  have herased := hcopy1.erased g hrec e1'
  exact .early g.pages_pos (by rw [hcopy1.stateAt g, e1]; exact hhdr) (by rw [hcopy2.stateAt g, e2]; exact hhdr)
    (fun i hi => absurd hi (Nat.not_lt_zero i)) (herased 0 (Nat.zero_le _)).clean (herased 0 (Nat.zero_le _)).not_ok
    (fun i _ hi => herased i hi) (hcopy2.clean g hrec fun i hi => (e2' i hi).clean)

/-- A device in use: its RAM, and the state area that goes with it. -/
structure InUse (d : WlDevice) (r : WlRam) (img : Image) : Prop where
  mounted : Mounted d r
  version : r.state.version = d.cfg.version
  steady : Steady d r.state r.state.wlDummySecPos.toNat r.state.wlDummySecMoveCount img

/-- The state area goes with every state of the instance. -/
theorem Steady.of_hdr {s' : WlState} {p : Nat} {mc : UInt32} (hhdr : ∀ mc, s'.hdr mc = s.hdr mc)
    (h : Steady d s p mc img) : Steady d s' p mc img := by
  have hid : s'.wlDeviceId = s.wlDeviceId := by
    change (s'.hdr 0).wlDeviceId = (s.hdr 0).wlDeviceId
    rw [hhdr]
  cases h with
  | early hp header1 header2 passed clean1 notYet erased clean2 =>
      rw [← hid] at passed clean1 notYet clean2
      exact .early hp (header1.trans (hhdr _).symm) (header2.trans (hhdr _).symm) passed clean1 notYet erased clean2
  | late header1 header2 passed clean2 =>
      rw [← hid] at passed clean2
      exact .late (header1.trans (hhdr _).symm) (header2.trans (hhdr _).symm) passed clean2

/-- Mounting a new flash. -/
theorem wp_init_new (g : Geometry d) (hrec : 16 ≤ d.record) (rand : UInt32) (hfresh : Fresh d img)
    (htemp : r.tempBuff.length = d.temp) :
    Wp (fun _ => True) (d.init rand) (fun _ r' img' => InUse d r' img') r img := by
  apply wp_init_format g rand hfresh
  intro s
  have hst : Steady d (d.freshState rand s) 0 0 (d.formatted (d.freshState rand s) img) := steady_formatted g hrec rand
  refine wp_mono (wp_recoverPos_at g hrec trivial (Nat.zero_le _) (fun i hi => absurd hi (Nat.not_lt_zero i)) hst.notYet
    (freshState_inRange g rand s).maxPos htemp) ?_
  rintro _ _ _ ⟨⟨t, ht, rfl⟩, rfl⟩
  have hrange := freshState_inRange g rand s
  exact ⟨⟨⟨⟨hrange.maxPos, Nat.zero_le _, hrange.moveCount_lt⟩, ht⟩, rfl⟩, rfl, hst.of_hdr fun _ => rfl⟩

end Recovery

end EspIdf.WearLevelling
