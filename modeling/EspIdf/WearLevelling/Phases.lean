import EspIdf.WearLevelling.Records
import EspIdf.WearLevelling.Transparent

/-!
# What the state area can look like

* `Steady` : the state area while the device runs, by the dummy position `p` and the move count `mc` of the data;
* `Phase` : the state area a power cut can leave, with the layout `(p, mc)` that still reads the data;
* `Whole` : a header copy that passes its CRC is one the instance wrote;
* `Steady.advanceCut`, `Steady.advanceDone` : moving the dummy page leads from one to the other.
-/

namespace EspIdf.WearLevelling

open Word32 Crc32 NorFlash

/-- Both headers are those of round `mc`, and the records of copy 1 lead to position `p`. In the last position it is
enough that copy 2 has the last record. -/
inductive Steady (d : WlDevice) (base : WlState) : Nat → UInt32 → Image → Prop
  | early {p : Nat} {mc : UInt32} {img : Image} (hp : p < d.pages)
      (header1 : stateAt d.addrState1 img = base.hdr mc) (header2 : stateAt d.addrState2 img = base.hdr mc)
      (passed : ∀ i < p, RecOk d d.addrState1 base.wlDeviceId i img)
      (clean1 : SlotClean d d.addrState1 base.wlDeviceId p img)
      (notYet : ¬RecOk d d.addrState1 base.wlDeviceId p img)
      (erased : ∀ i, p < i → i ≤ d.pages → SlotErased d d.addrState1 i img)
      (clean2 : ∀ i ≤ d.pages, SlotClean d d.addrState2 base.wlDeviceId i img) : Steady d base p mc img
  | late {mc : UInt32} {img : Image}
      (header1 : stateAt d.addrState1 img = base.hdr mc) (header2 : stateAt d.addrState2 img = base.hdr mc)
      (passed : (∀ i < d.pages, RecOk d d.addrState1 base.wlDeviceId i img) ∨
        RecOk d d.addrState2 base.wlDeviceId d.pages img)
      (clean2 : ∀ i ≤ d.pages, SlotClean d d.addrState2 base.wlDeviceId i img) : Steady d base d.pages mc img

/-- The state area a power cut can leave. Copy 1 is being rewritten (`wrap1`), or it is new and copy 2 is still the old
one (`wrap2`) or is being rewritten (`wrap3`). -/
inductive Phase (d : WlDevice) (base : WlState) : Nat → UInt32 → Image → Prop
  | steady {p : Nat} {mc : UInt32} {img : Image} (h : Steady d base p mc img) : Phase d base p mc img
  | wrap1 {mc : UInt32} {img : Image} (header1 : ¬(stateAt d.addrState1 img).CrcOk)
      (header2 : stateAt d.addrState2 img = base.hdr mc)
      (last : RecOk d d.addrState2 base.wlDeviceId d.pages img)
      (clean2 : ∀ i ≤ d.pages, SlotClean d d.addrState2 base.wlDeviceId i img) : Phase d base d.pages mc img
  | wrap2 {mc mc₀ : UInt32} {img : Image} (header1 : stateAt d.addrState1 img = base.hdr mc)
      (header2 : stateAt d.addrState2 img = base.hdr mc₀)
      (erased : ∀ i ≤ d.pages, SlotErased d d.addrState1 i img)
      (clean2 : ∀ i ≤ d.pages, SlotClean d d.addrState2 base.wlDeviceId i img) : Phase d base 0 mc img
  | wrap3 {mc : UInt32} {img : Image} (header1 : stateAt d.addrState1 img = base.hdr mc)
      (header2 : ¬(stateAt d.addrState2 img).CrcOk)
      (erased : ∀ i ≤ d.pages, SlotErased d d.addrState1 i img) : Phase d base 0 mc img

/-- A header copy that passes its CRC is one the instance wrote. -/
def Whole (d : WlDevice) (base : WlState) (img : Image) : Prop :=
  WholeHeader d base d.addrState1 img ∧ WholeHeader d base d.addrState2 img

/-! ## Frames -/

/-- Two images agree on the copy at `addr`. -/
def CopySame (d : WlDevice) (addr : UInt32) (img img' : Image) : Prop :=
  ∀ a, addr.toNat ≤ a → a < addr.toNat + d.stateSize.toNat → img' a = img a

section Frames
variable {d : WlDevice} {base : WlState} {addr : UInt32} {img img' : Image} {i p : Nat} {mc : UInt32}

theorem CopySame.stateAt (g : Geometry d) (h : CopySame d addr img img') : stateAt addr img' = stateAt addr img := by
  have hhead := g.header_le
  exact stateAt_congr fun a h1 h2 => h a h1 (by omega)

/-- The slot of a position lies behind the header, in the copy. -/
theorem Geometry.slot_mem (g : Geometry d) (addr : UInt32) (hrec : 16 ≤ d.record) (hi : i ≤ d.pages) {j : Nat} (hj : j < 16) :
    addr.toNat + 64 ≤ d.slotAddr addr i + j ∧ d.slotAddr addr i + j < addr.toNat + d.stateSize.toNat := by
  have hpages := g.pages_le
  have hend := g.record_end (show i < d.recordCount.toNat by omega)
  unfold WlDevice.slotAddr
  omega

theorem CopySame.slot (g : Geometry d) (hrec : 16 ≤ d.record) (h : CopySame d addr img img') (hi : i ≤ d.pages) :
    ∀ j < 16, img' (d.slotAddr addr i + j) = img (d.slotAddr addr i + j) := by
  intro j hj
  obtain ⟨h1, h2⟩ := g.slot_mem addr hrec hi hj
  exact h _ (by omega) h2

/-- The slots of a copy are unchanged. -/
theorem CopySame.clean (g : Geometry d) (hrec : 16 ≤ d.record) (h : CopySame d addr img img') {id : UInt32}
    (hc : ∀ i ≤ d.pages, SlotClean d addr id i img) : ∀ i ≤ d.pages, SlotClean d addr id i img' :=
  fun i hi => (hc i hi).congr (h.slot g hrec hi)

theorem CopySame.erased (g : Geometry d) (hrec : 16 ≤ d.record) (h : CopySame d addr img img')
    (hc : ∀ i ≤ d.pages, SlotErased d addr i img) : ∀ i ≤ d.pages, SlotErased d addr i img' :=
  fun i hi => (hc i hi).congr (h.slot g hrec hi)

theorem AgreeState.copy1 (h : AgreeState d img img') : CopySame d d.addrState1 img img' := fun a h1 _ => h a h1

theorem AgreeState.copy2 (g : Geometry d) (h : AgreeState d img img') : CopySame d d.addrState2 img img' := by
  have hge := g.copy2.ge
  exact fun a h1 _ => h a (by omega)

/-- The state area alone decides the phase. -/
theorem Steady.congr (g : Geometry d) (hrec : 16 ≤ d.record) (h1 : CopySame d d.addrState1 img img')
    (h2 : CopySame d d.addrState2 img img') (h : Steady d base p mc img) : Steady d base p mc img' := by
  cases h with
  | early hp header1 header2 passed clean1 notYet erased clean2 =>
      refine .early hp (by rw [h1.stateAt g, header1]) (by rw [h2.stateAt g, header2]) ?_
        (clean1.congr (h1.slot g hrec (by omega))) ?_ ?_ (h2.clean g hrec clean2)
      · exact fun i hi => (RecOk.congr (h1.slot g hrec (by omega))).mpr (passed i hi)
      · exact fun hok => notYet ((RecOk.congr (h1.slot g hrec (by omega))).mp hok)
      · exact fun i hi hi' => (erased i hi hi').congr (h1.slot g hrec hi')
  | late header1 header2 passed clean2 =>
      refine .late (by rw [h1.stateAt g, header1]) (by rw [h2.stateAt g, header2]) ?_ (h2.clean g hrec clean2)
      refine passed.imp (fun h i hi => ?_) fun h => ?_
      · exact (RecOk.congr (h1.slot g hrec (by omega))).mpr (h i hi)
      · exact (RecOk.congr (h2.slot g hrec le_rfl)).mpr h

theorem Steady.header1 (h : Steady d base p mc img) : stateAt d.addrState1 img = base.hdr mc := by
  cases h <;> assumption

theorem Steady.header2 (h : Steady d base p mc img) : stateAt d.addrState2 img = base.hdr mc := by
  cases h <;> assumption

theorem Steady.clean2 (h : Steady d base p mc img) :
    ∀ i ≤ d.pages, SlotClean d d.addrState2 base.wlDeviceId i img := by
  cases h <;> assumption

theorem Steady.clean1 (h : Steady d base p mc img) (hp : p < d.pages) :
    SlotClean d d.addrState1 base.wlDeviceId p img := by
  cases h with
  | early => assumption
  | late => exact absurd hp (Nat.lt_irrefl _)

theorem Steady.notYet (h : Steady d base p mc img) (hp : p < d.pages) :
    ¬RecOk d d.addrState1 base.wlDeviceId p img := by
  cases h with
  | early => assumption
  | late => exact absurd hp (Nat.lt_irrefl _)

theorem Steady.pos_le (h : Steady d base p mc img) : p ≤ d.pages := by
  cases h with
  | early hp => exact le_of_lt hp
  | late => exact le_rfl

/-- Programming a record in one copy leaves the header and the other copy alone. -/
theorem mark_header (n : Nat) (b : List UInt8) : stateAt addr (d.mark addr n b img) = stateAt addr img := by
  apply stateAt_congr
  intro a _ h
  exact program_out (by omega)

theorem Geometry.mark1_copy2 (g : Geometry d) {n : Nat} {b : List UInt8} (hn : n ≤ d.pages) (hb : b.length ≤ d.record) :
    CopySame d d.addrState2 img (d.mark d.addrState1 n b img) := by
  have hpages := g.pages_le
  have hend := g.record_end (show n < d.recordCount.toNat by omega)
  have h2 := g.state2_eq
  intro a h1 _
  exact program_out (by omega)

theorem Geometry.mark2_copy1 (g : Geometry d) (n : Nat) (b : List UInt8) :
    CopySame d d.addrState1 img (d.mark d.addrState2 n b img) := by
  have h2 := g.state2_eq
  intro a _ h
  exact program_out (by omega)

/-- Programming any part of a record into copy 2 keeps the state area steady. -/
theorem Steady.mark2 (g : Geometry d) (hrec : 16 ≤ d.record) (h : Steady d base p mc img) {b : List UInt8}
    (hb : IsRecord d base b) (k : Nat) :
    Steady d base p mc (d.mark d.addrState2 base.wlDummySecPos.toNat (b.take k) img) := by
  have hlen := hb.take_length k
  have hclean : ∀ i ≤ d.pages, SlotClean d d.addrState2 base.wlDeviceId i
      (d.mark d.addrState2 base.wlDummySecPos.toNat (b.take k) img) := by
    intro i hi
    by_cases hne : i = base.wlDummySecPos.toNat
    · subst hne
      exact mark_clean hrec hb k (h.clean2 _ hi)
    · exact (h.clean2 i hi).congr (mark_other hrec hlen hne)
  have hcopy1 : CopySame d d.addrState1 img (d.mark d.addrState2 base.wlDummySecPos.toNat (b.take k) img) :=
    g.mark2_copy1 _ _
  cases h with
  | early hp header1 header2 passed clean1 notYet erased clean2 =>
      refine .early hp (by rw [hcopy1.stateAt g, header1]) (by rw [mark_header, header2]) ?_
        (clean1.congr (hcopy1.slot g hrec (by omega))) ?_ ?_ hclean
      · exact fun i hi => (RecOk.congr (hcopy1.slot g hrec (by omega))).mpr (passed i hi)
      · exact fun hok => notYet ((RecOk.congr (hcopy1.slot g hrec (by omega))).mp hok)
      · exact fun i hi hi' => (erased i hi hi').congr (hcopy1.slot g hrec hi')
  | late header1 header2 passed clean2 =>
      refine .late (by rw [hcopy1.stateAt g, header1]) (by rw [mark_header, header2]) ?_ hclean
      refine passed.imp (fun h i hi => ?_) fun h => ?_
      · exact (RecOk.congr (hcopy1.slot g hrec (by omega))).mpr (h i hi)
      · by_cases hne : d.pages = base.wlDummySecPos.toNat
        · rw [hne] at h ⊢
          exact mark_ok_of_ok hrec hb k h
        · exact (RecOk.congr (mark_other hrec hlen hne)).mpr h

/-- Programming any part of the record of the last position into copy 1 keeps the state area steady. -/
theorem Steady.mark1_late (g : Geometry d) (hrec : 16 ≤ d.record) (h : Steady d base d.pages mc img) {b : List UInt8}
    (hb : b.length ≤ d.record) : Steady d base d.pages mc (d.mark d.addrState1 d.pages b img) := by
  have hcopy2 : CopySame d d.addrState2 img (d.mark d.addrState1 d.pages b img) := g.mark1_copy2 le_rfl hb
  cases h with
  | early hp => exact absurd hp (Nat.lt_irrefl _)
  | late header1 header2 passed clean2 =>
      refine .late (by rw [mark_header, header1]) (by rw [hcopy2.stateAt g, header2]) ?_ (hcopy2.clean g hrec clean2)
      refine passed.imp (fun h i hi => ?_) fun h => ?_
      · exact (RecOk.congr (mark_other hrec hb (by omega))).mpr (h i hi)
      · exact (RecOk.congr (hcopy2.slot g hrec le_rfl)).mpr h

/-- While the record of the position is programmed into copy 1, the position is the old one until the record is
complete, and the next one from then on. -/
theorem Steady.mark1_early (g : Geometry d) (hrec : 16 ≤ d.record)
    (h : Steady d base base.wlDummySecPos.toNat mc img) (hp : base.wlDummySecPos.toNat < d.pages) {b : List UInt8}
    (hb : IsRecord d base b) (k : Nat) :
    (RecOk d d.addrState1 base.wlDeviceId base.wlDummySecPos.toNat
        (d.mark d.addrState1 base.wlDummySecPos.toNat (b.take k) img) →
      Steady d base (base.wlDummySecPos.toNat + 1) mc
        (d.mark d.addrState1 base.wlDummySecPos.toNat (b.take k) img)) ∧
    (¬RecOk d d.addrState1 base.wlDeviceId base.wlDummySecPos.toNat
        (d.mark d.addrState1 base.wlDummySecPos.toNat (b.take k) img) →
      Steady d base base.wlDummySecPos.toNat mc (d.mark d.addrState1 base.wlDummySecPos.toNat (b.take k) img)) := by
  generalize hP : base.wlDummySecPos.toNat = P at *
  have hlen := hb.take_length k
  have hcopy2 : CopySame d d.addrState2 img (d.mark d.addrState1 P (b.take k) img) :=
    g.mark1_copy2 (le_of_lt hp) hlen
  cases h with
  | late => exact absurd hp (Nat.lt_irrefl _)
  | early hp header1 header2 passed clean1 notYet erased clean2 =>
      have hother : ∀ i, i ≠ P → ∀ j < 16, d.mark d.addrState1 P (b.take k) img (d.slotAddr d.addrState1 i + j) =
          img (d.slotAddr d.addrState1 i + j) := fun i hne => mark_other hrec hlen hne
      have hheader1 : stateAt d.addrState1 (d.mark d.addrState1 P (b.take k) img) = base.hdr mc := by
        rw [mark_header, header1]
      have hheader2 : stateAt d.addrState2 (d.mark d.addrState1 P (b.take k) img) = base.hdr mc := by
        rw [hcopy2.stateAt g, header2]
      have hpassed : ∀ i < P, RecOk d d.addrState1 base.wlDeviceId i (d.mark d.addrState1 P (b.take k) img) :=
        fun i hi => (RecOk.congr (hother i (by omega))).mpr (passed i hi)
      have hclean2 := hcopy2.clean g hrec clean2
      have herased : ∀ i, P < i → i ≤ d.pages →
          SlotErased d d.addrState1 i (d.mark d.addrState1 P (b.take k) img) :=
        fun i hi hi' => (erased i hi hi').congr (hother i (by omega))
      constructor
      · intro hok
        have hpassed' : ∀ i < P + 1, RecOk d d.addrState1 base.wlDeviceId i
            (d.mark d.addrState1 P (b.take k) img) := by
          intro i hi
          rcases Nat.lt_succ_iff_lt_or_eq.mp hi with hlt | rfl
          · exact hpassed i hlt
          · exact hok
        rcases Nat.lt_or_ge (P + 1) d.pages with hlt | hge
        · exact .early hlt hheader1 hheader2 hpassed' (herased _ (by omega) (by omega)).clean
            (herased _ (by omega) (by omega)).not_ok (fun i hi hi' => herased i (by omega) hi') hclean2
        · have hend : P + 1 = d.pages := by omega
          rw [hend] at hpassed' ⊢
          exact .late hheader1 hheader2 (Or.inl hpassed') hclean2
      · intro hnot
        refine .early hp hheader1 hheader2 hpassed ?_ hnot herased hclean2
        subst hP
        exact mark_clean hrec hb k clean1

end Frames

/-! ## Rewriting a header -/

section Rewrite
variable {d : WlDevice} {base : WlState} {addr : UInt32} {img img' : Image} {mc : UInt32}

/-- Rewriting a copy leaves the other one alone. -/
theorem rewriteCut_outside (g : Geometry d) {s : WlState} (h : RewriteCut d addr s img img') {a : Nat}
    (ha : a < addr.toNat ∨ addr.toNat + d.stateSize.toNat ≤ a) : img' a = img a := by
  have hhead := g.header_le
  have hlen := WlState.bytes_length s
  cases h with
  | erase k hk => exact eraseRange_out (by omega)
  | write k =>
      rw [program_out (by rw [List.length_take]; omega)]
      exact eraseRange_out ha

/-- A completed rewrite is the last of its cuts. -/
theorem rewriteCut_done {s : WlState} : RewriteCut d addr s img (rewriteCopy d addr s img) := by
  have h : RewriteCut d addr s img _ := .write s.bytes.length
  rwa [List.take_length] at h

/-- Erasing a copy, even in part, destroys its header. -/
theorem not_crcOk_of_erased (hwhole : WholeHeader d base addr img') (h : img' addr.toNat = 0xFF) :
    ¬(stateAt addr img').CrcOk := by
  intro hok
  obtain ⟨mc, -, e⟩ := hwhole hok
  exact not_hdr_of_erased h e

/-- A rewrite that was cut did nothing yet, or left no valid header, or left the new one on a copy without records. -/
theorem rewriteCut_cases (g : Geometry d) (hrec : 16 ≤ d.record) (hpages : d.pages < 2 ^ 31)
    (hwhole : WholeHeader d base addr img') (h : RewriteCut d addr (base.hdr mc) img img') :
    img' = img ∨ ¬(stateAt addr img').CrcOk ∨
      stateAt addr img' = base.hdr mc ∧ ∀ i ≤ d.pages, SlotErased d addr i img' := by
  have hhead := g.header_le
  have hlen := WlState.bytes_length (base.hdr mc)
  cases h with
  | erase k hk =>
      rcases Nat.eq_zero_or_pos k with rfl | hpos
      · exact Or.inl (eraseRange_zero _ _)
      · exact Or.inr (Or.inl (not_crcOk_of_erased hwhole (eraseRange_in le_rfl (by omega))))
  | write k =>
      right
      by_cases hok : (stateAt addr
          (program (eraseRange img addr.toNat d.stateSize.toNat) addr.toNat ((base.hdr mc).bytes.take k))).CrcOk
      · right
        obtain ⟨mc', hmc', e⟩ := hwhole hok
        obtain rfl : mc' = mc := hdr_of_torn (by omega) (fun a h1 h2 => eraseRange_in h1 (by omega)) e
        refine ⟨e, fun i hi j hj => ?_⟩
        obtain ⟨h1, h2⟩ := g.slot_mem addr hrec hi hj
        rw [program_out (by rw [List.length_take]; omega)]
        exact eraseRange_in (by omega) h2
      · exact Or.inl hok

/-- A completed rewrite leaves the new header on a copy without records. -/
theorem rewriteCopy_done (g : Geometry d) (hrec : 16 ≤ d.record) (addr : UInt32) (base : WlState) (img : Image) :
    stateAt addr (rewriteCopy d addr base img) = base ∧
      ∀ i ≤ d.pages, SlotErased d addr i (rewriteCopy d addr base img) := by
  have hhead := g.header_le
  have hlen := WlState.bytes_length base
  constructor
  · rw [stateAt_eq_iff]
    have h : readBytes (rewriteCopy d addr base img) addr.toNat base.bytes.length = base.bytes :=
      readBytes_program_erased fun a h1 h2 => eraseRange_in h1 (by omega)
    rwa [hlen] at h
  · intro i hi j hj
    obtain ⟨h1, h2⟩ := g.slot_mem addr hrec hi hj
    unfold rewriteCopy
    rw [program_out (by omega)]
    exact eraseRange_in (by omega) h2

end Rewrite

theorem Geometry.pages_lt_half {d : WlDevice} (g : Geometry d) : d.pages < 2 ^ 31 := by
  have h := g.flashSize_lt
  have h' := Nat.le_mul_of_pos_right d.pages g.page_pos
  rw [← g.flashSize] at h'
  omega

/-! ## Moving the dummy page on -/

section Advance
variable {d : WlDevice} {s : WlState} {img img' : Image} {mc : UInt32}

/-- The headers of an instance stay the same when it moves on. -/
theorem hdr_advanced (s : WlState) (mc : UInt32) : s.advanced.hdr mc = s.hdr mc := by
  unfold WlState.advanced
  split_ifs <;> rfl

theorem Geometry.advanced_of_lt (g : Geometry d) (hs : s.InRange d) (h : s.wlDummySecPos.toNat < d.pages) :
    s.advanced.wlDummySecPos.toNat = s.wlDummySecPos.toNat + 1 ∧
      s.advanced.wlDummySecMoveCount = s.wlDummySecMoveCount := by
  have hspec := (g.advanced_spec hs).1
  have hend : ¬s.wlPartMaxSecPos ≤ s.wlDummySecPos + 1 := fun e => absurd ((g.atEnd_iff hs).mp e) (by
    unfold WlDevice.AtEnd
    omega)
  refine ⟨?_, ?_⟩
  · rw [hspec]
    exact if_neg (by omega)
  · unfold WlState.advanced
    rw [if_neg hend]

/-- After the last position the state is the header of the next round. -/
theorem Geometry.advanced_of_end (g : Geometry d) (hs : s.InRange d) (h : d.AtEnd s) :
    s.advanced.wlDummySecPos.toNat = 0 ∧ s.advanced = s.hdr s.advanced.wlDummySecMoveCount := by
  have hadv : s.advanced =
      WlState.wrap { s with wlSecEraseCycleCount := 0, wlDummySecPos := s.wlDummySecPos + 1 } :=
    if_pos ((g.atEnd_iff hs).mpr h)
  rw [hadv]
  exact ⟨rfl, rfl⟩

theorem Geometry.agreeState_moved (g : Geometry d) (hs : s.InRange d) : AgreeState d img (d.moved s img) := by
  have hle := g.pageAddr_le hs.pos_le
  intro a ha
  unfold WlDevice.moved copyRange
  rw [if_neg (by omega)]

theorem AgreeOutside.agreeState (g : Geometry d) (hs : s.InRange d)
    (h : AgreeOutside (d.pageAddr s.wlDummySecPos.toNat) d.page img img') : AgreeState d img img' := by
  have hle := g.pageAddr_le hs.pos_le
  exact fun a ha => h a (by omega)

theorem Steady.of_agreeState (g : Geometry d) (hrec : 16 ≤ d.record) {p : Nat} (h : AgreeState d img img')
    (hst : Steady d s p mc img) : Steady d s p mc img' := hst.congr g hrec h.copy1 (h.copy2 g)

/-- The content in the old layout and in the new one, once the dummy page holds the data of the next page. -/
theorem Geometry.view_of_moved (g : Geometry d) (hs : s.InRange d) {img img' : Image} (h : AgreeData d (d.moved s img) img') :
    SameContent d (d.view s img') (d.view s img) ∧ SameContent d (d.view s.advanced img') (d.view s img) := by
  constructor
  · intro x hx
    rw [g.view_congr h, g.view_agreeOutside]
    intro a ha
    unfold WlDevice.moved copyRange
    rw [if_neg (by omega)]
  · intro x hx
    rw [g.view_congr h, g.view_moved hs hx]

/-- The flash is laid out as the state `s'` says, and holds content `v`. -/
structure Laid (d : WlDevice) (s s' : WlState) (v img : Image) : Prop where
  phase : Phase d s s'.wlDummySecPos.toNat s'.wlDummySecMoveCount img
  content : SameContent d (d.view s' img) v

/-- The state after both records are programmed, and before the headers are rewritten at the end of a round. -/
theorem Steady.marked (g : Geometry d) (hrec : 16 ≤ d.record) (hs : s.InRange d)
    (h : Steady d s s.wlDummySecPos.toNat s.wlDummySecMoveCount img) {b b' : List UInt8} (hb : IsRecord d s b)
    (hb' : IsRecord d s b') (k : Nat) :
    (s.wlDummySecPos.toNat < d.pages →
      Steady d s s.advanced.wlDummySecPos.toNat s.advanced.wlDummySecMoveCount (d.marked s b (b'.take k) img)) ∧
    (d.AtEnd s → Steady d s d.pages s.wlDummySecMoveCount (d.marked s b (b'.take k) img)) := by
  have hmoved := h.of_agreeState g hrec (g.agreeState_moved hs)
  have htake : b.take d.record = b := List.take_of_length_le (le_of_eq hb.1)
  constructor
  · intro hp
    obtain ⟨hpos, hmc⟩ := g.advanced_of_lt hs hp
    have hmark := (hmoved.mark1_early g hrec hp hb d.record).1
    rw [htake] at hmark
    rw [hpos, hmc]
    exact (hmark (mark_ok hrec hb (hmoved.clean1 hp))).mark2 g hrec hb' k
  · intro hend
    have hend' : s.wlDummySecPos.toNat = d.pages := hend
    rw [hend'] at hmoved
    have hmark := hmoved.mark1_late g hrec (le_of_eq hb.1)
    rw [← hend'] at hmark ⊢
    exact hmark.mark2 g hrec hb' k

/-- At the end of a round the last position is marked in copy 2 before the headers are rewritten. -/
theorem Steady.marked_last (g : Geometry d) (hrec : 16 ≤ d.record) (hs : s.InRange d)
    (h : Steady d s s.wlDummySecPos.toNat s.wlDummySecMoveCount img) {b b' : List UInt8} (hb : IsRecord d s b)
    (hb' : IsRecord d s b') (hend : d.AtEnd s) :
    RecOk d d.addrState2 s.wlDeviceId d.pages (d.marked s b b' img) := by
  have hmoved := h.of_agreeState g hrec (g.agreeState_moved hs)
  have hend' : s.wlDummySecPos.toNat = d.pages := hend
  rw [hend'] at hmoved
  have hmark := hmoved.mark1_late g hrec (le_of_eq hb.1)
  rw [← hend'] at hmark ⊢
  exact mark_ok hrec hb' (hmark.clean2 _ hs.pos_le)

/-- A cut while the data is moved and the records are written. -/
theorem Steady.moveCut (g : Geometry d) (hrec : 16 ≤ d.record) (hs : s.InRange d)
    (h : Steady d s s.wlDummySecPos.toNat s.wlDummySecMoveCount img) (hcut : MoveCut d s img img') :
    Laid d s s (d.view s img) img' ∨ Laid d s s.advanced (d.view s img) img' := by
  have hmoved := h.of_agreeState g hrec (g.agreeState_moved hs)
  cases hcut with
  | move hagree =>
      left
      refine ⟨.steady (h.of_agreeState g hrec (hagree.agreeState g hs)), fun x _ => ?_⟩
      rw [g.view_agreeOutside hagree]
  | mark1 hb k =>
      obtain ⟨hold, hnew⟩ := g.view_of_moved hs (agreeData_mark g.copy1 s.wlDummySecPos.toNat _)
      rcases Nat.lt_or_ge s.wlDummySecPos.toNat d.pages with hp | hp
      · obtain ⟨hok, hnot⟩ := hmoved.mark1_early g hrec hp hb k
        obtain ⟨hpos, hmc⟩ := g.advanced_of_lt hs hp
        rw [← hpos, ← hmc] at hok
        rcases Decidable.em (RecOk d d.addrState1 s.wlDeviceId s.wlDummySecPos.toNat
          (d.mark d.addrState1 s.wlDummySecPos.toNat (_ : List UInt8) (d.moved s img))) with e | e
        · exact Or.inr ⟨.steady (hok e), hnew⟩
        · exact Or.inl ⟨.steady (hnot e), hold⟩
      · have hend : s.wlDummySecPos.toNat = d.pages := le_antisymm hs.pos_le hp
        left
        refine ⟨.steady ?_, hold⟩
        rw [hend] at hmoved ⊢
        exact hmoved.mark1_late g hrec (hb.take_length k)
  | mark2 hb hb' k =>
      obtain ⟨hold, hnew⟩ := g.view_of_moved hs (g.agreeData_marked _ _)
      obtain ⟨hlt, hend⟩ := h.marked g hrec hs hb hb' k
      rcases Nat.lt_or_ge s.wlDummySecPos.toNat d.pages with hp | hp
      · exact Or.inr ⟨.steady (hlt hp), hnew⟩
      · have e : s.wlDummySecPos.toNat = d.pages := le_antisymm hs.pos_le hp
        have hsteady := hend e
        rw [← e] at hsteady
        exact Or.inl ⟨.steady hsteady, hold⟩

theorem RewriteCut.agreeData {addr : UInt32} (hc : StateCopy d addr) {s' : WlState} (g : Geometry d)
    (h : RewriteCut d addr s' img img') : AgreeData d img img' := by
  have hge := hc.ge
  exact fun a ha => rewriteCut_outside g h (Or.inl (by omega))

theorem RewriteCut.copy1 (g : Geometry d) {s' : WlState} (h : RewriteCut d d.addrState2 s' img img') :
    CopySame d d.addrState1 img img' := by
  have h2 := g.state2_eq
  exact fun a _ ha => rewriteCut_outside g h (Or.inl (by omega))

theorem RewriteCut.copy2 (g : Geometry d) {s' : WlState} (h : RewriteCut d d.addrState1 s' img img') :
    CopySame d d.addrState2 img img' := by
  have h2 := g.state2_eq
  exact fun a ha _ => rewriteCut_outside g h (Or.inr (by omega))

/-- The state area when copy 1 holds the header of a new round and copy 2 is rewritten. -/
theorem phase_rewrite2 (g : Geometry d) (hrec : 16 ≤ d.record) (hwhole : WholeHeader d s d.addrState2 img')
    (header1 : stateAt d.addrState1 img = s.hdr mc) (erased : ∀ i ≤ d.pages, SlotErased d d.addrState1 i img)
    (h : RewriteCut d d.addrState2 (s.hdr mc) img img') :
    img' = img ∨ Phase d s 0 mc img' := by
  have hpages := g.pages_lt_half
  have hcopy1 := h.copy1 g
  have hheader1 : stateAt d.addrState1 img' = s.hdr mc := by rw [hcopy1.stateAt g, header1]
  have herased := hcopy1.erased g hrec erased
  rcases rewriteCut_cases g hrec hpages hwhole h with e | e | ⟨e, e'⟩
  · exact Or.inl e
  · exact Or.inr (.wrap3 hheader1 e herased)
  · refine Or.inr (.steady (.early g.pages_pos hheader1 e (fun i hi => absurd hi (Nat.not_lt_zero i))
      (herased 0 (Nat.zero_le _)).clean (herased 0 (Nat.zero_le _)).not_ok (fun i _ hi => herased i hi) ?_))
    exact fun i hi => (e' i hi).clean

/-- A cut while the dummy page moves on leaves a flash laid out as before or as after the move. -/
theorem Steady.advanceCut (g : Geometry d) (hrec : 16 ≤ d.record) (hs : s.InRange d)
    (h : Steady d s s.wlDummySecPos.toNat s.wlDummySecMoveCount img) (hcut : AdvanceCut d s img img')
    (hwhole : Whole d s img') : Laid d s s (d.view s img) img' ∨ Laid d s s.advanced (d.view s img) img' := by
  have hpages := g.pages_lt_half
  cases hcut with
  | move hcut => exact h.moveCut g hrec hs hcut
  | @header1 b b' _ hb hb' hend hrw =>
      obtain ⟨hpos, hadv⟩ := g.advanced_of_end hs hend
      have hmarked := (h.marked g hrec hs hb hb' d.record).2 hend
      rw [List.take_of_length_le (le_of_eq hb'.1)] at hmarked
      have hlast := h.marked_last g hrec hs hb hb' hend
      obtain ⟨hold, hnew⟩ := g.view_of_moved hs ((g.agreeData_marked b b').trans (hrw.agreeData g.copy1 g))
      have hcopy2 := hrw.copy2 g
      have hheader2 : stateAt d.addrState2 img' = s.hdr s.wlDummySecMoveCount := by
        rw [hcopy2.stateAt g, hmarked.header2]
      have hclean2 := hcopy2.clean g hrec hmarked.clean2
      rw [hadv] at hrw
      rcases rewriteCut_cases g hrec hpages hwhole.1 hrw with e | e | ⟨e, e'⟩
      · left
        refine ⟨.steady ?_, hold⟩
        rw [e, show s.wlDummySecPos.toNat = d.pages from hend]
        exact hmarked
      · left
        refine ⟨?_, hold⟩
        rw [show s.wlDummySecPos.toNat = d.pages from hend]
        exact .wrap1 e hheader2 ((RecOk.congr (hcopy2.slot g hrec le_rfl)).mpr hlast) hclean2
      · right
        refine ⟨?_, hnew⟩
        rw [hpos]
        exact .wrap2 e hheader2 e' hclean2
  | @header2 b b' _ hb hb' hend hrw =>
      obtain ⟨hpos, hadv⟩ := g.advanced_of_end hs hend
      have hmarked := (h.marked g hrec hs hb hb' d.record).2 hend
      rw [List.take_of_length_le (le_of_eq hb'.1)] at hmarked
      obtain ⟨-, hnew⟩ := g.view_of_moved hs (((g.agreeData_marked b b').trans (agreeData_rewriteCopy g.copy1)).trans
        (hrw.agreeData g.copy2 g))
      obtain ⟨e, e'⟩ := rewriteCopy_done g hrec d.addrState1 s.advanced (d.marked s b b' img)
      have hcopy2 : CopySame d d.addrState2 (d.marked s b b' img)
          (rewriteCopy d d.addrState1 s.advanced (d.marked s b b' img)) := rewriteCut_done.copy2 g
      rw [hadv] at e hrw
      right
      refine ⟨?_, hnew⟩
      rw [hpos]
      rw [hadv] at e' hcopy2
      rcases phase_rewrite2 g hrec hwhole.2 e e' hrw with rfl | hphase
      · exact .wrap2 e (by rw [hcopy2.stateAt g, hmarked.header2]) e' (hcopy2.clean g hrec hmarked.clean2)
      · exact hphase

/-- A completed move leaves the state area steady, laid out for the next position. -/
theorem Steady.advanceDone (g : Geometry d) (hrec : 16 ≤ d.record) (hs : s.InRange d)
    (h : Steady d s s.wlDummySecPos.toNat s.wlDummySecMoveCount img) (hdone : AdvanceDone d s img img') :
    Steady d s s.advanced.wlDummySecPos.toNat s.advanced.wlDummySecMoveCount img' := by
  obtain ⟨b, b', hb, hb', ⟨hend, rfl⟩ | ⟨hend, rfl⟩⟩ := hdone
  · obtain ⟨hpos, hadv⟩ := g.advanced_of_end hs hend
    obtain ⟨e1, e1'⟩ := rewriteCopy_done g hrec d.addrState1 s.advanced (d.marked s b b' img)
    obtain ⟨e2, e2'⟩ := rewriteCopy_done g hrec d.addrState2 s.advanced
      (rewriteCopy d d.addrState1 s.advanced (d.marked s b b' img))
    have hcopy1 : CopySame d d.addrState1 (rewriteCopy d d.addrState1 s.advanced (d.marked s b b' img))
        (rewriteCopy d d.addrState2 s.advanced (rewriteCopy d d.addrState1 s.advanced (d.marked s b b' img))) :=
      rewriteCut_done.copy1 g
    have herased := hcopy1.erased g hrec e1'
    rw [hpos]
    refine .early g.pages_pos (by rw [hcopy1.stateAt g, e1]; exact hadv) (e2.trans hadv)
      (fun i hi => absurd hi (Nat.not_lt_zero i)) (herased 0 (Nat.zero_le _)).clean
      (herased 0 (Nat.zero_le _)).not_ok (fun i _ hi => herased i hi) fun i hi => (e2' i hi).clean
  · have hp : s.wlDummySecPos.toNat < d.pages := lt_of_le_of_ne hs.pos_le hend
    have hmarked := (h.marked g hrec hs hb hb' d.record).1 hp
    rwa [List.take_of_length_le (le_of_eq hb'.1)] at hmarked

end Advance

end EspIdf.WearLevelling
