import EspIdf.WearLevelling.Steps

/-!
# The logical content of a device

* `WlDevice.phys`, `WlDevice.view` : the physical address of a logical byte, and the content read through it;
* `view_eraseRange` : erasing a piece of a page erases it in the logical content;
* `view_moved` : moving the dummy page on does not change the logical content;
* `wp_write`, `wp_read`, `wp_eraseAt` : the accesses of the interface.
-/

namespace EspIdf.WearLevelling

open Word32 Crc32 NorFlash

/-- The physical address of logical byte `a`. -/
def WlDevice.phys (d : WlDevice) (s : WlState) (a : Nat) : Nat := d.pageAddr (d.slot s (a / d.page)) + a % d.page

/-- The content of the device, by logical address. -/
def WlDevice.view (d : WlDevice) (s : WlState) (img : Image) : Image := fun a => img (d.phys s a)

/-- Two images agree from the first copy of the state on. -/
def AgreeState (d : WlDevice) (img img' : Image) : Prop := ∀ a, d.addrState1.toNat ≤ a → img' a = img a

/-- Two images agree on the data pages. -/
def AgreeData (d : WlDevice) (img img' : Image) : Prop := ∀ a, a < d.addrState1.toNat → img' a = img a

section View
variable {d : WlDevice} {s : WlState} {img : Image}

theorem Geometry.phys_lt (g : Geometry d) (a : Nat) : d.phys s a < d.addrState1.toNat := by
  have hmod := Nat.mod_lt a g.page_pos
  have hle := g.pageAddr_le (show d.slot s (a / d.page) ≤ d.pages from RotatingGap.slot_le g.pages_pos)
  unfold WlDevice.phys
  omega

theorem Geometry.phys_toNat (g : Geometry d) (hs : s.InRange d) {a : UInt32} (ha : a.toNat < d.flashSize.toNat) :
    (d.cfg.wlPartitionStartAddr + d.calcAddr s a).toNat = d.phys s a.toNat := by
  have hlt := g.phys_lt (s := s) a.toNat
  have hsize := d.addrState1.toNat_lt
  have hcalc := g.calcAddr_toNat hs ha
  have e : d.phys s a.toNat = d.start + (d.calcAddr s a).toNat := by
    unfold WlDevice.phys WlDevice.pageAddr
    rw [hcalc, Nat.add_assoc]
  rw [e] at hlt ⊢
  exact toNat_add_of_lt (by change d.start + _ < _; omega)

/-- A piece of a logical page is a piece of its physical page. -/
theorem Geometry.phys_piece (g : Geometry d) (hs : s.InRange d) {a0 a len : Nat} (hpiece : a0 % d.page + len ≤ d.page)
    (h0 : a0 < d.flashSize.toNat) (ha : a < d.flashSize.toNat) :
    (d.phys s a0 ≤ d.phys s a ∧ d.phys s a < d.phys s a0 + len ↔ a0 ≤ a ∧ a < a0 + len) ∧
      (a0 ≤ a → a < a0 + len → d.phys s a - d.phys s a0 = a - a0) := by
  have hP := g.page_pos
  have hm0 := Nat.mod_lt a0 hP
  have hm := Nat.mod_lt a hP
  have hd0 := Nat.div_add_mod a0 d.page
  have hd := Nat.div_add_mod a d.page
  unfold WlDevice.phys
  by_cases hpage : a / d.page = a0 / d.page
  · rw [hpage] at hd ⊢
    omega
  · have hslot : d.slot s (a0 / d.page) ≠ d.slot s (a / d.page) := fun e =>
      hpage (RotatingGap.slot_inj hs.moveCount_lt (g.page_div_lt h0) (g.page_div_lt ha) e).symm
    have hdisj := pageAddr_disjoint (d := d) hslot
    have hout : ¬(a0 ≤ a ∧ a < a0 + len) := by
      rintro ⟨h1, h2⟩
      apply hpage
      apply le_antisymm
      · apply Nat.le_of_lt_succ
        apply Nat.div_lt_of_lt_mul
        rw [Nat.mul_succ]
        omega
      · exact Nat.div_le_div_right h1
    constructor
    · constructor
      · intro h
        omega
      · exact fun h => absurd h hout
    · exact fun h1 h2 => absurd ⟨h1, h2⟩ hout

theorem Geometry.view_eraseRange (g : Geometry d) (hs : s.InRange d) {a0 a len : Nat}
    (hpiece : a0 % d.page + len ≤ d.page) (h0 : a0 < d.flashSize.toNat) (ha : a < d.flashSize.toNat) :
    d.view s (eraseRange img (d.phys s a0) len) a = eraseRange (d.view s img) a0 len a := by
  obtain ⟨hiff, hsub⟩ := g.phys_piece hs hpiece h0 ha
  unfold WlDevice.view
  by_cases hin : a0 ≤ a ∧ a < a0 + len
  · obtain ⟨h1, h2⟩ := hiff.mpr hin
    rw [eraseRange_in h1 h2, eraseRange_in hin.1 hin.2]
  · have hout := fun h => hin (hiff.mp h)
    rw [eraseRange_out (by omega), eraseRange_out (by omega)]

theorem Geometry.view_congr (g : Geometry d) {img' : Image} (h : AgreeData d img img') : d.view s img' = d.view s img := by
  funext a
  exact h _ (g.phys_lt a)

/-- A change of the dummy page is not seen. -/
theorem Geometry.view_agreeOutside (g : Geometry d) {img' : Image}
    (h : AgreeOutside (d.pageAddr s.wlDummySecPos.toNat) d.page img img') : d.view s img' = d.view s img := by
  funext a
  have hm := Nat.mod_lt a g.page_pos
  have hne : d.slot s (a / d.page) ≠ s.wlDummySecPos.toNat := RotatingGap.slot_ne_gap _ _ _ _
  have hdisj := pageAddr_disjoint (d := d) hne
  apply h
  unfold WlDevice.phys
  omega

/-- The number of rounds after a move. -/
theorem Geometry.advanced_spec (g : Geometry d) (hs : s.InRange d) :
    s.advanced.wlDummySecPos.toNat = RotatingGap.nextGap d.pages s.wlDummySecPos.toNat ∧
      s.advanced.wlDummySecMoveCount.toNat =
        RotatingGap.nextRound d.pages s.wlDummySecPos.toNat s.wlDummySecMoveCount.toNat ∧
      s.advanced.InRange d := by
  have hlt := g.pages_lt
  have hpos := hs.pos_le
  have hmc := hs.moveCount_lt
  have hmax := hs.maxPos
  have hiff := g.atEnd_iff hs
  have h1 : (1 : UInt32).toNat = 1 := rfl
  have hp1 : (s.wlDummySecPos + 1).toNat = s.wlDummySecPos.toNat + 1 := toNat_add_of_lt (by rw [h1]; omega)
  have hm1 : (s.wlDummySecMoveCount + 1).toNat = s.wlDummySecMoveCount.toNat + 1 :=
    toNat_add_of_lt (by rw [h1]; omega)
  have hmax1 : (s.wlPartMaxSecPos - 1).toNat = d.pages := by
    rw [toNat_sub_of_le (by rw [h1]; omega), h1, hmax, Nat.add_sub_cancel]
  have hround : s.wlPartMaxSecPos - 1 ≤ s.wlDummySecMoveCount + 1 ↔ d.pages ≤ s.wlDummySecMoveCount.toNat + 1 := by
    rw [UInt32.le_iff_toNat_le, hm1, hmax1]
  unfold RotatingGap.nextGap RotatingGap.nextRound
  by_cases hend : s.wlPartMaxSecPos ≤ s.wlDummySecPos + 1
  · have hat : s.wlDummySecPos.toNat = d.pages := hiff.mp hend
    have hadv : s.advanced =
        WlState.wrap { s with wlSecEraseCycleCount := 0, wlDummySecPos := s.wlDummySecPos + 1 } := if_pos hend
    have hcount : s.advanced.wlDummySecMoveCount.toNat =
        if d.pages ≤ s.wlDummySecMoveCount.toNat + 1 then 0 else s.wlDummySecMoveCount.toNat + 1 := by
      rw [hadv]
      unfold WlState.wrap
      dsimp only
      simp only [hround]
      split_ifs
      · rfl
      · exact hm1
    have hp : s.advanced.wlDummySecPos.toNat = 0 := by
      rw [hadv]
      rfl
    have hmax' : s.advanced.wlPartMaxSecPos.toNat = d.pages + 1 := by
      rw [hadv]
      exact hmax
    rw [if_pos (by omega), if_pos (by omega)]
    refine ⟨hp, hcount, hmax', by rw [hp]; omega, ?_⟩
    rw [hcount]
    split_ifs <;> omega
  · have hat : s.wlDummySecPos.toNat ≠ d.pages := fun e => hend (hiff.mpr e)
    have hadv : s.advanced = { s with wlSecEraseCycleCount := 0, wlDummySecPos := s.wlDummySecPos + 1 } := if_neg hend
    rw [if_neg (by omega), if_neg (by omega), hadv]
    exact ⟨hp1, rfl, hmax, by change (s.wlDummySecPos + 1).toNat ≤ _; omega, hmc⟩

/-- The data read after the dummy page has moved on is the data read before. -/
theorem Geometry.view_moved (g : Geometry d) (hs : s.InRange d) {a : Nat} (ha : a < d.flashSize.toNat) :
    d.view s.advanced (d.moved s img) a = d.view s img a := by
  obtain ⟨hpos, hmc, -⟩ := g.advanced_spec hs
  have hmod := Nat.mod_lt a g.page_pos
  have hslot : d.slot s.advanced (a / d.page) =
      if d.slot s (a / d.page) = RotatingGap.nextGap d.pages s.wlDummySecPos.toNat then s.wlDummySecPos.toNat
      else d.slot s (a / d.page) := by
    unfold WlDevice.slot
    rw [hpos, hmc]
    exact RotatingGap.slot_next hs.pos_le hs.moveCount_lt (g.page_div_lt ha)
  unfold WlDevice.view WlDevice.phys WlDevice.moved copyRange
  rw [hslot]
  split_ifs with h1 h2 h2
  · rw [h1]
    congr 1
    omega
  · omega
  · have hne : d.slot s (a / d.page) ≠ s.wlDummySecPos.toNat := RotatingGap.slot_ne_gap _ _ _ _
    have hdisj := pageAddr_disjoint (d := d) hne
    omega
  · rfl

/-! ## Pieces of a page -/

/-- A range inside the device. -/
structure Inside (d : WlDevice) (a n : Nat) : Prop where
  pos : 0 < n
  le : a + n ≤ d.flashSize.toNat

/-- The range starts at a page boundary, or each page it runs into lies right behind the page before. -/
def RunsOn (d : WlDevice) (s : WlState) (a n : Nat) : Prop :=
  d.page ∣ a ∨ ∀ l, a < (l + 1) * d.page → (l + 1) * d.page < a + n → d.slot s (l + 1) = d.slot s l + 1

/-- Where byte `k` of an access from `a` is read or written: an access is split into pieces of a page, and a piece runs
on from where its first byte lives. -/
def WlDevice.accessed (d : WlDevice) (s : WlState) (a k : Nat) : Nat :=
  d.phys s (a + k / d.page * d.page) + k % d.page

/-- The bytes an access from `a` meets, by their number. -/
def WlDevice.seen (d : WlDevice) (s : WlState) (a : Nat) (img : Image) : Image := fun k => img (d.accessed s a k)

/-- Bytes of one page lie side by side. -/
theorem phys_add {a t : Nat} (h : a % d.page + t < d.page) : d.phys s (a + t) = d.phys s a + t := by
  have hdiv : (a + t) / d.page = a / d.page := by
    have e := Nat.div_add_mod a d.page
    rw [show a + t = a % d.page + t + d.page * (a / d.page) by omega, Nat.add_mul_div_left _ _ (by omega),
      Nat.div_eq_of_lt h, Nat.zero_add]
  have hmod : (a + t) % d.page = a % d.page + t := by
    have e := Nat.div_add_mod a d.page
    have e' := Nat.div_add_mod (a + t) d.page
    rw [hdiv] at e'
    omega
  unfold WlDevice.phys
  rw [hdiv, hmod, Nat.add_assoc]

/-- Where the first byte of a page lives. -/
theorem phys_page (l : Nat) (hp : 0 < d.page) : d.phys s (l * d.page) = d.pageAddr (d.slot s l) := by
  unfold WlDevice.phys
  rw [Nat.mul_div_cancel _ hp, Nat.mul_mod_left, Nat.add_zero]

theorem Geometry.phys_inj (g : Geometry d) (hs : s.InRange d) {a a' : Nat} (ha : a < d.flashSize.toNat)
    (ha' : a' < d.flashSize.toNat) (h : d.phys s a = d.phys s a') : a = a' := by
  have hm := Nat.mod_lt a g.page_pos
  have hm' := Nat.mod_lt a' g.page_pos
  have hpage : a / d.page = a' / d.page := by
    by_contra hne
    have hslot : d.slot s (a / d.page) ≠ d.slot s (a' / d.page) := fun e =>
      hne (RotatingGap.slot_inj hs.moveCount_lt (g.page_div_lt ha) (g.page_div_lt ha') e)
    have hdisj := pageAddr_disjoint (d := d) hslot
    unfold WlDevice.phys at h
    omega
  have e := Nat.div_add_mod a d.page
  have e' := Nat.div_add_mod a' d.page
  unfold WlDevice.phys at h
  rw [hpage] at h e
  omega

theorem accessed_piece {a i t : Nat} (ht : t < d.page) :
    d.accessed s a (i * d.page + t) = d.phys s (a + i * d.page) + t := by
  have hdiv : (i * d.page + t) / d.page = i := by
    rw [Nat.mul_comm, Nat.mul_add_div (by omega), Nat.div_eq_of_lt ht, Nat.add_zero]
  have hmod : (i * d.page + t) % d.page = t := by rw [Nat.mul_comm, Nat.mul_add_mod, Nat.mod_eq_of_lt ht]
  unfold WlDevice.accessed
  rw [hdiv, hmod]

/-- On a range that runs on, each byte is accessed where it lives. -/
theorem Geometry.accessed_eq (g : Geometry d) {a n k : Nat} (h : RunsOn d s a n) (hk : k < n) :
    d.accessed s a k = d.phys s (a + k) := by
  have hP := g.page_pos
  have hkm := Nat.mod_lt k hP
  have hkd := Nat.div_add_mod k d.page
  rw [Nat.mul_comm] at hkd
  have hstart : (a + k / d.page * d.page) % d.page = a % d.page := Nat.add_mul_mod_self_right _ _ _
  have hsum : a + k / d.page * d.page + k % d.page = a + k := by omega
  unfold WlDevice.accessed
  generalize hc : a + k / d.page * d.page = c at *
  rcases Nat.lt_or_ge (a % d.page + k % d.page) d.page with hin | hout
  · rw [← hsum, phys_add (by rw [hstart]; exact hin)]
  · -- the piece runs over the end of its page
    have hcd := Nat.div_add_mod c d.page
    have hcm := Nat.mod_lt c hP
    rw [Nat.mul_comm] at hcd
    have hnext : (c / d.page + 1) * d.page = c / d.page * d.page + d.page := by rw [Nat.add_mul, Nat.one_mul]
    rcases h with hdvd | hnextTo
    · rw [Nat.mod_eq_zero_of_dvd hdvd] at hout
      omega
    · have hadj := hnextTo (c / d.page) (by omega) (by omega)
      have hrest : (c / d.page + 1) * d.page % d.page + (c % d.page + k % d.page - d.page) < d.page := by
        rw [Nat.mul_mod_left]
        omega
      have hlast := phys_add (s := s) hrest
      have haddr : d.pageAddr (d.slot s (c / d.page) + 1) = d.pageAddr (d.slot s (c / d.page)) + d.page := by
        unfold WlDevice.pageAddr
        rw [Nat.add_mul, Nat.one_mul, Nat.add_assoc]
      rw [phys_page _ hP, hadj, haddr] at hlast
      rw [← hsum, show c + k % d.page = (c / d.page + 1) * d.page + (c % d.page + k % d.page - d.page) by omega, hlast]
      unfold WlDevice.phys
      omega

/-- A piece of a range that runs on lies on the data pages. -/
theorem Geometry.piece_le (g : Geometry d) {a n i len : Nat} (h : RunsOn d s a n) (hlen : 0 < len)
    (hpage : len ≤ d.page) (hle : i * d.page + len ≤ n) : d.phys s (a + i * d.page) + len ≤ d.addrState1.toNat := by
  have hlast := accessed_piece (s := s) (a := a) (i := i) (show len - 1 < d.page by omega)
  have hlt := g.phys_lt (s := s) (a + (i * d.page + (len - 1)))
  rw [g.accessed_eq h (by omega)] at hlast
  omega

theorem readBytes_seen {img : Image} {a i len : Nat} (hpage : len ≤ d.page) :
    readBytes img (d.phys s (a + i * d.page)) len = readBytes (d.seen s a img) (i * d.page) len := by
  unfold readBytes
  apply List.map_congr_left
  intro t ht
  rw [List.mem_range] at ht
  unfold WlDevice.seen
  rw [accessed_piece (by omega)]

/-! ## Accesses -/

/-- An access at page granularity: from the start of a page, or inside one page. -/
structure PageAccess (d : WlDevice) (a n : Nat) : Prop where
  pos : 0 < n
  le : a + n ≤ d.flashSize.toNat
  pagewise : d.page ∣ a ∨ a % d.page + n ≤ d.page

theorem PageAccess.inside {a n : Nat} (h : PageAccess d a n) : Inside d a n := ⟨h.pos, h.le⟩

theorem PageAccess.runsOn {a n : Nat} (h : PageAccess d a n) : RunsOn d s a n := by
  rcases h.pagewise with hdvd | hin
  · exact Or.inl hdvd
  · right
    intro l h1 h2
    have e := Nat.div_add_mod a d.page
    have hlt : a / d.page < l + 1 := by
      by_contra hge
      have := Nat.mul_le_mul_right d.page (Nat.le_of_not_lt hge)
      rw [Nat.mul_comm] at e
      omega
    have := Nat.mul_le_mul_right d.page (Nat.succ_le_of_lt hlt)
    rw [Nat.succ_mul] at this
    rw [Nat.mul_comm] at e
    omega

theorem Inside.chunkCount_toNat {a : Nat} {n : UInt32} (h : Inside d a n.toNat) :
    (d.chunkCount n).toNat = (n.toNat - 1) / d.page := by
  have hpos := h.pos
  have h1 : (1 : UInt32).toNat = 1 := rfl
  unfold WlDevice.chunkCount
  rw [UInt32.toNat_div, toNat_sub_of_le (by rw [h1]; omega), h1]
  rfl

/-- A whole page before the last piece of an access. -/
theorem Inside.chunk_lt {a n i : Nat} (h : Inside d a n) (hi : i < (n - 1) / d.page) : i * d.page + d.page < n := by
  have hpos := h.pos
  have hle := Nat.mul_le_mul_right d.page (Nat.succ_le_of_lt hi)
  have hdiv := Nat.div_mul_le_self (n - 1) d.page
  rw [Nat.succ_mul] at hle
  omega

/-- The last piece of an access. -/
theorem Geometry.lastChunk (g : Geometry d) {a n : Nat} (h : Inside d a n) :
    (n - 1) / d.page * d.page < n ∧ n - (n - 1) / d.page * d.page ≤ d.page := by
  have hpos := h.pos
  have hsplit := Nat.div_add_mod (n - 1) d.page
  have hmod := Nat.mod_lt (n - 1) g.page_pos
  rw [Nat.mul_comm] at hsplit
  omega

theorem wp_ready {C : Image → Prop} {r : WlRam} {Q : WlState → WlRam → Image → Prop} (hC : C img)
    (hi : r.initialized = true) (hQ : Q r.state r img) : Wp C ready Q r img := by
  unfold ready
  apply wp_bind
  apply wp_getRam hC
  rw [if_neg (by rw [hi]; decide)]
  exact wp_pure hC hQ

/-- The address of piece `i` of an access. -/
theorem Geometry.pieceAddr (g : Geometry d) {a : UInt32} {n i : Nat} (h : Inside d a.toNat n)
    (hi : i ≤ (n - 1) / d.page) : (a + UInt32.ofNat i * d.cfg.wlPageSize).toNat = a.toNat + i * d.page := by
  have hflash := g.flashSize_lt
  have hle := h.le
  have hdiv := Nat.div_mul_le_self (n - 1) d.page
  have hmul := Nat.mul_le_mul_right d.page hi
  have hi32 := Nat.le_mul_of_pos_right i g.page_pos
  have e : (UInt32.ofNat i * d.cfg.wlPageSize).toNat = i * d.page := by
    rw [toNat_mul_of_lt (by rw [toNat_ofNat_of_lt (by omega)]; change i * d.page < _; omega),
      toNat_ofNat_of_lt (by omega)]
    rfl
  rw [toNat_add_of_lt (by rw [e]; omega), e]

/-- The offset of the last piece of an access. -/
theorem Geometry.lastOffset (g : Geometry d) {a n : UInt32} (h : Inside d a.toNat n.toNat) :
    (d.chunkCount n * d.cfg.wlPageSize).toNat = (n.toNat - 1) / d.page * d.page := by
  have hflash := g.flashSize_lt
  have hle := h.le
  have hcount := h.chunkCount_toNat
  have hdiv := Nat.div_mul_le_self (n.toNat - 1) d.page
  rw [toNat_mul_of_lt (by rw [hcount]; change _ * d.page < _; omega), hcount]
  rfl

theorem Geometry.lastAddr (g : Geometry d) {a n : UInt32} (h : Inside d a.toNat n.toNat) :
    (a + d.chunkCount n * d.cfg.wlPageSize).toNat = a.toNat + (n.toNat - 1) / d.page * d.page := by
  have hflash := g.flashSize_lt
  have hle := h.le
  have hoff := g.lastOffset h
  have hdiv := Nat.div_mul_le_self (n.toNat - 1) d.page
  rw [toNat_add_of_lt (by rw [hoff]; omega), hoff]

/-- Where piece `i` of an access is read or written. -/
theorem Geometry.piece_toNat (g : Geometry d) (hs : s.InRange d) {a addr : UInt32} {n i : Nat} (h : Inside d a.toNat n)
    (hi : i * d.page < n) (haddr : addr.toNat = a.toNat + i * d.page) :
    (d.cfg.wlPartitionStartAddr + d.calcAddr s addr).toNat = d.phys s (a.toNat + i * d.page) := by
  have hle := h.le
  have e := g.phys_toNat hs (a := addr) (by omega)
  rwa [haddr] at e

/-! ## Writing -/

/-- The state area is unchanged, and so is the logical content outside `n` bytes from `a`. -/
structure Touches (d : WlDevice) (s : WlState) (a n : Nat) (img img' : Image) : Prop where
  state : AgreeState d img img'
  view : ∀ x < d.flashSize.toNat, x < a ∨ a + n ≤ x → d.view s img' x = d.view s img x

/-- The state area is unchanged, and `xs` is programmed into the logical content. -/
structure Programmed (d : WlDevice) (s : WlState) (a : Nat) (xs : List UInt8) (img img' : Image) : Prop where
  state : AgreeState d img img'
  view : ∀ x < d.flashSize.toNat, d.view s img' x = program (d.view s img) a xs x

/-- `xs` is programmed where the bytes from `a` live, and nothing else. -/
structure Placed (d : WlDevice) (s : WlState) (a : Nat) (xs : List UInt8) (img img' : Image) : Prop where
  home : ∀ k < xs.length, img' (d.phys s (a + k)) = img (d.phys s (a + k)) &&& xs.getD k 0xFF
  other : ∀ q, (∀ k < xs.length, q ≠ d.phys s (a + k)) → img' q = img q

section Placed
variable {a n : Nat} {xs ys : List UInt8} {img img' : Image}

theorem Placed.nil : Placed d s a [] img img :=
  ⟨fun k hk => absurd hk (Nat.not_lt_zero k), fun _ _ => rfl⟩

theorem Placed.programmed (g : Geometry d) (hs : s.InRange d) (hle : a + xs.length ≤ d.flashSize.toNat)
    (h : Placed d s a xs img img') : Programmed d s a xs img img' where
  state := by
    intro q hq
    apply h.other
    intro k _
    have hlt := g.phys_lt (s := s) (a + k)
    omega
  view := by
    intro x hx
    unfold WlDevice.view
    by_cases hin : a ≤ x ∧ x < a + xs.length
    · have e := h.home (x - a) (by omega)
      rw [show a + (x - a) = x by omega] at e
      rw [e, program_in hin.1 hin.2]
    · rw [program_out (by omega)]
      apply h.other
      intro k hk e
      have := g.phys_inj hs hx (by omega) e
      omega

theorem Placed.touches (g : Geometry d) (hs : s.InRange d) (hn : xs.length ≤ n) (hle : a + n ≤ d.flashSize.toNat)
    (h : Placed d s a xs img img') : Touches d s a n img img' where
  state := (h.programmed g hs (by omega)).state
  view := by
    intro x hx hout
    rw [(h.programmed g hs (by omega)).view x hx, program_out (by omega)]

/-- One more piece, where its bytes live. -/
theorem Placed.next (g : Geometry d) (hs : s.InRange d) (hle : a + xs.length + ys.length ≤ d.flashSize.toNat) {p : Nat}
    (hp : ∀ t < ys.length, d.phys s (a + (xs.length + t)) = p + t) (h : Placed d s a xs img img') :
    Placed d s a (xs ++ ys) img (program img' p ys) where
  home := by
    intro k hk
    rw [List.length_append] at hk
    rcases Nat.lt_or_ge k xs.length with hlt | hge
    · have hout : d.phys s (a + k) < p ∨ p + ys.length ≤ d.phys s (a + k) := by
        by_contra hin
        have e := hp (d.phys s (a + k) - p) (by omega)
        have hpos : a + (xs.length + (d.phys s (a + k) - p)) = a + k := by
          apply g.phys_inj hs
          · omega
          · omega
          · omega
        omega
      rw [program_out hout, h.home k hlt, List.getD_append _ _ _ _ hlt]
    · have e := hp (k - xs.length) (by omega)
      rw [show xs.length + (k - xs.length) = k by omega] at e
      have hold : img' (d.phys s (a + k)) = img (d.phys s (a + k)) := by
        apply h.other
        intro j hj e'
        have := g.phys_inj hs (by omega) (by omega) e'
        omega
      rw [program_in (by omega) (by omega), hold, List.getD_append_right _ _ _ _ hge, e, Nat.add_sub_cancel_left]
  other := by
    intro q hq
    have hout : q < p ∨ p + ys.length ≤ q := by
      by_contra hin
      refine hq (xs.length + (q - p)) (by rw [List.length_append]; omega) ?_
      rw [hp (q - p) (by omega)]
      omega
    rw [program_out hout]
    exact h.other q fun k hk => hq k (by rw [List.length_append]; omega)

end Placed

/-- One piece of a write. -/
theorem wp_writePiece {C : Image → Prop} (g : Geometry d) {r : WlRam} (hs : s.InRange d) {a addr : UInt32}
    {n i : Nat} {xs ys : List UInt8} {img' : Image} (hin : Inside d a.toNat n) (hrun : RunsOn d s a.toNat n)
    (hxs : xs.length = i * d.page) (haddr : addr.toNat = a.toNat + i * d.page) (hpos : 0 < ys.length)
    (hpage : ys.length ≤ d.page) (hle : i * d.page + ys.length ≤ n) (h : Placed d s a.toNat xs img img')
    (hC : ∀ zs img'', zs.length ≤ n → Placed d s a.toNat zs img img'' → C img'') :
    Wp C (d.partition.write (d.cfg.wlPartitionStartAddr + d.calcAddr s addr) ys)
      (fun _ r' img'' => r' = r ∧ Placed d s a.toNat (xs ++ ys) img img'') r img' := by
  have hphys := g.piece_toNat hs hin (by omega) haddr
  have hend := g.piece_le hrun hpos hpage hle
  have hstate := g.state1_le
  have hflash := hin.le
  have hp : ∀ t < ys.length, d.phys s (a.toNat + (xs.length + t)) = d.phys s (a.toNat + i * d.page) + t := by
    intro t ht
    rw [hxs, ← g.accessed_eq hrun (by omega), accessed_piece (by omega)]
  apply wp_partitionWrite
  · rw [hphys]
    omega
  · intro k
    rw [hphys]
    have hlen : (ys.take k).length ≤ ys.length := by
      rw [List.length_take]
      exact Nat.min_le_right _ _
    apply hC (xs ++ ys.take k)
    · rw [List.length_append]
      omega
    · exact h.next g hs (by omega) fun t ht => hp t (by omega)
  · rw [hphys]
    exact ⟨rfl, h.next g hs (by omega) hp⟩

/-- A write of a range that runs on: each byte goes where it lives. -/
theorem wp_writeRange (g : Geometry d) {r : WlRam} (hr : Running d r) (hinit : r.initialized = true) {a : UInt32}
    {src : List UInt8} (h : Inside d a.toNat src.length) (hrun : RunsOn d r.state a.toNat src.length) :
    Wp (fun img' => ∃ zs, zs.length ≤ src.length ∧ Placed d r.state a.toNat zs img img') (d.write a src)
      (fun _ r' img' => r' = r ∧ Placed d r.state a.toNat src img img') r img := by
  have hs := hr.inRange
  have hflash := g.flashSize_lt
  have hle := h.le
  have hpos := h.pos
  have hlen : (UInt32.ofNat src.length).toNat = src.length := toNat_ofNat_of_lt (by omega)
  have hin : Inside d a.toNat (UInt32.ofNat src.length).toNat := by rwa [hlen]
  have hcount := hin.chunkCount_toNat
  have hmul := g.lastOffset hin
  have haddr := g.lastAddr hin
  rw [hlen] at hcount hmul haddr
  obtain ⟨hlastlt, hlast⟩ := g.lastChunk h
  have hC : ∀ zs img'', zs.length ≤ src.length → Placed d r.state a.toNat zs img img'' →
      ∃ zs, zs.length ≤ src.length ∧ Placed d r.state a.toNat zs img img'' := fun zs _ hz hp => ⟨zs, hz, hp⟩
  unfold WlDevice.write
  apply wp_bind
  apply wp_ready (hC [] img (Nat.zero_le _) .nil) hinit
  dsimp only
  apply wp_bind
  rw [hcount]
  refine wp_mono (wp_loop (fun i r' img' => r' = r ∧ Placed d r.state a.toNat (src.take (i * d.page)) img img')
    ?_ ?_ ⟨rfl, by rw [Nat.zero_mul, List.take_zero]; exact .nil⟩) ?_
  · rintro i _ img' hi ⟨rfl, hprog⟩
    have hlt := h.chunk_lt hi
    have hxs : (src.take (i * d.page)).length = i * d.page := by
      rw [List.length_take]
      omega
    have hys : ((src.drop (i * d.page)).take d.page).length = d.page := by
      rw [List.length_take, List.length_drop]
      omega
    have hnext : src.take (i * d.page) ++ (src.drop (i * d.page)).take d.page = src.take ((i + 1) * d.page) := by
      rw [Nat.add_mul, Nat.one_mul, List.take_add]
    rw [← hnext]
    change Wp _ (d.partition.write _ ((src.drop (i * d.page)).take d.page)) _ _ _
    have hpage := g.page_pos
    exact wp_writePiece g hs h hrun hxs (g.pieceAddr h (by omega)) (by omega) (by omega) (by omega) hprog hC
  · rintro _ img' ⟨rfl, hprog⟩
    exact hC _ _ (by rw [List.length_take]; exact Nat.min_le_right _ _) hprog
  · rintro _ _ img' ⟨rfl, hprog⟩
    have hxs : (src.take ((src.length - 1) / d.page * d.page)).length = (src.length - 1) / d.page * d.page := by
      rw [List.length_take]
      omega
    have hall : src = src.take ((src.length - 1) / d.page * d.page) ++ src.drop ((src.length - 1) / d.page * d.page) :=
      (List.take_append_drop _ _).symm
    rw [hmul]
    conv => enter [3, a, r', img'']; rw [hall]
    exact wp_writePiece g hs h hrun hxs haddr (by rw [List.length_drop]; omega) (by rw [List.length_drop]; omega)
      (by rw [List.length_drop]; omega) hprog hC

theorem wp_write (g : Geometry d) {r : WlRam} (hr : Running d r) (hinit : r.initialized = true) {a : UInt32}
    {src : List UInt8} (h : PageAccess d a.toNat src.length) :
    Wp (Touches d r.state a.toNat src.length img) (d.write a src)
      (fun _ r' img' => r' = r ∧ Programmed d r.state a.toNat src img img') r img := by
  have hs := hr.inRange
  refine wp_mono (wp_crash_mono (wp_writeRange g hr hinit h.inside h.runsOn) ?_) ?_
  · rintro img' ⟨zs, hz, hp⟩
    exact hp.touches g hs hz h.le
  · rintro _ r' img' ⟨hr', hp⟩
    exact ⟨hr', hp.programmed g hs h.le⟩

/-! ## Reading -/

theorem wp_readChunks {C : Image → Prop} (g : Geometry d) {r : WlRam} (hs : s.InRange d) {a n : UInt32}
    (h : Inside d a.toNat n.toNat) (hrun : RunsOn d s a.toNat n.toNat) (hC : C img) (m i : Nat)
    (hm : i + m ≤ (n.toNat - 1) / d.page) :
    Wp C (d.readChunks s a i m) (fun bytes r' img' =>
      bytes = readBytes (d.seen s a.toNat img) (i * d.page) (m * d.page) ∧ r' = r ∧ img' = img) r img := by
  induction m generalizing i with
  | zero =>
      apply wp_pure hC
      refine ⟨?_, rfl, rfl⟩
      rw [Nat.zero_mul]
      rfl
  | succ m ih =>
      have hlt := h.chunk_lt (show i < (n.toNat - 1) / d.page by omega)
      have hphys := g.piece_toNat hs h (show i * d.page < n.toNat by omega)
        (g.pieceAddr h (show i ≤ (n.toNat - 1) / d.page by omega))
      have hend := g.piece_le (i := i) hrun g.page_pos le_rfl (by omega)
      have hstate := g.state1_le
      have hpage : d.cfg.wlPageSize.toNat = d.page := rfl
      unfold WlDevice.readChunks
      apply wp_bind
      apply wp_partitionRead hC
      · rw [hphys, hpage]
        omega
      · rw [hphys, hpage, readBytes_seen le_rfl]
        apply wp_bind
        refine wp_mono (ih (i + 1) (by omega)) ?_
        rintro rest _ _ ⟨rfl, rfl, rfl⟩
        apply wp_pure hC
        refine ⟨?_, rfl, rfl⟩
        rw [show (m + 1) * d.page = d.page + m * d.page by ring, readBytes_append,
          show (i + 1) * d.page = i * d.page + d.page by ring]

/-- A read of a range that runs on: each byte comes from where it lives. -/
theorem wp_readRange {C : Image → Prop} (g : Geometry d) {r : WlRam} (hr : Running d r) (hinit : r.initialized = true)
    {a n : UInt32} (h : Inside d a.toNat n.toNat) (hrun : RunsOn d r.state a.toNat n.toNat) (hC : C img) :
    Wp C (d.read a n) (fun bytes r' img' =>
      bytes = readBytes (d.view r.state img) a.toNat n.toNat ∧ r' = r ∧ img' = img) r img := by
  have hs := hr.inRange
  obtain ⟨hlastlt, hlast⟩ := g.lastChunk h
  have hcount := h.chunkCount_toNat
  have hoff := g.lastOffset h
  have hphys := g.piece_toNat hs h hlastlt (g.lastAddr h)
  have hend := g.piece_le (i := (n.toNat - 1) / d.page) hrun (show 0 < n.toNat - (n.toNat - 1) / d.page * d.page by omega)
    hlast (by omega)
  have hstate := g.state1_le
  have hrest : (n - d.chunkCount n * d.cfg.wlPageSize).toNat = n.toNat - (n.toNat - 1) / d.page * d.page := by
    rw [toNat_sub_of_le (by rw [hoff]; omega), hoff]
  have hview : readBytes (d.view r.state img) a.toNat n.toNat = readBytes (d.seen r.state a.toNat img) 0 n.toNat := by
    unfold readBytes WlDevice.view WlDevice.seen
    apply List.map_congr_left
    intro k hk
    rw [List.mem_range] at hk
    rw [Nat.zero_add, g.accessed_eq hrun hk]
  have hsplit := readBytes_append (d.seen r.state a.toNat img) 0 ((n.toNat - 1) / d.page * d.page)
    (n.toNat - (n.toNat - 1) / d.page * d.page)
  rw [Nat.zero_add, show (n.toNat - 1) / d.page * d.page + (n.toNat - (n.toNat - 1) / d.page * d.page) = n.toNat by
    omega] at hsplit
  unfold WlDevice.read
  apply wp_bind
  apply wp_ready hC hinit
  dsimp only
  apply wp_bind
  rw [hcount]
  refine wp_mono (wp_readChunks g hs h hrun hC _ 0 (by omega)) ?_
  rintro bytes _ _ ⟨rfl, rfl, rfl⟩
  apply wp_bind
  apply wp_partitionRead hC
  · rw [hphys, hrest]
    omega
  · rw [hphys, hrest, readBytes_seen hlast]
    apply wp_pure hC
    refine ⟨?_, rfl, rfl⟩
    rw [hview, Nat.zero_mul]
    exact hsplit.symm

theorem wp_read {C : Image → Prop} (g : Geometry d) {r : WlRam} (hr : Running d r) (hinit : r.initialized = true)
    {a n : UInt32} (h : PageAccess d a.toNat n.toNat) (hC : C img) :
    Wp C (d.read a n) (fun bytes r' img' =>
      bytes = readBytes (d.view r.state img) a.toNat n.toNat ∧ r' = r ∧ img' = img) r img :=
  wp_readRange g hr hinit h.inside h.runsOn hC

/-! ## Erasing -/

/-- The physical end of a piece of a page. -/
theorem Geometry.phys_add_le (g : Geometry d) {a len : Nat} (hpiece : a % d.page + len ≤ d.page) :
    d.phys s a + len ≤ d.addrState1.toNat := by
  have hle := g.pageAddr_le (show d.slot s (a / d.page) ≤ d.pages from RotatingGap.slot_le g.pages_pos)
  unfold WlDevice.phys
  omega

/-- A sector of the logical content. -/
structure SectorAccess (d : WlDevice) (sector : UInt32) : Prop where
  le : sector.toNat * d.sector + d.sector ≤ d.flashSize.toNat

/-- Erasing the sector at a logical address. -/
theorem wp_eraseAt (g : Geometry d) {r : WlRam} (hs : s.InRange d) {sector : UInt32} (h : SectorAccess d sector) :
    Wp (Touches d s (sector.toNat * d.sector) d.sector img)
      (d.partition.eraseSector ((d.cfg.wlPartitionStartAddr +
        d.calcAddr s (sector * d.cfg.flashSectorSize)) / d.cfg.flashSectorSize))
      (fun _ r' img' => r' = r ∧ AgreeState d img img' ∧ ∀ x < d.flashSize.toNat,
        d.view s img' x = eraseRange (d.view s img) (sector.toNat * d.sector) d.sector x) r img := by
  have hflash := g.flashSize_lt
  have hsec := g.sector_pos
  have hle := h.le
  have hmul : (sector * d.cfg.flashSectorSize).toNat = sector.toNat * d.sector :=
    toNat_mul_of_lt (by change _ * d.sector < _; omega)
  have hphys := g.phys_toNat hs (a := sector * d.cfg.flashSectorSize) (by rw [hmul]; omega)
  rw [hmul] at hphys
  -- the sector lies in one page
  obtain ⟨k, hk⟩ := g.page_dvd
  have hmod : (sector.toNat * d.sector) % d.page = d.sector * (sector.toNat % k) := by
    rw [hk, Nat.mul_comm sector.toNat, Nat.mul_mod_mul_left]
  have hkpos : 0 < k := by
    rcases Nat.eq_zero_or_pos k with rfl | hk0
    · have := g.page_pos
      omega
    · exact hk0
  have hpiece : (sector.toNat * d.sector) % d.page + d.sector ≤ d.page := by
    have := Nat.mul_le_mul_left d.sector (Nat.succ_le_of_lt (Nat.mod_lt sector.toNat hkpos))
    rw [hmod, hk]
    rwa [Nat.mul_succ] at this
  have hdvd : d.sector ∣ d.phys s (sector.toNat * d.sector) := by
    unfold WlDevice.phys
    rw [hmod]
    exact Nat.dvd_add (Nat.dvd_add g.start_dvd (Dvd.dvd.mul_left g.page_dvd _)) (Nat.dvd_mul_right _ _)
  have hend := g.phys_add_le (s := s) hpiece
  have hstate := g.state1_le
  have hback : ((d.cfg.wlPartitionStartAddr + d.calcAddr s (sector * d.cfg.flashSectorSize)) / d.cfg.flashSectorSize *
      d.cfg.flashSectorSize).toNat = d.phys s (sector.toNat * d.sector) := by
    have hlt := d.addrState1.toNat_lt
    have hdiv : d.phys s (sector.toNat * d.sector) / d.cfg.flashSectorSize.toNat * d.cfg.flashSectorSize.toNat =
        d.phys s (sector.toNat * d.sector) := Nat.div_mul_cancel hdvd
    rw [toNat_mul_of_lt (by rw [UInt32.toNat_div, hphys, hdiv]; omega), UInt32.toNat_div, hphys, hdiv]
  have hview : ∀ m ≤ d.sector, ∀ x < d.flashSize.toNat,
      d.view s (eraseRange img (d.phys s (sector.toNat * d.sector)) m) x =
        eraseRange (d.view s img) (sector.toNat * d.sector) m x := by
    intro m hm x hx
    exact g.view_eraseRange hs (by omega) (by omega) hx
  have hagree : ∀ m ≤ d.sector, AgreeState d img (eraseRange img (d.phys s (sector.toNat * d.sector)) m) := by
    intro m hm x hx
    exact eraseRange_out (by omega)
  unfold Partition.eraseSector
  rw [g.eraseSize]
  apply wp_partitionErase
  · rw [hback]
    change _ + d.sector ≤ _
    omega
  · rw [hback, g.eraseSize]
    exact hdvd
  · rw [g.eraseSize]
  · intro m hm
    rw [hback]
    refine ⟨hagree m hm, ?_⟩
    intro x hx hout
    change m ≤ d.sector at hm
    rw [hview m hm x hx, eraseRange_out (by omega)]
  · rw [hback]
    exact ⟨rfl, hagree _ le_rfl, hview _ le_rfl⟩

end View

end EspIdf.WearLevelling
