import Mathlib.Data.Nat.Bitwise

/-!
# Bit fields

* `Within` : the bits of a value lie in a mask;
* `Within.select_left`, `Within.select_right` : values in disjoint masks, packed with `|||` and read back;
* `OneHot` : exactly one bit is set;
* `append_extract16`, `append_extract32`, `extract_append` : a word as its octets.
-/

namespace BitField

variable {w : Nat} {x y m n k : BitVec w}

/-- All bits of `x` are in the mask `m`. -/
def Within (x m : BitVec w) : Prop := x &&& m = x

instance : Decidable (Within x m) := inferInstanceAs (Decidable (x &&& m = x))

theorem within_and : Within (x &&& m) m := by
  unfold Within
  rw [BitVec.and_assoc, BitVec.and_self]

theorem within_zero : Within (0#w) m := BitVec.zero_and

theorem Within.mono (hx : Within x m) (hm : Within m n) : Within x n := by
  unfold Within at *
  rw [← hx, BitVec.and_assoc, hm]

theorem Within.or (hx : Within x m) (hy : Within y n) : Within (x ||| y) (m ||| n) := by
  unfold Within at *
  ext i hi
  have hxi := congrArg (fun v => v[i]) hx
  have hyi := congrArg (fun v => v[i]) hy
  simp only [BitVec.getElem_and, BitVec.getElem_or] at hxi hyi ⊢
  have hbits : ∀ a b c d : Bool, (a && c) = a → (b && d) = b → ((a || b) && (c || d)) = (a || b) := by decide
  exact hbits _ _ _ _ hxi hyi

/-- What lies in a mask has nothing in a disjoint one. -/
theorem Within.and_eq_zero (hy : Within y n) (h : n &&& m = 0#w) : y &&& m = 0#w := by
  unfold Within at hy
  rw [← hy, BitVec.and_assoc, h, BitVec.and_zero]

theorem Within.select_left (hx : Within x m) (hy : Within y n) (h : n &&& m = 0#w) : (x ||| y) &&& m = x := by
  rw [BitVec.and_or_distrib_right, hy.and_eq_zero h, BitVec.or_zero]
  exact hx

theorem Within.select_right (hx : Within x m) (hy : Within y n) (h : m &&& n = 0#w) : (x ||| y) &&& n = y := by
  rw [BitVec.or_comm]
  exact hy.select_left hx h

/-- The fields of an octet put together again, seen through a mask that they cover. -/
theorem and_or_and (h : (m ||| n) &&& k = k) : k &&& (x &&& m ||| x &&& n) = k &&& x := by
  rw [← BitVec.and_or_distrib_left, BitVec.and_comm, BitVec.and_assoc, h, BitVec.and_comm]

theorem and_and_of_le (h : m &&& k = k) : k &&& (x &&& m) = k &&& x := by
  rw [BitVec.and_comm, BitVec.and_assoc, h, BitVec.and_comm]

theorem Within.extract (h : Within x m) (start len : Nat) :
    Within (x.extractLsb' start len) (m.extractLsb' start len) := by
  unfold Within at *
  rw [← BitVec.extractLsb'_and, h]

section ThreeFields

variable {z l : BitVec w}

theorem Within.select_first (hx : Within x m) (hy : Within y n) (hz : Within z l) (h : n &&& m = 0#w)
    (h' : l &&& m = 0#w) : (x ||| y ||| z) &&& m = x := by
  rw [BitVec.or_assoc]
  exact hx.select_left (hy.or hz) (by rw [BitVec.and_or_distrib_right, h, h', BitVec.or_zero])

theorem Within.select_second (hx : Within x m) (hy : Within y n) (hz : Within z l) (h : m &&& n = 0#w)
    (h' : l &&& n = 0#w) : (x ||| y ||| z) &&& n = y := by
  rw [BitVec.or_comm x]
  exact hy.select_first hx hz h h'

theorem Within.select_third (hx : Within x m) (hy : Within y n) (hz : Within z l) (h : m &&& l = 0#w)
    (h' : n &&& l = 0#w) : (x ||| y ||| z) &&& l = z :=
  (hx.or hy).select_right hz (by rw [BitVec.and_or_distrib_right, h, h', BitVec.or_zero])

theorem and_or_and_and (h : (m ||| n ||| l) &&& k = k) : k &&& (x &&& m ||| x &&& n ||| x &&& l) = k &&& x := by
  rw [← BitVec.and_or_distrib_left]
  exact and_or_and h

end ThreeFields

/-- Exactly one bit is set. -/
def OneHot (x : BitVec w) : Prop := x ≠ 0#w ∧ x &&& (x - 1#w) = 0#w

instance : Decidable (OneHot x) := inferInstanceAs (Decidable (_ ∧ _))

theorem OneHot.exists_twoPow (h : OneHot x) : ∃ i, x = BitVec.twoPow w i := by
  obtain ⟨hne, hand⟩ := h
  have hpos : x.toNat ≠ 0 := fun hzero => hne (BitVec.eq_of_toNat_eq hzero)
  have hlt := x.isLt
  have hsub : (x - 1#w).toNat = x.toNat - 1 := by
    have hw : 1 % 2 ^ w = 1 := Nat.mod_eq_of_lt (by omega)
    rw [BitVec.toNat_sub_of_le (by rw [BitVec.le_def, BitVec.toNat_ofNat, hw]; omega), BitVec.toNat_ofNat, hw]
  have hnat : x.toNat &&& (x.toNat - 1) = 0 := by
    have hcast := congrArg BitVec.toNat hand
    rwa [BitVec.toNat_and, hsub] at hcast
  obtain ⟨i, hi⟩ := Nat.ne_zero_and_sub_one_eq_zero_iff_isPowerOfTwo.mp ⟨hpos, hnat⟩
  refine ⟨i, BitVec.eq_of_toNat_eq ?_⟩
  rw [BitVec.toNat_twoPow, ← hi, Nat.mod_eq_of_lt hlt]

/-- A single bit that a value has in common with a mask lies in it. -/
theorem OneHot.within (h : OneHot x) (hoffered : y &&& x ≠ 0#w) : Within x y := by
  obtain ⟨i, rfl⟩ := h.exists_twoPow
  unfold Within
  rw [BitVec.and_twoPow] at hoffered
  rw [BitVec.twoPow_and]
  by_cases hbit : y.getLsbD i = true
  · exact if_pos hbit
  · exact absurd (if_neg hbit) hoffered

/-! ## Words and their octets -/

theorem append_extract16 (v : BitVec 16) : (v.extractLsb' 8 8 ++ v.extractLsb' 0 8 : BitVec 16) = v := by
  apply BitVec.eq_of_getLsbD_eq
  intro i hi
  simp only [BitVec.getLsbD_append, BitVec.getLsbD_extractLsb']
  grind

theorem append_extract32 (v : BitVec 32) :
    (v.extractLsb' 24 8 ++ v.extractLsb' 16 8 ++ v.extractLsb' 8 8 ++ v.extractLsb' 0 8 : BitVec 32) = v := by
  apply BitVec.eq_of_getLsbD_eq
  intro i hi
  simp only [BitVec.getLsbD_append, BitVec.getLsbD_extractLsb']
  grind

theorem extract_append_high {p q : Nat} (a : BitVec p) (b : BitVec q) : (a ++ b).extractLsb' q p = a := by
  rw [BitVec.extractLsb'_append_eq_of_le (Nat.le_refl q), Nat.sub_self, BitVec.extractLsb'_eq_self]

theorem extract_append_low {p q : Nat} (a : BitVec p) (b : BitVec q) : (a ++ b).extractLsb' 0 q = b := by
  rw [BitVec.extractLsb'_append_eq_of_add_le (Nat.zero_add q).le, BitVec.extractLsb'_eq_self]

theorem extract_append32 (a b c d : BitVec 8) :
    (a ++ b ++ c ++ d : BitVec 32).extractLsb' 0 8 = d ∧ (a ++ b ++ c ++ d : BitVec 32).extractLsb' 8 8 = c ∧
      (a ++ b ++ c ++ d : BitVec 32).extractLsb' 16 8 = b ∧ (a ++ b ++ c ++ d : BitVec 32).extractLsb' 24 8 = a := by
  refine ⟨extract_append_low _ d, ?_, ?_, ?_⟩
  · rw [BitVec.extractLsb'_append_eq_of_le (by decide)]
    exact extract_append_low _ c
  · rw [BitVec.extractLsb'_append_eq_of_le (by decide), BitVec.extractLsb'_append_eq_of_le (by decide)]
    exact extract_append_low _ b
  · rw [BitVec.extractLsb'_append_eq_of_le (by decide), BitVec.extractLsb'_append_eq_of_le (by decide),
      BitVec.extractLsb'_append_eq_of_le (by decide)]
    exact BitVec.extractLsb'_eq_self

end BitField
