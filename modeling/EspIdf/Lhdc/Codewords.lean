import EspIdf.Lhdc.Rice

/-!
# LHDC V5: the codewords of the Rice inverse

* `Codeword` : what a quotient is read from, the escape groups and the run of ones;
* `Codeword.shifts`, `Codeword.exact` : the shifts that put its quotient together, and the quotient without a bound;
* `CoeffCode`, `readCoeffs` : the codewords of all coefficients, `riceCoeffs_eq`;
* `Codeword.defined_iff` : when no shift is by 32 and the quotient has 32 bits.
-/

namespace EspIdf.Lhdc

/-- The two bits of an escape group, each of which is a symbol of the stream. -/
def groupBits (v1 v0 : S2Val) : Nat := ((v1.getD 0 : Sym) : Nat) <<< 1 ||| ((v0.getD 0 : Sym) : Nat)

structure Codeword where
  escaped : Bool
  groups : List Nat
  ones : Nat

/-- The groups packed from `shift` on, as `low` is. -/
def packAt (ub : BitVec 32 → Nat → BitVec 32) (low : BitVec 32) (shift : Nat) : List Nat → BitVec 32 × Nat
  | [] => (low, shift)
  | g :: groups => packAt ub (low ||| shl32 ub (BitVec.ofNat 32 g) shift) (shift + 2) groups

/-- The same without a bound on the bits. -/
def packExact (shift : Nat) : List Nat → Nat
  | [] => 0
  | g :: groups => g <<< shift ||| packExact (shift + 2) groups

namespace Codeword
variable (w : Codeword)

/-- What `rice_read_quotient` returns. -/
def value (ub : BitVec 32 → Nat → BitVec 32) : BitVec 32 :=
  if w.escaped then
    (packAt ub 0 0 w.groups).1 ||| shl32 ub (BitVec.ofNat 32 (w.ones + 1)) (packAt ub 0 0 w.groups).2
  else BitVec.ofNat 32 w.ones

/-- The amounts it shifts by: one for each group, and the last for the run of ones. -/
def shifts : List Nat := if w.escaped then (List.range (w.groups.length + 1)).map (2 * ·) else []

/-- The quotient, if there were no bound on its bits. -/
def exact : Nat := if w.escaped then packExact 0 w.groups ||| (w.ones + 1) <<< (2 * w.groups.length) else w.ones

/-- No shift is undefined, and the quotient has 32 bits. -/
def Defined : Prop := (∀ n ∈ w.shifts, n < 32) ∧ w.exact < 2 ^ 32

end Codeword

/-- What a coefficient is read from: its own symbol, a quotient, or a quotient above its symbol. -/
inductive CoeffCode
  | direct (s : Sym)
  | quotient (w : Codeword)
  | above (w : Codeword) (s : Sym)

namespace CoeffCode

def value (ub : BitVec 32 → Nat → BitVec 32) : CoeffCode → BitVec 32
  | direct s => BitVec.ofNat 32 (s : Nat)
  | quotient w => w.value ub + 2
  | above w s => w.value ub <<< 1 ||| BitVec.ofNat 32 (s : Nat)

/-- The shifts of the quotient, and those by which the caller shifts it. -/
def shifts : CoeffCode → List Nat
  | direct _ => []
  | quotient w => w.shifts
  | above w _ => w.shifts ++ [1]

def codeword : CoeffCode → Option Codeword
  | direct _ => none
  | quotient w => some w
  | above w _ => some w

/-- Every shift is by less than 32, and the quotient, if there is one, has 32 bits. -/
def Defined (c : CoeffCode) : Prop := (∀ n ∈ c.shifts, n < 32) ∧ ∀ w, c.codeword = some w → w.exact < 2 ^ 32

end CoeffCode

section reader
variable {ρ : Type} (sym : ρ → Nat → Option (S2Val × ρ))

def readGroups : Nat → ρ → Nat → Option (List Nat × ρ × Nat)
  | 0, _, _ => none
  | fuel + 1, z, j =>
    (sym z j).bind fun (v, z) =>
      if v = some 2 then
        (sym z (j + 1)).bind fun (v1, z) =>
          (sym z (j + 2)).bind fun (v0, z) =>
            (readGroups fuel z (j + 3)).map fun (groups, z, j) => (groupBits v1 v0 :: groups, z, j)
      else some ([], z, j)

def readCodeword (fuel : Nat) (z : ρ) (j : Nat) : Option (Codeword × ρ × Nat) :=
  (sym z j).bind fun (v, z) =>
    if v = some 2 then
      (readGroups sym fuel z j).bind fun (groups, z, j) =>
        (riceOnes sym fuel z j 0).bind fun (ones, z, j) =>
          (riceStop sym z j).map fun (z, j) => (⟨true, groups, ones⟩, z, j)
    else
      (riceOnesUpTo sym 3 z j 0).bind fun (ones, z, j) =>
        if ones = 3 then some (⟨false, [], 3⟩, z, j)
        else (riceStop sym z j).map fun (z, j) => (⟨false, [], ones⟩, z, j)

/-- The codewords of the coefficients from index `i` on. -/
def readCoeffs (fuel pivot2 : Nat) : List Sym → Nat → ρ → Nat → Option (List CoeffCode × ρ × Nat)
  | [], _, z, j => some ([], z, j)
  | s :: rest, i, z, j =>
    (if i ≤ pivot2 then
      if s = 2 then (readCodeword sym fuel z j).map fun (w, z, j) => (.quotient w, z, j)
      else some (.direct s, z, j)
    else (readCodeword sym fuel z j).map fun (w, z, j) => (.above w s, z, j)).bind fun (c, z, j) =>
        (readCoeffs fuel pivot2 rest (i + 1) z j).map fun (cs, z, j) => (c :: cs, z, j)

variable (ub : BitVec 32 → Nat → BitVec 32)

theorem groupBits_ofNat (v1 v0 : S2Val) : BitVec.ofNat 32 (groupBits v1 v0) = v1.bits <<< 1 ||| v0.bits := by
  unfold groupBits S2Val.bits
  generalize (v1.getD 0 : Sym) = b1
  generalize (v0.getD 0 : Sym) = b0
  revert b1 b0
  decide

theorem groupBits_le (v1 v0 : S2Val) : groupBits v1 v0 ≤ 6 := by
  unfold groupBits
  generalize (v1.getD 0 : Sym) = b1
  generalize (v0.getD 0 : Sym) = b0
  revert b1 b0
  decide

theorem riceGroups_eq (fuel : Nat) (z : ρ) (j : Nat) (low : BitVec 32) (shift : Nat) :
    riceGroups sym ub fuel z j low shift =
      (readGroups sym fuel z j).map fun (groups, z, j) => (packAt ub low shift groups, z, j) := by
  induction fuel generalizing z j low shift with
  | zero => rfl
  | succ fuel ih =>
    unfold riceGroups readGroups
    rcases sym z j with - | ⟨v, z⟩
    · rfl
    by_cases hv : v = some 2
    · simp only [Option.bind_some, if_pos hv]
      rcases sym z (j + 1) with - | ⟨v1, z⟩
      · rfl
      rcases hlow : sym z (j + 2) with - | ⟨v0, z'⟩
      · simp only [Option.bind_some, hlow, Option.bind_none, Option.map_none]
      simp only [Option.bind_some, hlow]
      rw [ih, Option.map_map]
      simp only [Function.comp_def, packAt, groupBits_ofNat]
    · simp only [Option.bind_some, if_neg hv, Option.map_some]
      rfl

theorem riceReadQuotient_eq (fuel : Nat) (z : ρ) (j : Nat) :
    riceReadQuotient sym ub fuel z j = (readCodeword sym fuel z j).map fun (w, z, j) => (w.value ub, z, j) := by
  unfold riceReadQuotient readCodeword
  rcases sym z j with - | ⟨v, z⟩
  · rfl
  by_cases hv : v = some 2
  · simp only [Option.bind_some, if_pos hv]
    rw [riceGroups_eq]
    rcases readGroups sym fuel z j with - | ⟨groups, z, j⟩
    · rfl
    simp only [Option.map_some, Option.bind_some]
    rcases riceOnes sym fuel z j 0 with - | ⟨ones, z, j⟩
    · rfl
    simp only [Option.bind_some, Option.map_map]
    rfl
  · simp only [Option.bind_some, if_neg hv]
    rcases riceOnesUpTo sym 3 z j 0 with - | ⟨ones, z, j⟩
    · rfl
    by_cases hthree : ones = 3
    · simp only [Option.bind_some, if_pos hthree, Option.map_some]
      rfl
    · simp only [Option.bind_some, if_neg hthree, Option.map_map]
      rfl

/-- The codewords determine the coefficients, the reader and its cursor. -/
theorem riceCoeffs_eq (fuel pivot2 : Nat) (s1 : List Sym) (i : Nat) (z : ρ) (j : Nat) :
    riceCoeffs sym ub fuel pivot2 s1 i z j =
      (readCoeffs sym fuel pivot2 s1 i z j).map fun (cs, z, j) => (cs.map (CoeffCode.value ub), z, j) := by
  induction s1 generalizing i z j with
  | nil => rfl
  | cons s rest ih =>
    unfold riceCoeffs readCoeffs
    rw [riceReadQuotient_eq]
    have hrest : ∀ (c : CoeffCode) (z : ρ) (j : Nat),
        (riceCoeffs sym ub fuel pivot2 rest (i + 1) z j).map (fun r => (c.value ub :: r.1, r.2)) =
          ((readCoeffs sym fuel pivot2 rest (i + 1) z j).map fun r => (c :: r.1, r.2)).map
            fun r => (r.1.map (CoeffCode.value ub), r.2) := fun c z j => by
      rw [ih, Option.map_map, Option.map_map]
      rfl
    by_cases hi : i ≤ pivot2
    · by_cases hs : s = 2
      · simp only [if_pos hi, if_pos hs]
        rcases readCodeword sym fuel z j with - | ⟨w, z, j⟩
        · rfl
        exact hrest (.quotient w) z j
      · simp only [if_pos hi, if_neg hs]
        exact hrest (.direct s) z j
    · simp only [if_neg hi]
      rcases readCodeword sym fuel z j with - | ⟨w, z, j⟩
      · rfl
      exact hrest (.above w s) z j

end reader

/-! ## When everything is defined -/

section defined
variable {groups : List Nat} {shift : Nat}

theorem packExact_lt (h : ∀ g ∈ groups, g ≤ 6) : packExact shift groups < 2 ^ (shift + 2 * groups.length + 1) := by
  induction groups generalizing shift with
  | nil => exact Nat.two_pow_pos _
  | cons g groups ih =>
    have hrest := @ih (shift + 2) fun x hx => h x (List.mem_cons_of_mem _ hx)
    have hg := h g List.mem_cons_self
    rw [List.length_cons]
    refine Nat.or_lt_two_pow ?_ (lt_of_lt_of_eq hrest (by congr 1; omega))
    rw [Nat.shiftLeft_eq]
    calc g * 2 ^ shift < 2 ^ 3 * 2 ^ shift := Nat.mul_lt_mul_of_pos_right (by omega) (Nat.two_pow_pos _)
      _ = 2 ^ (shift + 3) := by rw [← Nat.pow_add, Nat.add_comm]
      _ ≤ 2 ^ (shift + 2 * (groups.length + 1) + 1) := Nat.pow_le_pow_right (by norm_num) (by omega)

/-- Sixteen groups are too many, and with fewer of them the ones have to fit above. -/
theorem Codeword.defined_iff (w : Codeword) (hgroups : ∀ g ∈ w.groups, g ≤ 6) (hones : w.escaped = false → w.ones ≤ 3) :
    w.Defined ↔ w.escaped = false ∨ w.groups.length ≤ 15 ∧ w.ones + 1 < 4 ^ (16 - w.groups.length) := by
  obtain ⟨escaped, groups, ones⟩ := w
  cases escaped with
  | false =>
    have hsmall : ones ≤ 3 := hones rfl
    refine iff_of_true ⟨fun n hn => absurd hn List.not_mem_nil, ?_⟩ (.inl rfl)
    change ones < 2 ^ 32
    omega
  | true =>
    have hlast : 2 * groups.length ∈ (⟨true, groups, ones⟩ : Codeword).shifts :=
      List.mem_map.mpr ⟨groups.length, List.mem_range.mpr (Nat.lt_succ_self _), rfl⟩
    have hfits : groups.length ≤ 15 →
        ((⟨true, groups, ones⟩ : Codeword).exact < 2 ^ 32 ↔ ones + 1 < 4 ^ (16 - groups.length)) := by
      intro hlen
      have hpow : 4 ^ (16 - groups.length) * 2 ^ (2 * groups.length) = 2 ^ 32 := by
        rw [show 4 = 2 ^ 2 by norm_num, ← Nat.pow_mul, ← Nat.pow_add]
        congr 1
        omega
      have hlow : packExact 0 groups < 2 ^ 32 :=
        lt_of_lt_of_le (packExact_lt hgroups) (Nat.pow_le_pow_right (by norm_num) (by omega))
      have hshift : (ones + 1) <<< (2 * groups.length) < 2 ^ 32 ↔ ones + 1 < 4 ^ (16 - groups.length) := by
        rw [Nat.shiftLeft_eq, ← hpow]
        exact Nat.mul_lt_mul_right (Nat.two_pow_pos _)
      rw [← hshift]
      exact ⟨fun h => lt_of_le_of_lt Nat.right_le_or h, fun h => Nat.or_lt_two_pow hlow h⟩
    constructor
    · intro h
      have hlen : groups.length ≤ 15 := by
        have hlt := h.1 _ hlast
        omega
      exact .inr ⟨hlen, (hfits hlen).mp h.2⟩
    · rintro (hfalse | ⟨hlen, hlt⟩)
      · cases hfalse
      · refine ⟨fun n hn => ?_, (hfits hlen).mpr hlt⟩
        obtain ⟨i, hi, rfl⟩ := List.mem_map.mp hn
        have hlt := List.mem_range.mp hi
        dsimp only at hlt hlen ⊢
        omega

end defined

/-! ## The codewords of a stream -/

/-- The escape groups at the start of a stream; the last one may be cut off. -/
def escapes : List Sym → Nat
  | s :: _ :: _ :: rest => if s = 2 then escapes rest + 1 else 0
  | s :: _ => if s = 2 then 1 else 0
  | [] => 0

/-- The run of ones at the start of a stream. -/
def onesOf (stream : List Sym) : Nat := (stream.takeWhile (· = 1)).length

/-- The symbol that ends a run of ones, if it is a zero. -/
def stopOf (stream : List Sym) : Nat := if stream.head? = some 0 then 1 else 0

/-- The symbols of the codeword at the start of a stream. -/
def codeLen (stream : List Sym) : Nat :=
  let skip := 3 * escapes stream
  let run := onesOf (stream.drop skip)
  if skip = 0 ∧ 3 ≤ run then 3 else skip + run + stopOf (stream.drop (skip + run))

/-- The first `n` codewords of a stream, each with what follows it. -/
def starts : Nat → List Sym → List (List Sym)
  | 0, _ => []
  | n + 1, stream => stream :: starts n (stream.drop (codeLen stream))

/-- At most fifteen escape groups, and a run of ones that fits above their bits. -/
def Fits (stream : List Sym) : Prop :=
  escapes stream = 0 ∨
    escapes stream ≤ 15 ∧ onesOf (stream.drop (3 * escapes stream)) + 1 < 4 ^ (16 - escapes stream)

instance decidableFits (stream : List Sym) : Decidable (Fits stream) := inferInstanceAs (Decidable (_ ∨ _))

/-- The coefficients from index `i` on that read a quotient. -/
def quotientCount (pivot2 : Nat) : Nat → List Sym → Nat
  | _, [] => 0
  | i, s :: rest => (if i ≤ pivot2 ∧ s ≠ 2 then 0 else 1) + quotientCount pivot2 (i + 1) rest

section array
variable {s2 : List Sym}

theorem drop_cons_of_getElem? {j : Nat} {s : Sym} (h : s2[j]? = some s) : s2.drop j = s :: s2.drop (j + 1) := by
  obtain ⟨hj, rfl⟩ := List.getElem?_eq_some_iff.mp h
  exact List.drop_eq_getElem_cons hj

theorem escapes_two (rest : List Sym) : escapes (2 :: rest) = escapes (rest.drop 2) + 1 := by
  rcases rest with - | ⟨a, - | ⟨b, rest⟩⟩ <;> rfl

theorem escapes_ne_two {s : Sym} (h : s ≠ 2) (rest : List Sym) : escapes (s :: rest) = 0 := by
  rcases rest with - | ⟨a, - | ⟨b, rest⟩⟩ <;> exact if_neg h

theorem escapes_drop {j : Nat} (h : s2[j]? = some 2) : escapes (s2.drop j) = escapes (s2.drop (j + 3)) + 1 := by
  rw [drop_cons_of_getElem? h, escapes_two, List.drop_drop]

theorem escapes_drop_ne {j : Nat} (h : s2[j]? ≠ some 2) : escapes (s2.drop j) = 0 := by
  rw [← List.head?_drop] at h
  cases hdrop : s2.drop j with
  | nil => rfl
  | cons s rest =>
    rw [hdrop, List.head?_cons] at h
    exact escapes_ne_two (fun hs => h (congrArg some hs)) rest

theorem onesOf_drop {j : Nat} (h : s2[j]? = some 1) : onesOf (s2.drop j) = onesOf (s2.drop (j + 1)) + 1 := by
  rw [drop_cons_of_getElem? h, onesOf, List.takeWhile_cons, if_pos (decide_eq_true rfl), List.length_cons]
  rfl

theorem onesOf_drop_ne {j : Nat} (h : s2[j]? ≠ some 1) : onesOf (s2.drop j) = 0 := by
  rw [← List.head?_drop] at h
  cases hdrop : s2.drop j with
  | nil => rfl
  | cons s rest =>
    rw [hdrop, List.head?_cons] at h
    rw [onesOf, List.takeWhile_cons_of_neg (by simpa using fun hs => h (congrArg some hs))]
    rfl

theorem readGroups_array (fuel j : Nat) (h0 : 0 < fuel) (h : s2.length < fuel + j) :
    ∃ groups, readGroups arrayAt fuel s2 j = some (groups, s2, j + 3 * escapes (s2.drop j)) ∧
      groups.length = escapes (s2.drop j) ∧ ∀ g ∈ groups, g ≤ 6 := by
  induction fuel generalizing j with
  | zero => omega
  | succ fuel ih =>
    simp only [readGroups, arrayAt, Option.bind_some]
    by_cases htwo : s2[j]? = some 2
    · obtain ⟨hj, -⟩ := List.getElem?_eq_some_iff.mp htwo
      obtain ⟨groups, hread, hlen, hle⟩ := ih (j + 3) (by omega) (by omega)
      have hend : j + 3 * (escapes (s2.drop (j + 3)) + 1) = j + 3 + 3 * escapes (s2.drop (j + 3)) := by omega
      rw [if_pos htwo, hread, escapes_drop htwo, hend]
      refine ⟨groupBits s2[j + 1]? s2[j + 2]? :: groups, rfl, congrArg (· + 1) hlen, fun g hg => ?_⟩
      rcases List.mem_cons.mp hg with rfl | hg
      · exact groupBits_le _ _
      · exact hle g hg
    · rw [if_neg htwo, escapes_drop_ne htwo]
      exact ⟨[], rfl, rfl, fun g hg => nomatch hg⟩

theorem riceOnes_array (fuel j ones : Nat) (h0 : 0 < fuel) (h : s2.length < fuel + j) :
    riceOnes arrayAt fuel s2 j ones = some (ones + onesOf (s2.drop j), s2, j + onesOf (s2.drop j)) := by
  induction fuel generalizing j ones with
  | zero => omega
  | succ fuel ih =>
    simp only [riceOnes, arrayAt, Option.bind_some]
    by_cases hone : s2[j]? = some 1
    · obtain ⟨hj, -⟩ := List.getElem?_eq_some_iff.mp hone
      rw [if_pos hone, ih (j + 1) _ (by omega) (by omega), onesOf_drop hone, Nat.add_right_comm ones, Nat.add_right_comm j]
      rfl
    · rw [if_neg hone, onesOf_drop_ne hone]
      rfl

theorem riceOnesUpTo_array (left j ones : Nat) :
    riceOnesUpTo arrayAt left s2 j ones =
      some (ones + min left (onesOf (s2.drop j)), s2, j + min left (onesOf (s2.drop j))) := by
  induction left generalizing j ones with
  | zero => simp [riceOnesUpTo]
  | succ left ih =>
    simp only [riceOnesUpTo, arrayAt, Option.bind_some]
    by_cases hone : s2[j]? = some 1
    · rw [if_pos hone, ih (j + 1), onesOf_drop hone, Nat.add_min_add_right, Nat.add_right_comm ones, Nat.add_right_comm j]
      rfl
    · rw [if_neg hone, onesOf_drop_ne hone, Nat.min_zero]
      rfl

theorem riceStop_array (j : Nat) : riceStop arrayAt s2 j = some (s2, j + stopOf (s2.drop j)) := by
  simp only [riceStop, arrayAt, Option.map_some, stopOf, List.head?_drop]
  split <;> rfl

/-- A quotient is read from the codeword that the stream goes on with. -/
theorem readCodeword_array (fuel j : Nat) (h : s2.length < fuel) :
    ∃ w, readCodeword arrayAt fuel s2 j = some (w, s2, j + codeLen (s2.drop j)) ∧ (w.Defined ↔ Fits (s2.drop j)) := by
  unfold readCodeword
  simp only [arrayAt, Option.bind_some]
  by_cases htwo : s2[j]? = some 2
  · obtain ⟨groups, hgroups, hlen, hle⟩ := @readGroups_array s2 fuel j (by omega) (by omega)
    have hpos : 0 < escapes (s2.drop j) := by rw [escapes_drop htwo]; exact Nat.succ_pos _
    rw [if_pos htwo, hgroups]
    simp only [Option.bind_some]
    rw [riceOnes_array fuel _ 0 (by omega) (by omega)]
    simp only [Option.bind_some]
    rw [riceStop_array]
    refine ⟨⟨true, groups, 0 + onesOf (s2.drop (j + 3 * escapes (s2.drop j)))⟩, ?_, ?_⟩
    · rw [codeLen, if_neg fun hc => by omega, List.drop_drop, List.drop_drop]
      simp only [Option.map_some, Nat.add_assoc]
    · rw [Codeword.defined_iff _ hle (fun hfalse => absurd hfalse (by simp)), Fits, hlen, List.drop_drop, Nat.zero_add]
      exact ⟨fun hw => .inr (hw.resolve_left (by simp)), fun hf => .inr (hf.resolve_left (by omega))⟩
  · rw [if_neg htwo, riceOnesUpTo_array]
    simp only [Option.bind_some, Nat.zero_add]
    have hfits : Fits (s2.drop j) := .inl (escapes_drop_ne htwo)
    by_cases hthree : min 3 (onesOf (s2.drop j)) = 3
    · rw [if_pos hthree, hthree]
      refine ⟨⟨false, [], 3⟩, ?_, iff_of_true ?_ hfits⟩
      · rw [codeLen, escapes_drop_ne htwo, if_pos ⟨rfl, by rw [List.drop_zero]; omega⟩]
      · exact (Codeword.defined_iff _ (fun g hg => absurd hg List.not_mem_nil) fun _ => Nat.le_refl 3).mpr (.inl rfl)
    · have hrun : min 3 (onesOf (s2.drop j)) = onesOf (s2.drop j) := by omega
      rw [if_neg hthree, riceStop_array, hrun]
      refine ⟨⟨false, [], onesOf (s2.drop j)⟩, ?_, iff_of_true ?_ hfits⟩
      · rw [codeLen, escapes_drop_ne htwo, if_neg fun hc => hthree (by have hrun := hc.2; rw [List.drop_zero] at hrun; omega)]
        simp only [Option.map_some, Nat.mul_zero, Nat.add_zero, Nat.zero_add, List.drop_drop, Nat.add_assoc]
      · exact (Codeword.defined_iff _ (fun g hg => absurd hg List.not_mem_nil) fun _ => by dsimp only; omega).mpr (.inl rfl)

theorem CoeffCode.defined_quotient (w : Codeword) : (CoeffCode.quotient w).Defined ↔ w.Defined :=
  and_congr_right fun _ => ⟨fun h => h w rfl, fun h _ hw => Option.some.inj hw ▸ h⟩

theorem CoeffCode.defined_above (w : Codeword) (s : Sym) : (CoeffCode.above w s).Defined ↔ w.Defined := by
  refine and_congr ⟨fun h n hn => h n (List.mem_append_left _ hn), fun h n hn => ?_⟩
    ⟨fun h => h w rfl, fun h _ hw => Option.some.inj hw ▸ h⟩
  rcases List.mem_append.mp hn with hn | hn
  · exact h n hn
  · rw [List.mem_singleton.mp hn]
    norm_num

/-- The quotients of the coefficients are read from the codewords of the stream in turn. -/
theorem readCoeffs_array (fuel pivot2 : Nat) (s1 : List Sym) (i j : Nat) (h : s2.length < fuel) :
    ∃ cs k, readCoeffs arrayAt fuel pivot2 s1 i s2 j = some (cs, s2, k) ∧
      ((∀ c ∈ cs, c.Defined) ↔ ∀ t ∈ starts (quotientCount pivot2 i s1) (s2.drop j), Fits t) := by
  induction s1 generalizing i j with
  | nil => exact ⟨[], j, rfl, iff_of_true (fun c hc => nomatch hc) fun t ht => nomatch ht⟩
  | cons s rest ih =>
    obtain ⟨w, hw, hdefined⟩ := readCodeword_array fuel j h
    unfold readCoeffs quotientCount
    rw [hw]
    by_cases hdirect : i ≤ pivot2 ∧ s ≠ 2
    · obtain ⟨cs, k, hcs, hrest⟩ := ih (i + 1) j
      refine ⟨.direct s :: cs, k, ?_, ?_⟩
      · simp only [if_pos hdirect.1, if_neg hdirect.2, Option.bind_some, hcs, Option.map_some]
      · rw [if_pos hdirect, Nat.zero_add, ← hrest, List.forall_mem_cons]
        exact and_iff_right ⟨fun n hn => absurd hn List.not_mem_nil, fun w hw => nomatch hw⟩
    · obtain ⟨cs, k, hcs, hrest⟩ := ih (i + 1) (j + codeLen (s2.drop j))
      rw [if_neg hdirect, Nat.add_comm 1, starts, List.drop_drop]
      by_cases hi : i ≤ pivot2
      · have hs : s = 2 := Decidable.not_not.mp fun hs => hdirect ⟨hi, hs⟩
        refine ⟨.quotient w :: cs, k, ?_, ?_⟩
        · simp only [if_pos hi, if_pos hs, Option.map_some, Option.bind_some, hcs]
        · rw [List.forall_mem_cons, List.forall_mem_cons, hrest, CoeffCode.defined_quotient, hdefined]
      · refine ⟨.above w s :: cs, k, ?_, ?_⟩
        · simp only [if_neg hi, Option.map_some, Option.bind_some, hcs]
        · rw [List.forall_mem_cons, List.forall_mem_cons, hrest, CoeffCode.defined_above, hdefined]

end array

end EspIdf.Lhdc
