import Mathlib.Data.List.Basic

/-!
# Texts that end with a zero octet

* `strncmpBy`, `strncmp`, `strncasecmp` : the comparison of at most so many octets;
* `strncmpBy_iff` : it compares the octets there are;
* `strchr` : a text cut at an octet;
* `fields` : a text split at a separator.
-/

namespace CString

abbrev Text := List UInt8

/-- The octet at the start of a text; past the end it is the terminator. -/
def first (s : Text) : UInt8 := s.headD 0

/-- Whether `n` octets compare equal, folded by `fold`; the comparison ends behind a terminator. -/
def strncmpBy (fold : UInt8 → UInt8) : Nat → Text → Text → Bool
  | 0, _, _ => true
  | n + 1, a, b =>
    if fold (first a) ≠ fold (first b) then false
    else if first a = 0 then true
    else strncmpBy fold n a.tail b.tail

def strncmp : Nat → Text → Text → Bool := strncmpBy id

section compare
variable {fold : UInt8 → UInt8} {a b : Text} {n : Nat}

/-- Where one text has no terminator and neither ends, all `n` octets are compared. -/
theorem strncmpBy_iff (hfree : 0 ∉ a) (ha : n ≤ a.length) (hb : n ≤ b.length) :
    strncmpBy fold n a b = true ↔ (a.take n).map fold = (b.take n).map fold := by
  induction n generalizing a b with
  | zero => simp [strncmpBy]
  | succ n ih =>
    cases a with
    | nil => exact absurd ha (Nat.not_succ_le_zero n)
    | cons x a =>
      cases b with
      | nil => exact absurd hb (Nat.not_succ_le_zero n)
      | cons y b =>
        have hx : x ≠ 0 := fun h => hfree (by simp [h])
        have hrest : 0 ∉ a := fun h => hfree (List.mem_cons_of_mem _ h)
        have hih := ih hrest (Nat.le_of_succ_le_succ ha) (Nat.le_of_succ_le_succ hb)
        unfold strncmpBy
        by_cases hxy : fold x = fold y
        · simp [first, hxy, hx, hih]
        · simp [first, hxy]

theorem strncmp_iff (hfree : 0 ∉ a) (ha : n ≤ a.length) (hb : n ≤ b.length) :
    strncmp n a b = true ↔ a.take n = b.take n := by
  unfold strncmp
  rw [strncmpBy_iff hfree ha hb, List.map_id, List.map_id]

end compare

/-! ## Cutting -/

section cut
variable {c x : UInt8} {s front back : Text}

/-- What stands before the first `c` of a text, and what behind it. -/
def strchr (c : UInt8) : Text → Option (Text × Text)
  | [] => none
  | x :: s => if x = c then some ([], s) else (strchr c s).map fun p => (x :: p.1, p.2)

theorem strchr_some (h : strchr c s = some (front, back)) : s = front ++ c :: back ∧ c ∉ front := by
  induction s generalizing front with
  | nil => exact nomatch h
  | cons x s ih =>
    unfold strchr at h
    by_cases hx : x = c
    · rw [if_pos hx] at h
      obtain ⟨rfl, rfl⟩ := Prod.mk.inj (Option.some.inj h)
      exact ⟨by rw [hx]; rfl, List.not_mem_nil⟩
    · rw [if_neg hx, Option.map_eq_some_iff] at h
      obtain ⟨⟨front', back'⟩, hcut, heq⟩ := h
      obtain ⟨rfl, rfl⟩ := Prod.mk.inj heq
      obtain ⟨rfl, hfree⟩ := ih hcut
      exact ⟨rfl, by simp [Ne.symm hx, hfree]⟩

end cut

/-- A text split at every `sep`, where `skip` octets of a separator are still to be left out. -/
def splitFrom (sep : Text) : (skip : Nat) → Text → List Text
  | _, [] => [[]]
  | skip + 1, _ :: s => splitFrom sep skip s
  | 0, x :: s =>
    if sep.isPrefixOf (x :: s) then [] :: splitFrom sep (sep.length - 1) s
    else
      match splitFrom sep 0 s with
      | [] => [[x]]
      | field :: fields => (x :: field) :: fields

/-- The fields of a text that are separated by `sep`. -/
def fields (sep s : Text) : List Text := splitFrom sep 0 s

section fields
variable {sep field s : Text}

end fields

end CString
