import Mathlib.Tactic.SplitIfs

/-!
# A gap that rotates through slots

`n` values live in `n + 1` slots. The slot `g` that holds none, the gap, moves on by one slot at a time: the value of
the next slot moves into it. Once the gap has gone round, every value sits one slot further on.

* `slot n g c l` : the slot of value `l` with gap `g` after `c` rounds (`slot_le`, `slot_ne_gap`, `slot_inj`);
* `nextGap`, `nextRound` : the gap and the number of rounds (modulo `n`) after a move;
* `slot_next` : a move sends the value of the next slot to the gap and leaves the others in place.
-/

namespace RotatingGap

/-- The slot of value `l`. -/
def slot (n g c l : Nat) : Nat :=
  if (n - c + l) % n < g then (n - c + l) % n else (n - c + l) % n + 1

/-- The slot after the gap, cyclically: the next gap. -/
def nextGap (n g : Nat) : Nat := if n + 1 ≤ g + 1 then 0 else g + 1

def nextRound (n g c : Nat) : Nat := if n + 1 ≤ g + 1 then (if n ≤ c + 1 then 0 else c + 1) else c

theorem slot_le {n g c l : Nat} (hn : 0 < n) : slot n g c l ≤ n := by
  have h := Nat.mod_lt (n - c + l) hn
  unfold slot
  split_ifs <;> omega

theorem slot_ne_gap (n g c l : Nat) : slot n g c l ≠ g := by
  unfold slot
  split_ifs <;> omega

/-- The rotation `l ↦ (n - c + l) % n` on values below `n`. -/
theorem rotate_eq {n c l : Nat} (hc : c < n) (hl : l < n) :
    (n - c + l) % n = if l < c then n - c + l else l - c := by
  split_ifs with h
  · exact Nat.mod_eq_of_lt (by omega)
  · rw [show n - c + l = l - c + n by omega, Nat.add_mod_right]
    exact Nat.mod_eq_of_lt (by omega)

theorem slot_inj {n g c l l' : Nat} (hc : c < n) (hl : l < n) (hl' : l' < n)
    (h : slot n g c l = slot n g c l') : l = l' := by
  unfold slot at h
  rw [rotate_eq hc hl, rotate_eq hc hl'] at h
  split_ifs at h <;> omega

theorem nextGap_le {n g : Nat} (hg : g ≤ n) : nextGap n g ≤ n := by
  unfold nextGap
  split_ifs <;> omega

theorem nextGap_ne {n g : Nat} (hn : 0 < n) (hg : g ≤ n) : nextGap n g ≠ g := by
  unfold nextGap
  split_ifs <;> omega

theorem nextRound_lt {n g c : Nat} (hc : c < n) : nextRound n g c < n := by
  unfold nextRound
  split_ifs <;> omega

/-- A move sends the value of the next slot to the gap and leaves the others in place. -/
theorem slot_next {n g c l : Nat} (hg : g ≤ n) (hc : c < n) (hl : l < n) :
    slot n (nextGap n g) (nextRound n g c) l =
      if slot n g c l = nextGap n g then g else slot n g c l := by
  by_cases hwrap : n + 1 ≤ g + 1
  · obtain rfl : g = n := by omega
    have hc' : nextRound g g c < g := nextRound_lt hc
    have hround : nextRound g g c = if g ≤ c + 1 then 0 else c + 1 := if_pos hwrap
    rw [show nextGap g g = 0 by exact if_pos hwrap]
    unfold slot
    rw [rotate_eq hc hl, rotate_eq hc' hl, hround]
    split_ifs <;> omega
  · rw [show nextRound n g c = c by exact if_neg hwrap, show nextGap n g = g + 1 by exact if_neg hwrap]
    unfold slot
    rw [rotate_eq hc hl]
    split_ifs <;> omega

end RotatingGap
