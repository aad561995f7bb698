import Mathlib.Data.List.Basic
import Mathlib.Tactic.Ring

/-!
# A range cut into pieces

* `pieces` : a range is cut from its start, `cut` telling the length of the next piece;
* `Tiles` : pieces that lie one behind the other and make up a range;
* `pieces_tiles` : where `cut` takes a piece that is not empty and not too long, the pieces tile the range;
* `consecutive` : pieces of given lengths, one behind the other.
-/

namespace Pieces

/-- A piece: its start and its length. -/
abbrev Piece := Nat × Nat

def pieces (cut : Nat → Nat → Nat) : (fuel : Nat) → (start len : Nat) → List Piece
  | 0, _, _ => []
  | fuel + 1, start, len =>
    if len = 0 then []
    else (start, cut start len) :: pieces cut fuel (start + cut start len) (len - cut start len)

/-- The pieces follow each other from `start` on, none is empty, and their lengths add up to `len`. -/
def Tiles : List Piece → (start len : Nat) → Prop
  | [], _, len => len = 0
  | p :: ps, start, len => p.1 = start ∧ 0 < p.2 ∧ p.2 ≤ len ∧ Tiles ps (start + p.2) (len - p.2)

theorem Tiles.within {ps : List Piece} {start len : Nat} (h : Tiles ps start len) {p : Piece} (hp : p ∈ ps) :
    start ≤ p.1 ∧ p.1 + p.2 ≤ start + len := by
  induction ps generalizing start len with
  | nil => exact absurd hp (by simp)
  | cons q qs ih =>
    obtain ⟨hstart, _, hle, hrest⟩ := h
    rcases List.mem_cons.mp hp with rfl | hq
    · omega
    · have := ih hrest hq
      omega

theorem Tiles.ne_nil {ps : List Piece} {start len : Nat} (h : Tiles ps start len) (hlen : 0 < len) : ps ≠ [] := by
  rintro rfl
  exact absurd h (Nat.ne_of_gt hlen)

section cut
variable {cut : Nat → Nat → Nat}

theorem pieces_cons {fuel start len : Nat} (h : len ≠ 0) :
    pieces cut (fuel + 1) start len =
      (start, cut start len) :: pieces cut fuel (start + cut start len) (len - cut start len) := if_neg h

theorem pieces_zero (fuel start : Nat) : pieces cut fuel start 0 = [] := by
  cases fuel with
  | zero => rfl
  | succ fuel => rfl

/-- Where `inv` holds of what is left, the next piece is not empty, not too long, and `inv` holds behind it. -/
def Cuts (cut : Nat → Nat → Nat) (inv : Nat → Nat → Prop) : Prop :=
  ∀ start len, inv start len → 0 < len →
    0 < cut start len ∧ cut start len ≤ len ∧ inv (start + cut start len) (len - cut start len)

theorem pieces_tiles {inv : Nat → Nat → Prop} (hcut : Cuts cut inv) {fuel start len : Nat} (hinv : inv start len)
    (hfuel : len ≤ fuel) : Tiles (pieces cut fuel start len) start len := by
  induction fuel generalizing start len with
  | zero => exact Nat.le_zero.mp hfuel
  | succ fuel ih =>
    by_cases hlen : len = 0
    · subst hlen
      rw [pieces_zero]
      rfl
    · obtain ⟨hpos, hle, hnext⟩ := hcut start len hinv (Nat.pos_of_ne_zero hlen)
      rw [pieces_cons hlen]
      exact ⟨rfl, hpos, hle, ih hnext (by omega)⟩

end cut

/-! ## Pieces of given lengths -/

def consecutive : (start : Nat) → List Nat → List Piece
  | _, [] => []
  | start, len :: lens => (start, len) :: consecutive (start + len) lens

theorem consecutive_within {lens : List Nat} {start : Nat} {p : Piece} (h : p ∈ consecutive start lens) :
    start ≤ p.1 ∧ p.1 + p.2 ≤ start + lens.sum := by
  induction lens generalizing start with
  | nil => exact absurd h (by simp [consecutive])
  | cons len lens ih =>
    rw [List.sum_cons]
    rcases List.mem_cons.mp h with rfl | h
    · simp only
      omega
    · have := ih h
      omega

theorem consecutive_ordered (start : Nat) (lens : List Nat) :
    (consecutive start lens).Pairwise fun p q => p.1 + p.2 ≤ q.1 := by
  induction lens generalizing start with
  | nil => exact List.Pairwise.nil
  | cons len lens ih => exact List.pairwise_cons.mpr ⟨fun _ hp => (consecutive_within hp).1, ih _⟩

theorem consecutive_lengths (start : Nat) (lens : List Nat) : (consecutive start lens).map Prod.snd = lens := by
  induction lens generalizing start with
  | nil => rfl
  | cons len lens ih => exact congrArg (len :: ·) (ih _)

/-- The last piece reaches to the end. -/
theorem exists_consecutive_end {lens : List Nat} (h : lens ≠ []) (start : Nat) :
    ∃ p ∈ consecutive start lens, p.1 + p.2 = start + lens.sum := by
  induction lens generalizing start with
  | nil => exact absurd rfl h
  | cons len lens ih =>
    rw [List.sum_cons]
    by_cases hlens : lens = []
    · subst hlens
      exact ⟨(start, len), List.mem_cons_self, by simp⟩
    · obtain ⟨p, hp, hend⟩ := ih hlens (start + len)
      exact ⟨p, List.mem_cons_of_mem _ hp, by omega⟩

end Pieces
