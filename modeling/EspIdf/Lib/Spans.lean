import Mathlib.Data.List.Pairwise
import Mathlib.Data.List.TakeWhile

/-!
# Spans that follow each other

* `Span` : what occupies the places from `start` to `stop`;
* `Ordered` : each is behind the one before;
* `Covers`, `Between` : a place that is occupied, and one that is not inside a span;
* `since`, `since_covered`, `since_uncovered` : the spans from a place on, as a walk over the places meets them;
* `before`, `Ordered.before_stop` : the spans up to a place;
* `without` : the spans but the one that starts at a place;
* `total` : how many places are occupied.
-/

namespace Spans

class Span (α : Type) where
  start : α → Nat
  stop : α → Nat
  start_lt_stop : ∀ v, start v < stop v

open Span

variable {α : Type} [Span α] {v w : α} {vs ws : List α} {i k : Nat}

def Ordered (vs : List α) : Prop := vs.Pairwise fun v w => stop v ≤ start w

def Covers (vs : List α) (k : Nat) : Prop := ∃ v ∈ vs, start v ≤ k ∧ k < stop v

/-- No span reaches across `k`. -/
def Between (vs : List α) (k : Nat) : Prop := ∀ v ∈ vs, start v < k → stop v ≤ k

theorem covers_cons : Covers (v :: vs) k ↔ start v ≤ k ∧ k < stop v ∨ Covers vs k := by
  simp [Covers]

theorem covers_append : Covers (vs ++ ws) k ↔ Covers vs k ∨ Covers ws k := by
  simp only [Covers, List.mem_append, or_and_right, exists_or]

theorem not_covers_nil : ¬Covers ([] : List α) k := fun ⟨_, hv, _⟩ => absurd hv (by simp)

namespace Ordered

theorem nil : Ordered ([] : List α) := List.Pairwise.nil

theorem tail (h : Ordered (v :: vs)) : Ordered vs := (List.pairwise_cons.mp h).2

theorem head_le (h : Ordered (v :: vs)) (hw : w ∈ vs) : stop v ≤ start w := (List.pairwise_cons.mp h).1 w hw

theorem start_le (h : Ordered (v :: vs)) (hw : w ∈ v :: vs) : start v ≤ start w := by
  rcases List.mem_cons.mp hw with rfl | hw
  · exact Nat.le_refl _
  · exact Nat.le_trans (Nat.le_of_lt (start_lt_stop v)) (h.head_le hw)

theorem concat (h : Ordered vs) (hv : ∀ w ∈ vs, stop w ≤ start v) : Ordered (vs ++ [v]) :=
  List.pairwise_append.mpr ⟨h, List.pairwise_singleton _ v, fun w hw _ hx => List.mem_singleton.mp hx ▸ hv w hw⟩

theorem filter (h : Ordered vs) (p : α → Bool) : Ordered (vs.filter p) := h.sublist List.filter_sublist

/-- Two spans with a place in common are one. -/
theorem eq_of_covers (h : Ordered vs) (hv : v ∈ vs) (hw : w ∈ vs) (hvk : start v ≤ k ∧ k < stop v)
    (hwk : start w ≤ k ∧ k < stop w) : v = w := by
  induction vs with
  | nil => exact absurd hv (by simp)
  | cons x vs ih =>
    rcases List.mem_cons.mp hv with rfl | hv'
    · rcases List.mem_cons.mp hw with rfl | hw'
      · rfl
      · have := h.head_le hw'
        omega
    · rcases List.mem_cons.mp hw with rfl | hw'
      · have := h.head_le hv'
        omega
      · exact ih h.tail hv' hw'

theorem eq_of_start (h : Ordered vs) (hv : v ∈ vs) (hw : w ∈ vs) (heq : start v = start w) : v = w :=
  h.eq_of_covers hv hw ⟨Nat.le_refl _, start_lt_stop v⟩ ⟨Nat.le_of_eq heq.symm, heq ▸ start_lt_stop w⟩

theorem between_start (h : Ordered vs) (hv : v ∈ vs) : Between vs (start v) := by
  intro w hw hlt
  by_contra hgt
  have heq := h.eq_of_covers hw hv ⟨Nat.le_of_lt hlt, Nat.not_le.mp hgt⟩ ⟨Nat.le_refl _, start_lt_stop v⟩
  exact absurd hlt (heq ▸ Nat.lt_irrefl _)

/-- A span's end is between the spans. -/
theorem between_stop (h : Ordered vs) (hv : v ∈ vs) : Between vs (stop v) := by
  intro w hw hlt
  by_contra hgt
  have hv' : start v ≤ stop v - 1 ∧ stop v - 1 < stop v := by
    have := start_lt_stop v
    omega
  have hw' : start w ≤ stop v - 1 ∧ stop v - 1 < stop w := by omega
  have heq := h.eq_of_covers hv hw hv' hw'
  rw [heq] at hgt
  exact hgt (Nat.le_refl _)

end Ordered

theorem between_zero : Between vs 0 := fun _ _ h => absurd h (Nat.not_lt_zero _)

theorem between_succ (hfree : ¬Covers vs k) : Between vs (k + 1) := by
  intro v hv hlt
  by_contra hgt
  exact hfree ⟨v, hv, by omega⟩

/-- Between the spans, a place that is occupied is the start of its span. -/
theorem Between.start_eq (hb : Between vs k) (hv : v ∈ vs) (hk : start v ≤ k ∧ k < stop v) : start v = k := by
  by_contra hne
  have := hb v hv (by omega)
  omega

/-! ## The spans from a place on -/

def since (vs : List α) (k : Nat) : List α := vs.filter fun v => k ≤ start v

theorem mem_since : v ∈ since vs k ↔ v ∈ vs ∧ k ≤ start v := by
  simp [since]

theorem since_of_le (h : ∀ v ∈ vs, k ≤ start v) : since vs k = vs :=
  List.filter_eq_self.mpr fun v hv => decide_eq_true (h v hv)

theorem since_of_lt (h : ∀ v ∈ vs, start v < k) : since vs k = [] :=
  List.filter_eq_nil_iff.mpr fun v hv => by simp [h v hv]

@[simp] theorem since_zero : since vs 0 = vs := since_of_le fun _ _ => Nat.zero_le _

theorem since_uncovered (h : ¬Covers vs k) : since vs k = since vs (k + 1) := by
  refine List.filter_congr fun v hv => ?_
  have hne : start v ≠ k := fun heq => h ⟨v, hv, Nat.le_of_eq heq, heq ▸ start_lt_stop v⟩
  simp only [decide_eq_decide]
  omega

/-- The span that starts at a place comes first, and then those from its end on. -/
theorem since_start (h : Ordered vs) (hv : v ∈ vs) : since vs (start v) = v :: since vs (stop v) := by
  induction vs with
  | nil => exact absurd hv (by simp)
  | cons x vs ih =>
    rcases List.mem_cons.mp hv with rfl | hv'
    · have hlt := start_lt_stop v
      have hall : ∀ w ∈ vs, stop v ≤ start w := fun w hw => h.head_le hw
      have h0 : since vs (start v) = vs := since_of_le fun w hw => by
        have := hall w hw
        omega
      have h1 : since vs (stop v) = vs := since_of_le hall
      simp only [since, List.filter_cons] at h0 h1 ⊢
      rw [if_pos (by simp), if_neg (by simp; omega), h0, h1]
    · have hx := start_lt_stop x
      have hle := h.head_le hv'
      have hlt := start_lt_stop v
      have htail := ih h.tail hv'
      simp only [since, List.filter_cons] at htail ⊢
      rw [if_neg (by simp; omega), if_neg (by simp; omega), htail]

/-- A walk between the spans that meets a place which is occupied has met the next span. -/
theorem since_covered (h : Ordered vs) (hb : Between vs k) (hk : Covers vs k) :
    ∃ v ∈ vs, start v = k ∧ since vs k = v :: since vs (stop v) ∧ Between vs (stop v) := by
  obtain ⟨v, hv, hvk⟩ := hk
  have hstart := hb.start_eq hv hvk
  exact ⟨v, hv, hstart, hstart ▸ since_start h hv, h.between_stop hv⟩

theorem since_since (h : i ≤ k) : since (since vs i) k = since vs k := by
  unfold since
  rw [List.filter_filter]
  refine List.filter_congr fun v _ => ?_
  simp only [decide_eq_decide, ← Bool.decide_and]
  omega

theorem Ordered.since_append (h : Ordered (vs ++ v :: ws)) : since (vs ++ v :: ws) (start v) = v :: ws := by
  obtain ⟨-, hright, hcross⟩ := List.pairwise_append.mp h
  have hbefore : since vs (start v) = [] := since_of_lt fun w hw => by
    have := hcross w hw v (by simp)
    have := start_lt_stop w
    omega
  have hafter : since (v :: ws) (start v) = v :: ws := since_of_le fun w hw => Ordered.start_le hright hw
  unfold since at hbefore hafter ⊢
  rw [List.filter_append, hbefore, hafter, List.nil_append]

/-- The spans from a place on, from the first that `p` does not hold of. -/
theorem Ordered.since_dropWhile (h : Ordered vs) {p : α → Bool} (hdrop : (since vs i).dropWhile p = v :: ws) :
    v ∈ vs ∧ since vs (start v) = v :: ws := by
  have hsplit : since vs i = (since vs i).takeWhile p ++ v :: ws := hdrop ▸ (List.takeWhile_append_dropWhile).symm
  have hv : v ∈ vs ∧ i ≤ start v := mem_since.mp (hsplit ▸ List.mem_append_right _ List.mem_cons_self)
  have hordered : Ordered ((since vs i).takeWhile p ++ v :: ws) := hsplit ▸ h.filter _
  refine ⟨hv.1, ?_⟩
  rw [← since_since hv.2, hsplit, hordered.since_append]

/-! ## All spans but one -/

def without (vs : List α) (i : Nat) : List α := vs.filter fun v => start v ≠ i

theorem mem_without : v ∈ without vs i ↔ v ∈ vs ∧ start v ≠ i := by
  simp [without]

theorem without_of_ne (h : ∀ v ∈ vs, start v ≠ i) : without vs i = vs :=
  List.filter_eq_self.mpr fun v hv => decide_eq_true (h v hv)

theorem without_cons_self (h : Ordered (v :: vs)) : without (v :: vs) (start v) = vs := by
  have hne : ∀ w ∈ vs, start w ≠ start v := fun w hw heq => by
    have := h.head_le hw
    have := start_lt_stop v
    omega
  unfold without
  rw [List.filter_cons, if_neg (by simp)]
  exact without_of_ne hne

theorem covers_without (h : Ordered vs) (hv : v ∈ vs) :
    Covers (without vs (start v)) k ↔ Covers vs k ∧ ¬(start v ≤ k ∧ k < stop v) := by
  constructor
  · rintro ⟨w, hw, hwk⟩
    obtain ⟨hw, hne⟩ := mem_without.mp hw
    exact ⟨⟨w, hw, hwk⟩, fun hvk => hne (congrArg start (h.eq_of_covers hw hv hwk hvk))⟩
  · rintro ⟨⟨w, hw, hwk⟩, hout⟩
    refine ⟨w, mem_without.mpr ⟨hw, fun heq => hout ?_⟩, hwk⟩
    rwa [← h.eq_of_start hw hv heq]

/-! ## The spans up to a place -/

/-- The spans that start before a place. -/
def before (vs : List α) (k : Nat) : List α := vs.filter fun v => start v < k

theorem mem_before : v ∈ before vs i ↔ v ∈ vs ∧ start v < i := by
  simp [before]

theorem before_uncovered (h : ¬Covers vs i) : before vs (i + 1) = before vs i := by
  refine List.filter_congr fun v hv => ?_
  have hne : start v ≠ i := fun heq => h ⟨v, hv, Nat.le_of_eq heq, heq ▸ start_lt_stop v⟩
  simp only [decide_eq_decide]
  omega

theorem Ordered.before_stop (h : Ordered vs) (hv : v ∈ vs) : before vs (stop v) = before vs (start v) ++ [v] := by
  induction vs with
  | nil => exact absurd hv List.not_mem_nil
  | cons w vs ih =>
    rcases List.mem_cons.mp hv with rfl | hv'
    · have hlt : start v < (stop v) := start_lt_stop v
      have hnone : ∀ k ≤ (stop v), before vs k = [] := fun k hk => List.filter_eq_nil_iff.mpr fun x hx => by
        have hge : (stop v) ≤ start x := h.head_le hx
        simp only [decide_eq_true_eq]
        omega
      have hstop : before (v :: vs) (stop v) = v :: before vs (stop v) := List.filter_cons_of_pos (decide_eq_true hlt)
      have hindex : before (v :: vs) (start v) = before vs (start v) :=
        List.filter_cons_of_neg (by simp)
      rw [hstop, hindex, hnone _ (Nat.le_refl _), hnone _ (Nat.le_of_lt hlt)]
      rfl
    · have hw : start w < start v := Nat.lt_of_lt_of_le (start_lt_stop w) (h.head_le hv')
      have hw' : start w < (stop v) := Nat.lt_trans hw (start_lt_stop v)
      have hstop : before (w :: vs) (stop v) = w :: before vs (stop v) := List.filter_cons_of_pos (decide_eq_true hw')
      have hindex : before (w :: vs) (start v) = w :: before vs (start v) := List.filter_cons_of_pos (decide_eq_true hw)
      rw [hstop, hindex, ih h.tail hv']
      rfl

theorem before_without (j : Nat) : before (without vs j) i = without (before vs i) j := by
  unfold before without
  rw [List.filter_filter, List.filter_filter]
  exact List.filter_congr fun v _ => Bool.and_comm _ _

theorem before_eq (h : ∀ v ∈ vs, start v < i) : before vs i = vs :=
  List.filter_eq_self.mpr fun v hv => decide_eq_true (h v hv)

/-! ## The number of places -/

def total : List α → Nat
  | [] => 0
  | v :: vs => (stop v - start v) + total vs

theorem total_append : total (vs ++ ws) = total vs + total ws := by
  induction vs with
  | nil => exact (Nat.zero_add _).symm
  | cons v vs ih => rw [List.cons_append, total, total, ih, Nat.add_assoc]

theorem total_concat : total (vs ++ [v]) = total vs + (stop v - start v) := by
  rw [total_append]
  rfl

theorem total_without (h : Ordered vs) (hv : v ∈ vs) :
    total (without vs (start v)) + (stop v - start v) = total vs := by
  induction vs with
  | nil => exact absurd hv (by simp)
  | cons x vs ih =>
    rcases List.mem_cons.mp hv with rfl | hv'
    · rw [without_cons_self h, total, Nat.add_comm]
    · have hne : start x ≠ start v := fun heq => by
        have := h.head_le hv'
        have := start_lt_stop x
        omega
      have hcons : without (x :: vs) (start v) = x :: without vs (start v) := by
        unfold without
        rw [List.filter_cons, if_pos (by simpa using hne)]
      have htail := ih h.tail hv'
      rw [hcons, total, total]
      omega

theorem range'_split {a b n : Nat} (ha : i ≤ a) (hab : a ≤ b) (hb : b ≤ i + n) :
    List.range' i n = List.range' i (a - i) ++ (List.range' a (b - a) ++ List.range' b (i + n - b)) := by
  have h0 : i + (a - i) = a := by omega
  have h1 : a + (b - a) = b := by omega
  have h2 : n = a - i + (b - a + (i + n - b)) := by omega
  rw [h2, ← List.range'_append_1, h0, ← List.range'_append_1, h1]
  congr 3
  omega

/-- Counted place by place. -/
theorem Ordered.countP_range' {n : Nat} {p : Nat → Bool} (h : Ordered vs) (hp : ∀ k, i ≤ k → (p k = true ↔ Covers vs k))
    (hin : ∀ v ∈ vs, i ≤ start v ∧ stop v ≤ i + n) : (List.range' i n).countP p = total vs := by
  induction vs generalizing i n with
  | nil =>
    refine List.countP_eq_zero.mpr fun k hk => ?_
    rw [hp k (List.mem_range'_1.mp hk).1]
    exact not_covers_nil
  | cons v vs ih =>
    have hv := hin v List.mem_cons_self
    have hlt := start_lt_stop v
    have hsplit : List.range' i n = List.range' i (start v - i) ++
        (List.range' (start v) (stop v - start v) ++ List.range' (stop v) (i + n - stop v)) :=
      range'_split hv.1 (Nat.le_of_lt hlt) hv.2
    have hbefore : (List.range' i (start v - i)).countP p = 0 := by
      refine List.countP_eq_zero.mpr fun k hk => ?_
      have hk' := List.mem_range'_1.mp hk
      rw [hp k hk'.1]
      rintro ⟨w, hw, hwk⟩
      have := h.start_le hw
      omega
    have hinside : (List.range' (start v) (stop v - start v)).countP p = stop v - start v := by
      have hall : (List.range' (start v) (stop v - start v)).countP p = (List.range' (start v) (stop v - start v)).length :=
        List.countP_eq_length.mpr fun k hk => by
          have hk' := List.mem_range'_1.mp hk
          exact (hp k (by omega)).mpr ⟨v, List.mem_cons_self, by omega⟩
      rw [hall, List.length_range']
    have hbehind : (List.range' (stop v) (i + n - stop v)).countP p = total vs := by
      refine ih h.tail (fun k hk => ?_) fun w hw => ?_
      · rw [hp k (by omega), covers_cons]
        exact or_iff_right fun hvk => by omega
      · have := hin w (List.mem_cons_of_mem v hw)
        have := h.head_le hw
        omega
    rw [hsplit, List.countP_append, List.countP_append, hbefore, hinside, hbehind, Nat.zero_add, total]

end Spans
