import Mathlib.Data.List.Basic

/-!
# Programs that call out

* `Prog` : a program whose calls are answered from outside; an answer depends on the number of the call, so that
  every pattern of answers is one function;
* `trace_bind`, `result_bind` : what a program does is what its parts do, one after the other;
* `Kind`, `depth` : the brackets that a trace leaves open;
* `FirstFailure` : the call that is the first to fail.
-/

namespace Calls

variable {γ ε α β : Type}

/-- From its `n`th call on: the result, and the calls with their answers. -/
def Prog (γ ε α : Type) := (Nat → ε) → Nat → α × List (γ × ε)

namespace Prog

def result (p : Prog γ ε α) (answers : Nat → ε) (n : Nat) : α := (p answers n).1

def trace (p : Prog γ ε α) (answers : Nat → ε) (n : Nat) : List (γ × ε) := (p answers n).2

def ret (a : α) : Prog γ ε α := fun _ _ => (a, [])

def andThen (p : Prog γ ε α) (f : α → Prog γ ε β) : Prog γ ε β := fun answers n =>
  let rest := f (p.result answers n) answers (n + (p.trace answers n).length)
  (rest.1, p.trace answers n ++ rest.2)

instance : Monad (Prog γ ε) where
  pure := ret
  bind := andThen

end Prog

/-- A single call. -/
def call (c : γ) : Prog γ ε ε := fun answers n => (answers n, [(c, answers n)])

section run
variable {answers : Nat → ε} {n : Nat}

@[simp] theorem trace_pure (a : α) : (pure a : Prog γ ε α).trace answers n = [] := rfl

@[simp] theorem result_pure (a : α) : (pure a : Prog γ ε α).result answers n = a := rfl

@[simp] theorem trace_call (c : γ) : (call c).trace answers n = [(c, answers n)] := rfl

@[simp] theorem result_call (c : γ) : (call c).result answers n = answers n := rfl

@[simp] theorem trace_bind (p : Prog γ ε α) (f : α → Prog γ ε β) :
    (p >>= f).trace answers n = p.trace answers n ++
      (f (p.result answers n)).trace answers (n + (p.trace answers n).length) := rfl

@[simp] theorem result_bind (p : Prog γ ε α) (f : α → Prog γ ε β) :
    (p >>= f).result answers n =
      (f (p.result answers n)).result answers (n + (p.trace answers n).length) := rfl

/-- Three programs one after the other. -/
theorem bind_bind {δ : Type} (p : Prog γ ε α) (f : α → Prog γ ε β) (g : β → Prog γ ε δ) :
    p >>= f >>= g = p >>= fun a => f a >>= g := by
  funext answers n
  refine Prod.ext ?_ ?_
  · change (p >>= f >>= g).result answers n = (p >>= fun a => f a >>= g).result answers n
    simp [Nat.add_assoc]
  · change (p >>= f >>= g).trace answers n = (p >>= fun a => f a >>= g).trace answers n
    simp [Nat.add_assoc]

end run

/-! ## Brackets -/

/-- What a call is to a resource that has to be opened before it is used, and closed after. -/
inductive Kind
  | opens
  | closes
  | inside
  | free
deriving Repr, DecidableEq

/-- How many are open behind a trace; `none` if something is closed or used while nothing is open. -/
def depth (kind : γ → Kind) (ok : ε → Bool) : Nat → List (γ × ε) → Option Nat
  | d, [] => some d
  | d, (c, e) :: t =>
    match kind c with
    | .opens => depth kind ok (if ok e then d + 1 else d) t
    | .closes => if d = 0 then none else depth kind ok (d - 1) t
    | .inside => if d = 0 then none else depth kind ok d t
    | .free => depth kind ok d t

theorem depth_append (kind : γ → Kind) (ok : ε → Bool) (d : Nat) (t u : List (γ × ε)) :
    depth kind ok d (t ++ u) = (depth kind ok d t).bind fun d => depth kind ok d u := by
  induction t generalizing d with
  | nil => rfl
  | cons ce t ih =>
    simp only [List.cons_append, depth]
    cases kind ce.1 with
    | opens => exact ih _
    | closes =>
      by_cases hd : d = 0
      · simp [hd]
      · simp only [if_neg hd]
        exact ih _
    | inside =>
      by_cases hd : d = 0
      · simp [hd]
      · simp only [if_neg hd]
        exact ih _
    | free => exact ih _

/-! ## The first failure -/

section failure
variable {ok : ε → Bool} {answers : Nat → ε} {n : Nat}

/-- The `k`th call from the `n`th on is the first that fails. -/
def FirstFailure (ok : ε → Bool) (answers : Nat → ε) (n k : Nat) : Prop :=
  ok (answers (n + k)) = false ∧ ∀ j < k, ok (answers (n + j)) = true

theorem FirstFailure.unique {k l : Nat} (hk : FirstFailure ok answers n k) (hl : FirstFailure ok answers n l) :
    k = l := by
  rcases Nat.lt_trichotomy k l with h | h | h
  · exact absurd (hk.1.symm.trans (hl.2 k h)) Bool.false_ne_true
  · exact h
  · exact absurd (hl.1.symm.trans (hk.2 l h)) Bool.false_ne_true

/-- Behind calls that all succeed, the first failure is further on. -/
theorem firstFailure_add {m k : Nat} (hok : ∀ j < m, ok (answers (n + j)) = true) :
    FirstFailure ok answers n (m + k) ↔ FirstFailure ok answers (n + m) k := by
  constructor
  · rintro ⟨hfail, hbefore⟩
    exact ⟨by rwa [Nat.add_assoc], fun j hj => by rw [Nat.add_assoc]; exact hbefore (m + j) (by omega)⟩
  · rintro ⟨hfail, hbefore⟩
    refine ⟨by rwa [← Nat.add_assoc], fun j hj => ?_⟩
    by_cases hjm : j < m
    · exact hok j hjm
    · have := hbefore (j - m) (by omega)
      rwa [Nat.add_assoc, Nat.add_sub_cancel' (Nat.le_of_not_lt hjm)] at this

theorem FirstFailure.le_of_ok {m k : Nat} (hk : FirstFailure ok answers n k)
    (hok : ∀ j < m, ok (answers (n + j)) = true) : m ≤ k := by
  by_contra hlt
  exact absurd (hk.1.symm.trans (hok k (Nat.lt_of_not_le hlt))) Bool.false_ne_true

end failure
end Calls
