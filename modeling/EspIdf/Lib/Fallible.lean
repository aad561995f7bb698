import Mathlib.Data.List.Basic

/-!
# Steps that may fail, and leave a trace

* `Run` : a result or an error, and the trace up to there;
* `bind_result_ok`, `bind_of_ok`, `bind_of_error` : the result of two steps, one after the other;
* `Never` : a run does not fail in one particular way (`Never.bind`);
* `All` : what holds of everything that a run leaves in the trace (`All.bind`, `all_bind_ok`);
* `Related` : two runs have related results, or the first fails in a way that is allowed for (`Related.bind`).
-/

namespace Fallible

structure Run (ε ρ α : Type) where
  result : Except ε α
  trace : List ρ

variable {ε ρ α β γ δ : Type}

namespace Run

def fail (e : ε) : Run ε ρ α := ⟨.error e, []⟩

def tell (rs : List ρ) : Run ε ρ Unit := ⟨.ok (), rs⟩

def andThen (x : Run ε ρ α) (f : α → Run ε ρ β) : Run ε ρ β :=
  match x.result with
  | .ok a => ⟨(f a).result, x.trace ++ (f a).trace⟩
  | .error e => ⟨.error e, x.trace⟩

instance : Monad (Run ε ρ) where
  pure a := ⟨.ok a, []⟩
  bind := andThen

end Run

@[simp] theorem pure_result (a : α) : (pure a : Run ε ρ α).result = .ok a := rfl

@[simp] theorem fail_result (e : ε) : (Run.fail e : Run ε ρ α).result = .error e := rfl

@[simp] theorem bind_result_ok {x : Run ε ρ α} {f : α → Run ε ρ β} {b : β} :
    (x >>= f).result = .ok b ↔ ∃ a, x.result = .ok a ∧ (f a).result = .ok b := by
  show (Run.andThen x f).result = .ok b ↔ _
  unfold Run.andThen
  cases x.result <;> simp

theorem bind_of_ok {x : Run ε ρ α} {a : α} (h : x.result = .ok a) (f : α → Run ε ρ β) :
    (x >>= f).result = (f a).result := by
  show (Run.andThen x f).result = _
  unfold Run.andThen
  rw [h]

theorem bind_of_error {x : Run ε ρ α} {e : ε} (h : x.result = .error e) (f : α → Run ε ρ β) :
    (x >>= f).result = .error e := by
  show (Run.andThen x f).result = _
  unfold Run.andThen
  rw [h]

/-! ## Errors that do not occur -/

/-- `x` does not fail with `e`. -/
def Never (e : ε) (x : Run ε ρ α) : Prop := x.result ≠ .error e

section never
variable {e : ε}

theorem Never.pure (a : α) : Never e (pure a : Run ε ρ α) := nofun

theorem Never.tell (rs : List ρ) : Never e (Run.tell rs : Run ε ρ Unit) := nofun

theorem Never.fail {e' : ε} (h : e' ≠ e) : Never e (Run.fail e' : Run ε ρ α) := fun heq => h (by simpa using heq)

theorem Never.bind {x : Run ε ρ α} {f : α → Run ε ρ β} (hx : Never e x) (hf : ∀ a, x.result = .ok a → Never e (f a)) :
    Never e (x >>= f) := by
  show (Run.andThen x f).result ≠ .error e
  unfold Run.andThen
  cases h : x.result with
  | error e' => exact fun heq => hx (h.trans (by simpa using heq))
  | ok a => exact hf a h

end never

/-! ## What the trace holds -/

def All (P : ρ → Prop) (x : Run ε ρ α) : Prop := ∀ r ∈ x.trace, P r

section all
variable {P : ρ → Prop}

theorem All.pure (a : α) : All P (pure a : Run ε ρ α) := nofun

theorem All.fail (e : ε) : All P (Run.fail e : Run ε ρ α) := nofun

theorem All.bind {x : Run ε ρ α} {f : α → Run ε ρ β} (hx : All P x) (hf : ∀ a, x.result = .ok a → All P (f a)) :
    All P (x >>= f) := by
  show All P (Run.andThen x f)
  unfold Run.andThen
  cases h : x.result with
  | error e => exact hx
  | ok a => exact fun r hr => (List.mem_append.mp hr).elim (hx r) (hf a h r)

end all

/-! ## Runs side by side -/

/-- The results are related by `S` and errors are the same, unless the first run fails with an `allowed` one. -/
inductive Related (allowed : ε → Prop) (S : α → β → Prop) (x : Run ε ρ α) (y : Run ε ρ β) : Prop
  | ok {a : α} {b : β} (hx : x.result = .ok a) (hy : y.result = .ok b) (h : S a b)
  | error {e : ε} (hx : x.result = .error e) (hy : y.result = .error e)
  | fails {e : ε} (hx : x.result = .error e) (h : allowed e)

section related
variable {allowed : ε → Prop} {S : α → β → Prop} {T : γ → δ → Prop}

theorem Related.pure {a : α} {b : β} (h : S a b) : Related allowed S (pure a : Run ε ρ α) (pure b) := .ok rfl rfl h

/-- A run beside itself. -/
theorem Related.same (x : Run ε ρ α) : Related allowed (fun a b => a = b ∧ x.result = .ok a) x x := by
  cases h : x.result with
  | ok a => exact .ok h h ⟨rfl, rfl⟩
  | error e => exact .error h h

theorem Related.bind {x : Run ε ρ α} {y : Run ε ρ β} {f : α → Run ε ρ γ} {g : β → Run ε ρ δ}
    (hxy : Related allowed S x y) (hfg : ∀ a b, S a b → Related allowed T (f a) (g b)) :
    Related allowed T (x >>= f) (y >>= g) := by
  cases hxy with
  | error hx hy => exact .error (bind_of_error hx f) (bind_of_error hy g)
  | fails hx h => exact .fails (bind_of_error hx f) h
  | ok hx hy h =>
    have hf := bind_of_ok hx f
    have hg := bind_of_ok hy g
    cases hfg _ _ h with
    | ok hx' hy' h' => exact .ok (hf.trans hx') (hg.trans hy') h'
    | error hx' hy' => exact .error (hf.trans hx') (hg.trans hy')
    | fails hx' h' => exact .fails (hf.trans hx') h'

end related
end Fallible
