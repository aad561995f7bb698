import EspIdf.Flash.Quiet

/-!
# The bus is released as often as it is acquired

* `Call.kind`, `Settled`, `Sound` : what is asked of the calls that a function makes;
* `turn`, `rangeLoop_trace` : the calls of a turn, whatever is answered;
* `Safe` : the first failure is neither an `end` between two pieces nor a `yield` behind a piece;
* `rangeLoop_sound_iff` : the loop of a write and of an erase.
-/

namespace EspIdf.Flash

open Calls Pieces

def Call.kind : Call → Kind
  | .start => .opens
  | .finish => .closes
  | .yield => .free
  | .flushCache _ _ => .free
  | _ => .inside

/-- The flash is written or erased. -/
def Call.changes : Call → Bool
  | .write _ _ => true
  | .eraseSector _ => true
  | .eraseBlock _ => true
  | .writeEncrypted _ _ => true
  | _ => false

def succeeds (err : EspErr) : Bool := err == ESP_OK

/-- The cache is flushed, unless the last call is a `start` that fails. -/
def Settled (address length : Nat) (t : List (Call × EspErr)) : Prop :=
  (∃ err, (Call.flushCache address length, err) ∈ t) ∨ ∃ err, err ≠ ESP_OK ∧ t.getLast? = some (.start, err)

/-- Behind each change of the flash. -/
def Flushed (address length : Nat) : List (Call × EspErr) → Prop
  | [] => True
  | (c, _) :: t => (c.changes = true → Settled address length t) ∧ Flushed address length t

/-- Each `start` that succeeds is matched by one `end`, no `end` and no operation of the driver is outside, and behind
a change the cache is flushed. -/
structure Sound (address length : Nat) (t : List (Call × EspErr)) : Prop where
  balanced : depth Call.kind succeeds 0 t = some 0
  flushed : Flushed address length t

section calls
variable {c : Call} {err : EspErr} {address length : Nat} {t : List (Call × EspErr)}

@[simp] theorem kind_start : Call.start.kind = .opens := rfl
@[simp] theorem kind_finish : Call.finish.kind = .closes := rfl
@[simp] theorem kind_yield : Call.yield.kind = .free := rfl
@[simp] theorem kind_getProtectedRegions : Call.getProtectedRegions.kind = .inside := rfl
@[simp] theorem kind_flushCache : (Call.flushCache address length).kind = .free := rfl
@[simp] theorem kind_read : (Call.read address length).kind = .inside := rfl
@[simp] theorem changes_start : Call.start.changes = false := rfl
@[simp] theorem changes_finish : Call.finish.changes = false := rfl
@[simp] theorem changes_yield : Call.yield.changes = false := rfl
@[simp] theorem changes_getProtectedRegions : Call.getProtectedRegions.changes = false := rfl
@[simp] theorem changes_flushCache : (Call.flushCache address length).changes = false := rfl
@[simp] theorem changes_read : (Call.read address length).changes = false := rfl

theorem kind_of_changes (h : c.changes = true) : c.kind = .inside := by
  cases c with
  | start => exact absurd h Bool.false_ne_true
  | finish => exact absurd h Bool.false_ne_true
  | yield => exact absurd h Bool.false_ne_true
  | getProtectedRegions => rfl
  | read => rfl
  | write => rfl
  | eraseSector => rfl
  | eraseBlock => rfl
  | writeEncrypted => rfl
  | flushCache => exact absurd h Bool.false_ne_true

@[simp] theorem succeeds_iff : succeeds err = true ↔ err = ESP_OK := by
  simp [succeeds]

@[simp] theorem succeeds_false_iff : succeeds err = false ↔ err ≠ ESP_OK := by
  simp [succeeds]

theorem settled_cons (ht : t ≠ []) (hc : c ≠ .flushCache address length) :
    Settled address length ((c, err) :: t) ↔ Settled address length t := by
  obtain ⟨ce, u, rfl⟩ := List.exists_cons_of_ne_nil ht
  unfold Settled
  simp only [List.mem_cons, List.getLast?_cons_cons, Prod.mk.injEq,
    hc.symm, false_and, false_or]

end calls

@[simp] theorem spiflashEnd_trace (err : EspErr) (answers : Nat → EspErr) (n : Nat) :
    (spiflashEnd err).trace answers n = [(.finish, answers n)] := rfl

@[simp] theorem spiflashEnd_result (err : EspErr) (answers : Nat → EspErr) (n : Nat) :
    (spiflashEnd err).result answers n = if err = ESP_OK then answers n else err := rfl

/-! ## The cache flush at the end -/

section flush
variable {answers : Nat → EspErr} {address length n : Nat}

/-- The calls of `flash_end_flush_cache`. -/
def flushTrace (answers : Nat → EspErr) (address length : Nat) (busAcquired : Bool) (n : Nat) : List (Call × EspErr) :=
  if busAcquired then [(.flushCache address length, answers n), (.finish, answers (n + 1))]
  else if answers n = ESP_OK then
    [(.start, answers n), (.flushCache address length, answers (n + 1)), (.finish, answers (n + 2))]
  else [(.start, answers n)]

theorem flashEndFlushCache_trace (err : EspErr) (busAcquired : Bool) :
    (flashEndFlushCache err busAcquired address length).trace answers n =
      flushTrace answers address length busAcquired n := by
  cases busAcquired with
  | true => simp [flashEndFlushCache, spiflashEnd, flushTrace]
  | false =>
    by_cases hstart : answers n = ESP_OK
    · simp [flashEndFlushCache, spiflashEnd, flushTrace, hstart]
    · simp [flashEndFlushCache, flushTrace, hstart]

theorem flushTrace_ne_nil (busAcquired : Bool) : flushTrace answers address length busAcquired n ≠ [] := by
  unfold flushTrace
  split_ifs
  · exact List.cons_ne_nil _ _
  · exact List.cons_ne_nil _ _
  · exact List.cons_ne_nil _ _

/-- It is settled, and it leaves the bus as it should if it is told how the bus is. -/
theorem flushTrace_settled (busAcquired : Bool) :
    Settled address length (flushTrace answers address length busAcquired n) := by
  unfold flushTrace
  split_ifs with hbus hstart
  · exact .inl ⟨answers n, List.mem_cons_self⟩
  · exact .inl ⟨answers (n + 1), by simp⟩
  · exact .inr ⟨answers n, hstart, rfl⟩

theorem flushTrace_flushed (busAcquired : Bool) :
    Flushed address length (flushTrace answers address length busAcquired n) := by
  unfold flushTrace
  split_ifs with hbus hstart
  · simp [Flushed]
  · simp [Flushed]
  · simp [Flushed]

theorem flushTrace_depth (busAcquired : Bool) (d : Nat) :
    depth Call.kind succeeds d (flushTrace answers address length busAcquired n) =
      if busAcquired then if d = 0 then none else some (d - 1) else some d := by
  unfold flushTrace
  split_ifs with hbus hd hstart
  · simp [depth, hd]
  · simp [depth, hd]
  · simp [depth, hstart]
  · simp [depth, hstart]

end flush

/-! ## A turn -/

section turn
variable {answers : Nat → EspErr} {address length n : Nat} {c : Call} {last : Bool}
  {rest : Nat → List (Call × EspErr)}

/-- The calls of a turn behind its `yield`: its access is `c`, and `rest` is what follows if it is not the last. -/
def turn (answers : Nat → EspErr) (address length : Nat) (c : Call) (last : Bool)
    (rest : Nat → List (Call × EspErr)) (n : Nat) : List (Call × EspErr) :=
  (.start, answers n) ::
    if answers n ≠ ESP_OK then flushTrace answers address length false (n + 1)
    else
      (c, answers (n + 1)) ::
        if answers (n + 1) ≠ ESP_OK ∨ last then flushTrace answers address length true (n + 2)
        else
          (.finish, answers (n + 2)) ::
            if answers (n + 2) ≠ ESP_OK then flushTrace answers address length true (n + 3) else rest (n + 3)

/-- A turn with its `yield`, if there is one. -/
def yieldTurn (yields : Bool) (answers : Nat → EspErr) (turn : Nat → List (Call × EspErr)) (n : Nat) :
    List (Call × EspErr) :=
  if yields then (.yield, answers n) :: if answers n ≠ ESP_OK then [] else turn (n + 1) else turn n

/-- What follows the loop. -/
structure Tails {α : Type} (k : Exit → Api α) (address length : Nat) : Prop where
  returned : ∀ err answers n, (k (.returned err)).trace answers n = []
  tail : ∀ err busAcquired answers n,
    (k (.tail err busAcquired)).trace answers n = flushTrace answers address length busAcquired n

variable {α : Type} {k : Exit → Api α} {chip : Chip} {next : Nat → Nat → Nat → NextPiece}
  {fuel start done remain : Nat}

/-- The loop of a write or of an erase behind the `yield` of a turn. -/
def bodyOf (chip : Chip) (next : Nat → Nat → Nat → NextPiece) (fuel start done remain : Nat) : Api Exit := do
  let err ← call .start
  if err ≠ ESP_OK then return .tail err false
  else
    let piece := next start done remain
    let err ← call piece.call
    if err ≠ ESP_OK ∨ remain - piece.len = 0 then return .tail err true
    else
      let err ← spiflashEnd ESP_OK
      if err ≠ ESP_OK then return .tail err true
      else pieceLoop chip next fuel ((start + piece.len) % 2 ^ 32) (done + piece.len) (remain - piece.len)

theorem body_trace (hk : Tails k address length) :
    (bodyOf chip next fuel start done remain >>= k).trace answers n =
      turn answers address length (next start done remain).call (decide (remain - (next start done remain).len = 0))
        (fun n => (pieceLoop chip next fuel ((start + (next start done remain).len) % 2 ^ 32)
          (done + (next start done remain).len) (remain - (next start done remain).len) >>= k).trace answers n) n := by
  unfold bodyOf turn
  rw [bind_bind, trace_bind, trace_call, result_call, List.length_singleton, List.singleton_append]
  refine congrArg _ ?_
  by_cases hstart : answers n ≠ ESP_OK
  · rw [if_pos hstart, if_pos hstart]
    exact hk.tail _ _ _ _
  rw [if_neg hstart, if_neg hstart, bind_bind, trace_bind, trace_call, result_call, List.length_singleton,
    List.singleton_append]
  refine congrArg _ ?_
  by_cases hexit : answers (n + 1) ≠ ESP_OK ∨ remain - (next start done remain).len = 0
  · rw [if_pos hexit, if_pos (by simpa using hexit)]
    exact hk.tail _ _ _ _
  rw [if_neg hexit, if_neg (by simpa using hexit), bind_bind, trace_bind, spiflashEnd_trace, spiflashEnd_result,
    if_pos rfl, List.length_singleton, List.singleton_append]
  refine congrArg _ ?_
  by_cases hfinish : answers (n + 2) ≠ ESP_OK
  · rw [if_pos hfinish, if_pos hfinish]
    exact hk.tail _ _ _ _
  · rw [if_neg hfinish, if_neg hfinish]

theorem rangeLoop_trace (hk : Tails k address length) :
    (pieceLoop chip next (fuel + 1) start done remain >>= k).trace answers n =
      yieldTurn chip.yields answers
        (fun n => (bodyOf chip next fuel start done remain >>= k).trace answers n) n := by
  unfold pieceLoop yieldTurn
  cases hyields : chip.yields with
  | true =>
    rw [if_pos rfl, bind_bind, trace_bind, trace_call, result_call, List.length_singleton, List.singleton_append]
    refine congrArg _ ?_
    dsimp only
    by_cases hyield : answers n ≠ ESP_OK
    · rw [if_pos hyield, if_pos hyield]
      exact hk.returned _ _ _
    · rw [if_neg hyield, if_neg hyield]
      rfl
  | false => rfl

end turn

/-! ## The loop -/

section loop
variable {answers : Nat → EspErr} {address length n : Nat}

/-- The calls of a turn that goes on. -/
def turnLength (yields : Bool) : Nat := if yields then 4 else 3

/-- The first call that fails, if it is one before the end of the last turn, is neither the `end` of a turn nor the
`yield` of a turn behind a change. -/
def Safe (yields : Bool) (answers : Nat → EspErr) (n turns : Nat) (changed : Bool) : Prop :=
  ∀ k, FirstFailure succeeds answers n k → k + 1 < turnLength yields * turns →
    k % turnLength yields ≠ turnLength yields - 1 ∧
      (yields = true → k % turnLength yields = 0 → k = 0 ∧ changed = false)

/-- Sound, and settled if the flash was changed before. -/
def SoundAfter (address length : Nat) (changed : Bool) (t : List (Call × EspErr)) : Prop :=
  Sound address length t ∧ (changed = true → Settled address length t)

variable {c : Call} {last changed : Bool} {rest : Nat → List (Call × EspErr)}

/-- A turn is sound unless its `end` fails, or what follows is not sound. -/
theorem turn_sound_iff (hc : c.changes = true) (hrest : ∀ n, rest n ≠ []) :
    SoundAfter address length changed (turn answers address length c last rest n) ↔
      (answers n = ESP_OK → answers (n + 1) = ESP_OK → last = false →
        answers (n + 2) = ESP_OK ∧ SoundAfter address length true (rest (n + 3))) := by
  have hflush : c ≠ .flushCache address length := by
    rintro rfl
    exact absurd hc Bool.false_ne_true
  have hkind := kind_of_changes hc
  unfold turn
  by_cases hstart : answers n ≠ ESP_OK
  · rw [if_pos hstart]
    refine iff_of_true ⟨⟨?_, ?_, flushTrace_flushed _⟩, fun _ => ?_⟩ fun h => absurd h hstart
    · simp [depth, hstart, flushTrace_depth]
    · exact fun h => absurd h Bool.false_ne_true
    · exact (settled_cons (flushTrace_ne_nil _) (by simp)).mpr (flushTrace_settled _)
  rw [if_neg hstart]
  rw [not_ne_iff] at hstart
  by_cases hexit : answers (n + 1) ≠ ESP_OK ∨ last = true
  · rw [if_pos hexit]
    have hvacuous : answers n = ESP_OK → answers (n + 1) = ESP_OK → last = false →
        answers (n + 2) = ESP_OK ∧ SoundAfter address length true (rest (n + 3)) := by
      intro _ hok hlast
      rcases hexit with h | h
      · exact absurd hok h
      · exact absurd (hlast.symm.trans h) Bool.false_ne_true
    refine iff_of_true ⟨⟨?_, ?_, fun _ => flushTrace_settled _, flushTrace_flushed _⟩, fun _ => ?_⟩ hvacuous
    · simp [depth, hkind, hstart, flushTrace_depth]
    · exact fun h => absurd h Bool.false_ne_true
    · exact (settled_cons (List.cons_ne_nil _ _) (by simp)).mpr
        ((settled_cons (flushTrace_ne_nil _) hflush).mpr (flushTrace_settled _))
  rw [if_neg hexit]
  obtain ⟨haccess, hlast⟩ := not_or.mp hexit
  rw [not_ne_iff] at haccess
  rw [Bool.not_eq_true] at hlast
  by_cases hfinish : answers (n + 2) ≠ ESP_OK
  · rw [if_pos hfinish]
    refine iff_of_false (fun h => ?_) fun h => hfinish (h hstart haccess hlast).1
    have hdepth := h.1.balanced
    simp [depth, hkind, hstart, flushTrace_depth] at hdepth
  rw [if_neg hfinish]
  rw [not_ne_iff] at hfinish
  have hsettled : ∀ err, Settled address length ((.finish, err) :: rest (n + 3)) ↔
      Settled address length (rest (n + 3)) := fun err => settled_cons (hrest _) (by simp)
  simp only [hstart, haccess, hlast, hfinish, true_implies, true_and]
  constructor
  · rintro ⟨⟨hdepth, _, hchange, _, hflushed⟩, _⟩
    refine ⟨⟨?_, hflushed⟩, fun _ => (hsettled _).mp (hchange hc)⟩
    simpa [depth, hkind] using hdepth
  · rintro ⟨⟨hdepth, hflushed⟩, hafter⟩
    have hrest' := (hsettled ESP_OK).mpr (hafter rfl)
    refine ⟨⟨?_, fun h => absurd h Bool.false_ne_true, fun _ => hrest', fun h => absurd h Bool.false_ne_true,
      hflushed⟩, fun _ => ?_⟩
    · simpa [depth, hkind] using hdepth
    · exact (settled_cons (List.cons_ne_nil _ _) (by simp)).mpr
        ((settled_cons (List.cons_ne_nil _ _) hflush).mpr hrest')

theorem yieldTurn_sound_iff {yields : Bool} {body : Nat → List (Call × EspErr)} (hbody : ∀ n, body n ≠ []) :
    SoundAfter address length changed (yieldTurn yields answers body n) ↔
      if yields then if answers n = ESP_OK then SoundAfter address length changed (body (n + 1)) else changed = false
      else SoundAfter address length changed (body n) := by
  unfold yieldTurn
  cases yields with
  | false => exact Iff.rfl
  | true =>
    rw [if_pos rfl, if_pos rfl]
    by_cases hyield : answers n = ESP_OK
    · rw [if_neg (not_not.mpr hyield), if_pos hyield]
      have hsettled : Settled address length ((.yield, answers n) :: body (n + 1)) ↔
          Settled address length (body (n + 1)) := settled_cons (hbody _) (by simp)
      unfold SoundAfter
      rw [hsettled]
      refine and_congr_left fun _ => ⟨fun h => ⟨?_, h.flushed.2⟩, fun h => ⟨?_, fun hc => absurd hc (by simp), h.flushed⟩⟩
      · simpa [depth] using h.balanced
      · simpa [depth] using h.balanced
    · rw [if_pos hyield, if_neg hyield]
      have hunsettled : ¬Settled address length [(.yield, answers n)] := by
        simp [Settled]
      refine ⟨fun h => ?_, fun h => ⟨⟨?_, ?_⟩, fun hc => absurd (h.symm.trans hc) Bool.false_ne_true⟩⟩
      · by_contra hc
        exact hunsettled (h.2 (Bool.not_eq_false _ ▸ hc))
      · simp [depth]
      · simp [Flushed]

/-! ### Where the first failure is -/

variable {yields : Bool} {turns : Nat}

theorem turnLength_pos : 0 < turnLength yields := by
  cases yields with
  | false => decide
  | true => decide

/-- Where the first failure is known, it decides. -/
theorem safe_of_first {k : Nat} (hk : FirstFailure succeeds answers n k) :
    Safe yields answers n turns changed ↔
      (k + 1 < turnLength yields * turns →
        k % turnLength yields ≠ turnLength yields - 1 ∧
          (yields = true → k % turnLength yields = 0 → k = 0 ∧ changed = false)) := by
  constructor
  · intro h
    exact h k hk
  · intro h l hl
    rw [← hk.unique hl]
    exact h

/-- Behind a turn without failure. -/
theorem safe_shift (hok : ∀ j < turnLength yields, succeeds (answers (n + j)) = true) :
    Safe yields answers n (turns + 1) changed ↔ Safe yields answers (n + turnLength yields) turns true := by
  have hpos : 0 < turnLength yields := turnLength_pos
  constructor
  · intro h k hk hlt
    obtain ⟨hfinish, hyield⟩ := h _ ((firstFailure_add hok).mpr hk) (by rw [Nat.mul_succ]; omega)
    rw [Nat.add_mod_left] at hfinish hyield
    exact ⟨hfinish, fun hy hmod => absurd (hyield hy hmod).1 (by omega)⟩
  · intro h k hk hlt
    obtain ⟨l, rfl⟩ := Nat.exists_eq_add_of_le (hk.le_of_ok hok)
    obtain ⟨hfinish, hyield⟩ := h l ((firstFailure_add hok).mp hk) (by rw [Nat.mul_succ] at hlt; omega)
    rw [Nat.add_mod_left]
    exact ⟨hfinish, fun hy hmod => absurd (hyield hy hmod).2.symm Bool.false_ne_true⟩

/-- The calls of a turn before its `start`. -/
def lead (yields : Bool) : Nat := if yields then 1 else 0

theorem turnLength_eq : turnLength yields = lead yields + 3 := by
  cases yields with
  | false => rfl
  | true => rfl

/-- A failure of the `start` or of the access of a turn does no harm. -/
theorem safe_of_start_or_access {k : Nat} (hk : FirstFailure succeeds answers n k) (hle : lead yields ≤ k)
    (hlt : k < lead yields + 2) : Safe yields answers n turns changed := by
  rw [safe_of_first hk, turnLength_eq, Nat.mod_eq_of_lt (by omega)]
  intro _
  refine ⟨by omega, fun hy hzero => ?_⟩
  subst hy hzero
  exact absurd hle (by decide)

theorem safe_body (hlead : ∀ j < lead yields, succeeds (answers (n + j)) = true) :
    Safe yields answers n (turns + 1) changed ↔
      (answers (n + lead yields) = ESP_OK → answers (n + lead yields + 1) = ESP_OK → turns ≠ 0 →
        answers (n + lead yields + 2) = ESP_OK ∧ Safe yields answers (n + lead yields + 3) turns true) := by
  have hupto : ∀ m, (∀ i < m, answers (n + lead yields + i) = ESP_OK) →
      ∀ j < lead yields + m, succeeds (answers (n + j)) = true := by
    intro m hm j hj
    by_cases hjl : j < lead yields
    · exact hlead j hjl
    · have := hm (j - lead yields) (by omega)
      rw [Nat.add_assoc, Nat.add_sub_cancel' (Nat.le_of_not_lt hjl)] at this
      exact succeeds_iff.mpr this
  have hfirst : ∀ m, (∀ i < m, answers (n + lead yields + i) = ESP_OK) → answers (n + lead yields + m) ≠ ESP_OK →
      FirstFailure succeeds answers n (lead yields + m) := fun m hm hfail =>
    ⟨by rw [← Nat.add_assoc]; exact succeeds_false_iff.mpr hfail, hupto m hm⟩
  by_cases hstart : answers (n + lead yields) = ESP_OK
  · have hone : ∀ i < 1, answers (n + lead yields + i) = ESP_OK := by
      intro i hi
      rwa [Nat.lt_one_iff.mp hi]
    by_cases haccess : answers (n + lead yields + 1) = ESP_OK
    · have htwo : ∀ i < 2, answers (n + lead yields + i) = ESP_OK := by
        intro i hi
        rcases Nat.lt_succ_iff_lt_or_eq.mp hi with h | rfl
        · exact hone i h
        · exact haccess
      simp only [hstart, haccess, true_implies]
      by_cases hlast : turns = 0
      · subst hlast
        refine iff_of_true (fun k hk hlt => ?_) fun h => absurd rfl h
        have := hk.le_of_ok (hupto 2 htwo)
        rw [turnLength_eq] at hlt
        omega
      · simp only [ne_eq, hlast, not_false_eq_true, true_implies]
        by_cases hfinish : answers (n + lead yields + 2) = ESP_OK
        · have hthree : ∀ i < 3, answers (n + lead yields + i) = ESP_OK := by
            intro i hi
            rcases Nat.lt_succ_iff_lt_or_eq.mp hi with h | rfl
            · exact htwo i h
            · exact hfinish
          rw [safe_shift (turnLength_eq ▸ hupto 3 hthree), turnLength_eq, ← Nat.add_assoc]
          simp only [hfinish, true_and]
        · refine iff_of_false (fun h => ?_) fun h => hfinish h.1
          have hbad := (safe_of_first (hfirst 2 htwo hfinish)).mp h (by
            rw [turnLength_eq, Nat.mul_succ]
            have := Nat.mul_le_mul_left (lead yields + 3) (Nat.pos_of_ne_zero hlast)
            omega)
          rw [turnLength_eq, Nat.mod_eq_of_lt (by omega)] at hbad
          exact hbad.1 rfl
    · exact iff_of_true (safe_of_start_or_access (hfirst 1 hone haccess) (by omega) (by omega))
        fun _ h => absurd h haccess
  · exact iff_of_true (safe_of_start_or_access (hfirst 0 (fun i hi => absurd hi (Nat.not_lt_zero i)) hstart)
      (by omega) (by omega)) fun h => absurd h hstart

theorem safe_iff :
    Safe yields answers n (turns + 1) changed ↔
      if yields = true ∧ answers n ≠ ESP_OK then changed = false
      else answers (n + lead yields) = ESP_OK → answers (n + lead yields + 1) = ESP_OK → turns ≠ 0 →
        answers (n + lead yields + 2) = ESP_OK ∧ Safe yields answers (n + lead yields + 3) turns true := by
  by_cases hyield : yields = true ∧ answers n ≠ ESP_OK
  · obtain ⟨rfl, hfail⟩ := hyield
    rw [if_pos ⟨rfl, hfail⟩]
    have hfirst : FirstFailure succeeds answers n 0 :=
      ⟨succeeds_false_iff.mpr hfail, fun j hj => absurd hj (Nat.not_lt_zero j)⟩
    rw [safe_of_first hfirst]
    constructor
    · intro h
      have hlt : 0 + 1 < turnLength true * (turns + 1) := by
        change 1 < 4 * (turns + 1)
        omega
      exact ((h hlt).2 rfl rfl).2
    · intro h _
      exact ⟨by decide, fun _ _ => ⟨rfl, h⟩⟩
  · rw [if_neg hyield]
    refine safe_body fun j hj => ?_
    cases yields with
    | false => exact absurd hj (Nat.not_lt_zero j)
    | true =>
      rw [Nat.lt_one_iff.mp hj]
      exact succeeds_iff.mpr (not_not.mp fun h => hyield ⟨rfl, h⟩)

end loop

/-! ## Writes and erases -/

section range
variable {α : Type} {k : Exit → Api α} {chip : Chip} {next : Nat → Nat → Nat → NextPiece} {cut : Nat → Nat → Nat}
  {inv : Nat → Nat → Prop} {answers : Nat → EspErr} {address length : Nat}

theorem turn_ne_nil {c : Call} {last : Bool} {rest : Nat → List (Call × EspErr)} {n : Nat} :
    turn answers address length c last rest n ≠ [] := List.cons_ne_nil _ _

theorem rangeLoop_ne_nil (hk : Tails k address length) (fuel start done remain n : Nat) :
    (pieceLoop chip next fuel start done remain >>= k).trace answers n ≠ [] := by
  cases fuel with
  | zero =>
    have htail := hk.tail ESP_OK false answers n
    unfold pieceLoop
    rw [trace_bind, trace_pure, result_pure, List.nil_append, List.length_nil, Nat.add_zero, htail]
    exact flushTrace_ne_nil false
  | succ fuel =>
    rw [rangeLoop_trace hk]
    unfold yieldTurn
    split_ifs
    · exact List.cons_ne_nil _ _
    · exact List.cons_ne_nil _ _
    · dsimp only
      rw [body_trace hk]
      exact turn_ne_nil

/-- The loop, with what is behind it, is sound exactly if the first failure is a harmless one. -/
theorem rangeLoop_sound_iff (hk : Tails k address length) (hnext : Follows chip next cut inv)
    (hchanges : ∀ start done remain, (next start done remain).call.changes = true) {fuel start done remain n : Nat}
    {changed : Bool} (hinv : inv start remain) (hremain : 0 < remain) (hfuel : remain ≤ fuel)
    (hfit : start + remain < 2 ^ 32) :
    SoundAfter address length changed ((pieceLoop chip next fuel start done remain >>= k).trace answers n) ↔
      Safe chip.yields answers n (pieces cut fuel start remain).length changed := by
  induction fuel generalizing start done remain n changed with
  | zero => omega
  | succ fuel ih =>
    obtain ⟨hpos, hle, hinv'⟩ := hnext.cuts start remain hinv hremain
    have hlen := hnext.len start done remain
    have hmod : (start + cut start remain) % 2 ^ 32 = start + cut start remain := Nat.mod_eq_of_lt (by omega)
    have hbody : ∀ n, SoundAfter address length changed
        ((bodyOf chip next fuel start done remain >>= k).trace answers n) ↔
        (answers n = ESP_OK → answers (n + 1) = ESP_OK →
          (pieces cut fuel (start + cut start remain) (remain - cut start remain)).length ≠ 0 →
          answers (n + 2) = ESP_OK ∧ Safe chip.yields answers (n + 3)
            (pieces cut fuel (start + cut start remain) (remain - cut start remain)).length true) := by
      intro n
      rw [body_trace hk, turn_sound_iff (hchanges _ _ _) fun n => rangeLoop_ne_nil hk _ _ _ _ _]
      simp only [hlen, hmod]
      by_cases hlast : remain - cut start remain = 0
      · simp [hlast, pieces_zero]
      · have htiles : Tiles (pieces cut fuel (start + cut start remain) (remain - cut start remain))
            (start + cut start remain) (remain - cut start remain) := pieces_tiles hnext.cuts hinv' (by omega)
        have hne := htiles.ne_nil (Nat.pos_of_ne_zero hlast)
        simp only [hlast, decide_false, true_implies, ne_eq, List.length_eq_zero_iff, hne, not_false_eq_true]
        rw [ih hinv' (Nat.pos_of_ne_zero hlast) (by omega) (by omega)]
    rw [rangeLoop_trace hk, yieldTurn_sound_iff, pieces_cons (by omega), List.length_cons, safe_iff]
    · simp only [hbody, ite_and]
      cases chip.yields with
      | false => simp [lead]
      | true => by_cases hyield : answers n = ESP_OK <;> simp [lead, hyield]
    · intro n
      rw [body_trace hk]
      exact turn_ne_nil

end range
end EspIdf.Flash
