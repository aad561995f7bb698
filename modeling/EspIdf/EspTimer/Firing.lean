import EspIdf.EspTimer.Lists
import Mathlib.Data.List.Induction
import Mathlib.Tactic.Ring

/-!
# When the callbacks of started timers run

* `started` : a set of timers, each put into its list by `timer_insert`;
* `turn`, `turns` : the rounds of `timer_process_alarm`, one for each reading of the clock, when callbacks leave the timers
  alone; `shots` : the callbacks that they run;
* `Queue`, `turn_spec` : the list of a method, and what one round does to it;
* `FiringLaw` : the order of the callbacks, and which alarms of each kind of timer they answer;
* `firing_law_iff` : the law holds exactly when no backlog of a skipping timer leaves the range of an `int`.
-/

namespace EspIdf.EspTimer

open State

/-! ## Rounds -/

/-- Timers started one after the other. -/
def started (timers : List (Nat × Timer)) : State := timers.foldr (fun x s => timerInsert s x.1 x.2 false) State.init

/-- One round of the loop with the reading `now` of the clock: the first of a call, or the one after a callback. -/
def turn (d : Dispatch) (s : State) (now : Time) : State :=
  match s.calls with
  | .process _ it :: _ => callbackDone (s.finish 0) d it fun _ => now
  | _ => processLoop d s (s.lists d) (fun _ => now) false

/-- A callback for an alarm, and the time read in its round. -/
@[ext] structure Shot where
  it : Nat
  alarm : BitVec 64
  now : Time
deriving DecidableEq, Repr

/-- The callback that a round runs. -/
def fired (d : Dispatch) (s : State) (now : Time) : Option Shot :=
  match (turn d s now).calls with
  | .process _ it :: _ => some ⟨it, s.alarmOf it, now⟩
  | _ => none

/-- The state after a round for each reading. -/
def turns (d : Dispatch) : State → List Time → State
  | s, [] => s
  | s, now :: times => turns d (turn d s now) times

def shots (d : Dispatch) : State → List Time → List Shot
  | _, [] => []
  | s, now :: times => (fired d s now).toList ++ shots d (turn d s now) times

theorem turns_append (d : Dispatch) (s : State) (earlier later : List Time) :
    turns d s (earlier ++ later) = turns d (turns d s earlier) later := by
  induction earlier generalizing s with
  | nil => rfl
  | cons now earlier ih => exact ih _

theorem shots_append (d : Dispatch) (s : State) (earlier later : List Time) :
    shots d s (earlier ++ later) = shots d s earlier ++ shots d (turns d s earlier) later := by
  induction earlier generalizing s with
  | nil => rfl
  | cons now earlier ih =>
    simp only [List.cons_append, shots, turns, ih, List.append_assoc]

/-! ## The list of a method -/

/-- The timer without the mark of a running callback. -/
def State.core (s : State) (id : Nat) : Option Timer :=
  (s.timers id).map fun timer => { timer with callbackIsRunning := false }

/-- The timers of the list are sorted and of its method, none is to be deleted, and at most one callback is running. -/
structure Queue (d : Dispatch) (s : State) : Prop where
  nodup : (s.lists d).Nodup
  sorted : (s.lists d).Pairwise fun a b => s.alarmOf a ≤ s.alarmOf b
  timers : ∀ id ∈ s.lists d, ∃ timer, s.core id = some timer ∧ timer.dispatch = d ∧ timer.deletePending = false
  calls : s.calls = [] ∨ ∃ it, s.calls = [.process d it]

theorem alarmOf_core {s : State} {id : Nat} {timer : Timer} (h : s.core id = some timer) : s.alarmOf id = timer.alarm := by
  unfold core at h
  cases found : s.timers id with
  | none => simp [found] at h
  | some old =>
    simp only [found, Option.map_some, Option.some.injEq] at h
    rw [alarmOf_some found, ← h]

theorem alarmOf_congr {s s' : State} {id : Nat} (h : s'.core id = s.core id) : s'.alarmOf id = s.alarmOf id := by
  have alarm (s : State) : s.alarmOf id = (s.core id).elim 0 Timer.alarm := by
    unfold core alarmOf
    cases s.timers id <;> rfl
  rw [alarm, alarm, h]

theorem core_clearRunning (s : State) (it id : Nat) : (clearRunning s it).core id = s.core id := by
  unfold core clearRunning
  rw [put_timers]
  by_cases same : id = it
  · subst same
    rw [Function.update_self, Option.map_map]
    rfl
  · rw [Function.update_of_ne same]

theorem timerInsert_lists (s : State) (id : Nat) (timer : Timer) (w : Bool) (d : Dispatch) :
    (timerInsert s id timer w).lists d = if timer.dispatch = d then
      (s.lists d).orderedInsert (fun a b => (timerInsert s id timer w).alarmOf a < (timerInsert s id timer w).alarmOf b) id
    else s.lists d := by
  have alarms : (timerInsert s id timer w).alarmOf = (s.put id (some timer)).alarmOf := by
    funext other
    simp [alarmOf]
  have lists : (timerInsert s id timer w).lists = ((s.put id (some timer)).listInsert id timer.dispatch).lists := by
    unfold timerInsert
    dsimp only
    split <;> rfl
  rw [alarms, lists]
  by_cases same : timer.dispatch = d
  · subst same
    rw [if_pos rfl]
    simp only [listInsert, Function.update_self, put_lists]
  · rw [if_neg same]
    simp only [listInsert, Function.update_of_ne (Ne.symm same), put_lists]

theorem mem_timerInsert (s : State) (id : Nat) (timer : Timer) (w : Bool) (d : Dispatch) (other : Nat) :
    other ∈ (timerInsert s id timer w).lists d ↔ (other = id ∧ timer.dispatch = d) ∨ other ∈ s.lists d := by
  rw [timerInsert_lists]
  split
  · rename_i dispatch
    rw [List.mem_orderedInsert, and_iff_left dispatch]
  · rename_i ne
    rw [or_iff_right fun both => ne both.2]

theorem timerInsert_core (s : State) (id : Nat) (timer : Timer) (w : Bool) (other : Nat) :
    (timerInsert s id timer w).core other =
      if other = id then some { timer with callbackIsRunning := false } else s.core other := by
  unfold State.core
  rw [timerInsert_timers]
  by_cases same : other = id
  · subst same
    rw [Function.update_self, if_pos rfl]
    rfl
  · rw [Function.update_of_ne same, if_neg same]

theorem Queue.timerInsert {d : Dispatch} {s : State} {id : Nat} {timer : Timer} (h : Queue d s)
    (absent : id ∉ s.lists d) (kept : timer.deletePending = false) : Queue d (timerInsert s id timer false) where
  nodup := by
    rw [timerInsert_lists]
    split
    · exact (List.perm_orderedInsert _ _ _).nodup_iff.mpr (List.nodup_cons.mpr ⟨absent, h.nodup⟩)
    · exact h.nodup
  sorted := by
    have same : ∀ other ∈ s.lists d, (EspTimer.timerInsert s id timer false).alarmOf other = s.alarmOf other := by
      intro other mem
      refine alarmOf_congr ((timerInsert_core s id timer false other).trans (if_neg ?_))
      exact fun equal => absent (equal ▸ mem)
    rw [timerInsert_lists]
    split
    · exact sorted_orderedInsert id (sorted_congr h.sorted same)
    · exact sorted_congr h.sorted same
  timers := by
    intro other mem
    rw [timerInsert_core]
    rcases (mem_timerInsert s id timer false d other).mp mem with ⟨rfl, dispatch⟩ | mem
    · exact ⟨_, if_pos rfl, dispatch, kept⟩
    · have ne : other ≠ id := fun equal => absent (equal ▸ mem)
      rw [if_neg ne]
      exact h.timers other mem
  calls := by
    rw [timerInsert_calls]
    exact h.calls

section turn
variable {d : Dispatch} {s : State} {now : Time}

/-- The rest of a round, with nothing under way. -/
theorem turn_eq (h : Queue d s) : ∃ s₀ processed, turn d s now = processLoop d s₀ (s.lists d) (fun _ => now) processed ∧
    (∀ id, s₀.core id = s.core id) ∧ s₀.lists = s.lists ∧ s₀.calls = [] := by
  rcases h.calls with idle | ⟨it, running⟩
  · refine ⟨s, false, ?_, fun _ => rfl, rfl, idle⟩
    simp only [turn, idle]
  · refine ⟨clearRunning (s.finish 0) it, true, ?_, fun id => ?_, rfl, ?_⟩
    · simp only [turn, running, callbackDone]
      rfl
    · rw [core_clearRunning]
      rfl
    · show s.calls.eraseIdx 0 = []
      rw [running]
      rfl

/-- The timer after its round. -/
def Timer.fire (timer : Timer) (now : Time) : Timer :=
  { timer with alarm := if timer.period > 0 then timer.nextAlarm now else 0 }

theorem takeDue_core (s : State) (d : Dispatch) (it : Nat) (timer : Timer) (now : Time) (id : Nat) :
    (takeDue s d it timer now).core id =
      if id = it then some { timer.fire now with callbackIsRunning := false } else s.core id := by
  unfold core takeDue Timer.fire
  dsimp only
  by_cases periodic : timer.period > 0
  · rw [if_pos periodic, if_pos periodic, timerInsert_timers]
    by_cases same : id = it
    · subst same
      rw [Function.update_self, if_pos rfl]
      rfl
    · rw [Function.update_of_ne same, if_neg same]
      rfl
  · rw [if_neg periodic, if_neg periodic, put_timers]
    by_cases same : id = it
    · subst same
      rw [Function.update_self, if_pos rfl]
      rfl
    · rw [Function.update_of_ne same, if_neg same]
      rfl

theorem takeDue_lists {s : State} {it : Nat} {rest : List Nat} {timer : Timer} (dispatch : timer.dispatch = d)
    (lists : s.lists d = it :: rest) : (takeDue s d it timer now).lists d =
      if timer.period > 0 then
        rest.orderedInsert (fun a b => (takeDue s d it timer now).alarmOf a < (takeDue s d it timer now).alarmOf b) it
      else rest := by
  have left : (s.listRemove it d).lists d = rest := by simp [listRemove, lists]
  by_cases periodic : timer.period > 0
  · have run : takeDue s d it timer now = timerInsert (s.listRemove it d) it
        { timer with callbackIsRunning := true, alarm := timer.nextAlarm now } true := if_pos periodic
    rw [if_pos periodic, run, timerInsert_lists, left]
    exact if_pos dispatch
  · have run : takeDue s d it timer now = (s.listRemove it d).put it
        (some { timer with callbackIsRunning := true, alarm := 0 }) := if_neg periodic
    rw [if_neg periodic, run, put_lists, left]

/-- Nothing is due: the round ends the call. -/
structure Ends (d : Dispatch) (s s' : State) (now : Time) : Prop where
  calls : s'.calls = []
  core : ∀ id, s'.core id = s.core id
  lists : s'.lists d = s.lists d
  later : ∀ id ∈ s.lists d, now.wide < s.alarmOf id

/-- The first timer is due: it gets its next alarm or leaves the list. -/
structure Fires (d : Dispatch) (s s' : State) (now : Time) (shot : Shot) : Prop where
  head : (s.lists d).head? = some shot.it
  alarm : shot.alarm = s.alarmOf shot.it
  time : shot.now = now
  due : shot.alarm ≤ now.wide
  first : ∀ id ∈ s.lists d, shot.alarm ≤ s.alarmOf id
  self : s'.core shot.it = (s.core shot.it).map fun timer => timer.fire now
  others : ∀ id, id ≠ shot.it → s'.core id = s.core id
  listed : ∀ id, id ∈ s'.lists d ↔
    id ∈ s.lists d ∧ (id = shot.it → ∃ timer, s.core id = some timer ∧ timer.period > 0)
  running : s'.calls ≠ []

theorem Fires.mem {s' : State} {shot : Shot} (h : Fires d s s' now shot) : shot.it ∈ s.lists d :=
  List.mem_of_head? h.head

/-- What a round does. -/
theorem turn_spec (h : Queue d s) (now : Time) : Queue d (turn d s now) ∧
    ((fired d s now = none ∧ Ends d s (turn d s now) now) ∨
      ∃ shot, fired d s now = some shot ∧ Fires d s (turn d s now) now shot) := by
  obtain ⟨s₀, processed, run, cores, lists, idle⟩ := turn_eq h
  have alarms (id : Nat) : s₀.alarmOf id = s.alarmOf id := alarmOf_congr (cores id)
  cases list : s.lists d with
  | nil =>
    have ends : Ends d s (turn d s now) now := by
      rw [run, list]
      unfold processLoop
      refine ⟨?_, fun id => ?_, ?_, by rw [list]; exact fun _ mem => nomatch mem⟩
      · split <;> exact idle
      · split <;> exact cores id
      · split <;> exact congrFun lists d
    refine ⟨⟨?_, ?_, ?_, .inl ends.calls⟩, .inl ⟨?_, ends⟩⟩
    · rw [ends.lists]
      exact h.nodup
    · rw [ends.lists, list]
      exact List.Pairwise.nil
    · rw [ends.lists, list]
      exact fun _ mem => nomatch mem
    · unfold fired
      rw [ends.calls]
  | cons it rest =>
    obtain ⟨core, found, dispatch, kept⟩ := h.timers it (by rw [list]; exact List.mem_cons_self)
    obtain ⟨timer, allocated, rfl⟩ : ∃ timer, s₀.timers it = some timer ∧
        { timer with callbackIsRunning := false } = core := by
      have found' := (cores it).trans found
      unfold State.core at found'
      obtain ⟨timer, allocated, eq⟩ := Option.map_eq_some_iff.mp found'
      exact ⟨timer, allocated, eq⟩
    have alarmIt : s.alarmOf it = timer.alarm := by rw [← alarms, alarmOf_some allocated]
    have first : ∀ id ∈ s.lists d, timer.alarm ≤ s.alarmOf id := by
      intro id mem
      have sorted := h.sorted
      rw [list] at sorted mem
      rcases List.mem_cons.mp mem with rfl | mem
      · exact BitVec.le_of_eq alarmIt.symm
      · rw [← alarmIt]
        exact (List.pairwise_cons.mp sorted).1 id mem
    rw [list] at run
    unfold processLoop at run
    simp only [allocated] at run
    by_cases due : now.wide < timer.alarm
    · rw [if_pos due] at run
      have ends : Ends d s (turn d s now) now := by
        rw [run]
        refine ⟨?_, fun id => ?_, ?_, fun id mem => ?_⟩
        · split <;> exact idle
        · split <;> exact cores id
        · split <;> exact congrFun lists d
        · have := first id mem
          bv_omega
      have same (id : Nat) : (turn d s now).alarmOf id = s.alarmOf id := alarmOf_congr (ends.core id)
      refine ⟨⟨?_, ?_, ?_, .inl ends.calls⟩, .inl ⟨?_, ends⟩⟩
      · rw [ends.lists]
        exact h.nodup
      · rw [ends.lists]
        exact sorted_congr h.sorted fun id _ => same id
      · rw [ends.lists]
        intro id mem
        rw [ends.core id]
        exact h.timers id mem
      · unfold fired
        rw [ends.calls]
    · have kept' : ¬timer.deletePending = true := by simpa using kept
      rw [if_neg due, if_neg kept'] at run
      have lists₀ : s₀.lists d = it :: rest := (congrFun lists d).trans list
      have core' (id : Nat) : (turn d s now).core id =
          if id = it then some { timer.fire now with callbackIsRunning := false } else s.core id := by
        rw [run, ← cores id]
        exact takeDue_core s₀ d it timer now id
      have list' : (turn d s now).lists d = if timer.period > 0 then
          rest.orderedInsert (fun a b => (turn d s now).alarmOf a < (turn d s now).alarmOf b) it else rest := by
        rw [run]
        exact takeDue_lists dispatch lists₀
      have calls : (turn d s now).calls = [.process d it] := by
        rw [run]
        show (takeDue s₀ d it timer now).calls ++ _ = _
        rw [takeDue_calls, idle]
        rfl
      have nodup := h.nodup
      rw [list] at nodup
      obtain ⟨fresh, nodup⟩ := List.nodup_cons.mp nodup
      have others (id : Nat) (ne : id ≠ it) : (turn d s now).core id = s.core id := by rw [core', if_neg ne]
      have sortedRest : rest.Pairwise fun a b => (turn d s now).alarmOf a ≤ (turn d s now).alarmOf b := by
        have sorted := h.sorted
        rw [list] at sorted
        refine sorted_congr (List.pairwise_cons.mp sorted).2 fun id mem => alarmOf_congr (others id ?_)
        exact fun same => fresh (same ▸ mem)
      have mem' (id : Nat) : id ∈ (turn d s now).lists d ↔ (id = it ∧ timer.period > 0) ∨ id ∈ rest := by
        rw [list']
        split
        · rename_i periodic
          rw [List.mem_orderedInsert, and_iff_left periodic]
        · rename_i once
          rw [or_iff_right fun both => once both.2]
      refine ⟨⟨?_, ?_, fun id mem => ?_, .inr ⟨it, calls⟩⟩, .inr ⟨⟨it, s.alarmOf it, now⟩, ?_, ?_⟩⟩
      · rw [list']
        split
        · exact (List.perm_orderedInsert _ _ _).nodup_iff.mpr (List.nodup_cons.mpr ⟨fresh, nodup⟩)
        · exact nodup
      · rw [list']
        split
        · exact sorted_orderedInsert it sortedRest
        · exact sortedRest
      · rcases (mem' id).mp mem with ⟨rfl, -⟩ | mem
        · exact ⟨_, (core' id).trans (if_pos rfl), dispatch, kept⟩
        · rw [others id fun same => fresh (same ▸ mem)]
          exact h.timers id (by rw [list]; exact List.mem_cons_of_mem _ mem)
      · unfold fired
        rw [calls]
      · refine ⟨by rw [list]; rfl, rfl, rfl, ?_, ?_, ?_, others, fun id => ?_, by rw [calls]; simp⟩
        · rw [alarmIt]
          exact BitVec.not_lt.mp due
        · rw [alarmIt]
          exact first
        · rw [core', if_pos rfl, found]
          rfl
        · rw [mem' id, list]
          constructor
          · rintro (⟨rfl, periodic⟩ | mem)
            · exact ⟨List.mem_cons_self, fun _ => ⟨_, found, periodic⟩⟩
            · exact ⟨List.mem_cons_of_mem _ mem, fun same => absurd mem (same ▸ fresh)⟩
          · rintro ⟨mem, periodic⟩
            rcases List.mem_cons.mp mem with rfl | mem
            · obtain ⟨timer', found', periodic⟩ := periodic rfl
              rw [found, Option.some.injEq] at found'
              subst found'
              exact .inl ⟨rfl, periodic⟩
            · exact .inr mem

end turn

/-! ## Alarms -/

namespace Timer
variable {timer : Timer} {now : Time}

/-- A periodic timer that is due gets a later alarm. -/
theorem nextAlarm_toNat (due : timer.alarm ≤ now.wide) : (timer.nextAlarm now).toNat =
    (if timer.skipUnhandledEvents ∧ 1 < timer.skipped now then now.toNat else timer.alarm.toNat) +
      timer.period.toNat := by
  have wide : now.wide.toNat = now.toNat := by simp [Time.wide]; omega
  have long : (timer.period.setWidth 64).toNat = timer.period.toNat := by simp; omega
  have alarmLe : timer.alarm.toNat ≤ now.toNat := by rw [← wide]; exact due
  unfold nextAlarm
  split
  · rw [BitVec.toNat_add, wide, long]
    omega
  · rw [BitVec.toNat_add, long]
    omega

theorem le_nextAlarm (due : timer.alarm ≤ now.wide) : timer.alarm ≤ timer.nextAlarm now := by
  have wide : now.wide.toNat = now.toNat := by simp [Time.wide]; omega
  have alarmLe : timer.alarm.toNat ≤ now.toNat := by rw [← wide]; exact due
  have next := nextAlarm_toNat due
  show timer.alarm.toNat ≤ (timer.nextAlarm now).toNat
  rw [next]
  split <;> omega

end Timer

/-! ## Runs of rounds -/

section runs
variable {d : Dispatch} {s : State}

theorem Queue.turns (h : Queue d s) (times : List Time) : Queue d (turns d s times) := by
  induction times generalizing s with
  | nil => exact h
  | cons now times ih => exact ih (turn_spec h now).1

/-- Only listed timers are called back, with their alarms, and when these have come. -/
theorem mem_shots (h : Queue d s) {times : List Time} {shot : Shot} (mem : shot ∈ shots d s times) :
    shot.now ∈ times ∧ shot.alarm ≤ shot.now.wide := by
  induction times generalizing s with
  | nil => exact absurd mem List.not_mem_nil
  | cons now times ih =>
    obtain ⟨next, spec⟩ := turn_spec h now
    rcases List.mem_append.mp mem with here | later
    · rcases spec with ⟨none, -⟩ | ⟨x, some, fires⟩
      · simp [none] at here
      · obtain rfl : shot = x := by simpa [some] using here
        refine ⟨?_, ?_⟩
        · rw [fires.time]
          exact List.mem_cons_self
        · rw [fires.time]
          exact fires.due
    · obtain ⟨there, due⟩ := ih next later
      exact ⟨List.mem_cons_of_mem _ there, due⟩

/-- A bound on the alarms of some timers stays one: a timer that is called back gets a later alarm or leaves the list. -/
theorem turn_bound (h : Queue d s) (now : Time) {p : Nat → Prop} {a : BitVec 64}
    (bound : ∀ id ∈ s.lists d, p id → a ≤ s.alarmOf id) :
    ∀ id ∈ (turn d s now).lists d, p id → a ≤ (turn d s now).alarmOf id := by
  intro id mem wanted
  obtain ⟨-, ⟨-, ends⟩ | ⟨shot, -, fires⟩⟩ := turn_spec h now
  · rw [alarmOf_congr (ends.core id)]
    rw [ends.lists] at mem
    exact bound id mem wanted
  · obtain ⟨mem, periodic⟩ := (fires.listed id).mp mem
    have before := bound id mem wanted
    by_cases same : id = shot.it
    · obtain ⟨timer, found, positive⟩ := periodic same
      have after : (turn d s now).core id = some (timer.fire now) := by
        rw [same, fires.self, ← same, found]
        rfl
      have alarm : (timer.fire now).alarm = timer.nextAlarm now := if_pos positive
      have due := fires.due
      rw [fires.alarm, ← same, alarmOf_core found] at due
      rw [alarmOf_core found] at before
      rw [alarmOf_core after, alarm]
      exact BitVec.le_trans before (Timer.le_nextAlarm due)
    · rw [alarmOf_congr (fires.others id same)]
      exact before

theorem shots_bound (h : Queue d s) (times : List Time) {p : Nat → Prop} {a : BitVec 64}
    (bound : ∀ id ∈ s.lists d, p id → a ≤ s.alarmOf id) : ∀ shot ∈ shots d s times, p shot.it → a ≤ shot.alarm := by
  induction times generalizing s with
  | nil => exact fun _ mem => nomatch mem
  | cons now times ih =>
    intro shot mem wanted
    obtain ⟨next, spec⟩ := turn_spec h now
    rcases List.mem_append.mp mem with here | later
    · rcases spec with ⟨none, -⟩ | ⟨x, some, fires⟩
      · simp [none] at here
      · obtain rfl : shot = x := by simpa [some] using here
        rw [fires.alarm]
        exact bound shot.it fires.mem wanted
    · exact ih next (turn_bound h now bound) shot later wanted

/-- The callbacks run in the order of their alarms. -/
theorem shots_ordered (h : Queue d s) (times : List Time) :
    (shots d s times).Pairwise fun a b => a.alarm ≤ b.alarm := by
  induction times generalizing s with
  | nil => exact List.Pairwise.nil
  | cons now times ih =>
    obtain ⟨next, spec⟩ := turn_spec h now
    refine List.pairwise_append.mpr ⟨?_, ih next, fun shot here later there => ?_⟩
    · cases fired d s now <;> simp
    · rcases spec with ⟨none, -⟩ | ⟨x, some, fires⟩
      · simp [none] at here
      · obtain rfl : shot = x := by simpa [some] using here
        exact shots_bound next times (p := fun _ => True)
          (turn_bound h now fun id mem _ => fires.first id mem) later there trivial

/-! ## One timer -/

/-- The callbacks of one timer. -/
def shotsOf (id : Nat) (l : List Shot) : List Shot := l.filter fun shot => shot.it = id

theorem shotsOf_append (id : Nat) (l l' : List Shot) : shotsOf id (l ++ l') = shotsOf id l ++ shotsOf id l' :=
  List.filter_append l l'

theorem mem_shotsOf {id : Nat} {l : List Shot} {shot : Shot} : shot ∈ shotsOf id l ↔ shot ∈ l ∧ shot.it = id := by
  simp [shotsOf]

/-- A round and one timer: it is not the one, or its callback runs. -/
theorem turn_timer (h : Queue d s) (now : Time) (id : Nat) :
    (shotsOf id (fired d s now).toList = [] ∧ (turn d s now).core id = s.core id ∧
      (id ∈ (turn d s now).lists d ↔ id ∈ s.lists d)) ∨
    (shotsOf id (fired d s now).toList = [⟨id, s.alarmOf id, now⟩] ∧ id ∈ s.lists d ∧ s.alarmOf id ≤ now.wide ∧
      (turn d s now).core id = (s.core id).map (fun timer => timer.fire now) ∧
      (id ∈ (turn d s now).lists d ↔ ∃ timer, s.core id = some timer ∧ timer.period > 0)) := by
  obtain ⟨-, ⟨none, ends⟩ | ⟨⟨it, alarm, time⟩, some, fires⟩⟩ := turn_spec h now
  · refine .inl ⟨by rw [none]; rfl, ends.core id, by rw [ends.lists]⟩
  · obtain rfl : alarm = s.alarmOf it := fires.alarm
    obtain rfl : time = now := fires.time
    by_cases same : it = id
    · subst same
      refine .inr ⟨by simp [some, shotsOf], fires.mem, fires.due, fires.self, ?_⟩
      rw [fires.listed]
      constructor
      · rintro ⟨-, periodic⟩
        exact periodic rfl
      · intro periodic
        exact ⟨fires.mem, fun _ => periodic⟩
    · refine .inl ⟨by simp [some, shotsOf, same], fires.others id (Ne.symm same), ?_⟩
      rw [fires.listed]
      exact and_iff_left fun equal => absurd equal.symm same

/-- When a pass is over, what is left in the list is later. -/
theorem pass_over (h : Queue d s) (earlier : List Time) (now : Time) (ended : (turns d s (earlier ++ [now])).calls = []) :
    ∀ id ∈ (turns d s (earlier ++ [now])).lists d, now.wide < (turns d s (earlier ++ [now])).alarmOf id := by
  rw [turns_append] at ended ⊢
  obtain ⟨-, ⟨-, ends⟩ | ⟨shot, -, fires⟩⟩ := turn_spec (h.turns earlier) now
  · intro id mem
    rw [show turns d (turns d s earlier) [now] = turn d (turns d s earlier) now from rfl] at mem ⊢
    rw [ends.lists] at mem
    rw [alarmOf_congr (ends.core id)]
    exact ends.later id mem
  · exact absurd ended fires.running

theorem shotsOf_snoc (id : Nat) (earlier : List Time) (now : Time) : shotsOf id (shots d s (earlier ++ [now])) =
    shotsOf id (shots d s earlier) ++ shotsOf id (fired d (turns d s earlier) now).toList := by
  rw [shots_append, shotsOf_append]
  simp only [shots, List.append_nil]

theorem turns_snoc (earlier : List Time) (now : Time) :
    turns d s (earlier ++ [now]) = turn d (turns d s earlier) now := turns_append d s earlier [now]

variable {id : Nat} {timer : Timer}

/-- A one-shot timer waits with its alarm, or its callback has run. -/
theorem oneShot_turns (h : Queue d s) (mem : id ∈ s.lists d) (core : s.core id = some timer) (oneShot : timer.period = 0)
    (times : List Time) :
    (id ∈ (turns d s times).lists d ∧ (turns d s times).core id = some timer ∧ shotsOf id (shots d s times) = []) ∨
    (id ∉ (turns d s times).lists d ∧ ∃ now, shotsOf id (shots d s times) = [⟨id, timer.alarm, now⟩]) := by
  induction times using List.reverseRecOn with
  | nil => exact .inl ⟨mem, core, rfl⟩
  | append_singleton earlier now ih =>
    rw [turns_snoc, shotsOf_snoc]
    rcases turn_timer (h.turns earlier) now id with ⟨none, same, listed⟩ | ⟨one, mem, -, -, listed⟩
    · rw [none, List.append_nil, same, listed]
      exact ih
    · rcases ih with ⟨-, core, nothing⟩ | ⟨gone, -⟩
      · refine .inr ⟨?_, now, ?_⟩
        · rw [listed]
          rintro ⟨timer', found, periodic⟩
          rw [core, Option.some.injEq] at found
          rw [← found, oneShot] at periodic
          exact absurd periodic (by decide)
        · rw [nothing, one, alarmOf_core core]
          rfl
      · exact absurd mem gone

/-- A periodic timer stays, and changes nothing but its alarm. -/
theorem periodic_turns (h : Queue d s) (mem : id ∈ s.lists d) (core : s.core id = some timer) (periodic : timer.period > 0)
    (times : List Time) : id ∈ (turns d s times).lists d ∧
      ∃ alarm, (turns d s times).core id = some { timer with alarm := alarm } := by
  induction times using List.reverseRecOn with
  | nil => exact ⟨mem, timer.alarm, core⟩
  | append_singleton earlier now ih =>
    obtain ⟨mem, alarm, core⟩ := ih
    rw [turns_snoc]
    rcases turn_timer (h.turns earlier) now id with ⟨-, same, listed⟩ | ⟨-, -, -, fire, listed⟩
    · exact ⟨listed.mpr mem, alarm, same.trans core⟩
    · refine ⟨listed.mpr ⟨_, core, periodic⟩, (Timer.fire { timer with alarm := alarm } now).alarm, ?_⟩
      rw [fire, core]
      rfl

/-- The callbacks of a periodic timer that does not skip answer one multiple of the period after the other. -/
theorem multiples_turns (h : Queue d s) (core : s.core id = some timer)
    (periodic : timer.period > 0) (unskipped : timer.skipUnhandledEvents = false) (times : List Time) :
    ∃ n alarm, (turns d s times).core id = some { timer with alarm := alarm } ∧
      alarm.toNat = timer.alarm.toNat + n * timer.period.toNat ∧
      (shotsOf id (shots d s times)).map (fun shot => shot.alarm.toNat) =
        (List.range n).map fun k => timer.alarm.toNat + k * timer.period.toNat := by
  induction times using List.reverseRecOn with
  | nil => exact ⟨0, timer.alarm, core, by omega, rfl⟩
  | append_singleton earlier now ih =>
    obtain ⟨n, alarm, core, reached, multiples⟩ := ih
    rw [turns_snoc, shotsOf_snoc]
    rcases turn_timer (h.turns earlier) now id with ⟨none, same, -⟩ | ⟨one, -, due, fire, -⟩
    · exact ⟨n, alarm, same.trans core, reached, by rw [none, List.append_nil, multiples]⟩
    · rw [alarmOf_core core] at one due
      have next := Timer.nextAlarm_toNat (show ({ timer with alarm := alarm } : Timer).alarm ≤ now.wide from due)
      rw [if_neg (by simp [unskipped])] at next
      refine ⟨n + 1, Timer.nextAlarm { timer with alarm := alarm } now, fire.trans ?_, ?_, ?_⟩
      · rw [core]
        show some (Timer.fire { timer with alarm := alarm } now) = _
        unfold Timer.fire
        rw [if_pos periodic]
      · rw [next, reached, Nat.add_mul, Nat.one_mul, Nat.add_assoc]
      · rw [one, List.map_append, multiples, List.range_succ, List.map_append]
        show _ ++ [alarm.toNat] = _ ++ [timer.alarm.toNat + n * timer.period.toNat]
        rw [reached]

end runs

/-! ## The law -/

/-- No later than in the first pass whose end is not before the alarm, and once. -/
structure RunsOnce (d : Dispatch) (s : State) (id : Nat) (timer : Timer) (times : List Time) : Prop where
  once : (shotsOf id (shots d s times)).length ≤ 1
  alarm : ∀ shot ∈ shotsOf id (shots d s times), shot.alarm = timer.alarm
  pass : ∀ earlier now, earlier ++ [now] <+: times → (turns d s (earlier ++ [now])).calls = [] →
    (shotsOf id (shots d s (earlier ++ [now])) ≠ [] ↔ timer.alarm ≤ now.wide)

/-- Once for each multiple of the period that has passed, in their order. -/
structure RunsEveryPeriod (d : Dispatch) (s : State) (id : Nat) (timer : Timer) (times : List Time) : Prop where
  multiples : ∃ n, (shotsOf id (shots d s times)).map (fun shot => shot.alarm.toNat) =
    (List.range n).map fun k => timer.alarm.toNat + k * timer.period.toNat
  pass : ∀ earlier now, earlier ++ [now] <+: times → (turns d s (earlier ++ [now])).calls = [] → ∀ k,
    ((∃ shot ∈ shotsOf id (shots d s (earlier ++ [now])),
        shot.alarm.toNat = timer.alarm.toNat + k * timer.period.toNat) ↔
      timer.alarm.toNat + k * timer.period.toNat ≤ now.toNat)

/-- A callback that is two periods late or more answers all that has passed: the next alarm and those of the later
callbacks are after it. -/
def SkipsBacklog (d : Dispatch) (s : State) (id : Nat) (timer : Timer) (times : List Time) : Prop :=
  ∀ earlier now later shot, times = earlier ++ now :: later → fired d (turns d s earlier) now = some shot →
    shot.it = id → shot.alarm.toNat + 2 * timer.period.toNat ≤ now.toNat →
      now.wide < (turns d s (earlier ++ [now])).alarmOf id ∧
        ∀ next ∈ shotsOf id (shots d (turns d s (earlier ++ [now])) later), now.wide < next.alarm

/-- How the callbacks of started timers run. -/
structure FiringLaw (d : Dispatch) (timers : List (Nat × Timer)) (times : List Time) : Prop where
  due : ∀ shot ∈ shots d (started timers) times, shot.alarm ≤ shot.now.wide
  ordered : (shots d (started timers) times).Pairwise fun a b => a.alarm ≤ b.alarm
  oneShot : ∀ id timer, (id, timer) ∈ timers → timer.dispatch = d → timer.period = 0 →
    RunsOnce d (started timers) id timer times
  periodic : ∀ id timer, (id, timer) ∈ timers → timer.dispatch = d → timer.period > 0 →
    timer.skipUnhandledEvents = false → RunsEveryPeriod d (started timers) id timer times
  skipping : ∀ id timer, (id, timer) ∈ timers → timer.dispatch = d → timer.period > 0 →
    timer.skipUnhandledEvents = true → SkipsBacklog d (started timers) id timer times

/-- A timer that is two periods late or more is so in an `int` too. -/
def BacklogFits (s : State) (id : Nat) (timer : Timer) (now : Time) : Prop :=
  let periods := (now.toNat - (s.alarmOf id).toNat) / timer.period.toNat
  2 ≤ periods → 2 ≤ periods % 2 ^ 32 ∧ periods % 2 ^ 32 < 2 ^ 31

/-- In every round, the first timer, if it skips and is due, has a backlog that fits. -/
def BacklogsFit (d : Dispatch) (timers : List (Nat × Timer)) (times : List Time) : Prop :=
  ∀ earlier now later, times = earlier ++ now :: later → ∀ id timer, (id, timer) ∈ timers → timer.dispatch = d →
    timer.period > 0 → timer.skipUnhandledEvents = true →
      ((turns d (started timers) earlier).lists d).head? = some id →
        BacklogFits (turns d (started timers) earlier) id timer now

/-! ## From the start on -/

section law
variable {d : Dispatch} {timers : List (Nat × Timer)} {times : List Time}

/-- The started timers are in their lists. -/
theorem queue_started (nodup : (timers.map Prod.fst).Nodup) (kept : ∀ x ∈ timers, x.2.deletePending = false) (d : Dispatch) :
    Queue d (started timers) ∧ (∀ id ∈ (started timers).lists d, id ∈ timers.map Prod.fst) ∧
      ∀ id timer, (id, timer) ∈ timers →
        (started timers).core id = some { timer with callbackIsRunning := false } ∧
          (timer.dispatch = d → id ∈ (started timers).lists d) := by
  induction timers with
  | nil =>
    refine ⟨⟨List.nodup_nil, List.Pairwise.nil, fun _ mem => ?_, .inl rfl⟩, fun _ mem => ?_, fun _ _ mem => ?_⟩
    · exact absurd mem List.not_mem_nil
    · exact absurd mem List.not_mem_nil
    · exact absurd mem List.not_mem_nil
  | cons x timers ih =>
    obtain ⟨id, timer⟩ := x
    obtain ⟨fresh, nodup⟩ := List.nodup_cons.mp nodup
    obtain ⟨queue, within, there⟩ := ih nodup fun x mem => kept x (List.mem_cons_of_mem _ mem)
    have absent : id ∉ (started timers).lists d := fun mem => fresh (within id mem)
    have insert := timerInsert_core (started timers) id timer false
    have list := mem_timerInsert (started timers) id timer false d
    refine ⟨queue.timerInsert absent (kept _ List.mem_cons_self), fun other mem => ?_, fun other timer' mem => ?_⟩
    · rcases (list other).mp mem with ⟨rfl, -⟩ | mem
      · exact List.mem_cons_self
      · exact List.mem_cons_of_mem _ (within other mem)
    · rcases List.mem_cons.mp mem with same | mem
      · obtain ⟨rfl, rfl⟩ := Prod.mk.inj same
        exact ⟨(insert other).trans (if_pos rfl), fun dispatch => (list other).mpr (.inl ⟨rfl, dispatch⟩)⟩
      · have ne : other ≠ id := fun same => fresh (same ▸ List.mem_map.mpr ⟨_, mem, rfl⟩)
        obtain ⟨core, listed⟩ := there other timer' mem
        exact ⟨((insert other).trans (if_neg ne)).trans core, fun dispatch => (list other).mpr (.inr (listed dispatch))⟩

section
variable {s : State} {id : Nat} {timer : Timer}

theorem le_last {earlier : List Time} {now : Time} (ascending : times.Pairwise (· ≤ ·))
    (pre : earlier ++ [now] <+: times) : ∀ time ∈ earlier ++ [now], time ≤ now := by
  intro time mem
  have ascending := ascending.sublist pre.sublist
  rcases List.mem_append.mp mem with mem | mem
  · exact (List.pairwise_append.mp ascending).2.2 time mem now List.mem_cons_self
  · exact BitVec.le_of_eq (List.mem_singleton.mp mem)

/-- The alarm of a callback has come by the end of the pass. -/
theorem alarm_le_last (h : Queue d s) (ascending : times.Pairwise (· ≤ ·)) {earlier : List Time} {now : Time}
    (pre : earlier ++ [now] <+: times) {shot : Shot} (mem : shot ∈ shotsOf id (shots d s (earlier ++ [now]))) :
    shot.alarm.toNat ≤ now.toNat := by
  obtain ⟨there, due⟩ := mem_shots h (mem_shotsOf.mp mem).1
  have last : shot.now.toNat ≤ now.toNat := le_last ascending pre _ there
  have due : shot.alarm.toNat ≤ shot.now.wide.toNat := due
  have wide : shot.now.wide.toNat = shot.now.toNat := by simp [Time.wide]; omega
  omega

theorem runsOnce (h : Queue d s) (mem : id ∈ s.lists d) (core : s.core id = some { timer with callbackIsRunning := false })
    (oneShot : timer.period = 0) (ascending : times.Pairwise (· ≤ ·)) : RunsOnce d s id timer times := by
  have after := oneShot_turns h mem core oneShot
  refine ⟨?_, fun shot there => ?_, fun earlier now pre ended => ?_⟩
  · rcases after times with ⟨-, -, none⟩ | ⟨-, now, one⟩
    · rw [none]
      exact Nat.zero_le 1
    · rw [one]
      exact Nat.le_refl 1
  · rcases after times with ⟨-, -, none⟩ | ⟨-, now, one⟩
    · rw [none] at there
      exact absurd there List.not_mem_nil
    · rw [one, List.mem_singleton] at there
      rw [there]
  · rcases after (earlier ++ [now]) with ⟨waits, core, none⟩ | ⟨-, time, one⟩
    · have later := pass_over h earlier now ended id waits
      rw [alarmOf_core core] at later
      rw [none]
      exact iff_of_false (fun ne => ne rfl) (BitVec.not_le.mpr later)
    · have mem : (⟨id, timer.alarm, time⟩ : Shot) ∈ shotsOf id (shots d s (earlier ++ [now])) := by
        rw [one]
        exact List.mem_singleton_self _
      have come := alarm_le_last h ascending pre mem
      have wide : now.wide.toNat = now.toNat := by simp [Time.wide]; omega
      refine iff_of_true (by rw [one]; exact List.cons_ne_nil _ _) ?_
      show timer.alarm.toNat ≤ now.wide.toNat
      rw [wide]
      exact come

theorem runsEveryPeriod (h : Queue d s) (mem : id ∈ s.lists d)
    (core : s.core id = some { timer with callbackIsRunning := false }) (periodic : timer.period > 0)
    (unskipped : timer.skipUnhandledEvents = false) (ascending : times.Pairwise (· ≤ ·)) :
    RunsEveryPeriod d s id timer times := by
  have after := multiples_turns h core periodic unskipped
  refine ⟨?_, fun earlier now pre ended k => ?_⟩
  · obtain ⟨n, alarm, -, -, multiples⟩ := after times
    exact ⟨n, multiples⟩
  · obtain ⟨n, alarm, core', reached, multiples⟩ := after (earlier ++ [now])
    constructor
    · rintro ⟨shot, there, same⟩
      rw [← same]
      exact alarm_le_last h ascending pre there
    · intro come
      have listed := (periodic_turns h mem core periodic (earlier ++ [now])).1
      have later := pass_over h earlier now ended id listed
      rw [alarmOf_core core'] at later
      have later : now.wide.toNat < alarm.toNat := later
      have wide : now.wide.toNat = now.toNat := by simp [Time.wide]; omega
      have less : k < n := by
        rw [wide] at later
        have reached : alarm.toNat = timer.alarm.toNat + n * timer.period.toNat := reached
        by_contra least
        have := Nat.mul_le_mul_right timer.period.toNat (Nat.le_of_not_lt least)
        omega
      have answered : timer.alarm.toNat + k * timer.period.toNat ∈
          (shotsOf id (shots d s (earlier ++ [now]))).map fun shot => shot.alarm.toNat := by
        rw [multiples]
        exact List.mem_map.mpr ⟨k, List.mem_range.mpr less, rfl⟩
      exact List.mem_map.mp answered

/-- Only a number of periods that an `int` holds counts as two or more. -/
theorem one_lt_skipped {now : Time} (due : timer.alarm ≤ now.wide) : 1 < timer.skipped now ↔
    2 ≤ (now.toNat - timer.alarm.toNat) / timer.period.toNat % 2 ^ 32 ∧
      (now.toNat - timer.alarm.toNat) / timer.period.toNat % 2 ^ 32 < 2 ^ 31 := by
  have wide : now.wide.toNat = now.toNat := by simp [Time.wide]; omega
  have long : (timer.period.setWidth 64).toNat = timer.period.toNat := by simp; omega
  have alarmLe : timer.alarm.toNat ≤ now.toNat := by rw [← wide]; exact due
  have periods : ((now.wide - timer.alarm) / timer.period.setWidth 64).toNat =
      (now.toNat - timer.alarm.toNat) / timer.period.toNat := by
    rw [BitVec.toNat_udiv, BitVec.toNat_sub_of_le due, wide, long]
  unfold Timer.skipped
  rw [BitVec.toInt_eq_toNat_cond, BitVec.toNat_setWidth, periods]
  split <;> omega

/-- Which timer a round calls back. -/
theorem fired_iff (h : Queue d s) {now : Time} {shot : Shot} : fired d s now = some shot ↔
    (s.lists d).head? = some shot.it ∧ shot.alarm = s.alarmOf shot.it ∧ shot.now = now ∧ shot.alarm ≤ now.wide := by
  obtain ⟨-, ⟨none, ends⟩ | ⟨x, ran, fires⟩⟩ := turn_spec h now
  · rw [none]
    refine iff_of_false nofun fun ⟨head, alarm, _, due⟩ => ?_
    have later := ends.later shot.it (List.mem_of_head? head)
    rw [alarm] at due
    exact absurd due (BitVec.not_le.mpr later)
  · rw [ran]
    constructor
    · rintro ⟨⟩
      exact ⟨fires.head, fires.alarm, fires.time, fires.due⟩
    · rintro ⟨head, alarm, time, -⟩
      have it : x.it = shot.it := Option.some.inj (fires.head.symm.trans head)
      have same : x = shot := Shot.ext it (by rw [fires.alarm, alarm, it]) (by rw [fires.time, time])
      rw [same]

/-- The alarm after the callback of a skipping timer is later than now when its backlog of two periods or more fits. -/
theorem skipped_iff (h : Queue d s) {alarm : BitVec 64} {now : Time} {shot : Shot}
    (core : s.core id = some { timer with alarm := alarm, callbackIsRunning := false }) (periodic : timer.period > 0)
    (skips : timer.skipUnhandledEvents = true) (ran : fired d s now = some shot) (it : shot.it = id)
    (late : shot.alarm.toNat + 2 * timer.period.toNat ≤ now.toNat) :
    now.wide < (turn d s now).alarmOf id ↔ BacklogFits s id timer now := by
  obtain ⟨-, ⟨none, -⟩ | ⟨x, ran', fires⟩⟩ := turn_spec h now
  · rw [none] at ran
    cases ran
  obtain rfl : shot = x := Option.some.inj (ran.symm.trans ran')
  subst it
  have after : (turn d s now).core shot.it = some (Timer.fire { timer with alarm := alarm, callbackIsRunning := false } now) := by
    rw [fires.self, core]
    rfl
  have alarmIt : s.alarmOf shot.it = alarm := alarmOf_core core
  have due : alarm ≤ now.wide := by
    rw [← alarmIt, ← fires.alarm]
    exact fires.due
  rw [fires.alarm, alarmIt] at late
  have positive : 0 < timer.period.toNat := periodic
  have two : 2 ≤ (now.toNat - alarm.toNat) / timer.period.toNat :=
    (Nat.le_div_iff_mul_le positive).mpr (by omega)
  have wide : now.wide.toNat = now.toNat := by simp [Time.wide]; omega
  have reached : ({ timer with alarm := alarm, callbackIsRunning := false } : Timer).alarm ≤ now.wide := due
  have skipped := one_lt_skipped reached
  have next := Timer.nextAlarm_toNat reached
  rw [alarmOf_core after]
  show now.wide.toNat < (Timer.fire { timer with alarm := alarm, callbackIsRunning := false } now).alarm.toNat ↔ _
  unfold Timer.fire BacklogFits
  rw [if_pos periodic, next, wide, alarmIt]
  constructor
  · intro later _ _
    refine skipped.mp ?_
    by_contra small
    rw [if_neg fun both => small both.2] at later
    dsimp only at later
    omega
  · intro fits
    rw [if_pos ⟨skips, skipped.mpr (fits two)⟩]
    dsimp only
    omega

theorem skipsBacklog_iff (h : Queue d s) (mem : id ∈ s.lists d)
    (core : s.core id = some { timer with callbackIsRunning := false }) (periodic : timer.period > 0)
    (skips : timer.skipUnhandledEvents = true) : SkipsBacklog d s id timer times ↔
      ∀ earlier now later, times = earlier ++ now :: later →
        ((turns d s earlier).lists d).head? = some id → BacklogFits (turns d s earlier) id timer now := by
  have positive : 0 < timer.period.toNat := periodic
  refine forall_congr' fun earlier => forall_congr' fun now => forall_congr' fun later => ?_
  have queue := h.turns earlier
  obtain ⟨listed, alarm, core⟩ := periodic_turns h mem core periodic earlier
  constructor
  · intro law split head two
    have late : (turns d s earlier).alarmOf id ≤ now.wide ∧
        ((turns d s earlier).alarmOf id).toNat + 2 * timer.period.toNat ≤ now.toNat := by
      have wide : now.wide.toNat = now.toNat := by simp [Time.wide]; omega
      have late := (Nat.le_div_iff_mul_le positive).mp two
      refine ⟨?_, by omega⟩
      show ((turns d s earlier).alarmOf id).toNat ≤ now.wide.toNat
      omega
    have shot : fired d (turns d s earlier) now = some ⟨id, (turns d s earlier).alarmOf id, now⟩ :=
      (fired_iff queue).mpr ⟨head, rfl, rfl, late.1⟩
    have after := (law _ split shot rfl late.2).1
    rw [turns_snoc] at after
    exact (skipped_iff queue core periodic skips shot rfl late.2).mp after two
  · intro fits shot split ran it late
    have head : ((turns d s earlier).lists d).head? = some id := by
      rw [← it]
      exact ((fired_iff queue).mp ran).1
    have after := (skipped_iff queue core periodic skips ran it late).mpr (fits split head)
    rw [turns_snoc]
    refine ⟨after, fun next there => ?_⟩
    obtain ⟨there, it⟩ := mem_shotsOf.mp there
    have bound := shots_bound (turn_spec queue now).1 later (p := fun other => other = id)
      (a := (turn d (turns d s earlier) now).alarmOf id) (fun other _ same => by rw [same]; exact BitVec.le_refl _)
      next there it
    exact Nat.lt_of_lt_of_le after bound

end

/-- For all started timers and all ascending readings of the clock, the law holds when no backlog is cut down. -/
theorem firing_law_iff (nodup : (timers.map Prod.fst).Nodup) (kept : ∀ x ∈ timers, x.2.deletePending = false)
    (ascending : times.Pairwise (· ≤ ·)) : FiringLaw d timers times ↔ BacklogsFit d timers times := by
  obtain ⟨queue, -, there⟩ := queue_started nodup kept d
  have skipping (id : Nat) (timer : Timer) (mem : (id, timer) ∈ timers) (dispatch : timer.dispatch = d)
      (periodic : timer.period > 0) (skips : timer.skipUnhandledEvents = true) :
      SkipsBacklog d (started timers) id timer times ↔ _ :=
    skipsBacklog_iff queue ((there id timer mem).2 dispatch) (there id timer mem).1 periodic skips
  constructor
  · intro law earlier now later split id timer mem dispatch periodic skips
    exact (skipping id timer mem dispatch periodic skips).mp (law.skipping id timer mem dispatch periodic skips)
      earlier now later split
  · intro fits
    refine ⟨fun shot mem => (mem_shots queue mem).2, shots_ordered queue times, ?_, ?_, ?_⟩
    · intro id timer mem dispatch oneShot
      obtain ⟨core, listed⟩ := there id timer mem
      exact runsOnce queue (listed dispatch) core oneShot ascending
    · intro id timer mem dispatch periodic unskipped
      obtain ⟨core, listed⟩ := there id timer mem
      exact runsEveryPeriod queue (listed dispatch) core periodic unskipped ascending
    · intro id timer mem dispatch periodic skips
      refine (skipping id timer mem dispatch periodic skips).mpr fun earlier now later split => ?_
      exact fits earlier now later split id timer mem dispatch periodic skips

end law

/-- A timer with `skip_unhandled_events` and the shortest period. -/
def skippingTimer : Timer where
  alarm := 50
  period := 50
  isr := false
  skipUnhandledEvents := true
  callbackIsRunning := false
  deletePending := false

def oneShotTimer : Timer := { skippingTimer with period := 0, skipUnhandledEvents := false }

theorem firing_law_iff_twoTimers :
    FiringLaw .task [(0, oneShotTimer), (1, skippingTimer)] [40, 160, 160] ↔
      BacklogsFit .task [(0, oneShotTimer), (1, skippingTimer)] [40, 160, 160] :=
  firing_law_iff (by decide) (by decide) (by decide)

/-- After `2 ^ 31` periods, a day and six hours, the backlog is negative as an `int`. -/
theorem skipping_timer_stays_late : ¬FiringLaw .task [(1, skippingTimer)] [107374182450] := by
  intro law
  have ran : fired .task (turns .task (started [(1, skippingTimer)]) []) 107374182450 =
      some ⟨1, 50, 107374182450⟩ := by decide
  have after := (law.skipping 1 skippingTimer List.mem_cons_self rfl (by decide) rfl [] 107374182450 [] _ rfl ran rfl
    (by decide)).1
  exact absurd after (by decide)

end EspIdf.EspTimer
