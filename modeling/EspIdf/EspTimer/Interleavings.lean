import EspIdf.EspTimer.Lists

/-!
# Every order of the steps keeps the timer lists

* `calm` : a history without the two mishaps that a restart or a start can cause;
* `processLoop_linked`, `processLoop_ends` : `timer_process_alarm` between two callbacks;
* `Keeps` : what the steps of others leave of a timer;
* `Inv`, `step_inv` : the invariant, and `lists_intact` : what it says of every history;
* `alarm_waits_for_callback` : why the alarm of a method in a callback is left out.
-/

namespace EspIdf.EspTimer

open State

/-! ## Histories -/

/-- `timer_process_alarm` is in a callback of the method. -/
def State.processing (s : State) (d : Dispatch) : Prop := ∃ it, Call.process d it ∈ s.calls

/-- The step arms no timer with the alarm 0, and restarts none that is no longer armed when the lock is taken. -/
def calmStep (s : State) : Event → Bool
  | .proceed k now =>
    match s.calls[k]? with
    | some (.init id _ _ alarm) => ((s.timers id).any Timer.armed) || decide (alarm ≠ 0)
    | some (.restart id _ timeout first) =>
      (s.timers id).any fun timer => timer.armed && (timer.restarted timeout first now).armed
    | _ => true
  | _ => true

def calm : State → List Event → Bool
  | _, [] => true
  | s, event :: events => calmStep s event && (step s event).all fun s' => calm s' events

/-! ## `timer_process_alarm` -/

section process
variable {s : State} {d : Dispatch} {it : Nat} {timer : Timer} {now : Time}

theorem Linked.begin (h : Linked s) (call : Call) : Linked (s.begin call) := ⟨h.nodup, h.mem, h.sorted, h.whole⟩

/-- A timer that is due leaves its list disarmed, or goes back in with an alarm that is not 0. -/
theorem Linked.takeDue (h : Linked s) (allocated : s.timers it = some timer) (dispatch : timer.dispatch = d)
    (listed : timer.listed) (due : timer.alarm ≤ now.wide) (kept : timer.deletePending = false) :
    Linked (takeDue s d it timer now) := by
  subst dispatch
  have gone (new : Timer) (alarm : new.alarm = 0) (pending : new.deletePending = false) :
      Linked ((s.listRemove it timer.dispatch).put it (some new)) :=
    h.listRemove_put allocated listed fun _ eq => by
      cases eq
      simp [Timer.listed, alarm, pending]
  unfold EspTimer.takeDue
  dsimp only
  split
  · rename_i period
    rw [← timerInsert_put _ _ _ (some timer.disarm)]
    have disarmed := gone timer.disarm rfl kept
    have unlisted : ¬timer.disarm.listed := by simp [Timer.listed, Timer.disarm, kept]
    refine disarmed.timerInsert (disarmed.absent (by simp) unlisted) (.inl ?_) true
    exact Timer.nextAlarm_ne_zero period due
  · exact gone _ rfl kept

theorem Programmed.takeDue (h : Programmed s d) {d' : Dispatch} (ne : d ≠ d') (absent : it ∉ s.lists d)
    (dispatch : timer.dispatch = d') : Programmed (takeDue s d' it timer now) d := by
  have other (new : Option Timer) := h.listRemove_put_other ne absent new
  unfold EspTimer.takeDue
  dsimp only
  split
  · rw [← timerInsert_put _ _ _ (some timer.disarm)]
    refine (other _).timerInsert_other ?_ ?_ true
    · simpa [listRemove, ne] using absent
    · subst dispatch
      exact ne
  · exact other _

theorem takeDue_timers (s : State) (d : Dispatch) (it : Nat) (timer : Timer) (now : Time) :
    ∃ new : Timer, (takeDue s d it timer now).timers = Function.update s.timers it (some new) ∧
      new.dispatch = timer.dispatch ∧ new.deletePending = timer.deletePending := by
  unfold takeDue
  dsimp only
  split
  · exact ⟨_, timerInsert_timers _ _ _ _, rfl, rfl⟩
  · exact ⟨_, rfl, rfl, rfl⟩

/-- The first timer of a list is allocated, and due or not. -/
theorem Linked.first (h : Linked s) {rest : List Nat} (lists : s.lists d = it :: rest) :
    ∃ timer, s.timers it = some timer ∧ timer.dispatch = d ∧ timer.listed :=
  (h.mem d it).mp (by simp [lists])

theorem lists_freed {rest : List Nat} (lists : s.lists d = it :: rest) :
    ((s.listRemove it d).put it none).lists d = rest := by
  simp [listRemove, lists]

theorem Linked.freed (h : Linked s) (allocated : s.timers it = some timer) (dispatch : timer.dispatch = d)
    (listed : timer.listed) : Linked ((s.listRemove it d).put it none) := by
  subst dispatch
  exact h.listRemove_put allocated listed fun _ eq => nomatch eq

theorem processLoop_linked (d : Dispatch) (l : List Nat) (clock : Nat → Time) (processed : Bool) (h : Linked s)
    (lists : s.lists d = l) : Linked (processLoop d s l clock processed) := by
  induction l generalizing s clock processed with
  | nil =>
    unfold processLoop
    split
    · exact h.setAlarmId _ d
    · exact h
  | cons it rest ih =>
    obtain ⟨timer, allocated, dispatch, listed⟩ := h.first lists
    unfold processLoop
    simp only [allocated]
    split
    · split
      · exact h.setAlarmId _ d
      · exact h
    · rename_i due
      split
      · exact ih _ _ (h.freed allocated dispatch listed) (lists_freed lists)
      · rename_i kept
        exact (h.takeDue allocated dispatch listed (BitVec.not_lt.mp due) (by simpa using kept)).begin _

/-- The alarm of the other method is not touched. -/
theorem processLoop_other {d' : Dispatch} (l : List Nat) (clock : Nat → Time) (processed : Bool) (h : Linked s)
    (lists : s.lists d' = l) (programmed : Programmed s d) (ne : d ≠ d') :
    Programmed (processLoop d' s l clock processed) d := by
  have kept (s : State) (timestamp : BitVec 64) (h : Programmed s d) : Programmed (s.setAlarmId timestamp d') d :=
    h.congr (by simp [State.setAlarmId, ne]) rfl fun _ _ => rfl
  induction l generalizing s clock processed with
  | nil =>
    unfold processLoop
    split
    · exact kept s _ programmed
    · exact programmed
  | cons it rest ih =>
    obtain ⟨timer, allocated, dispatch, listed⟩ := h.first lists
    have absent : it ∉ s.lists d := h.one_list allocated (by rw [dispatch]; exact ne)
    unfold processLoop
    simp only [allocated]
    split
    · split
      · exact kept s _ programmed
      · exact programmed
    · split
      · exact ih _ _ (h.freed allocated dispatch listed) (lists_freed lists)
          (programmed.listRemove_put_other ne absent none)
      · exact (programmed.takeDue ne absent dispatch).congr rfl rfl fun _ _ => rfl

/-- The stretch ends in a callback, or it returns with the alarm of the first timer. -/
theorem processLoop_ends (d : Dispatch) (l : List Nat) (clock : Nat → Time) (processed : Bool) (h : Linked s)
    (lists : s.lists d = l) :
    (∃ it, (processLoop d s l clock processed).calls = s.calls ++ [.process d it]) ∨
      (processLoop d s l clock processed).calls = s.calls ∧
        (processed = true ∨ Programmed s d → Programmed (processLoop d s l clock processed) d) := by
  induction l generalizing s clock processed with
  | nil =>
    have head : s.headAlarm d = BitVec.allOnes 64 := by simp [headAlarm, lists]
    refine .inr ?_
    unfold processLoop
    split
    · rw [← head]
      exact ⟨rfl, fun _ => programmed_setAlarmId s d⟩
    · rename_i no
      exact ⟨rfl, fun h => h.resolve_left no⟩
  | cons it rest ih =>
    obtain ⟨timer, allocated, dispatch, listed⟩ := h.first lists
    have head : s.headAlarm d = timer.alarm := by simp [headAlarm, lists, alarmOf_some allocated]
    unfold processLoop
    simp only [allocated]
    split
    · refine .inr ?_
      split
      · rw [← head]
        exact ⟨rfl, fun _ => programmed_setAlarmId s d⟩
      · rename_i no
        exact ⟨rfl, fun h => h.resolve_left fun yes => no (.inr yes)⟩
    · split
      · rcases ih (fun turn => clock (turn + 1)) true (h.freed allocated dispatch listed) (lists_freed lists) with
          callback | ⟨calls, programmed⟩
        · exact .inl callback
        · exact .inr ⟨calls, fun _ => programmed (.inl rfl)⟩
      · exact .inl ⟨it, by simp [State.begin]⟩

end process

/-! ## The calls under way -/

/-- A timer that is not deleted stays allocated, is still not deleted and keeps its method. -/
def Keeps (s s' : State) : Prop :=
  ∀ id timer, s.timers id = some timer → timer.deletePending = false →
    ∃ new, s'.timers id = some new ∧ new.deletePending = false ∧ new.dispatch = timer.dispatch

/-- The handle of a call is allocated and not deleted, and the call takes the lock of its timer's list. -/
def Holds (s : State) (call : Call) : Prop :=
  ∀ id, call.handle = some id → ∃ timer, s.timers id = some timer ∧ timer.deletePending = false ∧
    ∀ d, call.dispatch = some d → timer.dispatch = d

section calls
variable {s s' s'' : State} {id : Nat} {timer new : Timer}

theorem Keeps.refl (s : State) : Keeps s s := fun _ timer allocated kept => ⟨timer, allocated, kept, rfl⟩

theorem Keeps.trans (h : Keeps s s') (h' : Keeps s' s'') : Keeps s s'' := by
  intro id timer allocated kept
  obtain ⟨new, allocated', kept', dispatch⟩ := h id timer allocated kept
  obtain ⟨newer, allocated'', kept'', dispatch'⟩ := h' id new allocated' kept'
  exact ⟨newer, allocated'', kept'', dispatch'.trans dispatch⟩

theorem keeps_of_timers (same : s'.timers = s.timers) : Keeps s s' := by
  intro id timer allocated kept
  exact ⟨timer, by rw [same, allocated], kept, rfl⟩

theorem keeps_update (timers : s'.timers = Function.update s.timers id (some new))
    (allocated : s.timers id = some timer) (dispatch : new.dispatch = timer.dispatch)
    (pending : new.deletePending = timer.deletePending) : Keeps s s' := by
  intro other t found kept
  rw [timers]
  by_cases same : other = id
  · subst same
    rw [allocated, Option.some.injEq] at found
    subst found
    exact ⟨new, by simp, pending.trans kept, dispatch⟩
  · exact ⟨t, by simp [same, found], kept, rfl⟩

/-- Freeing a deleted timer. -/
theorem keeps_freed (timers : s'.timers = Function.update s.timers id none) (allocated : s.timers id = some timer)
    (deleted : timer.deletePending = true) : Keeps s s' := by
  intro other t found kept
  rw [timers]
  by_cases same : other = id
  · subst same
    rw [allocated, Option.some.injEq] at found
    subst found
    rw [deleted] at kept
    cases kept
  · exact ⟨t, by simp [same, found], kept, rfl⟩

theorem processLoop_keeps (d : Dispatch) (l : List Nat) (clock : Nat → Time) (processed : Bool) :
    Keeps s (processLoop d s l clock processed) := by
  induction l generalizing s clock processed with
  | nil =>
    unfold processLoop
    split
    · exact keeps_of_timers rfl
    · exact .refl s
  | cons it rest ih =>
    unfold processLoop
    split
    · exact .refl s
    · rename_i timer allocated
      split
      · split
        · exact keeps_of_timers rfl
        · exact .refl s
      · split
        · rename_i deleted
          have freed : Keeps s ((s.listRemove it d).put it none) := keeps_freed rfl allocated deleted
          exact freed.trans (ih _ _)
        · obtain ⟨new, timers, dispatch, pending⟩ := takeDue_timers s d it timer (clock 0)
          exact keeps_update timers allocated dispatch pending

theorem Holds.keeps {call : Call} (h : Holds s call) (keeps : Keeps s s') : Holds s' call := by
  intro id handle
  obtain ⟨timer, allocated, kept, lock⟩ := h id handle
  obtain ⟨new, allocated', kept', dispatch⟩ := keeps id timer allocated kept
  exact ⟨new, allocated', kept', fun d read => dispatch.trans (lock d read)⟩

end calls

/-! ## The invariant -/

structure Inv (s : State) : Prop extends Linked s where
  holds : ∀ call ∈ s.calls, Holds s call
  programmed : ∀ d, ¬s.processing d → Programmed s d

section inv
variable {s s' : State} {id : Nat} {timer : Timer}

theorem init_inv : Inv State.init where
  nodup _ := List.nodup_nil
  mem d id := by simp [State.init]
  sorted _ := List.Pairwise.nil
  whole := rfl
  holds _ mem := nomatch mem
  programmed _ _ := rfl

/-- A step in which no call begins or ends. -/
theorem Inv.moved (h : Inv s) (linked : Linked s') (calls : s'.calls = s.calls) (keeps : Keeps s s')
    (programmed : ∀ d, Programmed s d → Programmed s' d) : Inv s' where
  toLinked := linked
  holds call mem := (h.holds call (calls ▸ mem)).keeps keeps
  programmed d idle := programmed d (h.programmed d fun ⟨it, mem⟩ => idle ⟨it, calls ▸ mem⟩)

theorem Inv.begin (h : Inv s) {call : Call} (holds : Holds s call) : Inv (s.begin call) where
  toLinked := h.toLinked.begin call
  holds other mem := by
    rcases List.mem_append.mp mem with mem | mem
    · exact h.holds other mem
    · rw [List.mem_singleton.mp mem]
      exact holds
  programmed d idle := by
    have before : ¬s.processing d := fun ⟨it, mem⟩ => idle ⟨it, List.mem_append_left _ mem⟩
    exact h.programmed d before

/-- A call of the API leaves the list of calls. -/
theorem Inv.finish (h : Inv s) {k : Nat} {call : Call} (at_k : s.calls[k]? = some call)
    (api : call.handle = some id) : Inv (s.finish k) where
  toLinked := ⟨h.nodup, h.mem, h.sorted, h.whole⟩
  holds other mem := h.holds other (List.mem_of_mem_eraseIdx mem)
  programmed d idle := by
    refine h.programmed d fun ⟨it, mem⟩ => idle ⟨it, ?_⟩
    obtain ⟨i, at_i⟩ := List.mem_iff_getElem?.mp mem
    have ne : i ≠ k := by
      rintro rfl
      rw [at_i, Option.some.injEq] at at_k
      rw [← at_k] at api
      cases api
    exact List.mem_eraseIdx_iff_getElem?.mpr ⟨i, ne, at_i⟩

theorem Inv.timerInit (h : Inv s) (allocated : s.timers id = some timer) (kept : timer.deletePending = false)
    (period alarm : BitVec 64) (calm : timer.armed = true ∨ alarm ≠ 0) : Inv (timerInit s id timer period alarm) := by
  unfold EspTimer.timerInit
  split
  · exact h
  · rename_i unarmed
    have zero : timer.alarm = 0 := Timer.not_armed_iff.mp (by simpa using unarmed)
    have absent := h.absent allocated (by simp [Timer.listed, zero, kept])
    refine h.moved (h.toLinked.timerInsert absent (.inl (calm.resolve_left unarmed)) false) (timerInsert_calls _ _ _ _)
      (keeps_update (timerInsert_timers _ _ _ _) allocated rfl rfl) fun d programmed => programmed.timerInsert (absent d)

theorem Inv.timerRemove (h : Inv s) (allocated : s.timers id = some timer) (kept : timer.deletePending = false)
    (armed : timer.armed = true) : Inv (timerRemove s id timer) :=
  h.moved (h.toLinked.timerRemove allocated (Timer.armed_iff.mp armed) kept) (timerRemove_calls _ _ _)
    (keeps_update (timerRemove_timers _ _ _) allocated rfl rfl) fun _ programmed =>
      programmed.timerRemove h.toLinked allocated

theorem Inv.timerStop (h : Inv s) (allocated : s.timers id = some timer) (kept : timer.deletePending = false) :
    Inv (timerStop s id timer) := by
  unfold EspTimer.timerStop
  split
  · rename_i armed
    exact h.timerRemove allocated kept armed
  · exact h

theorem Inv.timerRestart (h : Inv s) (allocated : s.timers id = some timer) (kept : timer.deletePending = false)
    (timeout first : BitVec 64) (now : Time) (armed : timer.armed = true)
    (calm : (timer.restarted timeout first now).armed = true) : Inv (timerRestart s id timer timeout first now) := by
  have removed := h.timerRemove allocated kept armed
  have disarmed : (EspTimer.timerRemove s id timer).timers id = some timer.disarm := by simp
  have absent := removed.absent disarmed (by simp [Timer.listed, Timer.disarm, kept])
  exact removed.moved (removed.toLinked.timerInsert absent (.inl (Timer.armed_iff.mp calm)) false)
    (timerInsert_calls _ _ _ _) (keeps_update (timerInsert_timers _ _ _ _) disarmed (by simp) (by simp))
    fun d programmed => programmed.timerInsert (absent d)

/-- The deleted timer moves to the list of the task, and no other call uses it. -/
theorem Inv.timerDelete (h : Inv s) (allocated : s.timers id = some timer) (kept : timer.deletePending = false)
    (alarm : Time) (unused : timer.armed = false → s.uses id = false) : Inv (timerDelete s id timer alarm) := by
  unfold EspTimer.timerDelete
  split
  · exact h
  · rename_i unarmed
    have unarmed : timer.armed = false := by simpa using unarmed
    have absent := h.absent allocated (by simp [Timer.listed, Timer.not_armed_iff.mp unarmed, kept])
    refine ⟨h.toLinked.timerInsert absent (.inr rfl) false, fun call mem other handle => ?_, fun d idle => ?_⟩
    · rw [timerInsert_calls] at mem
      have ne : other ≠ id := by
        rintro rfl
        have := List.any_eq_false.mp (unused unarmed) call mem
        simp [handle] at this
      obtain ⟨t, found, live, lock⟩ := h.holds call mem other handle
      exact ⟨t, by simp [ne, found], live, lock⟩
    · refine (h.programmed d ?_).timerInsert (absent d)
      rintro ⟨it, mem⟩
      refine idle ⟨it, ?_⟩
      rw [timerInsert_calls]
      exact mem

theorem clearRunning_linked (h : Linked s) (it : Nat) : Linked (clearRunning s it) := by
  unfold clearRunning
  cases found : s.timers it with
  | none => exact h.put (h.absent_none found) fun _ eq => nomatch eq
  | some timer => exact h.put_same found rfl rfl rfl

theorem clearRunning_keeps (s : State) (it : Nat) : Keeps s (clearRunning s it) := by
  cases found : s.timers it with
  | none =>
    refine keeps_of_timers ?_
    funext other
    by_cases same : other = it
    · subst same
      simp [clearRunning, found]
    · simp [clearRunning, same]
  | some timer =>
    have timers : (clearRunning s it).timers = Function.update s.timers it (some { timer with callbackIsRunning := false }) := by
      simp [clearRunning, found]
    exact keeps_update timers found rfl rfl

theorem clearRunning_programmed {d : Dispatch} (h : Programmed s d) (it : Nat) : Programmed (clearRunning s it) d := by
  refine h.congr rfl rfl fun i _ => ?_
  by_cases same : i = it
  · subst same
    cases found : s.timers i <;> simp [clearRunning, alarmOf, found]
  · simp [clearRunning, alarmOf, same]

/-- The lists and the calls of a state after a stretch of `timer_process_alarm` that starts `processed` or with the
alarm of the first timer, or with another call in a callback. -/
theorem processLoop_inv (linked : Linked s) (holds : ∀ call ∈ s.calls, Holds s call) (d : Dispatch) (clock : Nat → Time)
    (processed : Bool) (same : processed = true ∨ (¬s.processing d → Programmed s d))
    (others : ∀ d', d' ≠ d → ¬s.processing d' → Programmed s d') :
    Inv (processLoop d s (s.lists d) clock processed) := by
  have ends := processLoop_ends d _ clock processed linked rfl
  have keeps : Keeps s (processLoop d s (s.lists d) clock processed) := processLoop_keeps d _ clock processed
  refine ⟨processLoop_linked d _ clock processed linked rfl, fun call mem => ?_, fun d' idle => ?_⟩
  · rcases ends with ⟨it, calls⟩ | ⟨calls, -⟩
    · rw [calls] at mem
      rcases List.mem_append.mp mem with mem | mem
      · exact (holds call mem).keeps keeps
      · rw [List.mem_singleton.mp mem]
        exact fun _ handle => nomatch handle
    · rw [calls] at mem
      exact (holds call mem).keeps keeps
  · have before : ¬s.processing d' := by
      rintro ⟨it, mem⟩
      rcases ends with ⟨it', calls⟩ | ⟨calls, -⟩
      · exact idle ⟨it, by simp [calls, mem]⟩
      · exact idle ⟨it, by simp [calls, mem]⟩
    by_cases eq : d' = d
    · subst eq
      rcases ends with ⟨it', calls⟩ | ⟨-, programmed⟩
      · exact absurd ⟨it', by simp [calls]⟩ idle
      · exact programmed (same.imp_right fun h => h before)
    · exact processLoop_other _ _ _ linked rfl (others d' eq before) eq

theorem Inv.processAlarm (h : Inv s) (d : Dispatch) (clock : Nat → Time) :
    Inv (processLoop d s (s.lists d) clock false) :=
  processLoop_inv h.toLinked h.holds d clock false (.inr (h.programmed d)) fun d' _ => h.programmed d'

/-- The call leaves its callback; what the rest of the stretch does is `processLoop`'s. -/
theorem Inv.callbackDone (h : Inv s) {k : Nat} {d : Dispatch} {it : Nat} (at_k : s.calls[k]? = some (.process d it))
    (clock : Nat → Time) : Inv (callbackDone (s.finish k) d it clock) := by
  have finished : Linked (s.finish k) := ⟨h.nodup, h.mem, h.sorted, h.whole⟩
  have linked := clearRunning_linked finished it
  refine processLoop_inv linked (fun call mem => ?_) d clock true (.inl rfl) fun d' ne idle => ?_
  · have before := h.holds call (List.mem_of_mem_eraseIdx mem)
    exact before.keeps (clearRunning_keeps s it)
  · have before : ¬s.processing d' := by
      rintro ⟨it', mem⟩
      obtain ⟨i, at_i⟩ := List.mem_iff_getElem?.mp mem
      have other : i ≠ k := by
        rintro rfl
        rw [at_i, Option.some.injEq, Call.process.injEq] at at_k
        exact ne at_k.1
      exact idle ⟨it', List.mem_eraseIdx_iff_getElem?.mpr ⟨i, other, at_i⟩⟩
    have programmed : Programmed (s.finish k) d' := h.programmed d' before
    exact clearRunning_programmed programmed it

theorem live_iff : s.live id = some timer ↔ s.timers id = some timer ∧ timer.deletePending = false := by
  simp [State.live, Option.filter_eq_some_iff]

theorem Inv.beginInit (h : Inv s) {period alarm : BitVec 64} (begun : beginInit s id period alarm = some s') :
    Inv s' := by
  obtain ⟨timer, live, rfl⟩ := Option.map_eq_some_iff.mp begun
  obtain ⟨allocated, kept⟩ := live_iff.mp live
  refine h.begin fun _ handle => ?_
  cases handle
  exact ⟨timer, allocated, kept, fun d lock => by cases lock; rfl⟩

theorem Inv.beginRestart (h : Inv s) {timeout first : BitVec 64} (begun : beginRestart s id timeout first = some s') :
    Inv s' := by
  obtain ⟨timer, live, rfl⟩ := Option.map_eq_some_iff.mp begun
  obtain ⟨allocated, kept⟩ := live_iff.mp live
  split
  · refine h.begin fun _ handle => ?_
    cases handle
    exact ⟨timer, allocated, kept, fun d lock => nomatch lock⟩
  · exact h

/-- The next step of a call. -/
theorem Inv.proceed (h : Inv s) {k : Nat} {call : Call} {now : Time} (at_k : s.calls[k]? = some call)
    (proceeds : proceed (s.finish k) call now = some s') (calm : calmStep s (.proceed k now) = true) : Inv s' := by
  have holds := h.holds call (List.mem_of_getElem? at_k)
  simp only [calmStep, at_k] at calm
  cases call with
  | init id lock period alarm =>
    have h := h.finish at_k rfl
    obtain ⟨timer, allocated, kept, -⟩ := holds id rfl
    obtain ⟨_, found, rfl⟩ := Option.map_eq_some_iff.mp proceeds
    obtain rfl : timer = _ := Option.some.inj (allocated.symm.trans found)
    exact h.timerInit found kept period alarm (by simpa [allocated] using calm)
  | restartArmed id timeout first =>
    have h := h.finish at_k rfl
    obtain ⟨timer, allocated, kept, -⟩ := holds id rfl
    obtain ⟨_, found, rfl⟩ := Option.map_eq_some_iff.mp proceeds
    obtain rfl : timer = _ := Option.some.inj (allocated.symm.trans found)
    refine h.begin fun _ handle => ?_
    cases handle
    exact ⟨timer, found, kept, fun d lock => by cases lock; rfl⟩
  | restart id lock timeout first =>
    have h := h.finish at_k rfl
    obtain ⟨timer, allocated, kept, -⟩ := holds id rfl
    obtain ⟨_, found, rfl⟩ := Option.map_eq_some_iff.mp proceeds
    obtain rfl : timer = _ := Option.some.inj (allocated.symm.trans found)
    have armed : timer.armed = true ∧ (timer.restarted timeout first now).armed = true := by
      simpa [allocated] using calm
    exact h.timerRestart found kept timeout first now armed.1 armed.2
  | stop id lock =>
    have h := h.finish at_k rfl
    obtain ⟨timer, allocated, kept, -⟩ := holds id rfl
    obtain ⟨_, found, rfl⟩ := Option.map_eq_some_iff.mp proceeds
    obtain rfl : timer = _ := Option.some.inj (allocated.symm.trans found)
    exact h.timerStop found kept
  | delete id alarm =>
    have h := h.finish at_k rfl
    obtain ⟨timer, allocated, kept, -⟩ := holds id rfl
    obtain ⟨_, found, deletes⟩ := Option.bind_eq_some_iff.mp proceeds
    obtain rfl : timer = _ := Option.some.inj (allocated.symm.trans found)
    split at deletes
    · cases deletes
    · rename_i alone
      cases deletes
      exact h.timerDelete found kept alarm fun unarmed => by simpa [unarmed] using alone
  | process d it => cases proceeds

theorem Inv.create (h : Inv s) (free : s.timers id = none) (isr skip : Bool) :
    Inv (s.put id (some (.create isr skip))) := by
  have absent := h.absent_none free
  refine h.moved (h.toLinked.put absent fun _ eq => ?_) rfl (fun other timer found kept => ?_)
    fun d programmed => programmed.put (absent d) _
  · cases eq
    simp [Timer.listed, Timer.create]
  · have ne : other ≠ id := by
      rintro rfl
      rw [free] at found
      cases found
    exact ⟨timer, by simp [ne, found], kept, rfl⟩

theorem step_inv (h : Inv s) {event : Event} (steps : step s event = some s') (calm : calmStep s event = true) :
    Inv s' := by
  cases event with
  | create id isr skip =>
    simp only [step] at steps
    split at steps
    · rename_i free
      cases steps
      exact h.create free isr skip
    · cases steps
  | startOnce id timeout time => exact h.beginInit steps
  | startOnceAt id alarm time =>
    simp only [step] at steps
    split at steps
    · cases steps
      exact h
    · exact h.beginInit steps
  | startPeriodic id period time => exact h.beginInit steps
  | startPeriodicAt id period first time =>
    simp only [step] at steps
    split at steps
    · cases steps
      exact h
    · exact h.beginInit steps
  | restart id timeout => exact h.beginRestart steps
  | restartAt id period first time =>
    simp only [step] at steps
    split at steps
    · cases steps
      exact h
    · exact h.beginRestart steps
  | stop id =>
    obtain ⟨timer, live, rfl⟩ := Option.map_eq_some_iff.mp steps
    obtain ⟨allocated, kept⟩ := live_iff.mp live
    refine h.begin fun _ handle => ?_
    cases handle
    exact ⟨timer, allocated, kept, fun d lock => by cases lock; rfl⟩
  | delete id time =>
    obtain ⟨timer, live, rfl⟩ := Option.map_eq_some_iff.mp steps
    obtain ⟨allocated, kept⟩ := live_iff.mp live
    refine h.begin fun _ handle => ?_
    cases handle
    exact ⟨timer, allocated, kept, fun d lock => nomatch lock⟩
  | proceed k now =>
    obtain ⟨call, at_k, proceeds⟩ := Option.bind_eq_some_iff.mp steps
    exact h.proceed at_k proceeds calm
  | processAlarm d clock =>
    cases steps
    exact h.processAlarm d clock
  | callbackDone k clock =>
    simp only [step] at steps
    split at steps
    · rename_i at_k
      cases steps
      exact h.callbackDone at_k clock
    · cases steps

theorem run_inv (h : Inv s) {events : List Event} (runs : run s events = some s') (calm : calm s events = true) :
    Inv s' := by
  induction events generalizing s with
  | nil =>
    cases runs
    exact h
  | cons event events ih =>
    obtain ⟨s₁, steps, runs⟩ := Option.bind_eq_some_iff.mp runs
    simp only [EspTimer.calm, steps, Option.all_some, Bool.and_eq_true] at calm
    exact ih (step_inv h steps calm.1) runs calm.2

end inv

/-! ## Every history -/

/-- After every calm history, both lists are sorted and hold exactly the timers that are armed or whose deletion is
pending, once each, nothing was unlinked that was not linked, and the alarm of a method that is not in a callback of
`timer_process_alarm` is its first timer's. -/
theorem lists_intact (events : List Event) (s : State) (runs : run .init events = some s)
    (calm : calm .init events = true) : Linked s ∧ ∀ d, ¬s.processing d → Programmed s d := by
  have inv := run_inv init_inv runs calm
  exact ⟨inv.toLinked, inv.programmed⟩

/-- Two one-shot timers, for 100 and 200, and the alarm at 150. -/
def twoTimers : List Event :=
  [.create 0 false false, .create 1 false false, .startOnce 0 100 0, .proceed 0 0, .startOnce 1 200 0, .proceed 0 0,
    .processAlarm .task fun _ => 150]

theorem lists_intact_two_timers :
    ∃ s, run .init (twoTimers ++ [.callbackDone 0 fun _ => 160]) = some s ∧
      Linked s ∧ ∀ d, ¬s.processing d → Programmed s d :=
  ⟨_, rfl, lists_intact (twoTimers ++ [.callbackDone 0 fun _ => 160]) _ rfl (by decide +kernel)⟩

/-- In the callback of the first timer the second one heads the list, and the alarm is still the first one's: it is
set anew only when no more callbacks are due. -/
theorem alarm_waits_for_callback :
    ¬∀ events s, run .init events = some s → Linked s ∧ ∀ d, Programmed s d := by
  intro claim
  have behind := (claim twoTimers _ rfl).2 .task
  revert behind
  unfold Programmed
  decide +kernel

end EspIdf.EspTimer
