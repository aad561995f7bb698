import Mathlib.Data.List.Sort
import Mathlib.Logic.Function.Basic

/-!
# Timers of `esp_timer.c`: their lists and the calls that move them

* `Timer`, `Dispatch` : a timer, and the two methods that call it back;
* `State` : the timers, the two lists, the programmed alarms and the calls under way;
* `timerInsert`, `timerRemove`, `timerInit`, `timerRestart`, `timerStop`, `timerDelete` : what runs under a lock;
* `processLoop` : `timer_process_alarm` from where it takes the lock to where it gives it back;
* `Event`, `step`, `run` : one unlocked read or one critical section at a time, in any order.
-/

namespace EspIdf.EspTimer

/-! ## Timers -/

/-- `esp_timer_dispatch_t`. -/
inductive Dispatch where
  | task
  | isr
deriving DecidableEq, Repr

/-- A value of `esp_timer_impl_get_time()`: an `int64_t` that is not negative. -/
abbrev Time := BitVec 63

/-- The time where the source compares or adds it to a `uint64_t`. -/
abbrev Time.wide (time : Time) : BitVec 64 := time.setWidth 64

/-- `esp_timer_impl_get_min_period_us()`. -/
def getMinPeriodUs : BitVec 64 := 50

/-- `MAX(period_us, min_period)`. -/
def atLeastMinPeriod (period : BitVec 64) : BitVec 64 := if getMinPeriodUs < period then period else getMinPeriodUs

/-- `struct esp_timer` : the three flags are bits of `flags`, and `deletePending` says that `event_id` is
`EVENT_ID_DELETE_TIMER`, which no callback's address is. -/
structure Timer where
  alarm : BitVec 64
  period : BitVec 56
  isr : Bool
  skipUnhandledEvents : Bool
  callbackIsRunning : Bool
  deletePending : Bool
deriving DecidableEq, Repr

namespace Timer

/-- `timer->flags & FL_ISR_DISPATCH_METHOD`. -/
def dispatch (timer : Timer) : Dispatch := if timer.isr then .isr else .task

/-- `timer_armed`. -/
def armed (timer : Timer) : Bool := decide (0 < timer.alarm)

/-- What `esp_timer_create` allocates. -/
def create (isr skipUnhandledEvents : Bool) : Timer where
  alarm := 0
  period := 0
  isr := isr
  skipUnhandledEvents := skipUnhandledEvents
  callbackIsRunning := false
  deletePending := false

/-- The fields that `timer_remove` clears. -/
def disarm (timer : Timer) : Timer := { timer with alarm := 0, period := 0 }

def arm (timer : Timer) (period alarm : BitVec 64) : Timer :=
  { timer with alarm := alarm, period := period.setWidth 56 }

/-- `int skipped`. -/
def skipped (timer : Timer) (now : Time) : Int :=
  (((now.wide - timer.alarm) / timer.period.setWidth 64).setWidth 32).toInt

/-- The next alarm of a periodic timer whose alarm has come. -/
def nextAlarm (timer : Timer) (now : Time) : BitVec 64 :=
  if timer.skipUnhandledEvents ∧ 1 < timer.skipped now then now.wide + timer.period.setWidth 64
  else timer.alarm + timer.period.setWidth 64

/-- The alarm and the period that `timer_restart` gives a timer. -/
def restarted (timer : Timer) (timeout first : BitVec 64) (now : Time) : Timer :=
  if timer.period ≠ 0 then
    timer.arm (atLeastMinPeriod timeout) (if first ≠ 0 then first else now.wide + atLeastMinPeriod timeout)
  else timer.arm 0 (if first ≠ 0 then first else now.wide + timeout)

/-- What `esp_timer_delete` writes, `event_id` included. -/
def markDeleted (timer : Timer) (alarm : Time) : Timer :=
  { timer with isr := false, deletePending := true, alarm := alarm.wide, period := 0 }

end Timer

/-! ## States -/

/-- A call between two of its steps: what it has read without the lock, and where it goes on. -/
inductive Call where
  | init (id : Nat) (dispatch : Dispatch) (period alarm : BitVec 64)
  | restartArmed (id : Nat) (timeout first : BitVec 64)
  | restart (id : Nat) (dispatch : Dispatch) (timeout first : BitVec 64)
  | stop (id : Nat) (dispatch : Dispatch)
  | delete (id : Nat) (alarm : Time)
  /-- `timer_process_alarm` in the callback of the timer `it`. -/
  | process (dispatch : Dispatch) (it : Nat)
deriving DecidableEq, Repr

/-- The handle that a caller has passed. -/
def Call.handle : Call → Option Nat
  | .init id _ _ _ => some id
  | .restartArmed id _ _ => some id
  | .restart id _ _ _ => some id
  | .stop id _ => some id
  | .delete id _ => some id
  | .process _ _ => none

/-- The dispatch method that the call has read from its timer, whose lock it is going to take. -/
def Call.dispatch : Call → Option Dispatch
  | .init _ dispatch _ _ => some dispatch
  | .restartArmed _ _ _ => none
  | .restart _ dispatch _ _ => some dispatch
  | .stop _ dispatch => some dispatch
  | .delete _ _ => none
  | .process _ _ => none

/-- `unlinkedAbsent` records a `LIST_REMOVE` of a timer that was not in the list. -/
structure State where
  timers : Nat → Option Timer
  lists : Dispatch → List Nat
  alarmId : Dispatch → BitVec 64
  calls : List Call
  unlinkedAbsent : Bool

namespace State

def init : State where
  timers := fun _ => none
  lists := fun _ => []
  alarmId := fun _ => BitVec.allOnes 64
  calls := []
  unlinkedAbsent := false

def alarmOf (s : State) (id : Nat) : BitVec 64 := (s.timers id).elim 0 Timer.alarm

def put (s : State) (id : Nat) (timer : Option Timer) : State := { s with timers := Function.update s.timers id timer }

/-- `esp_timer_impl_set_alarm_id`. -/
def setAlarmId (s : State) (timestamp : BitVec 64) (d : Dispatch) : State :=
  { s with alarmId := Function.update s.alarmId d timestamp }

/-- `LIST_REMOVE`. -/
def listRemove (s : State) (id : Nat) (d : Dispatch) : State :=
  { s with
    lists := Function.update s.lists d ((s.lists d).erase id)
    unlinkedAbsent := s.unlinkedAbsent || decide (id ∉ s.lists d) }

/-- The loop of `timer_insert`: before the first timer with a later alarm. -/
def listInsert (s : State) (id : Nat) (d : Dispatch) : State :=
  { s with lists := Function.update s.lists d (List.orderedInsert (fun a b => s.alarmOf a < s.alarmOf b) id (s.lists d)) }

/-- The alarm of the first timer, or `UINT64_MAX`. -/
def headAlarm (s : State) (d : Dispatch) : BitVec 64 :=
  ((s.lists d).head?).elim (BitVec.allOnes 64) s.alarmOf

/-- The call `k` has returned. -/
def finish (s : State) (k : Nat) : State := { s with calls := s.calls.eraseIdx k }

def begin (s : State) (call : Call) : State := { s with calls := s.calls ++ [call] }

/-- A call with this handle is under way. -/
def uses (s : State) (id : Nat) : Bool := s.calls.any fun call => call.handle == some id

end State

open State

/-! ## Under the lock -/

/-- `timer_insert`, with the fields that its caller has set. -/
def timerInsert (s : State) (id : Nat) (timer : Timer) (withoutUpdateAlarm : Bool) : State :=
  let s := (s.put id (some timer)).listInsert id timer.dispatch
  if withoutUpdateAlarm = false ∧ (s.lists timer.dispatch).head? = some id then s.setAlarmId timer.alarm timer.dispatch
  else s

/-- `timer_remove`. -/
def timerRemove (s : State) (id : Nat) (timer : Timer) : State :=
  let first := (s.lists timer.dispatch).head?
  let s := (s.listRemove id timer.dispatch).put id (some timer.disarm)
  if first = some id then s.setAlarmId (s.headAlarm timer.dispatch) timer.dispatch else s

/-- The locked part of `timer_init`. -/
def timerInit (s : State) (id : Nat) (timer : Timer) (period alarm : BitVec 64) : State :=
  if timer.armed then s else timerInsert s id (timer.arm period alarm) false

/-- The locked part of `timer_restart`, which does not look whether the timer is still armed. -/
def timerRestart (s : State) (id : Nat) (timer : Timer) (timeout first : BitVec 64) (now : Time) : State :=
  timerInsert (timerRemove s id timer) id (timer.restarted timeout first now) false

/-- The locked part of `esp_timer_stop`. -/
def timerStop (s : State) (id : Nat) (timer : Timer) : State :=
  if timer.armed then timerRemove s id timer else s

/-- The locked part of `esp_timer_delete`. -/
def timerDelete (s : State) (id : Nat) (timer : Timer) (alarm : Time) : State :=
  if timer.armed then s else timerInsert s id (timer.markDeleted alarm) false

/-- The timer `it` is due: it leaves the list, and a periodic one goes back in with its next alarm. -/
def takeDue (s : State) (d : Dispatch) (it : Nat) (timer : Timer) (now : Time) : State :=
  let timer := { timer with callbackIsRunning := true }
  if timer.period > 0 then timerInsert (s.listRemove it d) it { timer with alarm := timer.nextAlarm now } true
  else (s.listRemove it d).put it (some { timer with alarm := 0 })

/-- `timer_process_alarm` with the lock held, up to the next callback or the end: the list is what is left of
`s_timers[dispatch_method]`, and `clock` what each turn of the loop reads. -/
def processLoop (d : Dispatch) : State → List Nat → (Nat → Time) → Bool → State
  | s, [], _, processed => if processed then s.setAlarmId (BitVec.allOnes 64) d else s
  | s, it :: rest, clock, processed =>
    match s.timers it with
    | none => s
    | some timer =>
      if (clock 0).wide < timer.alarm then
        if d = .task ∨ processed then s.setAlarmId timer.alarm d else s
      else if timer.deletePending then
        processLoop d ((s.listRemove it d).put it none) rest (fun turn => clock (turn + 1)) true
      else (takeDue s d it timer (clock 0)).begin (.process d it)

/-! ## Runs -/

/-- What happens next: a call up to its lock, the next step of the call `k` under way, or the alarm. -/
inductive Event where
  | create (id : Nat) (isr skipUnhandledEvents : Bool)
  | startOnce (id : Nat) (timeout : BitVec 64) (time : Time)
  | startOnceAt (id : Nat) (alarm : BitVec 64) (time : Time)
  | startPeriodic (id : Nat) (period : BitVec 64) (time : Time)
  | startPeriodicAt (id : Nat) (period first : BitVec 64) (time : Time)
  | restart (id : Nat) (timeout : BitVec 64)
  | restartAt (id : Nat) (period first : BitVec 64) (time : Time)
  | stop (id : Nat)
  | delete (id : Nat) (time : Time)
  | proceed (k : Nat) (now : Time)
  | processAlarm (d : Dispatch) (clock : Nat → Time)
  | callbackDone (k : Nat) (clock : Nat → Time)

/-- A caller may pass the handle: it is allocated and its deletion has not succeeded. -/
def State.live (s : State) (id : Nat) : Option Timer := (s.timers id).filter fun timer => !timer.deletePending

/-- `first_alarm_us + min_overhead_us < esp_timer_impl_get_time()`. -/
def inThePast (alarm : BitVec 64) (time : Time) : Prop := alarm + getMinPeriodUs < time.wide

instance (alarm : BitVec 64) (time : Time) : Decidable (inThePast alarm time) :=
  inferInstanceAs (Decidable (_ < _))

/-- `timer_init` up to its lock. -/
def beginInit (s : State) (id : Nat) (period alarm : BitVec 64) : Option State :=
  (s.live id).map fun timer => s.begin (.init id timer.dispatch period alarm)

/-- `timer_restart` up to and with its test of `timer_armed`. -/
def beginRestart (s : State) (id : Nat) (timeout first : BitVec 64) : Option State :=
  (s.live id).map fun timer => if timer.armed then s.begin (.restartArmed id timeout first) else s

/-- The next step of a call: another unlocked read, or its critical section. A handle's deletion succeeds only
when no other call uses it. -/
def proceed (s : State) (call : Call) (now : Time) : Option State :=
  match call with
  | .init id _ period alarm => (s.timers id).map fun timer => timerInit s id timer period alarm
  | .restartArmed id timeout first => (s.timers id).map fun timer => s.begin (.restart id timer.dispatch timeout first)
  | .restart id _ timeout first => (s.timers id).map fun timer => timerRestart s id timer timeout first now
  | .stop id _ => (s.timers id).map fun timer => timerStop s id timer
  | .delete id alarm =>
    (s.timers id).bind fun timer =>
      if timer.armed = false ∧ s.uses id then none else some (timerDelete s id timer alarm)
  | .process _ _ => none

/-- `it->flags &= ~FL_CALLBACK_IS_RUNNING`; a timer that was freed in the meantime has no fields left. -/
def clearRunning (s : State) (it : Nat) : State :=
  s.put it ((s.timers it).map fun timer => { timer with callbackIsRunning := false })

/-- The callback of `it` has returned, and `timer_process_alarm` has the lock again. -/
def callbackDone (s : State) (d : Dispatch) (it : Nat) (clock : Nat → Time) : State :=
  processLoop d (clearRunning s it) (s.lists d) clock true

def step (s : State) : Event → Option State
  | .create id isr skip =>
    if s.timers id = none then some (s.put id (some (.create isr skip))) else none
  | .startOnce id timeout time => beginInit s id 0 (time.wide + timeout)
  | .startOnceAt id alarm time => if inThePast alarm time then some s else beginInit s id 0 alarm
  | .startPeriodic id period time =>
    beginInit s id (atLeastMinPeriod period) (time.wide + atLeastMinPeriod period)
  | .startPeriodicAt id period first time =>
    if inThePast first time then some s else beginInit s id (atLeastMinPeriod period) first
  | .restart id timeout => beginRestart s id timeout 0
  | .restartAt id period first time => if inThePast first time then some s else beginRestart s id period first
  | .stop id => (s.live id).map fun timer => s.begin (.stop id timer.dispatch)
  | .delete id time => (s.live id).map fun _ => s.begin (.delete id time)
  | .proceed k now => s.calls[k]?.bind fun call => proceed (s.finish k) call now
  | .processAlarm d clock => some (processLoop d s (s.lists d) clock false)
  | .callbackDone k clock =>
    match s.calls[k]? with
    | some (.process d it) => some (callbackDone (s.finish k) d it clock)
    | _ => none

/-- The state after a history, from the start on. -/
def run : State → List Event → Option State
  | s, [] => some s
  | s, event :: events => (step s event).bind fun s' => run s' events

end EspIdf.EspTimer
