import EspIdf.EspTimer.Timer

/-!
# The timer lists and the moves that the functions are made of

* `Linked` : both lists are sorted and hold each armed or deleted timer once, in the list of its method;
* `Programmed` : the alarm of a method is its first timer's;
* `Linked.put`, `Linked.listRemove_put`, `Linked.timerInsert`, `Linked.timerRemove` : the moves keep the lists;
* `Programmed.timerInsert`, `Programmed.timerRemove` : and the alarms.
-/

namespace EspIdf.EspTimer

open State

/-! ## What is to hold -/

/-- The timer is armed or its deletion is pending. -/
def Timer.listed (timer : Timer) : Prop := timer.alarm ≠ 0 ∨ timer.deletePending = true

/-- Each list is sorted, holds the listed timers of its method once and no others, and nothing was unlinked twice. -/
structure Linked (s : State) : Prop where
  nodup : ∀ d, (s.lists d).Nodup
  mem : ∀ d id, id ∈ s.lists d ↔ ∃ timer, s.timers id = some timer ∧ timer.dispatch = d ∧ timer.listed
  sorted : ∀ d, (s.lists d).Pairwise fun a b => s.alarmOf a ≤ s.alarmOf b
  whole : s.unlinkedAbsent = false

def Programmed (s : State) (d : Dispatch) : Prop := s.alarmId d = s.headAlarm d

/-! ## Timers -/

namespace Timer

theorem armed_iff {timer : Timer} : timer.armed = true ↔ timer.alarm ≠ 0 := by
  simp only [armed, decide_eq_true_eq, ne_eq]
  bv_omega

theorem not_armed_iff {timer : Timer} : timer.armed = false ↔ timer.alarm = 0 := by
  rw [← Bool.not_eq_true, armed_iff, not_not]

@[simp] theorem dispatch_disarm (timer : Timer) : timer.disarm.dispatch = timer.dispatch := rfl

@[simp] theorem deletePending_disarm (timer : Timer) : timer.disarm.deletePending = timer.deletePending := rfl

@[simp] theorem dispatch_arm (timer : Timer) (period alarm : BitVec 64) :
    (timer.arm period alarm).dispatch = timer.dispatch := rfl

@[simp] theorem alarm_arm (timer : Timer) (period alarm : BitVec 64) : (timer.arm period alarm).alarm = alarm := rfl

@[simp] theorem deletePending_arm (timer : Timer) (period alarm : BitVec 64) :
    (timer.arm period alarm).deletePending = timer.deletePending := rfl

@[simp] theorem dispatch_restarted (timer : Timer) (timeout first : BitVec 64) (now : Time) :
    (timer.restarted timeout first now).dispatch = timer.dispatch := by
  unfold restarted
  split <;> rfl

@[simp] theorem deletePending_restarted (timer : Timer) (timeout first : BitVec 64) (now : Time) :
    (timer.restarted timeout first now).deletePending = timer.deletePending := by
  unfold restarted
  split <;> rfl

/-- The alarm of a periodic timer that is due does not wrap: the time has 63 bits and the period 56. -/
theorem nextAlarm_ne_zero {timer : Timer} {now : Time} (period : timer.period > 0)
    (due : timer.alarm ≤ now.wide) : timer.nextAlarm now ≠ 0 := by
  have wide : now.wide.toNat = now.toNat := by simp [Time.wide]; omega
  have long : (timer.period.setWidth 64).toNat = timer.period.toNat := by simp; omega
  have periodPos : 0 < timer.period.toNat := period
  have alarmLe : timer.alarm.toNat ≤ now.toNat := by rw [← wide]; exact due
  intro h
  have zero : (timer.nextAlarm now).toNat = 0 := by rw [h]; rfl
  unfold nextAlarm at zero
  split at zero
  · rw [BitVec.toNat_add, wide, long] at zero
    omega
  · rw [BitVec.toNat_add, long] at zero
    omega

end Timer

/-! ## Lookups -/

@[simp] theorem put_timers (s : State) (id : Nat) (timer : Option Timer) :
    (s.put id timer).timers = Function.update s.timers id timer := rfl

@[simp] theorem put_lists (s : State) (id : Nat) (timer : Option Timer) : (s.put id timer).lists = s.lists := rfl

@[simp] theorem put_alarmId (s : State) (id : Nat) (timer : Option Timer) : (s.put id timer).alarmId = s.alarmId := rfl

@[simp] theorem put_calls (s : State) (id : Nat) (timer : Option Timer) : (s.put id timer).calls = s.calls := rfl

theorem alarmOf_some {s : State} {id : Nat} {timer : Timer} (h : s.timers id = some timer) :
    s.alarmOf id = timer.alarm := by
  simp [alarmOf, h]

@[simp] theorem alarmOf_put_self (s : State) (id : Nat) (timer : Timer) :
    (s.put id (some timer)).alarmOf id = timer.alarm := by
  simp [alarmOf]

theorem alarmOf_put_ne (s : State) (timer : Option Timer) {id other : Nat} (h : other ≠ id) :
    (s.put id timer).alarmOf other = s.alarmOf other := by
  simp [alarmOf, h]

theorem put_put (s : State) (id : Nat) (a b : Option Timer) : (s.put id a).put id b = s.put id b := by
  simp [State.put]

/-- What `timer_insert` writes over does not matter. -/
theorem timerInsert_put (s : State) (id : Nat) (timer : Timer) (old : Option Timer) (w : Bool) :
    timerInsert (s.put id old) id timer w = timerInsert s id timer w := by
  simp [timerInsert, put_put]

@[simp] theorem timerInsert_timers (s : State) (id : Nat) (timer : Timer) (w : Bool) :
    (timerInsert s id timer w).timers = Function.update s.timers id (some timer) := by
  unfold timerInsert
  dsimp only
  split <;> rfl

@[simp] theorem timerInsert_calls (s : State) (id : Nat) (timer : Timer) (w : Bool) :
    (timerInsert s id timer w).calls = s.calls := by
  unfold timerInsert
  dsimp only
  split <;> rfl

@[simp] theorem timerRemove_timers (s : State) (id : Nat) (timer : Timer) :
    (timerRemove s id timer).timers = Function.update s.timers id (some timer.disarm) := by
  unfold timerRemove
  dsimp only
  split <;> rfl

@[simp] theorem timerRemove_calls (s : State) (id : Nat) (timer : Timer) :
    (timerRemove s id timer).calls = s.calls := by
  unfold timerRemove
  dsimp only
  split <;> rfl

@[simp] theorem takeDue_calls (s : State) (d : Dispatch) (it : Nat) (timer : Timer) (now : Time) :
    (takeDue s d it timer now).calls = s.calls := by
  unfold takeDue
  dsimp only
  split
  · simp [listRemove]
  · rfl

/-! ## Sorted lists -/

section sorted
variable {f g : Nat → BitVec 64} {l : List Nat}

theorem sorted_congr (h : l.Pairwise fun a b => f a ≤ f b) (same : ∀ i ∈ l, g i = f i) :
    l.Pairwise fun a b => g a ≤ g b := by
  refine h.imp_of_mem fun {a b} ha hb hab => ?_
  rw [same a ha, same b hb]
  exact hab

theorem sorted_orderedInsert (id : Nat) (h : l.Pairwise fun a b => f a ≤ f b) :
    (l.orderedInsert (fun a b => f a < f b) id).Pairwise fun a b => f a ≤ f b := by
  induction l with
  | nil => simp
  | cons it rest ih =>
    obtain ⟨first, rest⟩ := List.pairwise_cons.mp h
    simp only [List.orderedInsert]
    split
    · rename_i before
      refine List.pairwise_cons.mpr ⟨fun b hb => ?_, h⟩
      rcases List.mem_cons.mp hb with rfl | hb
      · exact BitVec.le_of_lt before
      · have := first b hb
        bv_omega
    · rename_i before
      refine List.pairwise_cons.mpr ⟨fun b hb => ?_, ih rest⟩
      rcases (List.mem_orderedInsert _).mp hb with rfl | hb
      · exact BitVec.not_lt.mp before
      · exact first b hb

/-- The inserted timer is the first one, or the first one is the one that was. -/
theorem head_orderedInsert (id : Nat) :
    (l.orderedInsert (fun a b => f a < f b) id).head? = some id ∨
      (l.orderedInsert (fun a b => f a < f b) id).head? = l.head? ∧ l ≠ [] := by
  cases l with
  | nil => exact .inl rfl
  | cons it rest =>
    simp only [List.orderedInsert]
    split
    · exact .inl rfl
    · exact .inr ⟨rfl, List.cons_ne_nil _ _⟩

end sorted

/-! ## Moves -/

section moves
variable {s : State} {id : Nat} {timer : Timer}

theorem Linked.absent (h : Linked s) (allocated : s.timers id = some timer) (unlisted : ¬timer.listed) (d : Dispatch) :
    id ∉ s.lists d := by
  intro mem
  obtain ⟨other, found, -, listed⟩ := (h.mem d id).mp mem
  rw [allocated, Option.some.injEq] at found
  exact unlisted (found ▸ listed)

theorem Linked.absent_none (h : Linked s) (free : s.timers id = none) (d : Dispatch) : id ∉ s.lists d := by
  intro mem
  obtain ⟨other, found, -⟩ := (h.mem d id).mp mem
  rw [free] at found
  cases found

/-- Only the fields that the lists depend on are compared. -/
theorem Linked.put_same (h : Linked s) (allocated : s.timers id = some timer) {new : Timer}
    (alarm : new.alarm = timer.alarm) (dispatch : new.dispatch = timer.dispatch)
    (pending : new.deletePending = timer.deletePending) : Linked (s.put id (some new)) where
  nodup := h.nodup
  mem d other := by
    rw [put_lists, h.mem d other, put_timers]
    by_cases same : other = id
    · subst same
      simp [allocated, Timer.listed, alarm, dispatch, pending]
    · simp [same]
  sorted d := by
    refine sorted_congr (h.sorted d) fun i _ => ?_
    by_cases same : i = id
    · subst same
      rw [alarmOf_put_self, alarmOf_some allocated, alarm]
    · exact alarmOf_put_ne s _ same
  whole := h.whole

theorem Linked.put (h : Linked s) (absent : ∀ d, id ∉ s.lists d) {new : Option Timer}
    (unlisted : ∀ timer, new = some timer → ¬timer.listed) : Linked (s.put id new) where
  nodup := h.nodup
  mem d other := by
    rw [put_lists, put_timers]
    by_cases same : other = id
    · subst same
      rw [Function.update_self]
      refine iff_of_false (absent d) ?_
      rintro ⟨timer, found, -, listed⟩
      exact unlisted timer found listed
    · rw [Function.update_of_ne same, h.mem d other]
  sorted d := sorted_congr (h.sorted d) fun i mem => alarmOf_put_ne s _ fun same => absent d (same ▸ mem)
  whole := h.whole

/-- A listed timer leaves its list. -/
theorem Linked.listRemove_put (h : Linked s) (allocated : s.timers id = some timer) (listed : timer.listed)
    {new : Option Timer} (unlisted : ∀ timer, new = some timer → ¬timer.listed) :
    Linked ((s.listRemove id timer.dispatch).put id new) := by
  have mem : id ∈ s.lists timer.dispatch := (h.mem _ id).mpr ⟨timer, allocated, rfl, listed⟩
  have lists (d) : ((s.listRemove id timer.dispatch).put id new).lists d = (s.lists d).erase id := by
    by_cases same : d = timer.dispatch
    · subst same
      simp [listRemove]
    · have other : id ∉ s.lists d := by
        intro there
        obtain ⟨timer', found, dispatch, -⟩ := (h.mem d id).mp there
        rw [allocated, Option.some.injEq] at found
        exact same (by rw [← dispatch, ← found])
      simp [listRemove, same, List.erase_of_not_mem other]
  refine ⟨fun d => ?_, fun d other => ?_, fun d => ?_, ?_⟩
  · rw [lists]
    exact (h.nodup d).erase id
  · rw [lists, put_timers]
    by_cases same : other = id
    · subst same
      rw [Function.update_self]
      refine iff_of_false (h.nodup d).not_mem_erase ?_
      rintro ⟨timer, found, -, listed⟩
      exact unlisted timer found listed
    · rw [Function.update_of_ne same, List.mem_erase_of_ne same, h.mem d other]
      rfl
  · rw [lists]
    refine sorted_congr ((h.sorted d).sublist List.erase_sublist) fun i there => ?_
    have ne : i ≠ id := fun same => (h.nodup d).not_mem_erase (same ▸ there)
    exact alarmOf_put_ne _ _ ne
  · simp [State.put, listRemove, h.whole, mem]

theorem Linked.setAlarmId (h : Linked s) (timestamp : BitVec 64) (d : Dispatch) : Linked (s.setAlarmId timestamp d) :=
  ⟨h.nodup, h.mem, h.sorted, h.whole⟩

/-- A listed timer goes into the list of its method. -/
theorem Linked.timerInsert (h : Linked s) (absent : ∀ d, id ∉ s.lists d) (listed : timer.listed) (w : Bool) :
    Linked (timerInsert s id timer w) := by
  have inserted : Linked ((s.put id (some timer)).listInsert id timer.dispatch) := by
    refine ⟨fun d => ?_, fun d other => ?_, fun d => ?_, h.whole⟩
    all_goals
      by_cases same : d = timer.dispatch
    · subst same
      simp only [listInsert, Function.update_self, put_lists]
      exact (List.perm_orderedInsert _ _ _).nodup_iff.mpr (List.nodup_cons.mpr ⟨absent _, h.nodup _⟩)
    · simpa [listInsert, same] using h.nodup d
    · subst same
      simp only [listInsert, Function.update_self, put_lists, List.mem_orderedInsert, put_timers]
      by_cases same : other = id
      · subst same
        simp [listed]
      · simp [same, h.mem]
    · simp only [listInsert, Function.update_of_ne same, put_lists, put_timers]
      by_cases self : other = id
      · subst self
        simp [absent d, Ne.symm same]
      · simp [self, h.mem]
    · subst same
      simp only [listInsert, Function.update_self, put_lists]
      exact sorted_orderedInsert id (sorted_congr (h.sorted _) fun i mem =>
        alarmOf_put_ne s _ fun same => absent _ (same ▸ mem))
    · simp only [listInsert, Function.update_of_ne same, put_lists]
      exact sorted_congr (h.sorted d) fun i mem => alarmOf_put_ne s _ fun same => absent _ (same ▸ mem)
  unfold EspTimer.timerInsert
  dsimp only
  split
  · exact inserted.setAlarmId _ _
  · exact inserted

theorem Linked.timerRemove (h : Linked s) (allocated : s.timers id = some timer) (armed : timer.alarm ≠ 0)
    (kept : timer.deletePending = false) : Linked (timerRemove s id timer) := by
  have removed : Linked ((s.listRemove id timer.dispatch).put id (some timer.disarm)) := by
    refine h.listRemove_put allocated (.inl armed) fun new eq => ?_
    cases eq
    simp [Timer.listed, Timer.disarm, kept]
  unfold EspTimer.timerRemove
  dsimp only
  split
  · exact removed.setAlarmId _ _
  · exact removed

/-! ## The programmed alarms -/

variable {d : Dispatch}

theorem Programmed.congr {s' : State} (h : Programmed s d) (alarmId : s'.alarmId d = s.alarmId d)
    (head : (s'.lists d).head? = (s.lists d).head?) (same : ∀ i ∈ s.lists d, s'.alarmOf i = s.alarmOf i) :
    Programmed s' d := by
  rw [Programmed, alarmId, h, headAlarm, headAlarm, head]
  cases first : (s.lists d).head? with
  | none => rfl
  | some i => exact (same i (List.mem_of_head? first)).symm

theorem programmed_setAlarmId (s : State) (d : Dispatch) : Programmed (s.setAlarmId (s.headAlarm d) d) d := by
  simp only [Programmed, State.setAlarmId, headAlarm, Function.update_self]
  rfl

theorem Programmed.put (h : Programmed s d) (absent : id ∉ s.lists d) (new : Option Timer) :
    Programmed (s.put id new) d :=
  h.congr rfl rfl fun _ mem => alarmOf_put_ne s new fun same => absent (same ▸ mem)

/-- The other method's list and alarm stay. -/
theorem Programmed.timerInsert_other (h : Programmed s d) (absent : id ∉ s.lists d) (ne : d ≠ timer.dispatch) (w : Bool) :
    Programmed (timerInsert s id timer w) d := by
  have lists : (EspTimer.timerInsert s id timer w).lists d = s.lists d := by
    unfold EspTimer.timerInsert
    dsimp only
    split <;> simp [listInsert, State.setAlarmId, ne]
  refine h.congr ?_ (by rw [lists]) fun i mem => ?_
  · unfold EspTimer.timerInsert
    dsimp only
    split <;> simp [listInsert, State.setAlarmId, ne]
  · have other : i ≠ id := fun same => absent (same ▸ mem)
    simp [alarmOf, other]

theorem Programmed.timerInsert (h : Programmed s d) (absent : id ∉ s.lists d) :
    Programmed (timerInsert s id timer false) d := by
  by_cases same : d = timer.dispatch
  · subst same
    have put := h.put absent (some timer)
    unfold EspTimer.timerInsert
    dsimp only
    split
    · rename_i first
      have head : ((s.put id (some timer)).listInsert id timer.dispatch).headAlarm timer.dispatch = timer.alarm := by
        rw [headAlarm, first.2]
        simp [listInsert, alarmOf]
      rw [← head]
      exact programmed_setAlarmId _ _
    · rename_i later
      have first := head_orderedInsert (f := (s.put id (some timer)).alarmOf) (l := s.lists timer.dispatch) id
      rcases first with first | ⟨first, -⟩
      · exact absurd ⟨rfl, by simpa [listInsert] using first⟩ later
      · exact put.congr rfl (by simpa [listInsert] using first) fun _ _ => rfl
  · exact h.timerInsert_other absent same false

theorem Programmed.listRemove_put_other (h : Programmed s d) {d' : Dispatch} (ne : d ≠ d') (absent : id ∉ s.lists d)
    (new : Option Timer) : Programmed ((s.listRemove id d').put id new) d := by
  refine h.congr rfl (by simp [listRemove, ne]) fun i mem => ?_
  have other : i ≠ id := fun same => absent (same ▸ mem)
  simp [alarmOf, other, listRemove]

theorem head_erase_of_ne {l : List Nat} (ne : l.head? ≠ some id) : (l.erase id).head? = l.head? := by
  cases l with
  | nil => rfl
  | cons it rest =>
    have ne : it ≠ id := fun same => ne (by rw [same]; rfl)
    simp [ne]

theorem Linked.one_list (h : Linked s) (allocated : s.timers id = some timer) (ne : d ≠ timer.dispatch) :
    id ∉ s.lists d := by
  intro mem
  obtain ⟨other, found, dispatch, -⟩ := (h.mem d id).mp mem
  rw [allocated, Option.some.injEq] at found
  exact ne (by rw [← dispatch, ← found])

theorem Programmed.timerRemove (h : Programmed s d) (linked : Linked s) (allocated : s.timers id = some timer) :
    Programmed (timerRemove s id timer) d := by
  by_cases same : d = timer.dispatch
  · subst same
    unfold EspTimer.timerRemove
    dsimp only
    split
    · exact programmed_setAlarmId _ _
    · rename_i later
      have head := head_erase_of_ne later
      rw [Programmed, put_alarmId]
      have alarmId : (s.listRemove id timer.dispatch).alarmId = s.alarmId := rfl
      rw [alarmId, h, headAlarm, headAlarm]
      simp only [put_lists, listRemove, Function.update_self, head]
      cases first : (s.lists timer.dispatch).head? with
      | none => rfl
      | some i =>
        have ne : i ≠ id := fun same => later (by rw [first, same])
        simp [alarmOf, ne]
  · have other := h.listRemove_put_other same (linked.one_list allocated same) (some timer.disarm)
    unfold EspTimer.timerRemove
    dsimp only
    split
    · exact other.congr (by simp [State.setAlarmId, same]) rfl fun _ _ => rfl
    · exact other

end moves

end EspIdf.EspTimer
