import EspIdf.Lib.Threads

/-!
# `thread.c`: events that are posted to a thread

* `Poster`, `Worker`, `State` : where the threads are within `osi_thread_post_event`, and the worker within
  `osi_thread_generic_event_handler`;
* `step` : one step of one of them; a locked section is one step, and so is the test that is made without the lock;
* `Pending` : a request that is not served yet;
* `Inv`, `inv_step` : the mark counts, and only the thread that raises it from zero posts;
* `wakeups_kept` : what holds in every order of the steps of fewer than 65536 threads.
-/

namespace EspIdf.Osi

open Threads

/-- A thread in `osi_thread_post_event`; `since` is how many runs of the function had started when it was called. -/
inductive Poster
  | idle
  | called (since : Nat)
  | tested (since : Nat)
  | claimed (since : Nat)
  | returning (since : Nat) (ret : Bool)
deriving Repr, DecidableEq

/-- The worker, as far as the event is concerned. -/
inductive Worker
  | idle
  | dequeued
  | cleared
  | running
deriving Repr, DecidableEq

structure State where
  /-- 16 bits -/
  isQueued : Nat
  /-- The items of the event in the work queue. -/
  items : Nat
  worker : Worker
  /-- The runs of the function that have started. -/
  runs : Nat
  posters : List Poster
deriving Repr, DecidableEq

def State.init (threads : Nat) : State := ⟨0, 0, .idle, 0, List.replicate threads .idle⟩

def State.put (s : State) (i : Nat) (p : Poster) : State := { s with posters := s.posters.set i p }

inductive Action
  | call (i : Nat)
  | test (i : Nat)
  | lock (i : Nat)
  | post (i : Nat)
  | ret (i : Nat)
  | dequeue
  | clear
  | start
  | finish
deriving Repr, DecidableEq

/-- `osi_thread_post` waits for room, and succeeds. -/
def step (s : State) : Action → Option State
  | .call i =>
    match s.posters[i]? with
    | some .idle => some (s.put i (.called s.runs))
    | _ => none
  | .test i =>
    match s.posters[i]? with
    | some (.called since) => some (s.put i (if s.isQueued = 0 then .tested since else .returning since false))
    | _ => none
  | .lock i =>
    match s.posters[i]? with
    | some (.tested since) =>
      let acquireCnt := (s.isQueued + 1) % 65536
      let p := if acquireCnt = 1 then Poster.claimed since else .returning since false
      some (State.put { s with isQueued := acquireCnt } i p)
    | _ => none
  | .post i =>
    match s.posters[i]? with
    | some (.claimed since) => some (State.put { s with items := s.items + 1 } i (.returning since true))
    | _ => none
  | .ret i =>
    match s.posters[i]? with
    | some (.returning _ _) => some (s.put i .idle)
    | _ => none
  | .dequeue =>
    if s.worker = .idle ∧ s.items > 0 then some { s with items := s.items - 1, worker := .dequeued } else none
  | .clear => if s.worker = .dequeued then some { s with isQueued := 0, worker := .cleared } else none
  | .start => if s.worker = .cleared then some { s with runs := s.runs + 1, worker := .running } else none
  | .finish => if s.worker = .running then some { s with worker := .idle } else none

/-! ## What is asked -/

def Poster.isClaimed : Poster → Bool
  | .claimed _ => true
  | _ => false

def Poster.isTested : Poster → Bool
  | .tested _ => true
  | _ => false

/-- A poster has claimed the event, an item is queued, or the handler has not cleared the mark yet. -/
def State.Pending (s : State) : Prop :=
  (∃ p ∈ s.posters, p.isClaimed = true) ∨ s.items > 0 ∨ s.worker = .dequeued

/-- The mark is set exactly while the event is pending. -/
def State.MarkExact (s : State) : Prop := s.isQueued ≠ 0 ↔ s.Pending

/-- A thread that returns leaves the event pending, or the function has started since it was called. -/
def State.EndsServed (s : State) : Prop :=
  ∀ since ret, Poster.returning since ret ∈ s.posters → since < s.runs ∨ s.Pending

/-- Or the handler has cleared the mark, and starts the function next. -/
def State.EndsServedSoon (s : State) : Prop :=
  ∀ since ret, Poster.returning since ret ∈ s.posters → since < s.runs ∨ s.Pending ∨ s.worker = .cleared

/-! ## The invariant -/

def Poster.since : Poster → Nat
  | .idle => 0
  | .called since => since
  | .tested since => since
  | .claimed since => since
  | .returning since _ => since

/-- How often the event is pending. -/
def State.active (s : State) : Nat :=
  s.posters.countP Poster.isClaimed + s.items + (decide (s.worker = .dequeued)).toNat

theorem pending_iff (s : State) : s.Pending ↔ s.active ≠ 0 := by
  have hclaimed : (∃ p ∈ s.posters, p.isClaimed = true) ↔ 0 < s.posters.countP Poster.isClaimed :=
    List.countP_pos_iff.symm
  unfold State.Pending State.active
  rw [hclaimed]
  by_cases hworker : s.worker = .dequeued
  · rw [decide_eq_true hworker, Bool.toNat_true]
    exact iff_of_true (.inr (.inr hworker)) (by omega)
  · rw [decide_eq_false hworker, Bool.toNat_false]
    simp only [hworker, or_false]
    omega

structure Inv (threads : Nat) (s : State) : Prop where
  length : s.posters.length = threads
  /-- Who has tested the mark may still raise it, and no one else. -/
  counts : s.isQueued + s.posters.countP Poster.isTested ≤ threads
  one : s.active ≤ 1
  exact : s.isQueued = 0 ↔ s.active = 0
  since : ∀ p ∈ s.posters, p.since ≤ s.runs
  served : ∀ since ret, Poster.returning since ret ∈ s.posters → since < s.runs ∨ s.active ≠ 0 ∨ s.worker = .cleared

theorem inv_init (threads : Nat) : Inv threads (.init threads) := by
  have hnone : ∀ w : Poster → Bool, w .idle = false → (State.init threads).posters.countP w = 0 := by
    intro w hw
    rw [List.countP_eq_zero]
    intro p hp
    rw [List.eq_of_mem_replicate hp, hw]
    exact Bool.false_ne_true
  have hactive : (State.init threads).active = 0 := by
    unfold State.active
    rw [hnone Poster.isClaimed rfl]
    rfl
  refine ⟨List.length_replicate, ?_, by omega, ⟨fun _ => hactive, fun _ => rfl⟩, fun p hp => ?_, fun since ret hp => ?_⟩
  · rw [hnone Poster.isTested rfl]
    exact Nat.zero_le _
  · rw [List.eq_of_mem_replicate hp]
    exact Nat.zero_le _
  · exact absurd (List.eq_of_mem_replicate hp) (by simp)

section move
variable {threads : Nat} {s : State} {i : Nat} {p q : Poster}

theorem active_put (hp : s.posters[i]? = some p) :
    (s.put i q).active + p.isClaimed.toNat = s.active + q.isClaimed.toNat := by
  have := countP_set hp (q := q) Poster.isClaimed
  unfold State.active State.put
  dsimp only
  omega

/-- A thread moves on; what it moves to is no older than the runs, and if it returns it is served. -/
theorem Inv.put (h : Inv threads s) (hp : s.posters[i]? = some p) (hclaimed : q.isClaimed = p.isClaimed)
    (htested : s.isQueued + s.posters.countP Poster.isTested + q.isTested.toNat ≤ threads + p.isTested.toNat)
    (hsince : q.since ≤ s.runs)
    (hserved : ∀ since ret, q = .returning since ret → since < s.runs ∨ s.active ≠ 0 ∨ s.worker = .cleared) :
    Inv threads (s.put i q) := by
  have hactive : (s.put i q).active = s.active := by
    have := active_put hp (q := q)
    rw [hclaimed] at this
    exact Nat.add_right_cancel this
  have hcount := countP_set hp (q := q) Poster.isTested
  refine ⟨?_, ?_, hactive ▸ h.one, hactive ▸ h.exact, fun r hr => ?_, fun since ret hr => ?_⟩
  · exact List.length_set.trans h.length
  · change s.isQueued + (s.posters.set i q).countP Poster.isTested ≤ threads
    omega
  · rcases List.mem_or_eq_of_mem_set hr with hr | rfl
    · exact h.since r hr
    · exact hsince
  · rw [hactive]
    rcases List.mem_or_eq_of_mem_set hr with hr | hr
    · exact h.served since ret hr
    · exact hserved since ret hr.symm

/-- A thread that is found has been called with no more runs than there are. -/
theorem Inv.since_of (h : Inv threads s) (hp : s.posters[i]? = some p) : p.since ≤ s.runs :=
  h.since p (List.mem_of_getElem? hp)

/-- The first to raise the mark claims the event. -/
theorem Inv.claim (h : Inv threads s) {since : Nat} (hp : s.posters[i]? = some (.tested since)) (hzero : s.isQueued = 0) :
    Inv threads (State.put { s with isQueued := 1 } i (.claimed since)) := by
  have htested := countP_set hp (q := .claimed since) Poster.isTested
  have hclaimed := active_put hp (q := .claimed since)
  have hcounts := h.counts
  have hidle := h.exact.mp hzero
  have hactive : (State.put { s with isQueued := 1 } i (.claimed since)).active = 1 :=
    (Nat.zero_add 1 ▸ hidle ▸ hclaimed : (s.put i (.claimed since)).active = 1)
  refine ⟨List.length_set.trans h.length, ?_, Nat.le_of_eq hactive, ?_, fun r hr => ?_, fun _ _ _ => ?_⟩
  · change 1 + (s.posters.set i (.claimed since)).countP Poster.isTested ≤ threads
    change _ + 1 = _ + 0 at htested
    omega
  · rw [hactive]
    exact iff_of_false Nat.one_ne_zero Nat.one_ne_zero
  · rcases List.mem_or_eq_of_mem_set hr with hr | rfl
    · exact h.since r hr
    · have hsince := h.since_of hp
      exact hsince
  · exact .inr (.inl (hactive ▸ Nat.one_ne_zero))

/-- Who raises it further leaves that to the thread that claimed the event. -/
theorem Inv.raise (h : Inv threads s) {since : Nat} (hp : s.posters[i]? = some (.tested since)) (hne : s.isQueued ≠ 0) :
    Inv threads (State.put { s with isQueued := s.isQueued + 1 } i (.returning since false)) := by
  have htested := countP_set hp (q := .returning since false) Poster.isTested
  have hcounts := h.counts
  have hpending : s.active ≠ 0 := fun hidle => hne (h.exact.mpr hidle)
  have hactive : (State.put { s with isQueued := s.isQueued + 1 } i (.returning since false)).active = s.active :=
    active_put hp (q := .returning since false)
  refine ⟨List.length_set.trans h.length, ?_, hactive ▸ h.one, ?_, fun r hr => ?_, fun _ _ _ => ?_⟩
  · change s.isQueued + 1 + (s.posters.set i (.returning since false)).countP Poster.isTested ≤ threads
    change _ + 1 = _ + 0 at htested
    omega
  · rw [hactive]
    exact iff_of_false (Nat.succ_ne_zero _) hpending
  · rcases List.mem_or_eq_of_mem_set hr with hr | rfl
    · exact h.since r hr
    · have hsince := h.since_of hp
      exact hsince
  · exact .inr (.inl (hactive ▸ hpending))

/-- Below 65536 threads the mark does not wrap. -/
theorem Inv.isQueued_lt (h : Inv threads s) (hthreads : threads < 65536) {since : Nat}
    (hp : s.posters[i]? = some (.tested since)) : s.isQueued + 1 < 65536 := by
  have hpos := countP_pos hp (w := Poster.isTested) rfl
  have hcounts := h.counts
  omega

/-- A claim becomes an item. -/
theorem Inv.post (h : Inv threads s) {since : Nat} (hp : s.posters[i]? = some (.claimed since)) :
    Inv threads (State.put { s with items := s.items + 1 } i (.returning since true)) := by
  have htested := countP_set hp (q := .returning since true) Poster.isTested
  have hclaimed := countP_set hp (q := .returning since true) Poster.isClaimed
  have hactive : (State.put { s with items := s.items + 1 } i (.returning since true)).active = s.active := by
    change _ + 1 = _ + 0 at hclaimed
    unfold State.active State.put
    dsimp only
    omega
  have hpending : s.active ≠ 0 := by
    have := countP_pos hp (w := Poster.isClaimed) rfl
    unfold State.active
    omega
  refine ⟨List.length_set.trans h.length, ?_, hactive ▸ h.one, hactive ▸ h.exact, fun r hr => ?_, fun _ _ _ => ?_⟩
  · change _ + 0 = _ + 0 at htested
    have hcounts := h.counts
    change s.isQueued + (s.posters.set i (.returning since true)).countP Poster.isTested ≤ threads
    omega
  · rcases List.mem_or_eq_of_mem_set hr with hr | rfl
    · exact h.since r hr
    · have hsince := h.since_of hp
      exact hsince
  · exact .inr (.inl (hactive ▸ hpending))

end move

section step
variable {threads : Nat} {s s' : State} {i : Nat}

/-- Who tests the mark while it is zero may raise it. -/
theorem Inv.test (h : Inv threads s) {since : Nat} (hp : s.posters[i]? = some (.called since)) (hzero : s.isQueued = 0) :
    Inv threads (s.put i (.tested since)) := by
  have hsince : since ≤ s.runs := h.since_of hp
  refine h.put hp rfl ?_ hsince fun _ _ hq => absurd hq (by simp)
  have htested := countP_set hp (q := .tested since) Poster.isTested
  have hle := List.countP_le_length (p := Poster.isTested) (l := s.posters.set i (.tested since))
  rw [List.length_set, h.length] at hle
  change _ + 0 = _ + 1 at htested
  change s.isQueued + _ + 1 ≤ threads + 0
  omega

/-- The handler clears the mark of the one item. -/
theorem Inv.clear (h : Inv threads s) (hworker : s.worker = .dequeued) :
    Inv threads { s with isQueued := 0, worker := .cleared } := by
  have hone := h.one
  have hcounts := h.counts
  have hidle : State.active { s with isQueued := 0, worker := .cleared } = 0 := by
    unfold State.active at hone ⊢
    rw [hworker] at hone
    change _ + _ + 1 ≤ 1 at hone
    change s.posters.countP Poster.isClaimed + s.items + 0 = 0
    omega
  refine ⟨h.length, ?_, by omega, ⟨fun _ => hidle, fun _ => rfl⟩, h.since, fun _ _ _ => .inr (.inr rfl)⟩
  change 0 + s.posters.countP Poster.isTested ≤ threads
  omega

theorem Inv.start (h : Inv threads s) (hworker : s.worker = .cleared) :
    Inv threads { s with runs := s.runs + 1, worker := .running } := by
  have hactive : State.active { s with runs := s.runs + 1, worker := .running } = s.active := by
    unfold State.active
    rw [hworker]
    rfl
  refine ⟨h.length, h.counts, hactive ▸ h.one, hactive ▸ h.exact, fun p hp => Nat.le_succ_of_le (h.since p hp),
    fun since ret hp => .inl ?_⟩
  have hle : since ≤ s.runs := h.since _ hp
  exact Nat.lt_succ_of_le hle

theorem Inv.finish (h : Inv threads s) (hworker : s.worker = .running) : Inv threads { s with worker := .idle } := by
  have hactive : State.active { s with worker := .idle } = s.active := by
    unfold State.active
    rw [hworker]
    rfl
  refine ⟨h.length, h.counts, hactive ▸ h.one, hactive ▸ h.exact, h.since, fun since ret hp => ?_⟩
  rw [hactive]
  rcases h.served since ret hp with hs | hs | hs
  · exact .inl hs
  · exact .inr (.inl hs)
  · exact absurd (hworker.symm.trans hs) (by simp)

theorem Inv.dequeue (h : Inv threads s) (hworker : s.worker = .idle) (hitems : s.items > 0) :
    Inv threads { s with items := s.items - 1, worker := .dequeued } := by
  have hactive : State.active { s with items := s.items - 1, worker := .dequeued } = s.active := by
    unfold State.active
    rw [hworker]
    change s.posters.countP Poster.isClaimed + (s.items - 1) + 1 = s.posters.countP Poster.isClaimed + s.items + 0
    omega
  refine ⟨h.length, h.counts, hactive ▸ h.one, hactive ▸ h.exact, h.since, fun since ret hp => ?_⟩
  rw [hactive]
  rcases h.served since ret hp with hs | hs | hs
  · exact .inl hs
  · exact .inr (.inl hs)
  · exact absurd (hworker.symm.trans hs) (by simp)

/-- Every step of fewer than 65536 threads and of the worker. -/
theorem inv_step (hthreads : threads < 65536) {a : Action} (h : Inv threads s) (hstep : step s a = some s') :
    Inv threads s' := by
  cases a with
  | call i =>
    simp only [step] at hstep
    split at hstep
    next hp =>
      obtain rfl := Option.some.inj hstep
      exact h.put hp rfl h.counts (Nat.le_refl _) fun _ _ hq => absurd hq (by simp)
    next => exact absurd hstep (by simp)
  | test i =>
    simp only [step] at hstep
    split at hstep
    next since hp =>
      obtain rfl := Option.some.inj hstep
      by_cases hzero : s.isQueued = 0
      · rw [if_pos hzero]
        exact h.test hp hzero
      · rw [if_neg hzero]
        have hsince : since ≤ s.runs := h.since_of hp
        exact h.put hp rfl h.counts hsince fun _ _ _ => .inr (.inl fun hidle => hzero (h.exact.mpr hidle))
    next => exact absurd hstep (by simp)
  | lock i =>
    simp only [step] at hstep
    split at hstep
    next since hp =>
      obtain rfl := Option.some.inj hstep
      rw [Nat.mod_eq_of_lt (h.isQueued_lt hthreads hp)]
      by_cases hzero : s.isQueued = 0
      · have hone : s.isQueued + 1 = 1 := by rw [hzero]
        rw [hone, if_pos rfl]
        exact h.claim hp hzero
      · rw [if_neg (by omega)]
        exact h.raise hp hzero
    next => exact absurd hstep (by simp)
  | post i =>
    simp only [step] at hstep
    split at hstep
    next since hp =>
      obtain rfl := Option.some.inj hstep
      exact h.post hp
    next => exact absurd hstep (by simp)
  | ret i =>
    simp only [step] at hstep
    split at hstep
    next hp =>
      obtain rfl := Option.some.inj hstep
      exact h.put hp rfl h.counts (Nat.zero_le _) fun _ _ hq => absurd hq (by simp)
    next => exact absurd hstep (by simp)
  | dequeue =>
    simp only [step] at hstep
    split_ifs at hstep with hcond
    obtain rfl := Option.some.inj hstep
    exact h.dequeue hcond.1 hcond.2
  | clear =>
    simp only [step] at hstep
    split_ifs at hstep with hcond
    obtain rfl := Option.some.inj hstep
    exact h.clear hcond
  | start =>
    simp only [step] at hstep
    split_ifs at hstep with hcond
    obtain rfl := Option.some.inj hstep
    exact h.start hcond
  | finish =>
    simp only [step] at hstep
    split_ifs at hstep with hcond
    obtain rfl := Option.some.inj hstep
    exact h.finish hcond

theorem getElem_put {p : Poster} {q : Poster} (hp : s.posters[i]? = some p) : (s.put i q).posters[i]? = some q := by
  have hlt : i < s.posters.length := (List.getElem?_eq_some_iff.mp hp).1
  unfold State.put
  rw [List.getElem?_set_self hlt]

/-- The last access of a call leaves the event pending: the test, the locked section or the post behind which it
returns. -/
def State.LeavesPending (s : State) : Prop :=
  ∀ i a s', step s a = some s' → a = .test i ∨ a = .lock i ∨ a = .post i →
    ∀ since ret, s'.posters[i]? = some (.returning since ret) → s'.Pending

theorem leaves_pending (hthreads : threads < 65536) (h : Inv threads s) : s.LeavesPending := by
  intro i a s' hstep ha since ret hret
  have hinv := inv_step hthreads h hstep
  rw [pending_iff]
  rcases ha with rfl | rfl | rfl
  · simp only [step] at hstep
    split at hstep
    next since' hp =>
      obtain rfl := Option.some.inj hstep
      rw [getElem_put hp] at hret
      by_cases hzero : s.isQueued = 0
      · rw [if_pos hzero] at hret
        exact absurd hret (by simp)
      · exact fun hidle => hzero (hinv.exact.mpr hidle)
    next => exact absurd hstep (by simp)
  · simp only [step] at hstep
    split at hstep
    next since' hp =>
      have hmod := Nat.mod_eq_of_lt (h.isQueued_lt hthreads hp)
      obtain rfl := Option.some.inj hstep
      refine fun hidle => Nat.succ_ne_zero s.isQueued ?_
      exact hmod.symm.trans (hinv.exact.mpr hidle)
    next => exact absurd hstep (by simp)
  · simp only [step] at hstep
    split at hstep
    next since' hp =>
      obtain rfl := Option.some.inj hstep
      unfold State.active State.put
      dsimp only
      omega
    next => exact absurd hstep (by simp)

end step

/-! ## Every order of the steps -/

/-- Fewer than 65536 threads: there is one item at most, the mark is exact, the last access of a call leaves the event
pending, and when it returns the event is pending still, or the function has started since it was called, or it starts
next. -/
theorem wakeups_kept (threads : Nat) (hthreads : threads < 65536) (actions : List Action) (s : State)
    (hrun : run step (.init threads) actions = some s) : s.items ≤ 1 ∧ s.MarkExact ∧ s.LeavesPending ∧ s.EndsServedSoon := by
  have h := run_invariant (fun h hstep => inv_step hthreads h hstep) (inv_init threads) hrun
  have hone := h.one
  refine ⟨?_, ?_, leaves_pending hthreads h, fun since ret hp => ?_⟩
  · unfold State.active at hone
    omega
  · unfold State.MarkExact
    rw [pending_iff]
    exact not_congr h.exact
  · rw [pending_iff]
    exact h.served since ret hp

theorem wakeups_kept_two : 2 < 65536 ∧ ∃ s,
    run step (.init 2) [.call 0, .call 1, .test 0, .test 1, .lock 0, .lock 1, .post 0] = some s ∧
      s.items ≤ 1 ∧ s.MarkExact ∧ s.LeavesPending ∧ s.EndsServedSoon :=
  ⟨by decide, _, rfl, wakeups_kept 2 (by decide)
    [.call 0, .call 1, .test 0, .test 1, .lock 0, .lock 1, .post 0] _ rfl⟩

/-! ## What fails otherwise -/

section wrap
variable {threads : Nat}

/-- A thread behind `l` tests the mark, which is zero. -/
theorem run_test {s : State} (hzero : s.isQueued = 0) {l r : List Poster} (hp : s.posters = l ++ .idle :: r) :
    run step s [.call l.length, .test l.length] = some { s with posters := l ++ .tested s.runs :: r } := by
  obtain ⟨isQueued, items, worker, runs, posters⟩ := s
  subst hp hzero
  simp [run, step, State.put]

/-- A thread behind `l` raises the mark, and does not claim the event. -/
theorem run_raise {s : State} {since : Nat} (hcnt : (s.isQueued + 1) % 65536 ≠ 1) {l r : List Poster}
    (hp : s.posters = l ++ .tested since :: r) :
    run step s [.lock l.length] =
      some { s with isQueued := (s.isQueued + 1) % 65536, posters := l ++ .returning since false :: r } := by
  obtain ⟨isQueued, items, worker, runs, posters⟩ := s
  subst hp
  simp [run, step, State.put, hcnt]

/-- `k` threads test the mark. -/
theorem run_tests {k : Nat} (hk : k ≤ threads) :
    ∃ actions, run step (.init threads) actions =
      some ⟨0, 0, .idle, 0, List.replicate k (.tested 0) ++ List.replicate (threads - k) .idle⟩ := by
  induction k with
  | zero => exact ⟨[], rfl⟩
  | succ k ih =>
    obtain ⟨actions, hrun⟩ := ih (Nat.le_of_succ_le hk)
    refine ⟨actions ++ [.call k, .test k], ?_⟩
    have hidle : List.replicate (threads - k) Poster.idle = .idle :: List.replicate (threads - (k + 1)) .idle := by
      rw [← List.replicate_succ]
      congr 1
      omega
    have htest := @run_test
      ⟨0, 0, .idle, 0, List.replicate k (.tested 0) ++ .idle :: List.replicate (threads - (k + 1)) .idle⟩ rfl
      (List.replicate k (.tested 0)) (List.replicate (threads - (k + 1)) .idle) rfl
    rw [List.length_replicate] at htest
    rw [run_append, hrun, hidle, Option.bind_some, htest, List.replicate_succ']
    simp

/-- Then the first of them claims the event, and `k` others raise the mark. -/
theorem run_raises {k : Nat} (hk : k + 1 ≤ threads) (hlt : k < 65536) :
    ∃ actions, run step (.init threads) actions =
      some ⟨(k + 1) % 65536, 0, .idle, 0,
        .claimed 0 :: List.replicate k (.returning 0 false) ++ List.replicate (threads - (k + 1)) (.tested 0)⟩ := by
  induction k with
  | zero =>
    obtain ⟨actions, hrun⟩ := run_tests (Nat.le_refl threads)
    refine ⟨actions ++ [.lock 0], ?_⟩
    have htested : List.replicate threads (Poster.tested 0) = .tested 0 :: List.replicate (threads - 1) (.tested 0) := by
      rw [← List.replicate_succ]
      congr 1
      omega
    rw [run_append, hrun, htested, Nat.sub_self, List.replicate_zero, List.append_nil]
    rfl
  | succ k ih =>
    obtain ⟨actions, hrun⟩ := ih (Nat.le_of_succ_le hk) (Nat.lt_of_succ_lt hlt)
    refine ⟨actions ++ [.lock (k + 1)], ?_⟩
    have htested : List.replicate (threads - (k + 1)) (Poster.tested 0) =
        .tested 0 :: List.replicate (threads - (k + 1 + 1)) (.tested 0) := by
      rw [← List.replicate_succ]
      congr 1
      omega
    have hmod : (k + 1) % 65536 = k + 1 := Nat.mod_eq_of_lt hlt
    have hcnt : (k + 1 + 1) % 65536 ≠ 1 := by omega
    have hraise := @run_raise
      ⟨k + 1, 0, .idle, 0, (.claimed 0 :: List.replicate k (.returning 0 false)) ++
        .tested 0 :: List.replicate (threads - (k + 1 + 1)) (.tested 0)⟩ 0 hcnt
      (.claimed 0 :: List.replicate k (.returning 0 false)) (List.replicate (threads - (k + 1 + 1)) (.tested 0)) rfl
    rw [List.length_cons, List.length_replicate] at hraise
    rw [run_append, hrun, hmod, htested, Option.bind_some, hraise, List.replicate_succ']
    simp

end wrap

/-- A thread finds the mark set and returns, but the handler clears it in between and has not started the function
yet; and 65536 threads raise the mark back to zero. -/
theorem cleared_or_wrapped :
    (¬ ∀ (actions : List Action) (s : State), run step (.init 2) actions = some s → s.EndsServed) ∧
    ¬ ∀ (actions : List Action) (s : State), run step (.init 65536) actions = some s → s.MarkExact := by
  constructor
  · intro h
    have hends := h [.call 0, .test 0, .lock 0, .post 0, .ret 0, .call 1, .test 1, .dequeue, .clear] _ rfl
    rcases hends 0 false (by decide) with hruns | ⟨p, hp, hclaimed⟩ | hitems | hworker
    · exact absurd hruns (by decide)
    · revert p
      decide
    · exact absurd hitems (by decide)
    · exact absurd hworker (by decide)
  · intro h
    obtain ⟨actions, hrun⟩ := run_raises (Nat.le_refl 65536) (by decide : 65535 < 65536)
    exact (h actions _ hrun).mpr (.inl ⟨.claimed 0, List.mem_append_left _ List.mem_cons_self, rfl⟩) rfl

end EspIdf.Osi
