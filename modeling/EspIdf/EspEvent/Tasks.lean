import EspIdf.EspEvent.Legacy
import EspIdf.Lib.Threads

/-!
# An event loop and the tasks around it

* `findNode`, `findAndUnregister` : what is marked while another task has the mutex;
* `State`, `step` : the task of the loop, and the tasks that post events and unregister handlers; each access to the
  queue or to the mutex is a step;
* `Deadlocked` : the task of the loop waits for the mutex, and who has it waits for room in the queue;
* `Meets`, `never_deadlocked_iff` : the steps that do not lead there.

The loop has a task of its own.
-/

namespace EspIdf.EspEvent.Tasks

open Threads

/-! ## `find_and_unregister_handler` -/

section find
variable (target : Target) (base : Base) (id : Id)

def findInHandlers (handlers : List Node) : Option Nat := handlers.findIdx? fun it => isTarget target it

def findInIds (i k : Nat) : (m : Nat) → Option (Place × Nat) → List IdNode → Option (Place × Nat)
  | _, found, [] => found
  | m, found, idNode :: rest =>
    let found :=
      if idNode.id = id then ((findInHandlers target idNode.handlers).map fun j => (.id i k m, j)).or found else found
    findInIds i k (m + 1) found rest

def findInBases (i : Nat) : (k : Nat) → Option (Place × Nat) → List BaseNode → Option (Place × Nat)
  | _, found, [] => found
  | k, found, baseNode :: rest =>
    if baseNode.base = base then
      let found := ((findInHandlers target baseNode.handlers).map fun j => (.base i k, j)).or found
      if found.isSome then found
      else findInBases i (k + 1) (findInIds target id i k 0 found baseNode.idNodes) rest
    else findInBases i (k + 1) found rest

def findNode : (i : Nat) → Option (Place × Nat) → Loop → Option (Place × Nat)
  | _, found, [] => found
  | i, found, loopNode :: rest =>
    let found := ((findInHandlers target loopNode.handlers).map fun j => (.loop i, j)).or found
    if found.isSome then found
    else findNode (i + 1) (findInBases target base id i 0 found loopNode.baseNodes) rest

end find

/-- What `find_and_unregister_handler` does before it posts: return, or mark a handler. -/
inductive Found
  | returns (err : Err)
  | marks (loop : Loop)
deriving Repr, DecidableEq

def findAndUnregister (target : Target) (base : Base) (id : Id) (loop : Loop) : Found :=
  match findNode target base id 0 none loop with
  | none => .returns .notFound
  | some (place, j) =>
    match nodeAt loop place j with
    | none => .returns .notFound
    | some r => if r.node.unregistered then .returns .ok else .marks (modifyAt loop marked place j)

/-! ## The tasks -/

/-- `esp_event_post_instance_t` -/
inductive Post
  | event (base : Nat) (id : Id)
  | cleanup (target : Target) (base : Base) (id : Id)
deriving Repr, DecidableEq

inductive Owner
  | loop
  | task (i : Nat)
deriving Repr, DecidableEq

/-- The task of the loop: in `xQueueReceive`, in `xSemaphoreTakeRecursive`, or with the mutex. -/
inductive LoopPhase
  | receiving
  | waiting (post : Post)
  | running
deriving Repr, DecidableEq

/-- What is returned; the copies that the queue holds are allocated. -/
inductive Ret
  | err (err : Err)
  | noMem
deriving Repr, DecidableEq

/-- Another task. -/
inductive Phase
  | idle
  /-- In `esp_event_post_to`; without `limited` it waits forever. -/
  | sending (post : Post) (limited : Bool)
  /-- `xSemaphoreTake` has been successful. -/
  | direct (target : Target) (base : Base) (id : Id)
  /-- In `xSemaphoreTakeRecursive`, without a time limit. -/
  | blocked (target : Target) (base : Base) (id : Id)
  | finding (target : Target) (base : Base) (id : Id)
  /-- In `esp_event_post_to` from `find_and_unregister_handler`, without a time limit. -/
  | removing (post : Post)
  | releasing (ret : Ret)
deriving Repr, DecidableEq

structure State where
  capacity : Nat
  queue : List Post
  mutex : Option Owner
  loop : LoopPhase
  tasks : List Phase
  registry : Loop
deriving Repr, DecidableEq

def State.init (capacity tasks : Nat) (registry : Loop) : State :=
  ⟨capacity, [], none, .receiving, List.replicate tasks .idle, registry⟩

def State.put (s : State) (i : Nat) (p : Phase) : State := { s with tasks := s.tasks.set i p }

/-- `xQueueSendToBack` without a wait: an event is dropped when there is no room. -/
def State.trySend (s : State) (post : Post) : State :=
  if s.queue.length < s.capacity then { s with queue := s.queue ++ [post] } else s

/-- `loop_remove_handler` -/
def removed (target : Target) (base : Base) (id : Id) (loop : Loop) : Err × Loop :=
  match loopRemoveHandler target base id loop with
  | some loop => (.ok, loop)
  | none => (.notFound, loop)

/-- What the loop does first with an event. -/
def cleanedUp : Post → Loop → Loop
  | .event .., loop => loop
  | .cleanup target base id, loop => (removed target base id loop).2

inductive Action
  /-- `xQueueReceive` -/
  | receive
  /-- `xSemaphoreTakeRecursive`, and the internal event -/
  | lock
  /-- A handler posts. -/
  | handlerPost (base : Nat) (id : Id)
  /-- A handler unregisters a handler. -/
  | handlerUnregister (target : Target) (base : BaseArg) (id : Id) (allocated : Bool)
  /-- `xSemaphoreGiveRecursive` -/
  | unlock
  | post (i : Nat) (base : Nat) (id : Id) (limited : Bool)
  | send (i : Nat)
  | timeout (i : Nat)
  /-- `esp_event_handler_unregister_with_internal`, to its first `xSemaphoreTake` -/
  | unregister (i : Nat) (target : Target) (base : BaseArg) (id : Id)
  | remove (i : Nat)
  /-- `xSemaphoreTakeRecursive` -/
  | take (i : Nat)
  | find (i : Nat) (allocated : Bool)
  | sendRemoval (i : Nat)
  | give (i : Nat)
deriving Repr, DecidableEq

/-- A step that is not possible, or that has to wait, is `none`. -/
def step (s : State) : Action → Option State
  | .receive =>
    match s.loop, s.queue with
    | .receiving, post :: queue => some { s with loop := .waiting post, queue := queue }
    | _, _ => none
  | .lock =>
    match s.loop, s.mutex with
    | .waiting post, none =>
      some { s with loop := .running, mutex := some .loop, registry := cleanedUp post s.registry }
    | _, _ => none
  | .handlerPost base id =>
    if s.loop = .running then
      if id = anyId then some s else some (s.trySend (.event base id))
    else none
  | .handlerUnregister target base id allocated =>
    if s.loop = .running then
      if base = none ∧ id ≠ anyId then some s
      else
        -- `xSemaphoreTake` fails for the task that has the mutex
        match findAndUnregister target base.base id s.registry with
        | .returns _ => some s
        | .marks registry =>
          if allocated then some (State.trySend { s with registry := registry } (.cleanup target base.base id))
          else some { s with registry := registry }
    else none
  | .unlock => if s.loop = .running then some { s with loop := .receiving, mutex := none } else none
  | .post i base id limited =>
    match s.tasks[i]? with
    | some .idle => if id = anyId then some s else some (s.put i (.sending (.event base id) limited))
    | _ => none
  | .send i =>
    match s.tasks[i]? with
    | some (.sending post _) =>
      if s.queue.length < s.capacity then some (State.put { s with queue := s.queue ++ [post] } i .idle) else none
    | _ => none
  | .timeout i =>
    match s.tasks[i]? with
    | some (.sending _ true) => some (s.put i .idle)
    | _ => none
  | .unregister i target base id =>
    match s.tasks[i]? with
    | some .idle =>
      if base = none ∧ id ≠ anyId then some s
      else if s.mutex = none then some (State.put { s with mutex := some (.task i) } i (.direct target base.base id))
      else some (s.put i (.blocked target base.base id))
    | _ => none
  | .remove i =>
    match s.tasks[i]? with
    | some (.direct target base id) =>
      let r := removed target base id s.registry
      some (State.put { s with registry := r.2 } i (.releasing (.err r.1)))
    | _ => none
  | .take i =>
    match s.tasks[i]?, s.mutex with
    | some (.blocked target base id), none =>
      some (State.put { s with mutex := some (.task i) } i (.finding target base id))
    | _, _ => none
  | .find i allocated =>
    match s.tasks[i]? with
    | some (.finding target base id) =>
      match findAndUnregister target base id s.registry with
      | .returns err => some (s.put i (.releasing (.err err)))
      | .marks registry =>
        let p := if allocated then Phase.removing (.cleanup target base id) else .releasing .noMem
        some (State.put { s with registry := registry } i p)
    | _ => none
  | .sendRemoval i =>
    match s.tasks[i]? with
    | some (.removing post) =>
      if s.queue.length < s.capacity then
        some (State.put { s with queue := s.queue ++ [post] } i (.releasing (.err .ok)))
      else none
    | _ => none
  | .give i =>
    match s.tasks[i]? with
    | some (.releasing _) => some (State.put { s with mutex := none } i .idle)
    | _ => none

/-! ## What is asked -/

/-- The task of the loop waits for the mutex of a task that posts a removal. -/
def State.HeldUp (s : State) : Prop :=
  ∃ post i removal, s.loop = .waiting post ∧ s.mutex = some (.task i) ∧ s.tasks[i]? = some (.removing removal)

/-- And that task waits for room, which only the loop makes. -/
def State.Deadlocked (s : State) : Prop := s.HeldUp ∧ s.capacity ≤ s.queue.length

/-- While the task of the loop waits for the mutex, no handler is marked when the queue is full, and no event takes the
last place from a removal. -/
def Meets (s : State) : Action → Prop
  | .find i allocated => ∀ target base id registry post, s.tasks[i]? = some (.finding target base id) →
      findAndUnregister target base id s.registry = .marks registry → allocated = true → s.loop = .waiting post →
      s.queue.length < s.capacity
  | .send _ => s.HeldUp → s.queue.length + 1 < s.capacity
  | _ => True

/-! ## The invariant -/

/-- The phases in which a task has the mutex. -/
def Phase.owns : Phase → Bool
  | .idle => false
  | .sending .. => false
  | .direct .. => true
  | .blocked .. => false
  | .finding .. => true
  | .removing _ => true
  | .releasing _ => true

structure Inv (s : State) : Prop where
  room : s.queue.length ≤ s.capacity
  task : ∀ i p, s.tasks[i]? = some p → p.owns = true → s.mutex = some (.task i)
  loop : s.loop = .running → s.mutex = some .loop

theorem inv_init (capacity tasks : Nat) (registry : Loop) : Inv (.init capacity tasks registry) where
  room := Nat.zero_le _
  task i p hp howns := by
    obtain rfl := List.eq_of_mem_replicate (List.mem_of_getElem? hp)
    cases howns
  loop := nofun

@[simp] theorem put_loop (s : State) (i : Nat) (p : Phase) : (s.put i p).loop = s.loop := rfl
@[simp] theorem put_mutex (s : State) (i : Nat) (p : Phase) : (s.put i p).mutex = s.mutex := rfl
@[simp] theorem put_queue (s : State) (i : Nat) (p : Phase) : (s.put i p).queue = s.queue := rfl
@[simp] theorem put_capacity (s : State) (i : Nat) (p : Phase) : (s.put i p).capacity = s.capacity := rfl

section moves
variable {s s' : State} {i j : Nat} {p q : Phase}

theorem put_get (hp : s.tasks[i]? = some p) : (s.put i q).tasks[i]? = some q :=
  List.getElem?_set_self (List.getElem?_eq_some_iff.mp hp).1

theorem put_get_ne (hne : i ≠ j) : (s.put i q).tasks[j]? = s.tasks[j]? := List.getElem?_set_ne hne

@[simp] theorem trySend_loop (post : Post) : (s.trySend post).loop = s.loop := by
  unfold State.trySend
  split <;> rfl

/-- The lists of handlers are not looked at. -/
theorem Inv.registry (h : Inv s) (registry : Loop) : Inv { s with registry := registry } := ⟨h.room, h.task, h.loop⟩

theorem Inv.queue (h : Inv s) {queue : List Post} (hroom : queue.length ≤ s.capacity) :
    Inv { s with queue := queue } := ⟨hroom, h.task, h.loop⟩

/-- An event that finds room. -/
theorem length_send (hroom : s.queue.length < s.capacity) (post : Post) :
    (s.queue ++ [post]).length ≤ s.capacity := by
  rw [List.length_append]
  exact hroom

theorem Inv.send (h : Inv s) (hroom : s.queue.length < s.capacity) (post : Post) :
    Inv { s with queue := s.queue ++ [post] } := h.queue (length_send hroom post)

theorem Inv.trySend (h : Inv s) (post : Post) : Inv (s.trySend post) := by
  unfold State.trySend
  split
  next hroom => exact h.send hroom post
  next => exact h

/-- A task moves on; it takes the mutex when nobody has it, or gives back what it has. -/
theorem Inv.moves (h : Inv s) (hp : s.tasks[i]? = some p) {mutex : Option Owner}
    (hmutex : mutex = s.mutex ∨ s.mutex = none ∨ s.mutex = some (.task i))
    (howns : q.owns = true → mutex = some (.task i)) : Inv (State.put { s with mutex := mutex } i q) where
  room := h.room
  task j r hr hown := by
    by_cases hne : i = j
    · subst hne
      obtain rfl := Option.some.inj ((put_get hp).symm.trans hr)
      exact howns hown
    · have hold : s.mutex = some (.task j) := h.task j r ((put_get_ne hne).symm.trans hr) hown
      rcases hmutex with hsame | hnone | hown
      · exact hsame.trans hold
      · exact absurd (hnone.symm.trans hold) (by simp)
      · exact absurd (hown.symm.trans hold) (by simp [hne])
  loop hrunning := by
    have hold : s.mutex = some .loop := h.loop hrunning
    rcases hmutex with hsame | hnone | hown
    · exact hsame.trans hold
    · exact absurd (hnone.symm.trans hold) (by simp)
    · exact absurd (hown.symm.trans hold) (by simp)

/-- A task moves on with the mutex, or without it. -/
theorem Inv.put (h : Inv s) (hp : s.tasks[i]? = some p) (howns : q.owns = true → p.owns = true) : Inv (s.put i q) :=
  h.moves hp (.inl rfl) fun hq => h.task i p hp (howns hq)

end moves

section steps
variable {s s' : State} {a : Action}

theorem inv_step (h : Inv s) (hstep : step s a = some s') : Inv s' := by
  cases a with
  | receive =>
    simp only [step] at hstep
    split at hstep
    next post queue hloop hqueue =>
      obtain rfl := Option.some.inj hstep
      have hroom := h.room
      rw [hqueue] at hroom
      exact ⟨Nat.le_of_succ_le hroom, h.task, nofun⟩
    next => cases hstep
  | lock =>
    simp only [step] at hstep
    split at hstep
    next post hloop hmutex =>
      obtain rfl := Option.some.inj hstep
      exact ⟨h.room, fun i p hp hown => absurd (hmutex.symm.trans (h.task i p hp hown)) (by simp), fun _ => rfl⟩
    next => cases hstep
  | handlerPost base id =>
    simp only [step] at hstep
    split_ifs at hstep
    · exact Option.some.inj hstep ▸ h
    · exact Option.some.inj hstep ▸ h.trySend _
  | handlerUnregister target base id allocated =>
    simp only [step] at hstep
    split at hstep
    next =>
      split at hstep
      · exact Option.some.inj hstep ▸ h
      · split at hstep
        next => exact Option.some.inj hstep ▸ h
        next registry _ =>
          split_ifs at hstep
          · exact Option.some.inj hstep ▸ (h.registry registry).trySend _
          · exact Option.some.inj hstep ▸ h.registry registry
    next => cases hstep
  | unlock =>
    simp only [step] at hstep
    split_ifs at hstep with hrunning
    obtain rfl := Option.some.inj hstep
    have hmutex := h.loop hrunning
    exact ⟨h.room, fun i p hp hown => absurd (hmutex.symm.trans (h.task i p hp hown)) (by simp), nofun⟩
  | post i base id limited =>
    simp only [step] at hstep
    split at hstep
    next hp =>
      split_ifs at hstep
      · exact Option.some.inj hstep ▸ h
      · exact Option.some.inj hstep ▸ h.put hp nofun
    next => cases hstep
  | send i =>
    simp only [step] at hstep
    split at hstep
    next post _ hp =>
      split_ifs at hstep with hroom
      exact Option.some.inj hstep ▸ (h.send hroom post).put hp nofun
    next => cases hstep
  | timeout i =>
    simp only [step] at hstep
    split at hstep
    next hp => exact Option.some.inj hstep ▸ h.put hp nofun
    next => cases hstep
  | unregister i target base id =>
    simp only [step] at hstep
    split at hstep
    next hp =>
      split_ifs at hstep with _ hmutex
      · exact Option.some.inj hstep ▸ h
      · exact Option.some.inj hstep ▸ h.moves hp (.inr (.inl hmutex)) fun _ => rfl
      · exact Option.some.inj hstep ▸ h.put hp nofun
    next => cases hstep
  | remove i =>
    simp only [step] at hstep
    split at hstep
    next hp => exact Option.some.inj hstep ▸ (h.registry _).put hp fun _ => rfl
    next => cases hstep
  | take i =>
    simp only [step] at hstep
    split at hstep
    next hp hmutex => exact Option.some.inj hstep ▸ h.moves hp (.inr (.inl hmutex)) fun _ => rfl
    next => cases hstep
  | find i allocated =>
    simp only [step] at hstep
    split at hstep
    next hp =>
      split at hstep
      next => exact Option.some.inj hstep ▸ h.put hp fun _ => rfl
      next registry _ => exact Option.some.inj hstep ▸ (h.registry registry).put hp fun _ => rfl
    next => cases hstep
  | sendRemoval i =>
    simp only [step] at hstep
    split at hstep
    next post hp =>
      split_ifs at hstep with hroom
      exact Option.some.inj hstep ▸ (h.send hroom post).put hp fun _ => rfl
    next => cases hstep
  | give i =>
    simp only [step] at hstep
    split at hstep
    next hp => exact Option.some.inj hstep ▸ h.moves hp (.inr (.inr (h.task i _ hp rfl))) nofun
    next => cases hstep

end steps

/-! ## Deadlocks -/

section deadlocks
variable {s s' : State} {a : Action} {i : Nat} {p q : Phase}

theorem not_heldUp (hloop : ∀ post, s.loop ≠ .waiting post) : ¬s.HeldUp := fun ⟨post, _, _, hwaiting, _⟩ =>
  hloop post hwaiting

/-- Who holds the loop up is not the task that moves on to anything else. -/
theorem holder_of_put (hq : ∀ post, q ≠ .removing post) (hp : s.tasks[i]? = some p) (h : (s.put i q).HeldUp) :
    ∃ post j removal, i ≠ j ∧ s.loop = .waiting post ∧ s.mutex = some (.task j) ∧ s.tasks[j]? = some (.removing removal) := by
  obtain ⟨post, j, removal, hwaiting, hmutex, hj⟩ := h
  have hne : i ≠ j := by
    rintro rfl
    exact hq removal (Option.some.inj ((put_get hp).symm.trans hj))
  exact ⟨post, j, removal, hne, hwaiting, hmutex, (put_get_ne hne).symm.trans hj⟩

theorem heldUp_of_put (hq : ∀ post, q ≠ .removing post) (hp : s.tasks[i]? = some p) (h : (s.put i q).HeldUp) : s.HeldUp := by
  obtain ⟨post, j, removal, _, hheld⟩ := holder_of_put hq hp h
  exact ⟨post, j, removal, hheld⟩

theorem heldUp_put (hp : s.tasks[i]? = some p) (hne : ∀ post, p ≠ .removing post) (h : s.HeldUp) : (s.put i q).HeldUp := by
  obtain ⟨post, j, removal, hwaiting, hmutex, hj⟩ := h
  have hij : i ≠ j := by
    rintro rfl
    exact hne removal (Option.some.inj (hp.symm.trans hj))
  exact ⟨post, j, removal, hwaiting, hmutex, (put_get_ne hij).trans hj⟩

theorem running_step (hrunning : s'.loop = .running) : ¬s'.Deadlocked :=
  fun hdead => not_heldUp (fun post hwaiting => absurd (hrunning.symm.trans hwaiting) (by simp)) hdead.1

/-- A handler leaves the mutex with the task of the loop. -/
theorem handler_step {target : Target} {base : BaseArg} {id : Id} {allocated : Bool}
    (hstep : step s (.handlerUnregister target base id allocated) = some s') : s'.loop = .running := by
  simp only [step] at hstep
  split at hstep
  next hrunning =>
    split at hstep
    · exact Option.some.inj hstep ▸ hrunning
    · split at hstep
      next => exact Option.some.inj hstep ▸ hrunning
      next registry _ =>
        split_ifs at hstep
        · exact Option.some.inj hstep ▸ (trySend_loop _).trans hrunning
        · exact Option.some.inj hstep ▸ hrunning
  next => cases hstep

/-- A task that gets no mutex and posts no removal leads to no deadlock, as long as it leaves the queue alone. -/
theorem put_safe (hsafe : ¬s.Deadlocked) (hp : s.tasks[i]? = some p) (hq : ∀ post, q ≠ .removing post) :
    ¬(s.put i q).Deadlocked := fun hdead => hsafe ⟨heldUp_of_put hq hp hdead.1, hdead.2⟩

/-- The task that takes the mutex has a handler to look for first. -/
theorem taken_safe (hp : s.tasks[i]? = some p) (hq : ∀ post, q ≠ .removing post) :
    ¬(State.put { s with mutex := some (.task i) } i q).Deadlocked := by
  rintro ⟨hheld, -⟩
  obtain ⟨_, j, _, hne, _, hmutex, _⟩ := holder_of_put (s := { s with mutex := some (.task i) }) hq hp hheld
  exact hne (by simpa using hmutex)

theorem send_safe_iff {post : Post} {limited : Bool} (hp : s.tasks[i]? = some (.sending post limited)) :
    ¬(State.put { s with queue := s.queue ++ [post] } i .idle).Deadlocked ↔ Meets s (.send i) := by
  have hlength : (s.queue ++ [post]).length = s.queue.length + 1 := by simp
  constructor
  · intro h hheld
    refine Nat.lt_of_not_le fun hfull => h ⟨?_, by rwa [← hlength] at hfull⟩
    exact heldUp_put (s := { s with queue := s.queue ++ [post] }) hp (by simp) hheld
  · rintro h ⟨hheld, hfull⟩
    have hold : s.HeldUp := heldUp_of_put (s := { s with queue := s.queue ++ [post] }) (by simp) hp hheld
    have hfull' : s.capacity ≤ s.queue.length + 1 := hlength ▸ hfull
    exact absurd (h hold) (Nat.not_lt.mpr hfull')

theorem find_safe_iff (h : Inv s) (hsafe : ¬s.Deadlocked) {target : Target} {base : Base} {id : Id} {allocated : Bool}
    {registry : Loop} (hp : s.tasks[i]? = some (.finding target base id))
    (hfind : findAndUnregister target base id s.registry = .marks registry) :
    ¬(State.put { s with registry := registry } i
        (if allocated then .removing (.cleanup target base id) else .releasing .noMem)).Deadlocked ↔
      Meets s (.find i allocated) := by
  cases allocated with
  | false =>
    refine iff_of_true (put_safe (s := { s with registry := registry }) hsafe hp nofun) ?_
    intro _ _ _ _ _ _ _ hallocated
    cases hallocated
  | true =>
    constructor
    · intro hsafe' target' base' id' registry' post hp' hfind' _ hwaiting
      refine Nat.lt_of_not_le fun hfull => hsafe' ⟨⟨post, i, .cleanup target base id, hwaiting, h.task i _ hp rfl, ?_⟩, hfull⟩
      exact put_get (s := { s with registry := registry }) hp
    · rintro hmeets ⟨⟨post, j, removal, hwaiting, hmutex, hj⟩, hfull⟩
      by_cases hne : i = j
      · exact absurd (hmeets _ _ _ _ post hp hfind rfl hwaiting) (Nat.not_lt.mpr hfull)
      · refine hsafe ⟨⟨post, j, removal, hwaiting, hmutex, ?_⟩, hfull⟩
        exact (put_get_ne (s := { s with registry := registry }) hne).symm.trans hj

end deadlocks

/-- From a state that is not one, a step leads to a deadlock exactly when it does not meet the condition. -/
theorem step_safe_iff {s s' : State} {a : Action} (h : Inv s) (hsafe : ¬s.Deadlocked) (hstep : step s a = some s') :
    ¬s'.Deadlocked ↔ Meets s a := by
  cases a with
  | receive =>
    refine iff_of_true ?_ trivial
    simp only [step] at hstep
    split at hstep
    next post queue hloop hqueue =>
      obtain rfl := Option.some.inj hstep
      -- the place of the event is free
      have hroom := h.room
      rw [hqueue] at hroom
      exact fun hdead => Nat.not_succ_le_self _ (Nat.le_trans hroom hdead.2)
    next => cases hstep
  | lock =>
    refine iff_of_true ?_ trivial
    simp only [step] at hstep
    split at hstep
    next => exact Option.some.inj hstep ▸ running_step rfl
    next => cases hstep
  | handlerPost base id =>
    refine iff_of_true ?_ trivial
    simp only [step] at hstep
    split_ifs at hstep with hrunning
    · exact Option.some.inj hstep ▸ hsafe
    · exact Option.some.inj hstep ▸ running_step ((trySend_loop _).trans hrunning)
  | handlerUnregister target base id allocated => exact iff_of_true (running_step (handler_step hstep)) trivial
  | unlock =>
    refine iff_of_true ?_ trivial
    simp only [step] at hstep
    split_ifs at hstep
    obtain rfl := Option.some.inj hstep
    exact fun hdead => not_heldUp (fun _ hwaiting => by cases hwaiting) hdead.1
  | post i base id limited =>
    refine iff_of_true ?_ trivial
    simp only [step] at hstep
    split at hstep
    next hp =>
      split_ifs at hstep
      · exact Option.some.inj hstep ▸ hsafe
      · exact Option.some.inj hstep ▸ put_safe hsafe hp nofun
    next => cases hstep
  | send i =>
    simp only [step] at hstep
    split at hstep
    next post limited hp =>
      split_ifs at hstep
      exact Option.some.inj hstep ▸ send_safe_iff hp
    next => cases hstep
  | timeout i =>
    refine iff_of_true ?_ trivial
    simp only [step] at hstep
    split at hstep
    next hp => exact Option.some.inj hstep ▸ put_safe hsafe hp nofun
    next => cases hstep
  | unregister i target base id =>
    refine iff_of_true ?_ trivial
    simp only [step] at hstep
    split at hstep
    next hp =>
      split_ifs at hstep
      · exact Option.some.inj hstep ▸ hsafe
      · exact Option.some.inj hstep ▸ taken_safe hp nofun
      · exact Option.some.inj hstep ▸ put_safe hsafe hp nofun
    next => cases hstep
  | remove i =>
    refine iff_of_true ?_ trivial
    simp only [step] at hstep
    split at hstep
    next target base id hp =>
      exact Option.some.inj hstep ▸
        put_safe (s := { s with registry := (removed target base id s.registry).2 }) hsafe hp nofun
    next => cases hstep
  | take i =>
    refine iff_of_true ?_ trivial
    simp only [step] at hstep
    split at hstep
    next hp _ => exact Option.some.inj hstep ▸ taken_safe hp nofun
    next => cases hstep
  | find i allocated =>
    simp only [step] at hstep
    split at hstep
    next target base id hp =>
      split at hstep
      next err hfind =>
        refine iff_of_true (Option.some.inj hstep ▸ put_safe hsafe hp nofun) ?_
        intro target' base' id' registry post hp' hmarks
        obtain ⟨rfl, rfl, rfl⟩ : target = target' ∧ base = base' ∧ id = id' := by simpa using hp.symm.trans hp'
        exact absurd (hfind.symm.trans hmarks) (by simp)
      next registry hfind => exact Option.some.inj hstep ▸ find_safe_iff h hsafe hp hfind
    next => cases hstep
  | sendRemoval i =>
    refine iff_of_true ?_ trivial
    simp only [step] at hstep
    split at hstep
    next post hp =>
      split_ifs at hstep
      obtain rfl := Option.some.inj hstep
      rintro ⟨hheld, -⟩
      -- no other task has the mutex
      obtain ⟨_, j, _, hne, _, hmutex, _⟩ := holder_of_put (s := { s with queue := s.queue ++ [post] }) (by simp) hp hheld
      exact hne (by simpa using (h.task i _ hp rfl).symm.trans hmutex)
    next => cases hstep
  | give i =>
    refine iff_of_true ?_ trivial
    simp only [step] at hstep
    split at hstep
    next =>
      obtain rfl := Option.some.inj hstep
      rintro ⟨⟨_, _, _, _, hmutex, _⟩, -⟩
      cases hmutex
    next => cases hstep

/-- Who waits for room waits for good. -/
theorem deadlocked_step {s s' : State} {a : Action} (h : Inv s) (hdead : s.Deadlocked) (hstep : step s a = some s') :
    s'.Deadlocked := by
  obtain ⟨hheld, hfull⟩ := hdead
  obtain ⟨waiting, i, removal, hwaiting, hmutex, hi⟩ := id hheld
  have hloop : s.loop ≠ .running := by simp [hwaiting]
  have hroom : ¬s.queue.length < s.capacity := Nat.not_lt.mpr hfull
  cases a with
  | receive => simp [step, hwaiting] at hstep
  | lock => simp [step, hwaiting, hmutex] at hstep
  | handlerPost base id => simp [step, hloop] at hstep
  | handlerUnregister target base id allocated => simp [step, hloop] at hstep
  | unlock => simp [step, hloop] at hstep
  | post j base id limited =>
    simp only [step] at hstep
    split at hstep
    next hp =>
      split_ifs at hstep
      · exact Option.some.inj hstep ▸ ⟨hheld, hfull⟩
      · exact Option.some.inj hstep ▸ ⟨heldUp_put hp (by simp) hheld, hfull⟩
    next => cases hstep
  | send j =>
    simp only [step, hroom, if_false] at hstep
    split at hstep <;> cases hstep
  | timeout j =>
    simp only [step] at hstep
    split at hstep
    next hp => exact Option.some.inj hstep ▸ ⟨heldUp_put hp (by simp) hheld, hfull⟩
    next => cases hstep
  | unregister j target base id =>
    simp only [step] at hstep
    split at hstep
    next hp =>
      split_ifs at hstep with _ hfree
      · exact Option.some.inj hstep ▸ ⟨hheld, hfull⟩
      · exact absurd (hmutex.symm.trans hfree) (by simp)
      · exact Option.some.inj hstep ▸ ⟨heldUp_put hp (by simp) hheld, hfull⟩
    next => cases hstep
  | remove j =>
    simp only [step] at hstep
    split at hstep
    next target base id hp =>
      obtain rfl := Option.some.inj hstep
      exact ⟨heldUp_put (s := { s with registry := (removed target base id s.registry).2 }) hp (by simp) hheld, hfull⟩
    next => cases hstep
  | take j =>
    simp only [step] at hstep
    split at hstep
    next hfree => exact absurd (hmutex.symm.trans hfree) (by simp)
    next => cases hstep
  | find j allocated =>
    simp only [step] at hstep
    split at hstep
    next target base id hp =>
      split at hstep
      next => exact Option.some.inj hstep ▸ ⟨heldUp_put hp (by simp) hheld, hfull⟩
      next registry _ =>
        exact Option.some.inj hstep ▸ ⟨heldUp_put (s := { s with registry := registry }) hp (by simp) hheld, hfull⟩
    next => cases hstep
  | sendRemoval j =>
    simp only [step, hroom, if_false] at hstep
    split at hstep <;> cases hstep
  | give j =>
    simp only [step] at hstep
    split at hstep
    next hp =>
      -- who gives the mutex back has it, and posts nothing
      obtain rfl : i = j := by simpa using hmutex.symm.trans (h.task j _ hp rfl)
      exact absurd (hi.symm.trans hp) (by simp)
    next => cases hstep

/-- In a deadlock the loop handles no event any more. -/
theorem deadlock_lasts {s s' : State} {actions : List Action} (h : Inv s) (hdead : s.Deadlocked)
    (hrun : run step s actions = some s') : s'.Deadlocked := by
  have hboth : Inv s' ∧ s'.Deadlocked :=
    @run_invariant _ _ step s s' (fun s => Inv s ∧ s.Deadlocked)
      (fun hboth hstep => ⟨inv_step hboth.1 hstep, deadlocked_step hboth.1 hboth.2 hstep⟩) actions ⟨h, hdead⟩ hrun
  exact hboth.2

theorem not_deadlocked_init (capacity tasks : Nat) (registry : Loop) : ¬(State.init capacity tasks registry).Deadlocked :=
  fun hdead => not_heldUp (fun _ hwaiting => by cases hwaiting) hdead.1

/-- For every queue, every number of tasks and all handlers that are registered. -/
theorem never_deadlocked_iff (capacity tasks : Nat) (registry : Loop) (actions : List Action) :
    (∀ before s, before <+: actions → run step (.init capacity tasks registry) before = some s → ¬s.Deadlocked) ↔
      ∀ before a s s', before ++ [a] <+: actions → run step (.init capacity tasks registry) before = some s →
        step s a = some s' → Meets s a :=
  safe_iff inv_step step_safe_iff (inv_init capacity tasks registry) (not_deadlocked_init capacity tasks registry) actions

/-- One place, taken by an event that comes in between. -/
theorem unregistered_into_deadlock :
    ∃ s, run step (.init 1 2 [⟨[⟨0, 7, 0, false⟩], []⟩])
      [.post 1 0 5 false, .send 1, .receive, .lock, .unregister 0 (.context 0) none anyId, .post 1 0 5 false, .send 1,
        .unlock, .take 0, .receive, .post 1 0 5 false, .send 1, .find 0 true] = some s ∧ s.Deadlocked :=
  ⟨_, rfl, ⟨.event 0 5, 0, .cleanup (.context 0) .any anyId, rfl, rfl, rfl⟩, Nat.le_refl 1⟩

end EspIdf.EspEvent.Tasks
