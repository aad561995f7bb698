import EspIdf.EspEvent.Walk

/-!
# An event loop whose handlers register and unregister handlers

* `findHandler`, `findAndUnregister` : what is marked when the loop cannot be changed;
* `State`, `step` : calls from handlers and from elsewhere, and the turns of the task that runs the loop;
* `Contract` : the registrations are a set, and its elements are what events run;
* `Clean`, `contract_step`, `legacy_iff` : where they are.

One task runs the loop. Allocations succeed and the queue has always room.
-/

namespace EspIdf.EspEvent.Legacy

/-! ## `find_and_unregister_handler` -/

section find
variable (base : Base) (id : Id) (handler : Nat)

def nodeOf (handlers : List Node) : Option Nat := handlers.findIdx? fun it => it.handler = handler

def findInIds (i k : Nat) : (m : Nat) → Option (Place × Nat) → List IdNode → Option (Place × Nat)
  | _, found, [] => found
  | m, found, idNode :: rest =>
    let found :=
      if idNode.id = id then ((nodeOf handler idNode.handlers).map fun j => (.id i k m, j)).or found else found
    findInIds i k (m + 1) found rest

/-- What is found for an id may give way to what the next node for the base has. -/
def findInBases (i : Nat) : (k : Nat) → Option (Place × Nat) → List BaseNode → Option (Place × Nat)
  | _, found, [] => found
  | k, found, baseNode :: rest =>
    if baseNode.base = base then
      let found := ((nodeOf handler baseNode.handlers).map fun j => (.base i k, j)).or found
      if found.isSome then found
      else findInBases i (k + 1) (findInIds id handler i k 0 found baseNode.idNodes) rest
    else findInBases i (k + 1) found rest

/-- The node whose function is looked for: the handlers of a loop node are asked for any base and id. -/
def findHandler : (i : Nat) → Option (Place × Nat) → Loop → Option (Place × Nat)
  | _, found, [] => found
  | i, found, loopNode :: rest =>
    let found := ((nodeOf handler loopNode.handlers).map fun j => (.loop i, j)).or found
    if found.isSome then found else findHandler (i + 1) (findInBases base id handler i 0 found loopNode.baseNodes) rest

end find

/-! ## The loop -/

/-- `esp_event_post_instance_t`: an event of a user, or the internal one with its `esp_event_remove_handler_context_t`. -/
inductive Post
  | event (base : Nat) (id : Id)
  | cleanup (base : Base) (id : Id) (handler : Nat)
deriving Repr, DecidableEq

def Post.seen : Post → Event
  | .event base id => ⟨.user base, id⟩
  | .cleanup .. => ⟨.cleanup, 0⟩

/-- The turn of `esp_event_loop_run` for an event, and the handler that is running. -/
structure Walk where
  post : Post
  frames : List Frame
  running : Option Reg
deriving Repr, DecidableEq

structure State where
  loop : Loop
  queue : List Post
  walk : Option Walk
deriving Repr, DecidableEq

def State.empty : State := ⟨[], [], none⟩

/-- The task of the loop has its mutex and is in no handler. -/
def State.busy (s : State) : Bool :=
  match s.walk with
  | some w => w.running.isNone
  | none => false

inductive Op
  | register (base : BaseArg) (id : Id) (handler arg : Nat)
  /-- Outside of handlers the call may have `waited` for the mutex. -/
  | unregister (base : BaseArg) (id : Id) (handler : Nat) (waited : Bool)
  | postTo (base : BaseArg) (id : Id)
  /-- The loop takes an event from its queue. -/
  | take
  /-- A step of the walk. -/
  | next
deriving Repr, DecidableEq

inductive Output
  | err (err : Err)
  /-- The mutex is taken, or there is nothing to do. -/
  | blocked
  | took (post : Post)
  /-- `handler_execute` -/
  | ran (r : Reg)
  | moved
  | finished
deriving Repr, DecidableEq

def findAndUnregister (base : Base) (id : Id) (handler : Nat) (s : State) : Output × State :=
  match findHandler base id handler 0 none s.loop with
  | none => (.err .notFound, s)
  | some (place, j) =>
    match nodeAt s.loop place j with
    | none => (.err .notFound, s)
    | some r =>
      if r.node.unregistered then (.err .ok, s)
      else
        (.err .ok, { s with loop := modifyAt s.loop marked place j, queue := s.queue ++ [.cleanup base id handler] })

/-- `loop_remove_handler` for the internal event. -/
def cleanedUp (post : Post) (loop : Loop) : Loop :=
  match post with
  | .event .. => loop
  | .cleanup base id handler => (loopRemoveHandler (.function handler) base id loop).getD loop

def step (s : State) : Op → Output × State
  | .register base id handler arg =>
    if base = none ∧ id ≠ anyId then (.err .invalidArg, s)
    else if s.busy then (.blocked, s)
    else
      -- nobody asks for the context of a legacy handler
      let r := registerWithInternal true ⟨0, handler, arg, false⟩ base id s.loop
      (.err r.1, { s with loop := r.2 })
  | .unregister base id handler waited =>
    if base = none ∧ id ≠ anyId then (.err .invalidArg, s)
    else if s.busy then (.blocked, s)
    else if s.walk = none ∧ waited = false then
      match loopRemoveHandler (.function handler) base.base id s.loop with
      | some loop => (.err .ok, { s with loop := loop })
      | none => (.err .notFound, s)
    else findAndUnregister base.base id handler s
  | .postTo base id =>
    match base with
    | none => (.err .invalidArg, s)
    | some b => if id = anyId then (.err .invalidArg, s) else (.err .ok, { s with queue := s.queue ++ [.event b id] })
  | .take =>
    match s.walk, s.queue with
    | none, post :: queue => (.took post, ⟨cleanedUp post s.loop, queue, some ⟨post, [.loops (some 0)], none⟩⟩)
    | _, _ => (.blocked, s)
  | .next =>
    match s.walk with
    | none => (.blocked, s)
    | some w =>
      match w.frames with
      | [] => (.finished, { s with walk := none })
      | frame :: rest =>
        let v := visit s.loop w.post.seen frame
        (match v.1 with
          | some r => .ran r
          | none => .moved, { s with walk := some { w with frames := v.2 ++ rest, running := v.1 } })

/-! ## A set of registrations -/

/-- The set behind a call, from the set before it. -/
def Expected (s : State) (op : Op) (k : Key) : Prop :=
  match op, (step s op).1 with
  | .register base id handler _, .err .ok => k ∈ inForce s.loop ∨ k = ⟨base.base, id, handler⟩
  | .unregister base id handler _, .err .ok => k ∈ inForce s.loop ∧ k ≠ ⟨base.base, id, handler⟩
  | _, _ => k ∈ inForce s.loop

def Key.matches (k : Key) (post : Event) : Bool :=
  (k.base = .any || k.base = post.base) && (k.id = anyId || k.id = post.id)

/-- What an event has still to run: all that it matches, as long as it is in force. -/
def owedAfter (s : State) (owed : List Key) (op : Op) : List Key :=
  let s' := (step s op).2
  let owed :=
    match (step s op).1 with
    | .took (.event base id) => (inForce s'.loop).filter fun k => Key.matches k ⟨.user base, id⟩
    | .took (.cleanup ..) => []
    | .ran r => owed.filter fun k => k ≠ r.key
    | _ => owed
  owed.filter fun k => k ∈ inForce s'.loop

/-- A step leaves a set, the one that the caller was told of; a handler is run for an event of a user that it is
registered for; and no event leaves a handler out. -/
structure Contract (s : State) (owed : List Key) (op : Op) : Prop where
  distinct : (inForce (step s op).2.loop).Nodup
  keys : ∀ k, k ∈ inForce (step s op).2.loop ↔ Expected s op k
  ran : ∀ r, (step s op).1 = .ran r → r.key ∈ inForce s.loop ∧
    ∃ w base id, s.walk = some w ∧ w.post = .event base id ∧ r.matches ⟨.user base, id⟩ = true
  served : (step s op).1 = .finished → owed = []

/-- A function is met where it is registered, and only there; what is found is the registration that was meant; what
the loop takes out is a marked node; and the internal event meets no handler. -/
def Clean (s : State) : Op → Prop
  | .register base id handler _ => (base = none → id = anyId) → s.busy = false →
      (Met handler (openNodes base.base id s.loop) ↔ (⟨base.base, id, handler⟩ : Key) ∈ inForce s.loop)
  | .unregister base id handler waited => (base = none → id = anyId) → s.busy = false →
      if s.walk = none ∧ waited = false then
        ∀ r, (regs s.loop).find? (fun r => r.key = ⟨base.base, id, handler⟩) = some r → r.node.unregistered = true →
          (⟨base.base, id, handler⟩ : Key) ∉ inForce s.loop
      else
        ∀ place j r, findHandler base.base id handler 0 none s.loop = some (place, j) → nodeAt s.loop place j = some r →
          if r.node.unregistered then (⟨base.base, id, handler⟩ : Key) ∉ inForce s.loop
          else r.key = ⟨base.base, id, handler⟩
  | .postTo .. => True
  | .take => ∀ base id handler queue, s.walk = none → s.queue = .cleanup base id handler :: queue →
      ∀ r, (regs s.loop).find? (fun r => r.key = ⟨base, id, handler⟩) = some r → r.node.unregistered = true
  | .next => ∀ w place j rest r, s.walk = some w → w.frames = .handlers place (some j) :: rest →
      nodeAt s.loop place j = some r → r.node.unregistered = false → ∃ base id, w.post = .event base id

/-- Every step of a run. -/
def Along (p : State → List Key → Op → Prop) (s : State) (owed : List Key) : List Op → Prop
  | [] => True
  | op :: ops => p s owed op ∧ Along p (step s op).2 (owedAfter s owed op) ops

/-! ## Invariant -/

/-- The set is one, and what the event still owes is ahead of the walk. -/
structure Inv (s : State) (owed : List Key) : Prop where
  ok : Ok s.loop
  distinct : (inForce s.loop).Nodup
  fits : ∀ w, s.walk = some w → ∀ frame ∈ w.frames, Fits s.loop w.post.seen frame
  ahead : ∀ w, s.walk = some w → ∀ k ∈ owed, ∃ place j r, nodeAt s.loop place j = some r ∧
    r.node.unregistered = false ∧ r.key = k ∧ r.matches w.post.seen = true ∧ ∃ frame ∈ w.frames, frame.Covers place j

theorem inv_empty : Inv .empty [] where
  ok := nofun
  distinct := .nil
  fits := nofun
  ahead := nofun

theorem matches_congr {r r' : Reg} (h : r'.key = r.key) (post : Event) : r'.matches post = r.matches post := by
  have hbase : r'.base = r.base := congrArg Key.base h
  have hid : r'.id = r.id := congrArg Key.id h
  unfold Reg.matches
  rw [hbase, hid]

section inv
variable {s : State} {owed : List Key}

/-- A change of the lists on the way. -/
theorem Inv.moves (h : Inv s owed) {loop : Loop} (queue : List Post) (hmoves : Moves s.loop loop) (hok : Ok loop)
    (hdistinct : (inForce loop).Nodup) : Inv { s with loop := loop, queue := queue } (owed.filter fun k => k ∈ inForce loop) where
  ok := hok
  distinct := hdistinct
  fits w hw frame hframe := hmoves.fits (h.fits w hw frame hframe)
  ahead w hw k hk := by
    rw [List.mem_filter, decide_eq_true_eq] at hk
    obtain ⟨place, j, r, hnode, hlive, rfl, hmatches, hframe⟩ := h.ahead w hw k hk.1
    obtain ⟨r', hnode', hlive', hkey⟩ := hmoves.nodes place j r hnode hlive hk.2
    exact ⟨place, j, r', hnode', hlive', hkey, by rw [matches_congr hkey]; exact hmatches, hframe⟩

theorem Inv.same (h : Inv s owed) (queue : List Post) :
    Inv { s with queue := queue } (owed.filter fun k => k ∈ inForce s.loop) :=
  h.moves queue (.refl _) h.ok h.distinct

/-! ## Steps -/

section sets
variable {list list' : List Key} {key : Key}

theorem added_iff (hdistinct : list.Nodup) (hperm : list'.Perm (key :: list)) :
    (list'.Nodup ∧ ∀ k, k ∈ list' ↔ k ∈ list ∨ k = key) ↔ key ∉ list := by
  rw [hperm.nodup_iff, List.nodup_cons]
  refine ⟨fun h => h.1.1, fun h => ⟨⟨h, hdistinct⟩, fun k => ?_⟩⟩
  rw [hperm.mem_iff, List.mem_cons, or_comm]

theorem removed_iff {key' : Key} (hdistinct : list.Nodup) (hperm : list.Perm (key' :: list')) :
    (list'.Nodup ∧ ∀ k, k ∈ list' ↔ k ∈ list ∧ k ≠ key) ↔ key' = key := by
  have hnodup := List.nodup_cons.mp (hperm.nodup_iff.mp hdistinct)
  constructor
  · rintro ⟨-, hkeys⟩
    refine Decidable.not_not.mp fun hne => hnodup.1 ((hkeys key').mpr ⟨?_, hne⟩)
    exact hperm.mem_iff.mpr List.mem_cons_self
  · rintro rfl
    refine ⟨hnodup.2, fun k => ?_⟩
    rw [hperm.mem_iff, List.mem_cons]
    constructor
    · exact fun h => ⟨.inr h, fun heq => hnodup.1 (heq ▸ h)⟩
    · exact fun h => h.1.resolve_left h.2

theorem present_iff : (∀ k, k ∈ list ↔ k ∈ list ∨ k = key) ↔ key ∈ list :=
  ⟨fun h => (h key).mpr (.inr rfl), fun h _ => ⟨.inl, fun hk => hk.elim (fun hk => hk) fun heq => heq ▸ h⟩⟩

theorem absent_iff : (∀ k, k ∈ list ↔ k ∈ list ∧ k ≠ key) ↔ key ∉ list :=
  ⟨fun h hkey => ((h key).mp hkey).2 rfl, fun h _ => ⟨fun hk => ⟨hk, fun heq => h (heq ▸ hk)⟩, And.left⟩⟩

end sets

/-- Neither a handler nor the end of an event. -/
def Output.Quiet : Output → Prop
  | .ran _ => False
  | .finished => False
  | .took _ => False
  | _ => True

section quiet
variable {op : Op}

theorem contract_quiet (hquiet : (step s op).1.Quiet) :
    Contract s owed op ↔ (inForce (step s op).2.loop).Nodup ∧ ∀ k, k ∈ inForce (step s op).2.loop ↔ Expected s op k := by
  refine ⟨fun h => ⟨h.distinct, h.keys⟩, fun h => ⟨h.1, h.2, fun r hr => ?_, fun hend => ?_⟩⟩
  · rw [hr] at hquiet
    cases hquiet
  · rw [hend] at hquiet
    cases hquiet

theorem owedAfter_quiet (hquiet : (step s op).1.Quiet) :
    owedAfter s owed op = owed.filter fun k => k ∈ inForce (step s op).2.loop := by
  unfold owedAfter
  generalize (step s op).1 = output at hquiet
  cases output <;> first | rfl | cases hquiet

/-- A call that is refused. -/
theorem refused_step (h : Inv s owed) (output : Output) (hquiet : output.Quiet) (hok : output ≠ .err .ok)
    (hstep : step s op = (output, s)) : Contract s owed op ∧ Inv (step s op).2 (owedAfter s owed op) := by
  have hq : (step s op).1.Quiet := by
    rw [hstep]
    exact hquiet
  rw [contract_quiet hq, owedAfter_quiet hq]
  unfold Expected
  rw [hstep]
  refine ⟨⟨h.distinct, fun k => ?_⟩, h.same s.queue⟩
  split
  · rename_i heq
    exact absurd heq hok
  · rename_i heq
    exact absurd heq hok
  · exact Iff.rfl

end quiet

theorem register_step (h : Inv s owed) (base : BaseArg) (id : Id) (handler arg : Nat) :
    (Contract s owed (.register base id handler arg) ↔ Clean s (.register base id handler arg)) ∧
      (Contract s owed (.register base id handler arg) →
        Inv (step s (.register base id handler arg)).2 (owedAfter s owed (.register base id handler arg))) := by
  by_cases hargs : base = none ∧ id ≠ anyId
  · obtain ⟨hcontract, hinv⟩ := @refused_step s owed (.register base id handler arg) h (.err .invalidArg) trivial nofun
      (if_pos hargs)
    exact ⟨iff_of_true hcontract fun harg => absurd (harg hargs.1) hargs.2, fun _ => hinv⟩
  by_cases hbusy : s.busy = true
  · obtain ⟨hcontract, hinv⟩ := @refused_step s owed (.register base id handler arg) h .blocked trivial nofun (by
      simp only [step]
      rw [if_neg hargs, if_pos hbusy])
    exact ⟨iff_of_true hcontract fun _ hfree => absurd hbusy (by rw [hfree]; decide), fun _ => hinv⟩
  have harg : base = none → id = anyId := fun hbase => Decidable.not_not.mp fun hid => hargs ⟨hbase, hid⟩
  have hstep : step s (.register base id handler arg) =
      (.err (registerWithInternal true ⟨0, handler, arg, false⟩ base id s.loop).1,
        { s with loop := (registerWithInternal true ⟨0, handler, arg, false⟩ base id s.loop).2 }) := by
    simp only [step]
    rw [if_neg hargs, if_neg hbusy]
  have hmoves := register_moves true ⟨0, handler, arg, false⟩ base id s.loop
  have hquiet : (step s (.register base id handler arg)).1.Quiet := by
    rw [hstep]
    trivial
  rw [contract_quiet hquiet, owedAfter_quiet hquiet]
  have hclean : Clean s (.register base id handler arg) ↔
      (Met handler (openNodes base.base id s.loop) ↔ (⟨base.base, id, handler⟩ : Key) ∈ inForce s.loop) :=
    ⟨fun hc => hc harg (Bool.eq_false_iff.mpr hbusy), fun hc _ _ => hc⟩
  rw [hclean]
  unfold Expected
  rw [hstep]
  by_cases hmet : Met handler (openNodes base.base id s.loop)
  · obtain ⟨hcode, hsame, hok⟩ := @register_met ⟨0, handler, arg, false⟩ id s.loop base h.ok harg hmet
    rw [hcode]
    dsimp only
    refine ⟨?_, fun hc => h.moves s.queue hmoves hok hc.1⟩
    rw [hsame, present_iff]
    exact ⟨fun hc => iff_of_true hmet hc.2, fun hc => ⟨h.distinct, hc.mp hmet⟩⟩
  · obtain ⟨hcode, hperm, hok⟩ := @register_new ⟨0, handler, arg, false⟩ id s.loop base h.ok harg rfl hmet
    rw [hcode]
    dsimp only
    refine ⟨?_, fun hc => h.moves s.queue hmoves hok hc.1⟩
    rw [added_iff h.distinct hperm]
    exact ⟨fun hc => iff_of_false hmet hc, fun hc hkey => hmet (hc.mpr hkey)⟩

/-! ## Finding -/

theorem drop_cons {α : Type} {list rest : List α} {n : Nat} {x : α} (h : list.drop n = x :: rest) :
    list[n]? = some x ∧ list.drop (n + 1) = rest := by
  have hget := congrArg (fun l => l[0]?) h
  have htail := congrArg List.tail h
  rw [List.tail_drop] at htail
  simp only [List.getElem?_drop, Nat.add_zero, List.getElem?_cons_zero] at hget
  exact ⟨hget, htail⟩

/-- What is found is a node of the loop. -/
def Valid (loop : Loop) (handler : Nat) (found : Option (Place × Nat)) : Prop :=
  ∀ place j, found = some (place, j) → ∃ r, nodeAt loop place j = some r ∧ r.node.handler = handler

theorem nodeOf_valid (handler : Nat) {loop : Loop} {place : Place} {base : Base} {id : Id} {handlers : List Node}
    (hlist : handlersAt loop place = some (base, id, handlers)) {found : Option (Place × Nat)}
    (hfound : Valid loop handler found) :
    Valid loop handler (((nodeOf handler handlers).map fun j => (place, j)).or found) := by
  intro place' j heq
  cases hnode : nodeOf handler handlers with
  | none =>
    rw [hnode] at heq
    exact hfound place' j heq
  | some i =>
    rw [hnode] at heq
    cases heq
    obtain ⟨hlt, hi, -⟩ := List.findIdx?_eq_some_iff_getElem.mp hnode
    refine ⟨⟨base, id, handlers[j]⟩, nodeAt_some.mpr ⟨handlers, hlist, List.getElem?_eq_getElem hlt⟩, ?_⟩
    exact of_decide_eq_true hi

section find
variable {loop : Loop} {base : Base} {id : Id} {handler : Nat}

theorem findInIds_valid {i k m : Nat} {loopNode : LoopNode} {baseNode : BaseNode} {found : Option (Place × Nat)}
    (hloopNode : loop[i]? = some loopNode) (hbaseNode : loopNode.baseNodes[k]? = some baseNode) {idNodes : List IdNode}
    (hdrop : baseNode.idNodes.drop m = idNodes) (hfound : Valid loop handler found) :
    Valid loop handler (findInIds id handler i k m found idNodes) := by
  induction idNodes generalizing m found with
  | nil => exact hfound
  | cons idNode rest ih =>
    obtain ⟨hidNode, hrest⟩ := drop_cons hdrop
    unfold findInIds
    refine ih hrest ?_
    split
    · exact nodeOf_valid handler (handlersAt_id hloopNode hbaseNode hidNode) hfound
    · exact hfound

theorem findInBases_valid {i k : Nat} {loopNode : LoopNode} {found : Option (Place × Nat)}
    (hloopNode : loop[i]? = some loopNode) {baseNodes : List BaseNode} (hdrop : loopNode.baseNodes.drop k = baseNodes)
    (hfound : Valid loop handler found) : Valid loop handler (findInBases base id handler i k found baseNodes) := by
  induction baseNodes generalizing k found with
  | nil => exact hfound
  | cons baseNode rest ih =>
    obtain ⟨hbaseNode, hrest⟩ := drop_cons hdrop
    unfold findInBases
    split
    · have hhere := nodeOf_valid handler (handlersAt_base hloopNode hbaseNode) hfound
      dsimp only
      split
      · exact hhere
      · exact ih hrest (findInIds_valid hloopNode hbaseNode rfl hhere)
    · exact ih hrest hfound

theorem findHandler_valid {i : Nat} {found : Option (Place × Nat)} {loopNodes : List LoopNode}
    (hdrop : loop.drop i = loopNodes) (hfound : Valid loop handler found) :
    Valid loop handler (findHandler base id handler i found loopNodes) := by
  induction loopNodes generalizing i found with
  | nil => exact hfound
  | cons loopNode rest ih =>
    obtain ⟨hloopNode, hrest⟩ := drop_cons hdrop
    unfold findHandler
    have hhere := nodeOf_valid handler (handlersAt_loop hloopNode) hfound
    dsimp only
    split
    · exact hhere
    · exact ih hrest (findInBases_valid hloopNode rfl hhere)

end find

/-- Between events there is no walk that could miss something. -/
theorem inv_idle (hwalk : s.walk = none) (hok : Ok s.loop) (hdistinct : (inForce s.loop).Nodup) : Inv s owed where
  ok := hok
  distinct := hdistinct
  fits _ hw := nomatch hwalk.symm.trans hw
  ahead _ hw := nomatch hwalk.symm.trans hw

theorem unregister_direct (h : Inv s owed) {base : BaseArg} {id : Id} {handler : Nat} {waited : Bool}
    (harg : ¬(base = none ∧ id ≠ anyId)) (hfree : ¬s.busy = true) (hdirect : s.walk = none ∧ waited = false) :
    (Contract s owed (.unregister base id handler waited) ↔ Clean s (.unregister base id handler waited)) ∧
      (Contract s owed (.unregister base id handler waited) →
        Inv (step s (.unregister base id handler waited)).2 (owedAfter s owed (.unregister base id handler waited))) := by
  have hclean : Clean s (.unregister base id handler waited) ↔
      ∀ r, (regs s.loop).find? (fun r => r.key = ⟨base.base, id, handler⟩) = some r → r.node.unregistered = true →
        (⟨base.base, id, handler⟩ : Key) ∉ inForce s.loop := by
    simp only [Clean]
    rw [if_pos hdirect]
    exact ⟨fun hc => hc (fun hbase => Decidable.not_not.mp fun hid => harg ⟨hbase, hid⟩) (Bool.eq_false_iff.mpr hfree),
      fun hc _ _ => hc⟩
  rw [hclean]
  cases hremove : loopRemoveHandler (.function handler) base.base id s.loop with
  | none =>
    obtain ⟨hcontract, hinv⟩ := @refused_step s owed (.unregister base id handler waited) h (.err .notFound) trivial nofun (by
      simp only [step]
      rw [if_neg harg, if_neg hfree, if_pos hdirect, hremove])
    refine ⟨iff_of_true hcontract fun r hr => ?_, fun _ => hinv⟩
    rw [remove_missing h.ok hremove] at hr
    cases hr
  | some loop =>
    have hstep : step s (.unregister base id handler waited) = (.err .ok, { s with loop := loop }) := by
      simp only [step]
      rw [if_neg harg, if_neg hfree, if_pos hdirect, hremove]
    obtain ⟨r, hfirst, hok, hset⟩ := remove_inForce h.ok hremove
    have hquiet : (step s (.unregister base id handler waited)).1.Quiet := by
      rw [hstep]
      trivial
    rw [contract_quiet hquiet, owedAfter_quiet hquiet]
    unfold Expected
    rw [hstep]
    refine ⟨?_, fun hc => inv_idle hdirect.1 hok hc.1⟩
    dsimp only
    rw [hfirst]
    cases hmark : r.node.unregistered with
    | true =>
      rw [hmark, if_pos rfl] at hset
      rw [hset, absent_iff]
      refine ⟨fun hc r' hr' _ => hc.2, fun hc => ⟨h.distinct, hc r rfl hmark⟩⟩
    | false =>
      rw [hmark, if_neg (by decide)] at hset
      rw [removed_iff h.distinct hset]
      refine iff_of_true rfl fun r' hr' hmarked => ?_
      cases hr'
      rw [hmark] at hmarked
      cases hmarked

theorem unregister_found (h : Inv s owed) {base : BaseArg} {id : Id} {handler : Nat} {waited : Bool}
    (harg : ¬(base = none ∧ id ≠ anyId)) (hfree : ¬s.busy = true) (hlate : ¬(s.walk = none ∧ waited = false)) :
    (Contract s owed (.unregister base id handler waited) ↔ Clean s (.unregister base id handler waited)) ∧
      (Contract s owed (.unregister base id handler waited) →
        Inv (step s (.unregister base id handler waited)).2 (owedAfter s owed (.unregister base id handler waited))) := by
  have hclean : Clean s (.unregister base id handler waited) ↔
      ∀ place j r, findHandler base.base id handler 0 none s.loop = some (place, j) → nodeAt s.loop place j = some r →
        if r.node.unregistered then (⟨base.base, id, handler⟩ : Key) ∉ inForce s.loop
        else r.key = ⟨base.base, id, handler⟩ := by
    simp only [Clean]
    rw [if_neg hlate]
    exact ⟨fun hc => hc (fun hbase => Decidable.not_not.mp fun hid => harg ⟨hbase, hid⟩) (Bool.eq_false_iff.mpr hfree),
      fun hc _ _ => hc⟩
  rw [hclean]
  have hcall : step s (.unregister base id handler waited) = findAndUnregister base.base id handler s := by
    simp only [step]
    rw [if_neg harg, if_neg hfree, if_neg hlate]
  unfold findAndUnregister at hcall
  cases hfind : findHandler base.base id handler 0 none s.loop with
  | none =>
    rw [hfind] at hcall
    obtain ⟨hcontract, hinv⟩ := @refused_step s owed (.unregister base id handler waited) h (.err .notFound) trivial nofun
      hcall
    exact ⟨iff_of_true hcontract nofun, fun _ => hinv⟩
  | some found =>
    obtain ⟨place, j⟩ := found
    obtain ⟨r, hnode, -⟩ := @findHandler_valid s.loop base.base id handler 0 none _ rfl
      (fun _ _ hnone => nomatch hnone) place j hfind
    rw [hfind] at hcall
    dsimp only at hcall
    rw [hnode] at hcall
    dsimp only at hcall
    have hquiet : (step s (.unregister base id handler waited)).1.Quiet := by
      rw [hcall]
      split <;> trivial
    rw [contract_quiet hquiet, owedAfter_quiet hquiet]
    unfold Expected
    rw [hcall]
    cases hmark : r.node.unregistered with
    | true =>
      rw [if_pos rfl]
      dsimp only
      refine ⟨?_, fun hc => h.same s.queue⟩
      rw [absent_iff]
      constructor
      · intro hc place' j' r' hfound hr'
        cases hfound
        rw [hnode] at hr'
        cases hr'
        rw [hmark, if_pos rfl]
        exact hc.2
      · intro hc
        have hthis := hc place j r rfl hnode
        rw [hmark, if_pos rfl] at hthis
        exact ⟨h.distinct, hthis⟩
    | false =>
      rw [if_neg (by decide)]
      dsimp only
      refine ⟨?_, fun hc => h.moves _ (mark_moves h.distinct hnode hmark) (modifyAt_ok hnode h.ok) hc.1⟩
      rw [removed_iff h.distinct (mark_inForce hnode hmark)]
      constructor
      · intro hc place' j' r' hfound hr'
        cases hfound
        rw [hnode] at hr'
        cases hr'
        rw [hmark, if_neg (by decide)]
        exact hc
      · intro hc
        have hthis := hc place j r rfl hnode
        rw [hmark, if_neg (by decide)] at hthis
        exact hthis

theorem postTo_step (h : Inv s owed) (base : BaseArg) (id : Id) :
    Contract s owed (.postTo base id) ∧ Inv (step s (.postTo base id)).2 (owedAfter s owed (.postTo base id)) := by
  cases base with
  | none => exact @refused_step s owed (.postTo none id) h (.err .invalidArg) trivial nofun rfl
  | some b =>
    by_cases hid : id = anyId
    · exact @refused_step s owed (.postTo (some b) id) h (.err .invalidArg) trivial nofun (if_pos hid)
    · have hstep : step s (.postTo (some b) id) = (.err .ok, { s with queue := s.queue ++ [.event b id] }) := if_neg hid
      have hquiet : (step s (.postTo (some b) id)).1.Quiet := by
        rw [hstep]
        trivial
      rw [contract_quiet hquiet, owedAfter_quiet hquiet]
      unfold Expected
      rw [hstep]
      exact ⟨⟨h.distinct, fun _ => Iff.rfl⟩, h.same _⟩

theorem covers_start (place : Place) (j : Nat) : (Frame.loops (some 0)).Covers place j := by
  cases place with
  | loop i => exact .loop (Nat.zero_le _) j
  | base i k => exact .loopBase (Nat.zero_le _) k j
  | id i k m => exact .loopId (Nat.zero_le _) k m j

/-- An event that is taken has all of the lists ahead. -/
theorem inv_start (post : Post) {loop : Loop} (queue : List Post) (hok : Ok loop) (hdistinct : (inForce loop).Nodup)
    (howed : ∀ k ∈ owed, k ∈ inForce loop ∧ Key.matches k post.seen = true) :
    Inv ⟨loop, queue, some ⟨post, [.loops (some 0)], none⟩⟩ owed where
  ok := hok
  distinct := hdistinct
  fits w hw frame hframe := by
    cases hw
    rw [List.mem_singleton.mp hframe]
    trivial
  ahead w hw k hk := by
    cases hw
    obtain ⟨hforce, hmatches⟩ := howed k hk
    obtain ⟨r, hr, hlive, rfl⟩ := mem_keysOf.mp hforce
    obtain ⟨place, j, hnode⟩ := mem_regs_iff.mp hr
    exact ⟨place, j, r, hnode, hlive, rfl, hmatches, _, List.mem_cons_self, covers_start place j⟩

theorem contract_took {post : Post} {s' : State} (hstep : step s .take = (.took post, s')) :
    Contract s owed .take ↔ (inForce s'.loop).Nodup ∧ ∀ k, k ∈ inForce s'.loop ↔ k ∈ inForce s.loop := by
  constructor
  · intro h
    have hdistinct := h.distinct
    have hkeys := h.keys
    unfold Expected at hkeys
    rw [hstep] at hdistinct hkeys
    exact ⟨hdistinct, hkeys⟩
  · rintro ⟨hdistinct, hkeys⟩
    refine ⟨by rw [hstep]; exact hdistinct, fun k => ?_, fun r hr => ?_, fun hend => ?_⟩
    · unfold Expected
      rw [hstep]
      exact hkeys k
    · rw [hstep] at hr
      cases hr
    · rw [hstep] at hend
      cases hend

theorem take_step (h : Inv s owed) : (Contract s owed .take ↔ Clean s .take) ∧
    (Contract s owed .take → Inv (step s .take).2 (owedAfter s owed .take)) := by
  obtain ⟨loop, queue, walk⟩ := s
  cases walk with
  | some w =>
    obtain ⟨hcontract, hinv⟩ := @refused_step _ owed .take h .blocked trivial nofun rfl
    exact ⟨iff_of_true hcontract fun _ _ _ _ hw => (nomatch hw), fun _ => hinv⟩
  | none =>
    cases queue with
    | nil =>
      obtain ⟨hcontract, hinv⟩ := @refused_step _ owed .take h .blocked trivial nofun rfl
      exact ⟨iff_of_true hcontract fun _ _ _ _ _ hq => (nomatch hq), fun _ => hinv⟩
    | cons post queue =>
      have hstep : step ⟨loop, post :: queue, none⟩ .take =
          (.took post, ⟨cleanedUp post loop, queue, some ⟨post, [.loops (some 0)], none⟩⟩) := rfl
      rw [contract_took hstep]
      unfold owedAfter
      rw [hstep]
      dsimp only
      cases post with
      | event base id =>
        refine ⟨iff_of_true ⟨h.distinct, fun _ => Iff.rfl⟩ fun _ _ _ _ _ hq => (nomatch hq), fun _ => ?_⟩
        refine inv_start _ queue h.ok h.distinct fun k hk => ?_
        simp only [List.mem_filter, decide_eq_true_eq] at hk
        exact ⟨hk.2, hk.1.2⟩
      | cleanup base id handler =>
        have hnext : ∀ {loop' : Loop}, cleanedUp (.cleanup base id handler) loop = loop' → Ok loop' →
            (inForce loop').Nodup → Inv ⟨cleanedUp (.cleanup base id handler) loop, queue,
              some ⟨.cleanup base id handler, [.loops (some 0)], none⟩⟩
              (([] : List Key).filter fun k => k ∈ inForce (cleanedUp (.cleanup base id handler) loop)) := by
          rintro _ rfl hok hdistinct
          exact inv_start _ queue hok hdistinct nofun
        cases hremove : loopRemoveHandler (.function handler) base id loop with
        | none =>
          have hloop : cleanedUp (.cleanup base id handler) loop = loop := by
            simp only [cleanedUp, hremove, Option.getD_none]
          refine ⟨?_, fun hc => hnext hloop h.ok h.distinct⟩
          rw [hloop]
          refine iff_of_true ⟨h.distinct, fun _ => Iff.rfl⟩ fun base' id' handler' queue' _ hq r hr => ?_
          cases hq
          rw [remove_missing h.ok hremove] at hr
          cases hr
        | some loop' =>
          have hloop : cleanedUp (.cleanup base id handler) loop = loop' := by
            simp only [cleanedUp, hremove, Option.getD_some]
          obtain ⟨r, hfirst, hok, hset⟩ := remove_inForce h.ok hremove
          refine ⟨?_, fun hc => hnext hloop hok (by rw [← hloop]; exact hc.1)⟩
          rw [hloop]
          have hclean : Clean ⟨loop, .cleanup base id handler :: queue, none⟩ .take ↔ r.node.unregistered = true := by
            refine ⟨fun hc => hc base id handler queue rfl rfl r hfirst, fun hmark base' id' handler' queue' _ hq r' hr' => ?_⟩
            cases hq
            rw [hfirst] at hr'
            cases hr'
            exact hmark
          rw [hclean]
          cases hmark : r.node.unregistered with
          | true =>
            rw [hmark, if_pos rfl] at hset
            rw [hset]
            exact iff_of_true ⟨h.distinct, fun _ => Iff.rfl⟩ rfl
          | false =>
            rw [hmark, if_neg (by decide)] at hset
            refine iff_of_false (fun hc => ?_) (by decide)
            have hnodup := List.nodup_cons.mp (hset.nodup_iff.mp h.distinct)
            exact hnodup.1 ((hc.2 _).mpr (hset.mem_iff.mpr List.mem_cons_self))

theorem next_step (h : Inv s owed) : (Contract s owed .next ↔ Clean s .next) ∧
    (Contract s owed .next → Inv (step s .next).2 (owedAfter s owed .next)) := by
  obtain ⟨loop, queue, walk⟩ := s
  cases walk with
  | none =>
    obtain ⟨hcontract, hinv⟩ := @refused_step _ owed .next h .blocked trivial nofun rfl
    exact ⟨iff_of_true hcontract fun _ _ _ _ _ hw => (nomatch hw), fun _ => hinv⟩
  | some w =>
    obtain ⟨post, frames, running⟩ := w
    cases frames with
    | nil =>
      have hserved : owed = [] := by
        refine List.eq_nil_iff_forall_not_mem.mpr fun k hk => ?_
        obtain ⟨place, j, r, -, -, -, -, frame, hframe, -⟩ := h.ahead _ rfl k hk
        cases hframe
      refine ⟨iff_of_true ⟨h.distinct, fun _ => Iff.rfl, nofun, fun _ => hserved⟩ ?_, fun _ => inv_idle rfl h.ok h.distinct⟩
      rintro w place j rest r hw hframes
      cases hw
      cases hframes
    | cons frame rest =>
      have hforce : ∀ {place j r}, nodeAt loop place j = some r → r.node.unregistered = false → r.key ∈ inForce loop :=
        fun hnode hlive => mem_keysOf.mpr ⟨_, nodeAt_mem hnode, hlive, rfl⟩
      refine ⟨⟨fun hc => ?_, fun hc => ⟨h.distinct, fun k => ?_, fun r hr => ?_, fun hend => ?_⟩⟩, fun _ => ?_⟩
      · rintro w place j rest' r hw hframes hnode hlive
        cases hw
        cases hframes
        have hran : (step ⟨loop, queue, some ⟨post, .handlers place (some j) :: rest, running⟩⟩ .next).1 = .ran r := by
          simp only [step]
          rw [visit_ran.mpr ⟨place, j, rfl, hnode, hlive⟩]
        obtain ⟨-, w, base, id, hw, hpost, -⟩ := hc.ran r hran
        cases hw
        exact ⟨base, id, hpost⟩
      · simp only [Expected, step]
      · simp only [step] at hr
        split at hr
        · rename_i r' hran
          cases hr
          obtain ⟨place, j, rfl, hnode, hlive⟩ := visit_ran.mp hran
          obtain ⟨base, id, rfl⟩ := hc _ place j rest r rfl rfl hnode hlive
          exact ⟨hforce hnode hlive, _, base, id, rfl, rfl, (h.fits _ rfl _ List.mem_cons_self).matches hnode⟩
        · cases hr
      · simp only [step] at hend
        split at hend <;> cases hend
      · refine ⟨h.ok, h.distinct, fun w hw frame' hframe' => ?_, fun w hw k hk => ?_⟩
        · simp only [step] at hw
          cases hw
          rcases List.mem_append.mp hframe' with hframe' | hframe'
          · exact visit_fits (h.fits _ rfl _ List.mem_cons_self) frame' hframe'
          · exact h.fits _ rfl frame' (List.mem_cons_of_mem _ hframe')
        · simp only [step] at hw
          cases hw
          have hold : k ∈ owed ∧ ∀ r, (visit loop post.seen frame).1 = some r → k ≠ r.key := by
            simp only [owedAfter, step] at hk
            cases hran : (visit loop post.seen frame).1 with
            | none =>
              rw [hran] at hk
              exact ⟨(List.mem_filter.mp hk).1, nofun⟩
            | some r =>
              rw [hran] at hk
              obtain ⟨hk, -⟩ := List.mem_filter.mp hk
              obtain ⟨hk, hne⟩ := List.mem_filter.mp hk
              refine ⟨hk, fun r' hr' => ?_⟩
              cases hr'
              exact of_decide_eq_true hne
          obtain ⟨place, j, r, hnode, hlive, rfl, hmatches, frame', hframe', hcovers⟩ := h.ahead _ rfl k hold.1
          refine ⟨place, j, r, hnode, hlive, rfl, hmatches, ?_⟩
          rcases List.mem_cons.mp hframe' with rfl | hframe'
          · rcases visit_covers h.ok hnode hlive hmatches hcovers with hran | ⟨next, hnext, hcovers'⟩
            · exact absurd rfl (hold.2 r hran)
            · exact ⟨next, List.mem_append_left _ hnext, hcovers'⟩
          · exact ⟨frame', List.mem_append_right _ hframe', hcovers⟩

theorem contract_step (h : Inv s owed) (op : Op) : (Contract s owed op ↔ Clean s op) ∧
    (Contract s owed op → Inv (step s op).2 (owedAfter s owed op)) := by
  cases op with
  | register base id handler arg => exact register_step h base id handler arg
  | unregister base id handler waited =>
    by_cases hargs : base = none ∧ id ≠ anyId
    · obtain ⟨hcontract, hinv⟩ := @refused_step s owed (.unregister base id handler waited) h (.err .invalidArg) trivial
        nofun (if_pos hargs)
      exact ⟨iff_of_true hcontract fun harg => absurd (harg hargs.1) hargs.2, fun _ => hinv⟩
    by_cases hbusy : s.busy = true
    · obtain ⟨hcontract, hinv⟩ := @refused_step s owed (.unregister base id handler waited) h .blocked trivial nofun (by
        simp only [step]
        rw [if_neg hargs, if_pos hbusy])
      exact ⟨iff_of_true hcontract fun _ hfree => absurd hbusy (by rw [hfree]; decide), fun _ => hinv⟩
    by_cases hdirect : s.walk = none ∧ waited = false
    · exact unregister_direct h hargs hbusy hdirect
    · exact unregister_found h hargs hbusy hdirect
  | postTo base id =>
    obtain ⟨hcontract, hinv⟩ := postTo_step h base id
    exact ⟨iff_of_true hcontract trivial, fun _ => hinv⟩
  | take => exact take_step h
  | next => exact next_step h

theorem along_iff (h : Inv s owed) (ops : List Op) :
    Along Contract s owed ops ↔ Along (fun s _ op => Clean s op) s owed ops := by
  induction ops generalizing s owed with
  | nil => exact Iff.rfl
  | cons op ops ih =>
    obtain ⟨hiff, hnext⟩ := contract_step h op
    unfold Along
    constructor
    · rintro ⟨hc, hrest⟩
      exact ⟨hiff.mp hc, (ih (hnext hc)).mp hrest⟩
    · rintro ⟨hc, hrest⟩
      exact ⟨hiff.mpr hc, (ih (hnext (hiff.mpr hc))).mpr hrest⟩

end inv

/-- In every run from an empty loop the registrations are a set, as the callers were told, and events run what is in it,
just where the steps are clean. -/
theorem legacy_iff (ops : List Op) :
    Along Contract .empty [] ops ↔ Along (fun s _ op => Clean s op) .empty [] ops :=
  along_iff inv_empty ops

/-- The calls up to the handler of an event (0, 1) that is registered for nothing else, and first. -/
def intoHandler : List Op := [.postTo (some 0) 1, .take, .next, .next, .next, .next, .next, .next]

/-- A second registration for any event, behind another one. -/
def twice : List Op := [.register none anyId 7 0, .register (some 0) 1 8 0, .register none anyId 7 0]

/-- A handler for (0, 1) unregisters itself, and loses its registration for any event. -/
def another : List Op :=
  .register (some 0) 1 7 0 :: .register none anyId 7 0 :: intoHandler ++ [.unregister (some 0) 1 7 false]

/-- A handler unregisters itself and registers itself again. -/
def again : List Op :=
  .register (some 0) 1 7 0 :: intoHandler ++ [.unregister (some 0) 1 7 false, .register (some 0) 1 7 0]

/-- A handler for any event is run for the internal one. -/
def internal : List Op :=
  [.register none anyId 7 0, .register (some 0) 1 8 0, .unregister (some 0) 1 8 true, .take, .next, .next]

theorem four_defects : ¬Along Contract .empty [] twice ∧ ¬Along Contract .empty [] another ∧
    ¬Along Contract .empty [] again ∧ ¬Along Contract .empty [] internal := by
  refine ⟨fun h => ?_, fun h => ?_, fun h => ?_, fun h => ?_⟩
  · obtain ⟨-, -, hc, -⟩ := h
    exact absurd hc.distinct (by decide)
  · obtain ⟨-, -, -, -, -, -, -, -, -, -, hc, -⟩ := h
    -- the registration for any event is not there any more
    have hkey := (hc.keys ⟨.any, anyId, 7⟩).mpr ⟨by decide, by decide⟩
    exact absurd hkey (by decide)
  · obtain ⟨-, -, -, -, -, -, -, -, -, -, hc, -⟩ := h
    have hkey := (hc.keys ⟨.user 0, 1, 7⟩).mpr (.inr rfl)
    exact absurd hkey (by decide)
  · obtain ⟨-, -, -, -, -, hc, -⟩ := h
    obtain ⟨-, w, base, id, hw, hpost, -⟩ := hc.ran ⟨.any, anyId, 0, 7, 0, false⟩ (by decide)
    cases hw
    cases hpost

end EspIdf.EspEvent.Legacy
