import Mathlib.Data.List.Basic

/-!
# `esp_event.c`: the registrations of a loop

* `Node`, `IdNode`, `BaseNode`, `LoopNode` : the three levels of lists;
* `registerWithInternal` : a registration goes to the last node it can go to, or opens a new one;
* `loopRemoveHandler` : it is removed from the first node that has it, with the nodes this empties;
* `dispatch` : the handlers an event runs, in their order.

Allocations succeed. A pointer is the number that names it; what is in a handler context is kept in
the node of the handler.
-/

namespace EspIdf.EspEvent

/-! ## Lists -/

/-- The last element with a property, what stands before it and what stands after it. -/
def splitLast {α : Type} (p : α → Bool) : List α → Option (List α × α × List α)
  | [] => none
  | x :: xs =>
    match splitLast p xs with
    | some (pre, y, post) => some (x :: pre, y, post)
    | none => if p x then some ([], x, xs) else none

theorem splitLast_some {α : Type} {p : α → Bool} {list pre post : List α} {x : α}
    (h : splitLast p list = some (pre, x, post)) :
    list = pre ++ x :: post ∧ p x = true ∧ ∀ y ∈ post, p y = false := by
  have hnone : ∀ xs : List α, splitLast p xs = none → ∀ y ∈ xs, p y = false := by
    intro xs
    induction xs with
    | nil => nofun
    | cons x xs ih =>
      unfold splitLast
      intro h
      split at h
      · cases h
      · rename_i hrest
        split at h
        · cases h
        · rename_i hx
          intro y hy
          rcases List.mem_cons.mp hy with rfl | hy
          · exact Bool.eq_false_iff.mpr hx
          · exact ih hrest y hy
  induction list generalizing pre with
  | nil => cases h
  | cons z list ih =>
    unfold splitLast at h
    split at h
    · rename_i pre' y post' hrest
      cases h
      obtain ⟨rfl, hx, hpost⟩ := ih hrest
      exact ⟨rfl, hx, hpost⟩
    · rename_i hrest
      split at h
      · rename_i hz
        cases h
        exact ⟨rfl, hz, hnone _ hrest⟩
      · cases h

theorem splitLast_none {α : Type} {p : α → Bool} {list : List α} (h : splitLast p list = none) :
    ∀ y ∈ list, p y = false := by
  induction list with
  | nil => nofun
  | cons x xs ih =>
    unfold splitLast at h
    split at h
    · cases h
    · rename_i hrest
      split at h
      · cases h
      · rename_i hx
        intro y hy
        rcases List.mem_cons.mp hy with rfl | hy
        · exact Bool.eq_false_iff.mpr hx
        · exact ih hrest y hy

/-- The first node from which something can be removed; a node that this empties goes too. -/
def removeIn {α : Type} (remove : α → Option α) (empty : α → Bool) : List α → Option (List α)
  | [] => none
  | x :: xs =>
    match remove x with
    | some x' => some (if empty x' then xs else x' :: xs)
    | none => (removeIn remove empty xs).map (x :: ·)

theorem removeIn_some {α : Type} {remove : α → Option α} {empty : α → Bool} {list list' : List α}
    (h : removeIn remove empty list = some list') :
    ∃ pre x x' post, list = pre ++ x :: post ∧ remove x = some x' ∧ (∀ y ∈ pre, remove y = none) ∧
      list' = pre ++ if empty x' then post else x' :: post := by
  induction list generalizing list' with
  | nil => cases h
  | cons x list ih =>
    unfold removeIn at h
    split at h
    · rename_i x' hx
      cases h
      exact ⟨[], x, x', list, rfl, hx, nofun, rfl⟩
    · rename_i hx
      obtain ⟨rest, hrest, rfl⟩ := Option.map_eq_some_iff.mp h
      obtain ⟨pre, y, y', post, rfl, hy, hpre, rfl⟩ := ih hrest
      refine ⟨x :: pre, y, y', post, rfl, hy, fun z hz => ?_, rfl⟩
      rcases List.mem_cons.mp hz with rfl | hz
      · exact hx
      · exact hpre z hz

theorem removeIn_none {α : Type} {remove : α → Option α} {empty : α → Bool} {list : List α} :
    removeIn remove empty list = none ↔ ∀ x ∈ list, remove x = none := by
  induction list with
  | nil => exact ⟨fun _ => nofun, fun _ => rfl⟩
  | cons x list ih =>
    unfold removeIn
    rw [List.forall_mem_cons, ← ih]
    cases hx : remove x with
    | some x' => simp
    | none => simp

/-! ## Nodes -/

/-- `esp_event_base_t`: the two the loop has for itself, and those of the users. -/
inductive Base
  /-- `esp_event_any_base` -/
  | any
  /-- `esp_event_handler_cleanup` -/
  | cleanup
  | user (base : Nat)
deriving Repr, DecidableEq

/-- What a caller gives for a base: `none` is `ESP_EVENT_ANY_BASE`. -/
abbrev BaseArg := Option Nat

def BaseArg.base : BaseArg → Base
  | none => .any
  | some base => .user base

abbrev Id := Int

/-- `ESP_EVENT_ANY_ID` -/
def anyId : Id := -1

/-- The address of a handler context. -/
abbrev Ctx := Nat

/-- `esp_event_handler_node_t` with its context -/
structure Node where
  ctx : Ctx
  handler : Nat
  arg : Nat
  unregistered : Bool
deriving Repr, DecidableEq

structure IdNode where
  id : Id
  handlers : List Node
deriving Repr, DecidableEq

structure BaseNode where
  base : Base
  handlers : List Node
  idNodes : List IdNode
deriving Repr, DecidableEq

structure LoopNode where
  handlers : List Node
  baseNodes : List BaseNode
deriving Repr, DecidableEq

/-- `loop_nodes` -/
abbrev Loop := List LoopNode

inductive Err
  | ok
  | invalidArg
  | notFound
  | timeout
deriving Repr, DecidableEq

/-! ## Registering -/

section add
variable (legacy : Bool) (new : Node)

/-- `handler_instances_add` -/
def handlerInstancesAdd : List Node → List Node
  | [] => [new]
  | it :: rest =>
    if legacy = true ∧ new.handler = it.handler then { it with arg := new.arg } :: rest
    else it :: handlerInstancesAdd rest

/-- `base_node_add_handler` -/
def baseNodeAddHandler (id : Id) (baseNode : BaseNode) : BaseNode :=
  if id = anyId then { baseNode with handlers := handlerInstancesAdd legacy new baseNode.handlers }
  else
    match splitLast (fun it => it.id = id) baseNode.idNodes with
    | some (pre, idNode, post) =>
      { baseNode with
        idNodes := pre ++ { idNode with handlers := handlerInstancesAdd legacy new idNode.handlers } :: post }
    | none => { baseNode with idNodes := baseNode.idNodes ++ [⟨id, handlerInstancesAdd legacy new []⟩] }

/-- `loop_node_add_handler` -/
def loopNodeAddHandler (base : Base) (id : Id) (loopNode : LoopNode) : LoopNode :=
  if base = .any ∧ id = anyId then { loopNode with handlers := handlerInstancesAdd legacy new loopNode.handlers }
  else
    match splitLast (fun _ => true) loopNode.baseNodes, splitLast (fun it => it.base = base) loopNode.baseNodes with
    | some (_, lastBaseNode, _), some (pre, baseNode, post) =>
      if (baseNode.idNodes ≠ [] ∧ id = anyId) ∨ (lastBaseNode.base ≠ base ∧ lastBaseNode.idNodes ≠ [] ∧ id = anyId) then
        { loopNode with baseNodes := loopNode.baseNodes ++ [baseNodeAddHandler legacy new id ⟨base, [], []⟩] }
      else { loopNode with baseNodes := pre ++ baseNodeAddHandler legacy new id baseNode :: post }
    | _, _ => { loopNode with baseNodes := loopNode.baseNodes ++ [baseNodeAddHandler legacy new id ⟨base, [], []⟩] }

/-- `esp_event_handler_register_with_internal`, with the node for the handler at hand. -/
def registerWithInternal (base : BaseArg) (id : Id) (loop : Loop) : Err × Loop :=
  if base = none ∧ id ≠ anyId then (.invalidArg, loop)
  else
    match splitLast (fun _ => true) loop with
    | none => (.ok, [loopNodeAddHandler legacy new base.base id ⟨[], []⟩])
    | some (pre, lastLoopNode, post) =>
      if lastLoopNode.baseNodes ≠ [] ∧ base.base = .any ∧ id = anyId then
        (.ok, loop ++ [loopNodeAddHandler legacy new base.base id ⟨[], []⟩])
      else (.ok, pre ++ loopNodeAddHandler legacy new base.base id lastLoopNode :: post)

end add

/-! ## Removing -/

/-- What is to be removed: a legacy caller names the function, the others the context. -/
inductive Target
  | context (ctx : Ctx)
  | function (handler : Nat)
deriving Repr, DecidableEq

def isTarget : Target → Node → Bool
  | .context ctx, it => it.ctx = ctx
  | .function handler, it => it.handler = handler

section remove
variable (target : Target)

/-- `handler_instances_remove` -/
def handlerInstancesRemove : List Node → Option (List Node)
  | [] => none
  | it :: rest =>
    if isTarget target it then some rest else (handlerInstancesRemove rest).map (it :: ·)

def idNodeRemoveHandler (id : Id) (idNode : IdNode) : Option IdNode :=
  if idNode.id = id then
    (handlerInstancesRemove target idNode.handlers).map fun handlers => { idNode with handlers := handlers }
  else none

/-- `base_node_remove_handler` -/
def baseNodeRemoveHandler (id : Id) (baseNode : BaseNode) : Option BaseNode :=
  if id = anyId then
    (handlerInstancesRemove target baseNode.handlers).map fun handlers => { baseNode with handlers := handlers }
  else
    (removeIn (idNodeRemoveHandler target id) (fun it => it.handlers.isEmpty) baseNode.idNodes).map
      fun idNodes => { baseNode with idNodes := idNodes }

/-- `loop_node_remove_handler` -/
def loopNodeRemoveHandler (base : Base) (id : Id) (loopNode : LoopNode) : Option LoopNode :=
  if base = .any ∧ id = anyId then
    (handlerInstancesRemove target loopNode.handlers).map fun handlers => { loopNode with handlers := handlers }
  else
    (removeIn (fun it => if it.base = base then baseNodeRemoveHandler target id it else none)
      (fun it => it.handlers.isEmpty && it.idNodes.isEmpty) loopNode.baseNodes).map
      fun baseNodes => { loopNode with baseNodes := baseNodes }

/-- `loop_remove_handler` -/
def loopRemoveHandler (base : Base) (id : Id) (loop : Loop) : Option Loop :=
  removeIn (loopNodeRemoveHandler target base id) (fun it => it.baseNodes.isEmpty && it.handlers.isEmpty) loop

end remove

/-! ## Dispatching -/

/-- An event as the queue holds it. -/
structure Event where
  base : Base
  id : Id
deriving Repr, DecidableEq

/-- The handlers of a list that are run. -/
def runs (handlers : List Node) : List Node := handlers.filter fun it => !it.unregistered

/-- The walk of `esp_event_loop_run` over the lists, when no handler changes them: the handlers run. -/
def dispatch (post : Event) (loop : Loop) : List Node :=
  loop.flatMap fun loopNode => runs loopNode.handlers ++ loopNode.baseNodes.flatMap fun baseNode =>
    if baseNode.base = post.base then
      runs baseNode.handlers ++
        match baseNode.idNodes.find? (fun it => it.id = post.id) with
        | some idNode => runs idNode.handlers
        | none => []
    else []

/-! ## The registrations of a forest -/

/-- A registration: what it is for, and its node. -/
structure Reg where
  base : Base
  id : Id
  node : Node
deriving Repr, DecidableEq

def Reg.matches (r : Reg) (post : Event) : Bool :=
  (r.base = .any || r.base = post.base) && (r.id = anyId || r.id = post.id)

def IdNode.regs (base : Base) (idNode : IdNode) : List Reg := idNode.handlers.map fun node => ⟨base, idNode.id, node⟩

def BaseNode.regs (baseNode : BaseNode) : List Reg :=
  baseNode.handlers.map (fun node => ⟨baseNode.base, anyId, node⟩) ++ baseNode.idNodes.flatMap (IdNode.regs baseNode.base)

def LoopNode.regs (loopNode : LoopNode) : List Reg :=
  loopNode.handlers.map (fun node => ⟨.any, anyId, node⟩) ++ loopNode.baseNodes.flatMap BaseNode.regs

/-- All registrations, in the order in which the lists have them. -/
def regs (loop : Loop) : List Reg := loop.flatMap LoopNode.regs

/-- The ids below a base are named once, and the wildcards are not among the names. -/
structure BaseNode.Ok (baseNode : BaseNode) : Prop where
  base : baseNode.base ≠ .any
  ids : baseNode.idNodes.Pairwise fun x y => x.id ≠ y.id
  specific : ∀ idNode ∈ baseNode.idNodes, idNode.id ≠ anyId

def LoopNode.Ok (loopNode : LoopNode) : Prop := ∀ baseNode ∈ loopNode.baseNodes, baseNode.Ok

def Ok (loop : Loop) : Prop := ∀ loopNode ∈ loop, loopNode.Ok

end EspIdf.EspEvent
