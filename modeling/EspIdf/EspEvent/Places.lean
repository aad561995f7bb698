import EspIdf.EspEvent.Edits

/-!
# Places in the lists of a loop

* `Place`, `handlersAt`, `nodeAt` : a list of handlers, and a node in one;
* `modifyAt`, `modifyAt_regs`, `modifyAt_nodeAt` : changing a node where it is;
* `mem_regs_iff` : the nodes at all places are the registrations;
* `Keeps`, `register_keeps` : what is registered does not move the nodes there are.
-/

namespace EspIdf.EspEvent

/-- Where a list of handlers is: of a loop node, of a base node below it, of an id node below that. -/
inductive Place
  | loop (i : Nat)
  | base (i k : Nat)
  | id (i k m : Nat)
deriving Repr, DecidableEq

section places
variable (loop : Loop)

/-- The list of handlers at a place, with the base and the id it is for. -/
def handlersAt : Place → Option (Base × Id × List Node)
  | .loop i => loop[i]?.map fun loopNode => (.any, anyId, loopNode.handlers)
  | .base i k => (loop[i]?.bind fun loopNode => loopNode.baseNodes[k]?).map fun baseNode =>
      (baseNode.base, anyId, baseNode.handlers)
  | .id i k m => (loop[i]?.bind fun loopNode => loopNode.baseNodes[k]?).bind fun baseNode =>
      baseNode.idNodes[m]?.map fun idNode => (baseNode.base, idNode.id, idNode.handlers)

def nodeAt (place : Place) (j : Nat) : Option Reg :=
  (handlersAt loop place).bind fun list => list.2.2[j]?.map fun node => ⟨list.1, list.2.1, node⟩

/-- The node at a place, changed. -/
def modifyAt (change : Node → Node) (place : Place) (j : Nat) : Loop :=
  match place with
  | .loop i => loop.modify i fun loopNode => { loopNode with handlers := loopNode.handlers.modify j change }
  | .base i k => loop.modify i fun loopNode =>
      { loopNode with baseNodes := loopNode.baseNodes.modify k fun baseNode =>
          { baseNode with handlers := baseNode.handlers.modify j change } }
  | .id i k m => loop.modify i fun loopNode =>
      { loopNode with baseNodes := loopNode.baseNodes.modify k fun baseNode =>
          { baseNode with idNodes := baseNode.idNodes.modify m fun idNode =>
              { idNode with handlers := idNode.handlers.modify j change } } }

end places

section places
variable {loop : Loop} {i k m : Nat} {loopNode : LoopNode} {baseNode : BaseNode} {idNode : IdNode}

theorem handlersAt_loop (h : loop[i]? = some loopNode) :
    handlersAt loop (.loop i) = some (.any, anyId, loopNode.handlers) := by
  simp [handlersAt, h]

theorem handlersAt_base (hloopNode : loop[i]? = some loopNode) (h : loopNode.baseNodes[k]? = some baseNode) :
    handlersAt loop (.base i k) = some (baseNode.base, anyId, baseNode.handlers) := by
  simp [handlersAt, hloopNode, h]

theorem handlersAt_id (hloopNode : loop[i]? = some loopNode) (hbaseNode : loopNode.baseNodes[k]? = some baseNode)
    (h : baseNode.idNodes[m]? = some idNode) :
    handlersAt loop (.id i k m) = some (baseNode.base, idNode.id, idNode.handlers) := by
  simp [handlersAt, hloopNode, hbaseNode, h]

end places

/-! ## Nodes and registrations -/

/-- What stands before an element and what stands after it. -/
theorem split_at {α : Type} {list : List α} {i : Nat} {x : α} (h : list[i]? = some x) :
    ∃ pre post, list = pre ++ x :: post ∧ ∀ f, list.modify i f = pre ++ f x :: post := by
  induction list generalizing i with
  | nil => cases h
  | cons y list ih =>
    cases i with
    | zero =>
      cases h
      exact ⟨[], list, rfl, fun f => rfl⟩
    | succ i =>
      obtain ⟨pre, post, rfl, hmodify⟩ := ih h
      refine ⟨y :: pre, post, rfl, fun f => ?_⟩
      rw [List.modify_succ_cons, hmodify, List.cons_append]

/-- One registration of a list was changed. -/
def Changed (change : Node → Node) (r : Reg) (list list' : List Reg) : Prop :=
  ∃ pre post, list = pre ++ r :: post ∧ list' = pre ++ { r with node := change r.node } :: post

section changed
variable {change : Node → Node} {r : Reg} {list list' : List Reg}

theorem Changed.append (h : Changed change r list list') (before after : List Reg) :
    Changed change r (before ++ (list ++ after)) (before ++ (list' ++ after)) := by
  obtain ⟨pre, post, rfl, rfl⟩ := h
  exact ⟨before ++ pre, post ++ after, by simp, by simp⟩

theorem Changed.behind (h : Changed change r list list') (before : List Reg) :
    Changed change r (before ++ list) (before ++ list') := by
  obtain ⟨pre, post, rfl, rfl⟩ := h
  exact ⟨before ++ pre, post, by simp, by simp⟩

/-- One node of a list was changed. -/
theorem Changed.node {α : Type} {x x' : α} (contents : α → List Reg) (h : Changed change r (contents x) (contents x'))
    (pre post : List α) : Changed change r ((pre ++ x :: post).flatMap contents) ((pre ++ x' :: post).flatMap contents) := by
  rw [List.flatMap_append, List.flatMap_cons, List.flatMap_append, List.flatMap_cons]
  exact h.append _ _

theorem Changed.flatMap {α : Type} {nodes : List α} {i : Nat} {x : α} (contents : α → List Reg) (f : α → α)
    (hx : nodes[i]? = some x) (h : Changed change r (contents x) (contents (f x))) :
    Changed change r (nodes.flatMap contents) ((nodes.modify i f).flatMap contents) := by
  obtain ⟨pre, post, heq, hmodify⟩ := split_at hx
  rw [hmodify, heq]
  exact h.node contents pre post

theorem changed_handlers {handlers : List Node} {j : Nat} {node : Node} (b : Base) (i : Id) (h : handlers[j]? = some node) :
    Changed change ⟨b, i, node⟩ (handlers.map fun node => ⟨b, i, node⟩)
      ((handlers.modify j change).map fun node => ⟨b, i, node⟩) := by
  obtain ⟨pre, post, heq, hmodify⟩ := split_at h
  rw [hmodify, heq, List.map_append, List.map_cons, List.map_append, List.map_cons]
  exact ⟨_, _, rfl, rfl⟩

end changed

section nodes
variable {loop : Loop} {place : Place} {j : Nat} {r : Reg}

theorem nodeAt_some : nodeAt loop place j = some r ↔
    ∃ handlers, handlersAt loop place = some (r.base, r.id, handlers) ∧ handlers[j]? = some r.node := by
  unfold nodeAt
  rw [Option.bind_eq_some_iff]
  constructor
  · rintro ⟨⟨base, id, handlers⟩, hlist, hnode⟩
    obtain ⟨node, hj, rfl⟩ := Option.map_eq_some_iff.mp hnode
    exact ⟨handlers, hlist, hj⟩
  · rintro ⟨handlers, hlist, hnode⟩
    exact ⟨_, hlist, by rw [hnode]; rfl⟩

theorem baseNode_changed {change : Node → Node} {baseNode : BaseNode} {m : Nat} {idNode : IdNode} {node : Node}
    (hidNode : baseNode.idNodes[m]? = some idNode) (hnode : idNode.handlers[j]? = some node) :
    Changed change ⟨baseNode.base, idNode.id, node⟩ baseNode.regs
      { baseNode with idNodes := baseNode.idNodes.modify m fun idNode =>
          { idNode with handlers := idNode.handlers.modify j change } }.regs := by
  have hhandlers : Changed change ⟨baseNode.base, idNode.id, node⟩ (idNode.regs baseNode.base)
      (IdNode.regs baseNode.base { idNode with handlers := idNode.handlers.modify j change }) :=
    changed_handlers _ _ hnode
  exact (Changed.flatMap (IdNode.regs baseNode.base)
    (fun idNode => { idNode with handlers := idNode.handlers.modify j change }) hidNode hhandlers).behind _

theorem loopNode_changed {change : Node → Node} {loopNode : LoopNode} {k : Nat} {baseNode : BaseNode}
    {f : BaseNode → BaseNode} (hbaseNode : loopNode.baseNodes[k]? = some baseNode)
    (h : Changed change r baseNode.regs (f baseNode).regs) :
    Changed change r loopNode.regs { loopNode with baseNodes := loopNode.baseNodes.modify k f }.regs :=
  (Changed.flatMap BaseNode.regs f hbaseNode h).behind _

/-- Changing a node changes its registration, and no other. -/
theorem modifyAt_regs (change : Node → Node) (h : nodeAt loop place j = some r) :
    Changed change r (regs loop) (regs (modifyAt loop change place j)) := by
  obtain ⟨base, id, node⟩ := r
  obtain ⟨handlers, hlist, hnode⟩ := nodeAt_some.mp h
  unfold handlersAt at hlist
  unfold modifyAt regs
  cases place with
  | loop i =>
    obtain ⟨loopNode, hloopNode, heq⟩ := Option.map_eq_some_iff.mp hlist
    cases heq
    refine Changed.flatMap LoopNode.regs _ hloopNode ?_
    exact (changed_handlers .any anyId hnode).append [] _
  | base i k =>
    obtain ⟨baseNode, hbaseNode, heq⟩ := Option.map_eq_some_iff.mp hlist
    obtain ⟨loopNode, hloopNode, hbaseNode⟩ := Option.bind_eq_some_iff.mp hbaseNode
    cases heq
    refine Changed.flatMap LoopNode.regs _ hloopNode (loopNode_changed hbaseNode ?_)
    exact (changed_handlers baseNode.base anyId hnode).append [] _
  | id i k m =>
    obtain ⟨baseNode, hbaseNode, heq⟩ := Option.bind_eq_some_iff.mp hlist
    obtain ⟨loopNode, hloopNode, hbaseNode⟩ := Option.bind_eq_some_iff.mp hbaseNode
    obtain ⟨idNode, hidNode, heq⟩ := Option.map_eq_some_iff.mp heq
    cases heq
    exact Changed.flatMap LoopNode.regs _ hloopNode (loopNode_changed hbaseNode (baseNode_changed hidNode hnode))

theorem nodeAt_mem (h : nodeAt loop place j = some r) : r ∈ regs loop := by
  obtain ⟨pre, post, heq, -⟩ := modifyAt_regs (fun node => node) h
  rw [heq]
  simp

/-- The registrations are the nodes at all places. -/
theorem mem_regs_iff : r ∈ regs loop ↔ ∃ place j, nodeAt loop place j = some r := by
  refine ⟨fun h => ?_, fun ⟨place, j, h⟩ => nodeAt_mem h⟩
  obtain ⟨loopNode, hloopNode, h⟩ := List.mem_flatMap.mp h
  obtain ⟨i, hi⟩ := List.mem_iff_getElem?.mp hloopNode
  rcases List.mem_append.mp h with h | h
  · obtain ⟨node, hnode, rfl⟩ := List.mem_map.mp h
    obtain ⟨j, hj⟩ := List.mem_iff_getElem?.mp hnode
    exact ⟨.loop i, j, nodeAt_some.mpr ⟨_, handlersAt_loop hi, hj⟩⟩
  · obtain ⟨baseNode, hbaseNode, h⟩ := List.mem_flatMap.mp h
    obtain ⟨k, hk⟩ := List.mem_iff_getElem?.mp hbaseNode
    rcases List.mem_append.mp h with h | h
    · obtain ⟨node, hnode, rfl⟩ := List.mem_map.mp h
      obtain ⟨j, hj⟩ := List.mem_iff_getElem?.mp hnode
      exact ⟨.base i k, j, nodeAt_some.mpr ⟨_, handlersAt_base hi hk, hj⟩⟩
    · obtain ⟨idNode, hidNode, h⟩ := List.mem_flatMap.mp h
      obtain ⟨m, hm⟩ := List.mem_iff_getElem?.mp hidNode
      obtain ⟨node, hnode, rfl⟩ := List.mem_map.mp h
      obtain ⟨j, hj⟩ := List.mem_iff_getElem?.mp hnode
      exact ⟨.id i k m, j, nodeAt_some.mpr ⟨_, handlersAt_id hi hk hm, hj⟩⟩

theorem handlersAt_modifyAt (change : Node → Node) (place' : Place) :
    handlersAt (modifyAt loop change place j) place' =
      (handlersAt loop place').map fun list =>
        (list.1, list.2.1, if place' = place then list.2.2.modify j change else list.2.2) := by
  unfold handlersAt modifyAt
  cases place with
  | loop i =>
    cases place' with
    | loop i' =>
      by_cases hi : i' = i
      · subst hi
        simp [Function.comp_def]
      · simp [hi, Ne.symm hi, Function.comp_def]
    | base i' k' =>
      by_cases hi : i = i' <;> simp [hi, Function.comp_def, Option.bind_map]
    | id i' k' m' =>
      by_cases hi : i = i' <;> simp [hi, Function.comp_def, Option.bind_map, Option.map_bind]
  | base i k =>
    cases place' with
    | loop i' =>
      by_cases hi : i = i' <;> simp [hi, Function.comp_def]
    | base i' k' =>
      by_cases hi : i' = i
      · subst hi
        by_cases hk : k' = k
        · subst hk
          simp [Function.comp_def, Option.bind_map, Option.map_bind]
        · simp [hk, Ne.symm hk, Function.comp_def, Option.bind_map, Option.map_bind]
      · simp [hi, Ne.symm hi, Function.comp_def]
    | id i' k' m' =>
      by_cases hi : i = i'
      · by_cases hk : k = k' <;> simp [hi, hk, Function.comp_def, Option.bind_map, Option.map_bind, Option.bind_assoc]
      · simp [hi, Function.comp_def, Option.map_bind]
  | id i k m =>
    cases place' with
    | loop i' =>
      by_cases hi : i = i' <;> simp [hi, Function.comp_def]
    | base i' k' =>
      by_cases hi : i = i'
      · by_cases hk : k = k' <;> simp [hi, hk, Function.comp_def, Option.bind_map, Option.map_bind]
      · simp [hi, Function.comp_def]
    | id i' k' m' =>
      by_cases hi : i' = i
      · subst hi
        by_cases hk : k' = k
        · subst hk
          by_cases hm : m' = m
          · subst hm
            simp [Function.comp_def, Option.bind_map, Option.map_bind, Option.bind_assoc]
          · simp [hm, Ne.symm hm, Function.comp_def, Option.bind_map, Option.bind_assoc]
        · simp [hk, Ne.symm hk, Function.comp_def, Option.bind_map, Option.map_bind]
      · simp [hi, Ne.symm hi, Function.comp_def, Option.map_bind]

/-- The other nodes are as they were. -/
theorem modifyAt_nodeAt (change : Node → Node) {place' : Place} {j' : Nat} (hne : ¬(place' = place ∧ j' = j))
    (h : nodeAt loop place' j' = some r) : nodeAt (modifyAt loop change place j) place' j' = some r := by
  obtain ⟨handlers, hlist, hnode⟩ := nodeAt_some.mp h
  refine nodeAt_some.mpr ⟨_, by rw [handlersAt_modifyAt, hlist]; rfl, ?_⟩
  dsimp only
  split
  · rename_i hplace
    have hj : j ≠ j' := fun hj => hne ⟨hplace, hj.symm⟩
    simpa [hj] using hnode
  · exact hnode

end nodes

/-! ## Adding behind -/

/-- What there is stays where it is. -/
def Keeps {α : Type} (same : α → α → Prop) (list list' : List α) : Prop :=
  ∀ (i : Nat) (x : α), list[i]? = some x → ∃ y, list'[i]? = some y ∧ same x y

section keeps
variable {α : Type} {same : α → α → Prop}

theorem Keeps.refl (hrefl : ∀ x, same x x) (list : List α) : Keeps same list list :=
  fun _ x h => ⟨x, h, hrefl x⟩

theorem Keeps.behind (hrefl : ∀ x, same x x) (list after : List α) : Keeps same list (list ++ after) := by
  intro i x h
  have hlt : i < list.length := (List.getElem?_eq_some_iff.mp h).1
  exact ⟨x, by rw [List.getElem?_append_left hlt]; exact h, hrefl x⟩

theorem Keeps.replace (hrefl : ∀ x, same x x) {x x' : α} (h : same x x') (pre post : List α) :
    Keeps same (pre ++ x :: post) (pre ++ x' :: post) := by
  induction pre with
  | nil =>
    intro i y hy
    cases i with
    | zero =>
      cases hy
      exact ⟨x', rfl, h⟩
    | succ i => exact ⟨y, hy, hrefl y⟩
  | cons z pre ih =>
    intro i y hy
    cases i with
    | zero =>
      cases hy
      exact ⟨z, rfl, hrefl z⟩
    | succ i => exact ih i y hy

end keeps

/-- The same handler, whatever its argument. -/
def SameNode (x y : Node) : Prop := y.handler = x.handler ∧ y.unregistered = x.unregistered

def IdNode.Keeps (x y : IdNode) : Prop := y.id = x.id ∧ EspEvent.Keeps SameNode x.handlers y.handlers

def BaseNode.Keeps (x y : BaseNode) : Prop :=
  y.base = x.base ∧ EspEvent.Keeps SameNode x.handlers y.handlers ∧ EspEvent.Keeps IdNode.Keeps x.idNodes y.idNodes

def LoopNode.Keeps (x y : LoopNode) : Prop :=
  EspEvent.Keeps SameNode x.handlers y.handlers ∧ EspEvent.Keeps BaseNode.Keeps x.baseNodes y.baseNodes

theorem sameNode_refl (x : Node) : SameNode x x := ⟨rfl, rfl⟩

theorem IdNode.keeps_refl (x : IdNode) : x.Keeps x := ⟨rfl, .refl sameNode_refl _⟩

theorem BaseNode.keeps_refl (x : BaseNode) : x.Keeps x := ⟨rfl, .refl sameNode_refl _, .refl IdNode.keeps_refl _⟩

theorem LoopNode.keeps_refl (x : LoopNode) : x.Keeps x := ⟨.refl sameNode_refl _, .refl BaseNode.keeps_refl _⟩

section register
variable (legacy : Bool) (new : Node) (id : Id)

theorem handlerInstancesAdd_keeps (handlers : List Node) :
    Keeps SameNode handlers (handlerInstancesAdd legacy new handlers) := by
  induction handlers with
  | nil => nofun
  | cons it rest ih =>
    unfold handlerInstancesAdd
    split
    · have hsame : SameNode it { it with arg := new.arg } := ⟨rfl, rfl⟩
      exact Keeps.replace sameNode_refl hsame [] rest
    · intro i x h
      cases i with
      | zero => exact ⟨x, h, sameNode_refl x⟩
      | succ i => exact ih i x h

theorem baseNodeAdd_keeps (baseNode : BaseNode) : baseNode.Keeps (baseNodeAddHandler legacy new id baseNode) := by
  unfold baseNodeAddHandler
  split
  · exact ⟨rfl, handlerInstancesAdd_keeps legacy new _, .refl IdNode.keeps_refl _⟩
  · split
    · rename_i pre idNode post hsplit
      refine ⟨rfl, .refl sameNode_refl _, ?_⟩
      have hidNode : idNode.Keeps { idNode with handlers := handlerInstancesAdd legacy new idNode.handlers } :=
        ⟨rfl, handlerInstancesAdd_keeps legacy new _⟩
      rw [(splitLast_some hsplit).1]
      exact .replace IdNode.keeps_refl hidNode pre post
    · exact ⟨rfl, .refl sameNode_refl _, .behind IdNode.keeps_refl _ _⟩

theorem loopNodeAdd_keeps (base : Base) (loopNode : LoopNode) :
    loopNode.Keeps (loopNodeAddHandler legacy new base id loopNode) := by
  unfold loopNodeAddHandler
  split
  · exact ⟨handlerInstancesAdd_keeps legacy new _, .refl BaseNode.keeps_refl _⟩
  · split
    · rename_i pre' last post' pre baseNode post hlast hsplit
      split
      · exact ⟨.refl sameNode_refl _, .behind BaseNode.keeps_refl _ _⟩
      · refine ⟨.refl sameNode_refl _, ?_⟩
        rw [(splitLast_some hsplit).1]
        exact .replace BaseNode.keeps_refl (baseNodeAdd_keeps legacy new id baseNode) pre post
    · exact ⟨.refl sameNode_refl _, .behind BaseNode.keeps_refl _ _⟩

theorem register_keeps (base : BaseArg) (loop : Loop) :
    Keeps LoopNode.Keeps loop (registerWithInternal legacy new base id loop).2 := by
  unfold registerWithInternal
  split
  · exact .refl LoopNode.keeps_refl _
  · split
    · rename_i hsplit
      intro i x h
      exact absurd (splitLast_none hsplit x (List.mem_of_getElem? h)) (by decide)
    · rename_i pre last post hsplit
      split
      · exact .behind LoopNode.keeps_refl _ _
      · have hkeeps := Keeps.replace LoopNode.keeps_refl (loopNodeAdd_keeps legacy new id base.base last) pre post
        rw [← (splitLast_some hsplit).1] at hkeeps
        exact hkeeps

end register

/-- A list that is kept stays at its place, for the same base and id. -/
theorem Keeps.handlersAt {loop loop' : Loop} (hkeeps : Keeps LoopNode.Keeps loop loop') {place : Place} {base : Base}
    {id : Id} {handlers : List Node} (hlist : handlersAt loop place = some (base, id, handlers)) :
    ∃ handlers', handlersAt loop' place = some (base, id, handlers') ∧ Keeps SameNode handlers handlers' := by
  unfold EspEvent.handlersAt at hlist
  cases place with
  | loop i =>
    obtain ⟨loopNode, hloopNode, heq⟩ := Option.map_eq_some_iff.mp hlist
    obtain ⟨loopNode', hloopNode', hhandlers, -⟩ := hkeeps i loopNode hloopNode
    rw [Prod.mk.injEq, Prod.mk.injEq] at heq
    obtain ⟨rfl, rfl, rfl⟩ := heq
    exact ⟨loopNode'.handlers, handlersAt_loop hloopNode', hhandlers⟩
  | base i k =>
    obtain ⟨baseNode, hbaseNode, heq⟩ := Option.map_eq_some_iff.mp hlist
    obtain ⟨loopNode, hloopNode, hbaseNode⟩ := Option.bind_eq_some_iff.mp hbaseNode
    obtain ⟨loopNode', hloopNode', -, hbaseNodes⟩ := hkeeps i loopNode hloopNode
    obtain ⟨baseNode', hbaseNode', hbase, hhandlers, -⟩ := hbaseNodes k baseNode hbaseNode
    rw [Prod.mk.injEq, Prod.mk.injEq] at heq
    obtain ⟨rfl, rfl, rfl⟩ := heq
    exact ⟨baseNode'.handlers, by rw [handlersAt_base hloopNode' hbaseNode', hbase], hhandlers⟩
  | id i k m =>
    obtain ⟨baseNode, hbaseNode, heq⟩ := Option.bind_eq_some_iff.mp hlist
    obtain ⟨loopNode, hloopNode, hbaseNode⟩ := Option.bind_eq_some_iff.mp hbaseNode
    obtain ⟨idNode, hidNode, heq⟩ := Option.map_eq_some_iff.mp heq
    obtain ⟨loopNode', hloopNode', -, hbaseNodes⟩ := hkeeps i loopNode hloopNode
    obtain ⟨baseNode', hbaseNode', hbase, -, hidNodes⟩ := hbaseNodes k baseNode hbaseNode
    obtain ⟨idNode', hidNode', hid, hhandlers⟩ := hidNodes m idNode hidNode
    rw [Prod.mk.injEq, Prod.mk.injEq] at heq
    obtain ⟨rfl, rfl, rfl⟩ := heq
    exact ⟨idNode'.handlers, by rw [handlersAt_id hloopNode' hbaseNode' hidNode', hbase, hid], hhandlers⟩

theorem Keeps.nodeAt {loop loop' : Loop} (hkeeps : Keeps LoopNode.Keeps loop loop') {place : Place} {j : Nat} {r : Reg}
    (h : nodeAt loop place j = some r) :
    ∃ node, nodeAt loop' place j = some ⟨r.base, r.id, node⟩ ∧ SameNode r.node node := by
  obtain ⟨handlers, hlist, hnode⟩ := nodeAt_some.mp h
  obtain ⟨handlers', hlist', hhandlers⟩ := hkeeps.handlersAt hlist
  obtain ⟨node, hj, hsame⟩ := hhandlers j r.node hnode
  exact ⟨node, nodeAt_some.mpr ⟨handlers', hlist', hj⟩, hsame⟩

end EspIdf.EspEvent
