import EspIdf.EspEvent.Places

/-!
# The registrations in force, and what the legacy calls do to them

* `Key`, `inForce` : what is registered and not marked as unregistered;
* `register_met`, `register_new` : registering where the function is already, and where it is not;
* `mark_inForce` : a node that is marked is no longer in force;
* `remove_first` : what is removed is the first registration of a function for a base and an id.
-/

namespace EspIdf.EspEvent

/-- What a registration is for: the set that the legacy calls are about. -/
structure Key where
  base : Base
  id : Id
  handler : Nat
deriving Repr, DecidableEq

def Reg.key (r : Reg) : Key := ⟨r.base, r.id, r.node.handler⟩

def keysOf (list : List Reg) : List Key := (list.filter fun r => !r.node.unregistered).map Reg.key

/-- The registrations that an event can still run. -/
def inForce (loop : Loop) : List Key := keysOf (regs loop)

theorem keysOf_append (xs ys : List Reg) : keysOf (xs ++ ys) = keysOf xs ++ keysOf ys := by
  simp [keysOf]

theorem keysOf_cons (r : Reg) (list : List Reg) :
    keysOf (r :: list) = if r.node.unregistered then keysOf list else r.key :: keysOf list := by
  cases h : r.node.unregistered <;> simp [keysOf, h]

theorem mem_keysOf {k : Key} {list : List Reg} :
    k ∈ keysOf list ↔ ∃ r ∈ list, r.node.unregistered = false ∧ r.key = k := by
  simp [keysOf, and_assoc]

/-! ## Registering -/

/-- The list of handlers that `base_node_add_handler` puts one into, when there is one. -/
def baseNodeOpen (id : Id) (baseNode : BaseNode) : List Node :=
  if id = anyId then baseNode.handlers
  else
    match splitLast (fun it => it.id = id) baseNode.idNodes with
    | some (_, idNode, _) => idNode.handlers
    | none => []

def loopNodeOpen (base : Base) (id : Id) (loopNode : LoopNode) : List Node :=
  if base = .any ∧ id = anyId then loopNode.handlers
  else
    match splitLast (fun _ => true) loopNode.baseNodes, splitLast (fun it => it.base = base) loopNode.baseNodes with
    | some (_, lastBaseNode, _), some (_, baseNode, _) =>
      if (baseNode.idNodes ≠ [] ∧ id = anyId) ∨ (lastBaseNode.base ≠ base ∧ lastBaseNode.idNodes ≠ [] ∧ id = anyId) then []
      else baseNodeOpen id baseNode
    | _, _ => []

/-- The nodes among which a registration looks for its function. -/
def openNodes (base : Base) (id : Id) (loop : Loop) : List Node :=
  match splitLast (fun _ => true) loop with
  | none => []
  | some (_, lastLoopNode, _) =>
    if lastLoopNode.baseNodes ≠ [] ∧ base = .any ∧ id = anyId then [] else loopNodeOpen base id lastLoopNode

/-- The function has a node there, whether in force or marked. -/
def Met (handler : Nat) (nodes : List Node) : Prop := ∃ it ∈ nodes, it.handler = handler

instance (handler : Nat) (nodes : List Node) : Decidable (Met handler nodes) :=
  inferInstanceAs (Decidable (∃ it ∈ nodes, it.handler = handler))

def overwrite (new it : Node) : Node := { it with arg := new.arg }

section register
variable {new : Node} {id : Id} {base : Base}

theorem add_met {handlers : List Node} (b : Base) (i : Id) (h : Met new.handler handlers) :
    ∃ r, Changed (overwrite new) r (handlers.map fun node => ⟨b, i, node⟩)
      ((handlerInstancesAdd true new handlers).map fun node => ⟨b, i, node⟩) := by
  induction handlers with
  | nil =>
    obtain ⟨it, hit, -⟩ := h
    cases hit
  | cons it rest ih =>
    unfold handlerInstancesAdd
    by_cases heq : new.handler = it.handler
    · rw [if_pos ⟨rfl, heq⟩]
      exact ⟨⟨b, i, it⟩, [], rest.map fun node => ⟨b, i, node⟩, rfl, rfl⟩
    · rw [if_neg fun h => heq h.2]
      obtain ⟨r, hr⟩ := ih (by
        obtain ⟨x, hx, hhandler⟩ := h
        rcases List.mem_cons.mp hx with rfl | hx
        · exact absurd hhandler.symm heq
        · exact ⟨x, hx, hhandler⟩)
      have hr := hr.append [⟨b, i, it⟩] []
      exact ⟨r, by simpa using hr⟩

theorem add_new {handlers : List Node} (h : ¬Met new.handler handlers) :
    handlerInstancesAdd true new handlers = handlerInstancesAdd false new handlers := by
  induction handlers with
  | nil => rfl
  | cons it rest ih =>
    unfold handlerInstancesAdd
    have hrest : ¬Met new.handler rest := by
      rintro ⟨x, hx, hhandler⟩
      exact h ⟨x, List.mem_cons_of_mem _ hx, hhandler⟩
    rw [if_neg (fun heq => h ⟨it, List.mem_cons_self, heq.2.symm⟩), if_neg (fun heq => Bool.false_ne_true heq.1),
      ih hrest]

theorem not_met_nil (handler : Nat) : ¬Met handler [] := fun ⟨_, hit, _⟩ => nomatch hit

theorem baseNodeAdd_met {baseNode : BaseNode} (h : Met new.handler (baseNodeOpen id baseNode)) :
    ∃ r, Changed (overwrite new) r baseNode.regs (baseNodeAddHandler true new id baseNode).regs := by
  unfold baseNodeOpen at h
  unfold baseNodeAddHandler
  by_cases hid : id = anyId
  · rw [if_pos hid] at h ⊢
    obtain ⟨r, hr⟩ := add_met baseNode.base anyId h
    exact ⟨r, hr.append [] _⟩
  · rw [if_neg hid] at h ⊢
    cases hsplit : splitLast (fun it => it.id = id) baseNode.idNodes with
    | none =>
      rw [hsplit] at h
      exact absurd h (not_met_nil _)
    | some parts =>
      obtain ⟨pre, idNode, post⟩ := parts
      rw [hsplit] at h
      obtain ⟨r, hr⟩ := add_met baseNode.base idNode.id h
      have hr' : Changed (overwrite new) r (IdNode.regs baseNode.base idNode)
          (IdNode.regs baseNode.base { idNode with handlers := handlerInstancesAdd true new idNode.handlers }) := hr
      refine ⟨r, ?_⟩
      unfold BaseNode.regs
      rw [(splitLast_some hsplit).1]
      exact (Changed.node (IdNode.regs baseNode.base) hr' pre post).behind _

theorem baseNodeAdd_new {baseNode : BaseNode} (h : ¬Met new.handler (baseNodeOpen id baseNode)) :
    baseNodeAddHandler true new id baseNode = baseNodeAddHandler false new id baseNode := by
  unfold baseNodeOpen at h
  unfold baseNodeAddHandler
  split
  · rename_i hid
    rw [if_pos hid] at h
    rw [add_new h]
  · rename_i hid
    rw [if_neg hid] at h
    split
    · rename_i hsplit
      rw [hsplit] at h
      rw [add_new h]
    · rfl

theorem emptyBaseNode_new (b : Base) :
    baseNodeAddHandler true new id ⟨b, [], []⟩ = baseNodeAddHandler false new id ⟨b, [], []⟩ := by
  unfold baseNodeAddHandler
  split <;> rfl

theorem loopNodeAdd_met {loopNode : LoopNode} (hok : loopNode.Ok) (h : Met new.handler (loopNodeOpen base id loopNode)) :
    (∃ r, Changed (overwrite new) r loopNode.regs (loopNodeAddHandler true new base id loopNode).regs) ∧
      (loopNodeAddHandler true new base id loopNode).Ok := by
  unfold loopNodeOpen at h
  unfold loopNodeAddHandler
  by_cases hany : base = .any ∧ id = anyId
  · rw [if_pos hany] at h ⊢
    obtain ⟨r, hr⟩ := add_met .any anyId h
    exact ⟨⟨r, hr.append [] _⟩, hok⟩
  · rw [if_neg hany] at h ⊢
    cases hlast : splitLast (fun _ => true) loopNode.baseNodes with
    | none =>
      rw [hlast] at h
      exact absurd h (not_met_nil _)
    | some lastParts =>
      cases hsplit : splitLast (fun it => it.base = base) loopNode.baseNodes with
      | none =>
        rw [hlast, hsplit] at h
        exact absurd h (not_met_nil _)
      | some parts =>
        obtain ⟨pre', last, post'⟩ := lastParts
        obtain ⟨pre, baseNode, post⟩ := parts
        rw [hlast, hsplit] at h
        dsimp only at h ⊢
        by_cases hcond : (baseNode.idNodes ≠ [] ∧ id = anyId) ∨ (last.base ≠ base ∧ last.idNodes ≠ [] ∧ id = anyId)
        · rw [if_pos hcond] at h
          exact absurd h (not_met_nil _)
        · rw [if_neg hcond] at h ⊢
          have hnodes := (splitLast_some hsplit).1
          obtain ⟨r, hr⟩ := baseNodeAdd_met h
          refine ⟨⟨r, ?_⟩, fun x hx => ?_⟩
          · unfold LoopNode.regs
            rw [hnodes]
            exact (Changed.node BaseNode.regs hr pre post).behind _
          · rcases List.mem_append.mp hx with hx | hx
            · exact hok x (by rw [hnodes]; simp [hx])
            · rcases List.mem_cons.mp hx with rfl | hx
              · exact baseNodeAdd_ok new (hok baseNode (by rw [hnodes]; simp))
              · exact hok x (by rw [hnodes]; simp [hx])

theorem loopNodeAdd_new {loopNode : LoopNode} (h : ¬Met new.handler (loopNodeOpen base id loopNode)) :
    loopNodeAddHandler true new base id loopNode = loopNodeAddHandler false new base id loopNode := by
  unfold loopNodeOpen at h
  unfold loopNodeAddHandler
  split
  · rename_i hany
    rw [if_pos hany] at h
    rw [add_new h]
  · rename_i hany
    rw [if_neg hany] at h
    split
    · rename_i hlast hsplit
      rw [hlast, hsplit] at h
      dsimp only at h
      split
      · rw [emptyBaseNode_new]
      · rename_i hcond
        rw [if_neg hcond] at h
        rw [baseNodeAdd_new h]
    · rw [emptyBaseNode_new]

theorem emptyLoopNode_new (b : Base) :
    loopNodeAddHandler true new b id ⟨[], []⟩ = loopNodeAddHandler false new b id ⟨[], []⟩ := by
  refine loopNodeAdd_new ?_
  rintro ⟨it, hit, -⟩
  unfold loopNodeOpen at hit
  split at hit <;> cases hit

theorem keysOf_overwrite {r : Reg} {list list' : List Reg} (h : Changed (overwrite new) r list list') :
    keysOf list' = keysOf list := by
  obtain ⟨pre, post, rfl, rfl⟩ := h
  rw [keysOf_append, keysOf_cons, keysOf_append, keysOf_cons]
  rfl

/-- Where the function has a node already, nothing changes but the argument. -/
theorem register_met {loop : Loop} {arg : BaseArg} (hok : Ok loop) (harg : arg = none → id = anyId)
    (h : Met new.handler (openNodes arg.base id loop)) :
    (registerWithInternal true new arg id loop).1 = .ok ∧
      inForce (registerWithInternal true new arg id loop).2 = inForce loop ∧
      Ok (registerWithInternal true new arg id loop).2 := by
  unfold openNodes at h
  unfold registerWithInternal
  rw [if_neg fun hbad => hbad.2 (harg hbad.1)]
  cases hsplit : splitLast (fun _ => true) loop with
  | none =>
    rw [hsplit] at h
    exact absurd h (not_met_nil _)
  | some parts =>
    obtain ⟨pre, last, post⟩ := parts
    rw [hsplit] at h
    dsimp only at h ⊢
    by_cases hcond : last.baseNodes ≠ [] ∧ arg.base = .any ∧ id = anyId
    · rw [if_pos hcond] at h
      exact absurd h (not_met_nil _)
    · rw [if_neg hcond] at h ⊢
      have hnodes := (splitLast_some hsplit).1
      obtain ⟨⟨r, hr⟩, hlast⟩ := loopNodeAdd_met (hok last (by rw [hnodes]; simp)) h
      refine ⟨rfl, ?_, fun x hx => ?_⟩
      · have hregs := Changed.node LoopNode.regs hr pre post
        rw [← hnodes] at hregs
        exact keysOf_overwrite hregs
      · rcases List.mem_append.mp hx with hx | hx
        · exact hok x (by rw [hnodes]; simp [hx])
        · rcases List.mem_cons.mp hx with rfl | hx
          · exact hlast
          · exact hok x (by rw [hnodes]; simp [hx])

/-- Where it has none, a node for it comes to those there are. -/
theorem register_new {loop : Loop} {arg : BaseArg} (hok : Ok loop) (harg : arg = none → id = anyId)
    (hnew : new.unregistered = false) (h : ¬Met new.handler (openNodes arg.base id loop)) :
    (registerWithInternal true new arg id loop).1 = .ok ∧
      (inForce (registerWithInternal true new arg id loop).2).Perm (⟨arg.base, id, new.handler⟩ :: inForce loop) ∧
      Ok (registerWithInternal true new arg id loop).2 := by
  have hlegacy : registerWithInternal true new arg id loop = registerWithInternal false new arg id loop := by
    unfold openNodes at h
    unfold registerWithInternal
    split
    · rfl
    · split
      · rw [emptyLoopNode_new]
      · rename_i hsplit
        rw [hsplit] at h
        dsimp only at h
        split
        · rw [emptyLoopNode_new]
        · rename_i hcond
          rw [if_neg hcond] at h
          rw [loopNodeAdd_new h]
  obtain ⟨hcode, ⟨pre, post, hregs, hregs', -⟩, hok'⟩ := register_inserted new hok harg
  rw [hlegacy]
  refine ⟨hcode, ?_, hok'⟩
  unfold inForce
  rw [hregs, hregs', keysOf_append, keysOf_cons, if_neg (by rw [hnew]; decide), keysOf_append]
  exact List.perm_middle

end register

/-! ## Marking -/

/-- `handler_to_unregister->unregistered = true` -/
def marked (it : Node) : Node := { it with unregistered := true }

section mark
variable {loop : Loop} {place : Place} {j : Nat} {r : Reg}

theorem modify_mem {α : Type} {list : List α} {i : Nat} {x : α} {f : α → α} {p : α → Prop} (hx : list[i]? = some x)
    (hlist : ∀ y ∈ list, p y) (hf : p x → p (f x)) : ∀ y ∈ list.modify i f, p y := by
  intro y hy
  obtain ⟨pre, post, heq, hmodify⟩ := split_at hx
  rw [hmodify] at hy
  rcases List.mem_append.mp hy with hy | hy
  · exact hlist y (by rw [heq]; simp [hy])
  · rcases List.mem_cons.mp hy with rfl | hy
    · exact hf (hlist x (List.mem_of_getElem? hx))
    · exact hlist y (by rw [heq]; simp [hy])

theorem modifyAt_ok {change : Node → Node} (h : nodeAt loop place j = some r) (hok : Ok loop) :
    Ok (modifyAt loop change place j) := by
  obtain ⟨base, id, node⟩ := r
  obtain ⟨handlers, hlist, hnode⟩ := nodeAt_some.mp h
  unfold handlersAt at hlist
  unfold modifyAt
  cases place with
  | loop i =>
    obtain ⟨loopNode, hloopNode, -⟩ := Option.map_eq_some_iff.mp hlist
    exact modify_mem hloopNode hok fun h => h
  | base i k =>
    obtain ⟨baseNode, hbaseNode, -⟩ := Option.map_eq_some_iff.mp hlist
    obtain ⟨loopNode, hloopNode, hbaseNode⟩ := Option.bind_eq_some_iff.mp hbaseNode
    refine modify_mem hloopNode hok fun hloop => ?_
    exact modify_mem hbaseNode hloop fun h => ⟨h.base, h.ids, h.specific⟩
  | id i k m =>
    obtain ⟨baseNode, hbaseNode, heq⟩ := Option.bind_eq_some_iff.mp hlist
    obtain ⟨loopNode, hloopNode, hbaseNode⟩ := Option.bind_eq_some_iff.mp hbaseNode
    obtain ⟨idNode, hidNode, -⟩ := Option.map_eq_some_iff.mp heq
    refine modify_mem hloopNode hok fun hloop => ?_
    refine modify_mem hbaseNode hloop fun h => ?_
    obtain ⟨b, nodes, idNodes⟩ := baseNode
    obtain ⟨pre, post, hids, hmodify⟩ := split_at hidNode
    dsimp only at hids hmodify ⊢
    rw [hmodify]
    subst hids
    exact h.replace rfl

/-- A registration in force that is marked leaves the set, and nothing else does. -/
theorem mark_inForce (h : nodeAt loop place j = some r)
    (hlive : r.node.unregistered = false) :
    (inForce loop).Perm (r.key :: inForce (modifyAt loop marked place j)) := by
  obtain ⟨pre, post, heq, heq'⟩ := modifyAt_regs marked h
  unfold inForce
  rw [heq, heq', keysOf_append, keysOf_cons, if_neg (by rw [hlive]; decide), keysOf_append, keysOf_cons,
    if_pos (show (marked r.node).unregistered = true from rfl)]
  exact List.perm_middle

end mark

/-! ## Removing -/

/-- The first registration of a function for a base and an id is gone. -/
theorem remove_inForce {loop loop' : Loop} (hok : Ok loop) {base : Base} {id : Id} {handler : Nat}
    (h : loopRemoveHandler (.function handler) base id loop = some loop') :
    ∃ r, (regs loop).find? (fun r => r.key = ⟨base, id, handler⟩) = some r ∧ Ok loop' ∧
      if r.node.unregistered then inForce loop' = inForce loop
      else (inForce loop).Perm (⟨base, id, handler⟩ :: inForce loop') := by
  obtain ⟨hok', pre, r, post, heq, heq', ⟨hbase, hid, htarget⟩, hpre⟩ := remove_first hok h
  have hkey : r.key = ⟨base, id, handler⟩ := by
    rw [← hbase, ← hid, ← of_decide_eq_true htarget]
    rfl
  refine ⟨r, ?_, hok', ?_⟩
  · rw [heq, List.find?_append, List.find?_eq_none.mpr, Option.none_or, List.find?_cons, decide_eq_true hkey]
    intro x hx hxkey
    have hxkey : x.key = ⟨base, id, handler⟩ := of_decide_eq_true hxkey
    cases hxkey
    exact hpre x hx ⟨rfl, rfl, decide_eq_true rfl⟩
  · unfold inForce
    rw [heq, heq', keysOf_append, keysOf_append, keysOf_cons]
    split
    · rfl
    · rw [hkey]
      exact List.perm_middle

theorem remove_missing {loop : Loop} (hok : Ok loop) {base : Base} {id : Id} {handler : Nat}
    (h : loopRemoveHandler (.function handler) base id loop = none) :
    (regs loop).find? (fun r => r.key = ⟨base, id, handler⟩) = none := by
  rw [List.find?_eq_none]
  intro x hx hkey
  have hkey : x.key = ⟨base, id, handler⟩ := of_decide_eq_true hkey
  cases hkey
  exact remove_none hok h x hx ⟨rfl, rfl, decide_eq_true rfl⟩

end EspIdf.EspEvent
