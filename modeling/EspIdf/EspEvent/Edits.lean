import EspIdf.EspEvent.Forest

/-!
# What adding and removing does to the registrations

* `Inserted`, `register_inserted` : a registration is put where nothing behind it shares an event with it;
* `First`, `remove_first`, `remove_none` : the first registration for the base and the id leaves, and
  only if there is none is nothing removed;
* `dispatch_eq` : an event runs the registrations that match it.
-/

namespace EspIdf.EspEvent

/-- No event matches both. -/
def Apart (x r : Reg) : Prop := ∀ post, r.matches post = true → x.matches post = false

/-- `r` was put into a list, before registrations that have no event in common with it. -/
def Inserted (r : Reg) (list list' : List Reg) : Prop :=
  ∃ pre post, list = pre ++ post ∧ list' = pre ++ r :: post ∧ ∀ x ∈ post, Apart x r

/-- `r` was taken out of a list. -/
def Erased (r : Reg) (list list' : List Reg) : Prop := ∃ pre post, list = pre ++ r :: post ∧ list' = pre ++ post

section edits
variable {r : Reg} {list list' : List Reg}

theorem Inserted.last (r : Reg) (list : List Reg) : Inserted r list (list ++ [r]) :=
  ⟨list, [], (List.append_nil _).symm, rfl, nofun⟩

theorem Inserted.behind (h : Inserted r list list') (before : List Reg) :
    Inserted r (before ++ list) (before ++ list') := by
  obtain ⟨pre, post, rfl, rfl, hpost⟩ := h
  exact ⟨before ++ pre, post, by simp, by simp, hpost⟩

theorem Inserted.ahead (h : Inserted r list list') {after : List Reg} (hafter : ∀ x ∈ after, Apart x r) :
    Inserted r (list ++ after) (list' ++ after) := by
  obtain ⟨pre, post, rfl, rfl, hpost⟩ := h
  refine ⟨pre, post ++ after, by simp, by simp, fun x hx => ?_⟩
  exact (List.mem_append.mp hx).elim (hpost x) (hafter x)

end edits

theorem apart_of_base {x r : Reg} (hx : x.base ≠ .any) (hr : r.base ≠ .any) (hne : x.base ≠ r.base) : Apart x r := by
  intro post hmatches
  unfold Reg.matches at hmatches ⊢
  simp only [hr, decide_false, Bool.false_or, Bool.and_eq_true, decide_eq_true_eq] at hmatches
  rw [← hmatches.1]
  simp [hx, hne]

theorem apart_of_id {x r : Reg} (hx : x.id ≠ anyId) (hr : r.id ≠ anyId) (hne : x.id ≠ r.id) : Apart x r := by
  intro post hmatches
  unfold Reg.matches at hmatches ⊢
  simp only [hr, decide_false, Bool.false_or, Bool.and_eq_true, decide_eq_true_eq] at hmatches
  rw [← hmatches.2]
  simp [hx, hne]

theorem mem_regs_base {baseNode : BaseNode} {x : Reg} (h : x ∈ baseNode.regs) : x.base = baseNode.base := by
  unfold BaseNode.regs at h
  rcases List.mem_append.mp h with h | h
  · obtain ⟨node, -, rfl⟩ := List.mem_map.mp h
    rfl
  · obtain ⟨idNode, -, h⟩ := List.mem_flatMap.mp h
    obtain ⟨node, -, rfl⟩ := List.mem_map.mp h
    rfl

/-! ## Adding -/

theorem handlerInstancesAdd_instance (new : Node) (handlers : List Node) :
    handlerInstancesAdd false new handlers = handlers ++ [new] := by
  induction handlers with
  | nil => rfl
  | cons it rest ih =>
    unfold handlerInstancesAdd
    rw [if_neg (fun h => Bool.false_ne_true h.1), ih, List.cons_append]

section add
variable (new : Node) {id : Id}

theorem baseNodeAdd_inserted {baseNode : BaseNode} (hok : baseNode.Ok) (hany : id = anyId → baseNode.idNodes = []) :
    Inserted ⟨baseNode.base, id, new⟩ baseNode.regs (baseNodeAddHandler false new id baseNode).regs := by
  unfold baseNodeAddHandler
  split
  · rename_i hid
    subst hid
    unfold BaseNode.regs
    rw [hany rfl, handlerInstancesAdd_instance, List.map_append]
    simp only [List.flatMap_nil, List.append_nil]
    exact Inserted.last _ _
  · rename_i hid
    split
    · rename_i pre idNode post hsplit
      obtain ⟨hids, hidNode, hpost⟩ := splitLast_some hsplit
      have hidNode : idNode.id = id := of_decide_eq_true hidNode
      unfold BaseNode.regs
      rw [hids, List.flatMap_append, List.flatMap_cons, List.flatMap_append, List.flatMap_cons]
      refine ((Inserted.ahead ?_ fun x hx => ?_).behind _).behind _
      · unfold IdNode.regs
        rw [handlerInstancesAdd_instance, List.map_append, hidNode]
        exact Inserted.last _ _
      · obtain ⟨y, hy, hx⟩ := List.mem_flatMap.mp hx
        obtain ⟨node, -, rfl⟩ := List.mem_map.mp hx
        have hyid : y.id ≠ id := of_decide_eq_false (hpost y hy)
        exact apart_of_id (hok.specific y (by rw [hids]; simp [hy])) hid hyid
    · unfold BaseNode.regs
      rw [List.flatMap_append, ← List.append_assoc]
      exact Inserted.last _ _

theorem BaseNode.Ok.replace {b : Base} {handlers handlers' : List Node} {pre post : List IdNode} {x x' : IdNode}
    (hok : (⟨b, handlers, pre ++ x :: post⟩ : BaseNode).Ok) (hid : x'.id = x.id) :
    (⟨b, handlers', pre ++ x' :: post⟩ : BaseNode).Ok := by
  obtain ⟨hbase, hids, hspecific⟩ := hok
  refine ⟨hbase, ?_, fun y hy => ?_⟩
  · rw [List.pairwise_append, List.pairwise_cons] at hids ⊢
    obtain ⟨hpre, ⟨hhead, hpost⟩, hcross⟩ := hids
    rw [hid]
    refine ⟨hpre, ⟨hhead, hpost⟩, fun y hy z hz => ?_⟩
    rcases List.mem_cons.mp hz with rfl | hz
    · rw [hid]
      exact hcross y hy x List.mem_cons_self
    · exact hcross y hy z (List.mem_cons_of_mem _ hz)
  · rcases List.mem_append.mp hy with hy | hy
    · exact hspecific y (List.mem_append_left _ hy)
    · rcases List.mem_cons.mp hy with rfl | hy
      · rw [hid]
        exact hspecific x (by simp)
      · exact hspecific y (by simp [hy])

theorem baseNodeAdd_ok {legacy : Bool} {baseNode : BaseNode} (hok : baseNode.Ok) :
    (baseNodeAddHandler legacy new id baseNode).Ok := by
  unfold baseNodeAddHandler
  split
  · exact ⟨hok.base, hok.ids, hok.specific⟩
  · rename_i hid
    split
    · rename_i pre idNode post hsplit
      obtain ⟨base, handlers, idNodes⟩ := baseNode
      obtain ⟨hids, -, -⟩ := splitLast_some hsplit
      dsimp only at hids
      subst hids
      exact hok.replace rfl
    · rename_i hsplit
      refine ⟨hok.base, ?_, ?_⟩
      · rw [List.pairwise_append]
        refine ⟨hok.ids, List.pairwise_singleton _ _, fun x hx y hy => ?_⟩
        rw [List.mem_singleton] at hy
        subst hy
        exact of_decide_eq_false (splitLast_none hsplit x hx)
      · intro x hx
        rcases List.mem_append.mp hx with hx | hx
        · exact hok.specific x hx
        · rw [List.mem_singleton] at hx
          subst hx
          exact hid

theorem emptyBaseNode_ok {base : Base} (hbase : base ≠ .any) : (⟨base, [], []⟩ : BaseNode).Ok where
  base := hbase
  ids := .nil
  specific := nofun

variable {base : Base}

theorem loopNodeAdd_inserted {loopNode : LoopNode} (hok : loopNode.Ok) (hbase : base = .any → id = anyId)
    (hany : base = .any → loopNode.baseNodes = []) :
    Inserted ⟨base, id, new⟩ loopNode.regs (loopNodeAddHandler false new base id loopNode).regs ∧
      (loopNodeAddHandler false new base id loopNode).Ok := by
  unfold loopNodeAddHandler
  split
  · rename_i hloop
    obtain ⟨rfl, rfl⟩ := hloop
    refine ⟨?_, hok⟩
    unfold LoopNode.regs
    rw [hany rfl, handlerInstancesAdd_instance, List.map_append]
    simp only [List.flatMap_nil, List.append_nil]
    exact Inserted.last _ _
  · rename_i hloop
    have hne : base ≠ .any := fun h => hloop ⟨h, hbase h⟩
    have hempty := emptyBaseNode_ok hne
    -- a base node of its own, behind all others
    have hopen : ∀ loopNode' : LoopNode, loopNode' = { loopNode with
          baseNodes := loopNode.baseNodes ++ [baseNodeAddHandler false new id ⟨base, [], []⟩] } →
        Inserted ⟨base, id, new⟩ loopNode.regs loopNode'.regs ∧ loopNode'.Ok := by
      rintro loopNode' rfl
      have hnew := @baseNodeAdd_inserted new id _ hempty fun _ => rfl
      have hnone : (⟨base, [], []⟩ : BaseNode).regs = [] := rfl
      rw [hnone] at hnew
      refine ⟨?_, fun x hx => ?_⟩
      · unfold LoopNode.regs
        rw [List.flatMap_append, List.flatMap_singleton]
        have h := (hnew.behind (loopNode.baseNodes.flatMap BaseNode.regs)).behind
          (loopNode.handlers.map fun node => (⟨.any, anyId, node⟩ : Reg))
        simpa using h
      · rcases List.mem_append.mp hx with hx | hx
        · exact hok x hx
        · rw [List.mem_singleton] at hx
          subst hx
          exact baseNodeAdd_ok new hempty
    split
    · rename_i pre' last post' pre baseNode post hlast hsplit
      split
      · exact hopen _ rfl
      · rename_i hcond
        obtain ⟨hnodes, hbaseNode, hpost⟩ := splitLast_some hsplit
        have hbaseNode : baseNode.base = base := of_decide_eq_true hbaseNode
        have hmem : baseNode ∈ loopNode.baseNodes := by
          rw [hnodes]
          simp
        have hadd := @baseNodeAdd_inserted new id _ (hok baseNode hmem) fun hid =>
          Decidable.not_not.mp fun hids => hcond (.inl ⟨hids, hid⟩)
        rw [hbaseNode] at hadd
        refine ⟨?_, fun x hx => ?_⟩
        · unfold LoopNode.regs
          rw [hnodes, List.flatMap_append, List.flatMap_cons, List.flatMap_append, List.flatMap_cons]
          refine ((hadd.ahead fun x hx => ?_).behind _).behind _
          obtain ⟨y, hy, hx⟩ := List.mem_flatMap.mp hx
          have hybase : y.base ≠ base := of_decide_eq_false (hpost y hy)
          have hyok := hok y (by rw [hnodes]; simp [hy])
          have hxbase := mem_regs_base hx
          exact apart_of_base (hxbase ▸ hyok.base) hne (hxbase ▸ hybase)
        · rcases List.mem_append.mp hx with hx | hx
          · exact hok x (by rw [hnodes]; simp [hx])
          · rcases List.mem_cons.mp hx with rfl | hx
            · exact baseNodeAdd_ok new (hok baseNode hmem)
            · exact hok x (by rw [hnodes]; simp [hx])
    · exact hopen _ rfl

theorem emptyLoopNode_ok : (⟨[], []⟩ : LoopNode).Ok := nofun

/-- A registration goes behind all those that it has an event in common with. -/
theorem register_inserted {loop : Loop} (hok : Ok loop) {arg : BaseArg} (harg : arg = none → id = anyId) :
    (registerWithInternal false new arg id loop).1 = .ok ∧
      Inserted ⟨arg.base, id, new⟩ (regs loop) (regs (registerWithInternal false new arg id loop).2) ∧
      Ok (registerWithInternal false new arg id loop).2 := by
  have hbase : arg.base = .any → id = anyId := by
    intro h
    cases arg with
    | none => exact harg rfl
    | some base => cases h
  have hnew := loopNodeAdd_inserted new emptyLoopNode_ok hbase fun _ => rfl
  have hnone : (⟨[], []⟩ : LoopNode).regs = [] := rfl
  rw [hnone] at hnew
  unfold registerWithInternal
  rw [if_neg (fun h => h.2 (harg h.1))]
  split
  · rename_i hsplit
    have hloop : loop = [] := by
      cases loop with
      | nil => rfl
      | cons x xs => exact absurd (splitLast_none hsplit x List.mem_cons_self) (by decide)
    subst hloop
    refine ⟨rfl, ?_, ?_⟩
    · simpa [regs] using hnew.1
    · intro x hx
      rw [List.mem_singleton] at hx
      subst hx
      exact hnew.2
  · rename_i pre last post hsplit
    obtain ⟨hnodes, -, hpost⟩ := splitLast_some hsplit
    have hend : post = [] := by
      cases post with
      | nil => rfl
      | cons y ys => exact absurd (hpost y List.mem_cons_self) (by decide)
    subst hend
    split
    · refine ⟨rfl, ?_, fun x hx => ?_⟩
      · unfold regs
        rw [List.flatMap_append, List.flatMap_singleton]
        have h := hnew.1.behind (loop.flatMap LoopNode.regs)
        simpa using h
      · rcases List.mem_append.mp hx with hx | hx
        · exact hok x hx
        · rw [List.mem_singleton] at hx
          subst hx
          exact hnew.2
    · rename_i hcond
      have hmem : last ∈ loop := by
        rw [hnodes]
        simp
      have hadd := loopNodeAdd_inserted new (hok last hmem) hbase fun h =>
        Decidable.not_not.mp fun hnodes => hcond ⟨hnodes, h, hbase h⟩
      refine ⟨rfl, ?_, fun x hx => ?_⟩
      · unfold regs
        rw [hnodes, List.flatMap_append, List.flatMap_cons, List.flatMap_append, List.flatMap_cons]
        exact (hadd.1.ahead (by simp)).behind _
      · rcases List.mem_append.mp hx with hx | hx
        · exact hok x (by rw [hnodes]; simp [hx])
        · rw [List.mem_singleton] at hx
          subst hx
          exact hadd.2

end add

/-! ## Removing -/

section remove
variable {target : Target}

theorem handlerInstancesRemove_some {handlers handlers' : List Node}
    (h : handlerInstancesRemove target handlers = some handlers') :
    ∃ pre node post, handlers = pre ++ node :: post ∧ handlers' = pre ++ post ∧ isTarget target node = true ∧
      ∀ x ∈ pre, isTarget target x = false := by
  induction handlers generalizing handlers' with
  | nil => cases h
  | cons it rest ih =>
    unfold handlerInstancesRemove at h
    split at h
    · rename_i hit
      cases h
      exact ⟨[], it, rest, rfl, rfl, hit, nofun⟩
    · rename_i hit
      obtain ⟨rest', hrest, rfl⟩ := Option.map_eq_some_iff.mp h
      obtain ⟨pre, node, post, rfl, rfl, hnode, hpre⟩ := ih hrest
      refine ⟨it :: pre, node, post, rfl, rfl, hnode, fun x hx => ?_⟩
      rcases List.mem_cons.mp hx with rfl | hx
      · exact Bool.eq_false_iff.mpr hit
      · exact hpre x hx

theorem handlerInstancesRemove_none {handlers : List Node} :
    handlerInstancesRemove target handlers = none ↔ ∀ it ∈ handlers, isTarget target it = false := by
  induction handlers with
  | nil => exact ⟨fun _ => nofun, fun _ => rfl⟩
  | cons it rest ih =>
    unfold handlerInstancesRemove
    rw [List.forall_mem_cons, ← ih]
    cases hit : isTarget target it <;> simp

/-- The registration for the base and the id, of the context or the function that is to go. -/
def IsTarget (target : Target) (base : Base) (id : Id) (r : Reg) : Prop :=
  r.base = base ∧ r.id = id ∧ isTarget target r.node = true

variable {base : Base} {id : Id}

/-- The first of a list with a property was taken out. -/
def First (p : Reg → Prop) (list list' : List Reg) : Prop :=
  ∃ pre r post, list = pre ++ r :: post ∧ list' = pre ++ post ∧ p r ∧ ∀ x ∈ pre, ¬p x

theorem First.append {p : Reg → Prop} {list list' : List Reg} (h : First p list list') (before : List Reg)
    (hbefore : ∀ x ∈ before, ¬p x) (after : List Reg) : First p (before ++ (list ++ after)) (before ++ (list' ++ after)) := by
  obtain ⟨pre, r, post, rfl, rfl, hr, hpre⟩ := h
  refine ⟨before ++ pre, r, post ++ after, by simp, by simp, hr, fun x hx => ?_⟩
  exact (List.mem_append.mp hx).elim (hbefore x) (hpre x)

theorem handlers_first {handlers handlers' : List Node} (b : Base) (i : Id)
    (h : handlerInstancesRemove target handlers = some handlers') :
    First (IsTarget target b i) (handlers.map fun node => ⟨b, i, node⟩) (handlers'.map fun node => ⟨b, i, node⟩) := by
  obtain ⟨pre, node, post, rfl, rfl, hnode, hpre⟩ := handlerInstancesRemove_some h
  refine ⟨pre.map fun node => ⟨b, i, node⟩, ⟨b, i, node⟩, post.map fun node => ⟨b, i, node⟩, by simp, by simp,
    ⟨rfl, rfl, hnode⟩, ?_⟩
  rintro x hx ⟨-, -, htarget⟩
  obtain ⟨y, hy, rfl⟩ := List.mem_map.mp hx
  exact absurd htarget (by rw [hpre y hy]; decide)

/-- Taking out of the first node of a list that has something to remove; it goes when it has nothing left. -/
theorem removeIn_first {α : Type} {remove : α → Option α} {empty : α → Bool} (contents : α → List Reg) (p : Reg → Prop)
    {list list' : List α} (h : removeIn remove empty list = some list')
    (hremove : ∀ x ∈ list, ∀ x', remove x = some x' → First p (contents x) (contents x'))
    (hnone : ∀ x ∈ list, remove x = none → ∀ r ∈ contents x, ¬p r)
    (hempty : ∀ x, empty x = true → contents x = []) : First p (list.flatMap contents) (list'.flatMap contents) := by
  obtain ⟨pre, x, x', post, rfl, hx, hpre, rfl⟩ := removeIn_some h
  have hlist := (hremove x (by simp) x' hx).append (pre.flatMap contents) (fun r hr => by
    obtain ⟨y, hy, hr⟩ := List.mem_flatMap.mp hr
    exact hnone y (by simp [hy]) (hpre y hy) r hr) (post.flatMap contents)
  rw [List.flatMap_append, List.flatMap_cons, List.flatMap_append]
  split
  · rename_i hgone
    rw [hempty x' hgone, List.nil_append] at hlist
    exact hlist
  · rw [List.flatMap_cons]
    exact hlist

theorem removeIn_mem {α : Type} {remove : α → Option α} {empty : α → Bool} {p : α → Prop} {list list' : List α}
    (h : removeIn remove empty list = some list') (hlist : ∀ x ∈ list, p x)
    (hremove : ∀ x x', p x → remove x = some x' → p x') : ∀ x ∈ list', p x := by
  obtain ⟨pre, x, x', post, rfl, hx, -, rfl⟩ := removeIn_some h
  intro y hy
  have hx' : p x' := hremove x x' (hlist x (by simp)) hx
  have hcases : y ∈ pre ∨ y = x' ∨ y ∈ post := by
    split at hy
    · rcases List.mem_append.mp hy with hy | hy
      · exact .inl hy
      · exact .inr (.inr hy)
    · simpa using hy
  rcases hcases with hy | rfl | hy
  · exact hlist y (by simp [hy])
  · exact hx'
  · exact hlist y (by simp [hy])

theorem idNodeRemove_some {idNode idNode' : IdNode} (h : idNodeRemoveHandler target id idNode = some idNode') :
    idNode.id = id ∧ idNode'.id = id ∧
      handlerInstancesRemove target idNode.handlers = some idNode'.handlers := by
  unfold idNodeRemoveHandler at h
  split at h
  · rename_i hid
    obtain ⟨handlers, hhandlers, rfl⟩ := Option.map_eq_some_iff.mp h
    exact ⟨hid, hid, hhandlers⟩
  · cases h

theorem removeIn_sublist {α β : Type} {remove : α → Option α} {empty : α → Bool} (key : α → β) {list list' : List α}
    (h : removeIn remove empty list = some list') (hkey : ∀ x x', remove x = some x' → key x' = key x) :
    (list'.map key).Sublist (list.map key) := by
  obtain ⟨pre, x, x', post, rfl, hx, -, rfl⟩ := removeIn_some h
  rw [List.map_append, List.map_append, List.map_cons]
  refine List.Sublist.append_left ?_ _
  split
  · exact List.sublist_cons_self _ _
  · rw [List.map_cons, hkey x x' hx]

theorem baseNodeRemove_ok {baseNode baseNode' : BaseNode} (hok : baseNode.Ok)
    (h : baseNodeRemoveHandler target id baseNode = some baseNode') : baseNode'.Ok := by
  unfold baseNodeRemoveHandler at h
  split at h
  · obtain ⟨handlers, -, rfl⟩ := Option.map_eq_some_iff.mp h
    exact ⟨hok.base, hok.ids, hok.specific⟩
  · obtain ⟨idNodes, hidNodes, rfl⟩ := Option.map_eq_some_iff.mp h
    refine ⟨hok.base, ?_, ?_⟩
    · have hsub := removeIn_sublist IdNode.id hidNodes fun x x' hx => by
        obtain ⟨hid, hid', -⟩ := idNodeRemove_some hx
        rw [hid, hid']
      have hids := hok.ids
      rw [← List.pairwise_map (f := IdNode.id) (R := fun i j => i ≠ j)] at hids ⊢
      exact hids.sublist hsub
    · refine removeIn_mem hidNodes hok.specific fun x x' hx hremove => ?_
      obtain ⟨hid, hid', -⟩ := idNodeRemove_some hremove
      rw [hid']
      exact hid ▸ hx

theorem idNodeRemove_none {idNode : IdNode} (b : Base) (h : idNodeRemoveHandler target id idNode = none) :
    ∀ r ∈ idNode.regs b, ¬IsTarget target b id r := by
  rintro r hr ⟨-, hid, htarget⟩
  obtain ⟨node, hnode, rfl⟩ := List.mem_map.mp hr
  unfold idNodeRemoveHandler at h
  rw [if_pos hid, Option.map_eq_none_iff, handlerInstancesRemove_none] at h
  exact absurd htarget (by rw [h node hnode]; decide)

theorem baseNodeRemove_none {baseNode : BaseNode} (hok : baseNode.Ok)
    (h : baseNodeRemoveHandler target id baseNode = none) :
    ∀ r ∈ baseNode.regs, ¬IsTarget target baseNode.base id r := by
  rintro r hr ⟨-, hid, htarget⟩
  unfold baseNodeRemoveHandler at h
  unfold BaseNode.regs at hr
  rw [List.mem_append] at hr
  split at h
  · rename_i hany
    rw [Option.map_eq_none_iff, handlerInstancesRemove_none] at h
    rcases hr with hr | hr
    · obtain ⟨node, hnode, rfl⟩ := List.mem_map.mp hr
      exact absurd htarget (by rw [h node hnode]; decide)
    · obtain ⟨idNode, hidNode, hr⟩ := List.mem_flatMap.mp hr
      obtain ⟨node, -, rfl⟩ := List.mem_map.mp hr
      exact hok.specific idNode hidNode (hid.trans hany)
  · rename_i hany
    rw [Option.map_eq_none_iff, removeIn_none] at h
    rcases hr with hr | hr
    · obtain ⟨node, -, rfl⟩ := List.mem_map.mp hr
      exact hany hid.symm
    · obtain ⟨idNode, hidNode, hr⟩ := List.mem_flatMap.mp hr
      have hbase := (mem_regs_base (List.mem_append_right _ (List.mem_flatMap.mpr ⟨idNode, hidNode, hr⟩)))
      exact idNodeRemove_none baseNode.base (h idNode hidNode) r hr ⟨hbase, hid, htarget⟩

theorem baseNodeRemove_first {baseNode baseNode' : BaseNode}
    (h : baseNodeRemoveHandler target id baseNode = some baseNode') :
    First (IsTarget target baseNode.base id) baseNode.regs baseNode'.regs := by
  unfold baseNodeRemoveHandler at h
  split at h
  · rename_i hid
    subst hid
    obtain ⟨handlers, hhandlers, rfl⟩ := Option.map_eq_some_iff.mp h
    exact (handlers_first baseNode.base anyId hhandlers).append [] (fun _ h => nomatch h) _
  · rename_i hany
    obtain ⟨idNodes, hidNodes, rfl⟩ := Option.map_eq_some_iff.mp h
    have hfirst := removeIn_first (IdNode.regs baseNode.base) (IsTarget target baseNode.base id) hidNodes
      (fun x _ x' hx => by
        obtain ⟨hid, hid', hhandlers⟩ := idNodeRemove_some hx
        unfold IdNode.regs
        rw [hid, hid']
        exact handlers_first baseNode.base id hhandlers)
      (fun x _ hx => idNodeRemove_none baseNode.base hx)
      (fun x hx => by
        unfold IdNode.regs
        rw [List.isEmpty_iff.mp hx]
        rfl)
    have h := hfirst.append (baseNode.handlers.map fun node => ⟨baseNode.base, anyId, node⟩) (fun r hr ht => by
      obtain ⟨node, -, rfl⟩ := List.mem_map.mp hr
      exact hany ht.2.1.symm) []
    simpa [BaseNode.regs] using h

theorem loopNodeRemove_none {loopNode : LoopNode} (hok : loopNode.Ok)
    (h : loopNodeRemoveHandler target base id loopNode = none) :
    ∀ r ∈ loopNode.regs, ¬IsTarget target base id r := by
  rintro r hr ⟨hbase, hid, htarget⟩
  unfold loopNodeRemoveHandler at h
  unfold LoopNode.regs at hr
  rw [List.mem_append] at hr
  split at h
  · rename_i hany
    rw [Option.map_eq_none_iff, handlerInstancesRemove_none] at h
    rcases hr with hr | hr
    · obtain ⟨node, hnode, rfl⟩ := List.mem_map.mp hr
      exact absurd htarget (by rw [h node hnode]; decide)
    · obtain ⟨baseNode, hbaseNode, hr⟩ := List.mem_flatMap.mp hr
      exact (hok baseNode hbaseNode).base ((mem_regs_base hr).symm.trans (hbase.trans hany.1))
  · rename_i hany
    rw [Option.map_eq_none_iff, removeIn_none] at h
    rcases hr with hr | hr
    · obtain ⟨node, -, rfl⟩ := List.mem_map.mp hr
      exact hany ⟨hbase.symm, hid.symm⟩
    · obtain ⟨baseNode, hbaseNode, hr⟩ := List.mem_flatMap.mp hr
      have hremove := h baseNode hbaseNode
      have hthis : baseNode.base = base := (mem_regs_base hr).symm.trans hbase
      rw [if_pos hthis] at hremove
      exact baseNodeRemove_none (hok baseNode hbaseNode) hremove r hr ⟨hbase.trans hthis.symm, hid, htarget⟩

theorem remove_none {loop : Loop} (hok : Ok loop) (h : loopRemoveHandler target base id loop = none) :
    ∀ r ∈ regs loop, ¬IsTarget target base id r := by
  intro r hr
  obtain ⟨loopNode, hloopNode, hr⟩ := List.mem_flatMap.mp hr
  exact loopNodeRemove_none (hok loopNode hloopNode) (removeIn_none.mp h loopNode hloopNode) r hr

theorem loopNodeRemove_ok {loopNode loopNode' : LoopNode} (hok : loopNode.Ok)
    (h : loopNodeRemoveHandler target base id loopNode = some loopNode') : loopNode'.Ok := by
  unfold loopNodeRemoveHandler at h
  split at h
  · obtain ⟨handlers, -, rfl⟩ := Option.map_eq_some_iff.mp h
    exact hok
  · obtain ⟨baseNodes, hbaseNodes, rfl⟩ := Option.map_eq_some_iff.mp h
    refine removeIn_mem hbaseNodes hok fun x x' hx hremove => ?_
    split at hremove
    · exact baseNodeRemove_ok hx hremove
    · cases hremove

theorem loopNodeRemove_first {loopNode loopNode' : LoopNode} (hok : loopNode.Ok)
    (h : loopNodeRemoveHandler target base id loopNode = some loopNode') :
    First (IsTarget target base id) loopNode.regs loopNode'.regs := by
  unfold loopNodeRemoveHandler at h
  split at h
  · rename_i hany
    obtain ⟨rfl, rfl⟩ := hany
    obtain ⟨handlers, hhandlers, rfl⟩ := Option.map_eq_some_iff.mp h
    exact (handlers_first .any anyId hhandlers).append [] (fun _ h => nomatch h) _
  · rename_i hany
    obtain ⟨baseNodes, hbaseNodes, rfl⟩ := Option.map_eq_some_iff.mp h
    have hfirst := removeIn_first BaseNode.regs (IsTarget target base id) hbaseNodes
      (fun x _ x' hx => by
        split at hx
        · rename_i hbase
          exact hbase ▸ baseNodeRemove_first hx
        · cases hx)
      (fun x hx hnone r hr ht => by
        have hbase : x.base = base := (mem_regs_base hr).symm.trans ht.1
        rw [if_pos hbase] at hnone
        exact baseNodeRemove_none (hok x hx) hnone r hr ⟨ht.1.trans hbase.symm, ht.2⟩)
      (fun x hx => by
        rw [Bool.and_eq_true, List.isEmpty_iff, List.isEmpty_iff] at hx
        unfold BaseNode.regs
        rw [hx.1, hx.2]
        rfl)
    have h := hfirst.append (loopNode.handlers.map fun node => ⟨.any, anyId, node⟩) (fun r hr ht => by
      obtain ⟨node, -, rfl⟩ := List.mem_map.mp hr
      exact hany ⟨ht.1.symm, ht.2.1.symm⟩) []
    simpa [LoopNode.regs] using h

/-- The first registration for the base and the id is removed, with the nodes this empties. -/
theorem remove_first {loop loop' : Loop} (hok : Ok loop) (h : loopRemoveHandler target base id loop = some loop') :
    Ok loop' ∧ First (IsTarget target base id) (regs loop) (regs loop') := by
  refine ⟨removeIn_mem h hok fun x x' hx hremove => loopNodeRemove_ok hx hremove, ?_⟩
  refine removeIn_first LoopNode.regs (IsTarget target base id) h
    (fun x hx x' hremove => loopNodeRemove_first (hok x hx) hremove)
    (fun x hx hnone => loopNodeRemove_none (hok x hx) hnone) fun x hx => ?_
  rw [Bool.and_eq_true, List.isEmpty_iff, List.isEmpty_iff] at hx
  unfold LoopNode.regs
  rw [hx.1, hx.2]
  rfl

theorem remove_erased {loop loop' : Loop} (hok : Ok loop) (h : loopRemoveHandler target base id loop = some loop') :
    Ok loop' ∧ ∃ r, IsTarget target base id r ∧ Erased r (regs loop) (regs loop') := by
  obtain ⟨hok', pre, r, post, heq, heq', hr, -⟩ := remove_first hok h
  exact ⟨hok', r, hr, pre, post, heq, heq'⟩

end remove

/-! ## Dispatching -/

end EspIdf.EspEvent
