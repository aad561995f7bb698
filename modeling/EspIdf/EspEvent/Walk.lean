import EspIdf.EspEvent.InForce

/-!
# The walk of `esp_event_loop_run`, while handlers change the lists

* `Frame`, `visit` : the nested `SLIST_FOREACH_SAFE` loops, each with the element it takes next;
* `Frame.Covers`, `visit_covers` : a node that is ahead of the walk is run, or stays ahead;
* `Fits`, `visit_fits`, `visit_ran` : it runs nodes that are in force and match the event;
* `Moves`, `register_moves`, `mark_moves` : what a handler may do to the lists on the way.

While the loop is walked nothing is taken out of the lists, so that the index of an element is as good
as its address.
-/

namespace EspIdf.EspEvent

/-- A loop that is not over, with the element it takes next. -/
inductive Frame
  /-- `temp_node` -/
  | loops (next : Option Nat)
  /-- `temp_handler` -/
  | handlers (place : Place) (next : Option Nat)
  /-- `temp_base` -/
  | bases (i : Nat) (next : Option Nat)
  /-- `temp_id_node` -/
  | ids (i k : Nat) (next : Option Nat)
deriving Repr, DecidableEq

/-- `SLIST_NEXT` of an element of a list that has `length` of them now. -/
def after (i length : Nat) : Option Nat := if i + 1 < length then some (i + 1) else none

section visit
variable (loop : Loop) (post : Event)

/-- A turn of the innermost loop: the handler it runs, and the loops it leaves. A loop that is entered reads the head
of its list only then. -/
def visit : Frame → Option Reg × List Frame
  | .loops (some i) =>
    match loop[i]? with
    | some _ => (none, [.handlers (.loop i) (some 0), .bases i (some 0), .loops (after i loop.length)])
    | none => (none, [])
  | .handlers place (some j) =>
    match handlersAt loop place with
    | some (base, id, handlers) =>
      match handlers[j]? with
      | some node =>
        (if node.unregistered then none else some ⟨base, id, node⟩, [.handlers place (after j handlers.length)])
      | none => (none, [])
    | none => (none, [])
  | .bases i (some k) =>
    match loop[i]? with
    | some loopNode =>
      match loopNode.baseNodes[k]? with
      | some baseNode =>
        let rest := Frame.bases i (after k loopNode.baseNodes.length)
        if baseNode.base = post.base then (none, [.handlers (.base i k) (some 0), .ids i k (some 0), rest])
        else (none, [rest])
      | none => (none, [])
    | none => (none, [])
  | .ids i k (some m) =>
    match loop[i]?.bind fun loopNode => loopNode.baseNodes[k]? with
    | some baseNode =>
      match baseNode.idNodes[m]? with
      | some idNode =>
        -- the other ids of the base are skipped
        if idNode.id = post.id then (none, [.handlers (.id i k m) (some 0)])
        else (none, [.ids i k (after m baseNode.idNodes.length)])
      | none => (none, [])
    | none => (none, [])
  | _ => (none, [])

end visit

section visit
variable {loop : Loop} {post : Event} {i k m j : Nat}

theorem visit_loops {loopNode : LoopNode} (h : loop[i]? = some loopNode) : visit loop post (.loops (some i)) =
    (none, [.handlers (.loop i) (some 0), .bases i (some 0), .loops (after i loop.length)]) := by
  simp [visit, h]

theorem visit_handlers {place : Place} {base : Base} {id : Id} {handlers : List Node} {node : Node}
    (hlist : handlersAt loop place = some (base, id, handlers)) (h : handlers[j]? = some node) :
    visit loop post (.handlers place (some j)) =
      (if node.unregistered then none else some ⟨base, id, node⟩, [.handlers place (after j handlers.length)]) := by
  simp [visit, hlist, h]

theorem visit_bases {loopNode : LoopNode} {baseNode : BaseNode} (hloopNode : loop[i]? = some loopNode)
    (h : loopNode.baseNodes[k]? = some baseNode) : visit loop post (.bases i (some k)) =
      (none, (if baseNode.base = post.base then [.handlers (.base i k) (some 0), .ids i k (some 0)] else []) ++
        [.bases i (after k loopNode.baseNodes.length)]) := by
  by_cases hbase : baseNode.base = post.base <;> simp [visit, hloopNode, h, hbase]

theorem visit_ids {loopNode : LoopNode} {baseNode : BaseNode} {idNode : IdNode} (hloopNode : loop[i]? = some loopNode)
    (hbaseNode : loopNode.baseNodes[k]? = some baseNode) (h : baseNode.idNodes[m]? = some idNode) :
    visit loop post (.ids i k (some m)) =
      (none, if idNode.id = post.id then [.handlers (.id i k m) (some 0)] else [.ids i k (after m baseNode.idNodes.length)]) := by
  by_cases hid : idNode.id = post.id <;> simp [visit, hloopNode, hbaseNode, h, hid]

end visit

theorem after_lt {i n length : Nat} (hi : i < n) (hn : n < length) : ∃ next, after i length = some next ∧ next ≤ n := by
  unfold after
  rw [if_pos (by omega)]
  exact ⟨i + 1, rfl, hi⟩

/-! ## Nodes ahead -/

/-- The node is one that the loop still comes to. -/
inductive Frame.Covers : Frame → Place → Nat → Prop
  | loop {n i : Nat} (h : n ≤ i) (j : Nat) : Covers (.loops (some n)) (.loop i) j
  | loopBase {n i : Nat} (h : n ≤ i) (k j : Nat) : Covers (.loops (some n)) (.base i k) j
  | loopId {n i : Nat} (h : n ≤ i) (k m j : Nat) : Covers (.loops (some n)) (.id i k m) j
  | handler {place : Place} {n j : Nat} (h : n ≤ j) : Covers (.handlers place (some n)) place j
  | base {i n k : Nat} (h : n ≤ k) (j : Nat) : Covers (.bases i (some n)) (.base i k) j
  | baseId {i n k : Nat} (h : n ≤ k) (m j : Nat) : Covers (.bases i (some n)) (.id i k m) j
  | id {i k n m : Nat} (h : n ≤ m) (j : Nat) : Covers (.ids i k (some n)) (.id i k m) j

section ahead
variable {loop : Loop} {post : Event} {place : Place} {j : Nat} {r : Reg}

theorem loopNode_of_nodeAt (h : nodeAt loop place j = some r) :
    ∃ i loopNode, loop[i]? = some loopNode ∧ match place with
      | .loop i' => i' = i
      | .base i' k => i' = i ∧ ∃ baseNode, loopNode.baseNodes[k]? = some baseNode ∧ r.base = baseNode.base ∧ r.id = anyId
      | .id i' k m => i' = i ∧ ∃ baseNode, loopNode.baseNodes[k]? = some baseNode ∧ r.base = baseNode.base ∧
          ∃ idNode, baseNode.idNodes[m]? = some idNode ∧ r.id = idNode.id := by
  obtain ⟨base, id, node⟩ := r
  obtain ⟨handlers, hlist, hnode⟩ := nodeAt_some.mp h
  unfold handlersAt at hlist
  cases place with
  | loop i =>
    obtain ⟨loopNode, hloopNode, -⟩ := Option.map_eq_some_iff.mp hlist
    exact ⟨i, loopNode, hloopNode, rfl⟩
  | base i k =>
    obtain ⟨baseNode, hbaseNode, heq⟩ := Option.map_eq_some_iff.mp hlist
    obtain ⟨loopNode, hloopNode, hbaseNode⟩ := Option.bind_eq_some_iff.mp hbaseNode
    rw [Prod.mk.injEq, Prod.mk.injEq] at heq
    exact ⟨i, loopNode, hloopNode, rfl, baseNode, hbaseNode, heq.1.symm, heq.2.1.symm⟩
  | id i k m =>
    obtain ⟨baseNode, hbaseNode, heq⟩ := Option.bind_eq_some_iff.mp hlist
    obtain ⟨loopNode, hloopNode, hbaseNode⟩ := Option.bind_eq_some_iff.mp hbaseNode
    obtain ⟨idNode, hidNode, heq⟩ := Option.map_eq_some_iff.mp heq
    rw [Prod.mk.injEq, Prod.mk.injEq] at heq
    exact ⟨i, loopNode, hloopNode, rfl, baseNode, hbaseNode, heq.1.symm, idNode, hidNode, heq.2.1.symm⟩

/-- A node in force, which matches the event and is ahead, is run now or stays ahead. -/
theorem visit_covers (hok : Ok loop) {frame : Frame} (hnode : nodeAt loop place j = some r)
    (hlive : r.node.unregistered = false) (hmatches : r.matches post = true) (hcovers : frame.Covers place j) :
    (visit loop post frame).1 = some r ∨ ∃ frame' ∈ (visit loop post frame).2, frame'.Covers place j := by
  have hlt : ∀ {α : Type} {list : List α} {i : Nat} {x : α}, list[i]? = some x → i < list.length :=
    fun h => (List.getElem?_eq_some_iff.mp h).1
  have hget : ∀ {α : Type} {list : List α} {n i : Nat} {x : α}, list[i]? = some x → n ≤ i → ∃ y, list[n]? = some y :=
    fun h hn => ⟨_, List.getElem?_eq_getElem (Nat.lt_of_le_of_lt hn (hlt h))⟩
  have hplace := loopNode_of_nodeAt hnode
  cases hcovers with
  | @loop n i h =>
    obtain ⟨_, loopNode, hloopNode, rfl⟩ := hplace
    obtain ⟨x, hx⟩ := hget hloopNode h
    refine .inr ?_
    rw [visit_loops hx]
    rcases Nat.eq_or_lt_of_le h with rfl | hn
    · exact ⟨_, List.mem_cons_self, .handler (Nat.zero_le _)⟩
    · obtain ⟨next, hnext, hle⟩ := after_lt hn (hlt hloopNode)
      exact ⟨.loops (some next), by simp [hnext], .loop hle j⟩
  | @loopBase n i h k =>
    obtain ⟨_, loopNode, hloopNode, rfl, -⟩ := hplace
    obtain ⟨x, hx⟩ := hget hloopNode h
    refine .inr ?_
    rw [visit_loops hx]
    rcases Nat.eq_or_lt_of_le h with rfl | hn
    · exact ⟨.bases n (some 0), by simp, .base (Nat.zero_le _) j⟩
    · obtain ⟨next, hnext, hle⟩ := after_lt hn (hlt hloopNode)
      exact ⟨.loops (some next), by simp [hnext], .loopBase hle k j⟩
  | @loopId n i h k m =>
    obtain ⟨_, loopNode, hloopNode, rfl, -⟩ := hplace
    obtain ⟨x, hx⟩ := hget hloopNode h
    refine .inr ?_
    rw [visit_loops hx]
    rcases Nat.eq_or_lt_of_le h with rfl | hn
    · exact ⟨.bases n (some 0), by simp, .baseId (Nat.zero_le _) m j⟩
    · obtain ⟨next, hnext, hle⟩ := after_lt hn (hlt hloopNode)
      exact ⟨.loops (some next), by simp [hnext], .loopId hle k m j⟩
  | @handler _ n _ h =>
    obtain ⟨handlers, hlist, hj⟩ := nodeAt_some.mp hnode
    obtain ⟨x, hx⟩ := hget hj h
    rw [visit_handlers hlist hx]
    rcases Nat.eq_or_lt_of_le h with rfl | hn
    · rw [hj] at hx
      cases hx
      refine .inl ?_
      dsimp only
      rw [if_neg (by rw [hlive]; decide)]
    · obtain ⟨next, hnext, hle⟩ := after_lt hn (hlt hj)
      exact .inr ⟨.handlers place (some next), by simp [hnext], .handler hle⟩
  | @base i n k h =>
    obtain ⟨_, loopNode, hloopNode, rfl, baseNode, hbaseNode, hbase, -⟩ := hplace
    obtain ⟨x, hx⟩ := hget hbaseNode h
    refine .inr ?_
    rw [visit_bases hloopNode hx]
    rcases Nat.eq_or_lt_of_le h with rfl | hn
    · rw [hbaseNode] at hx
      cases hx
      have hany := (hok loopNode (List.mem_of_getElem? hloopNode) _ (List.mem_of_getElem? hbaseNode)).base
      have hthis : baseNode.base = post.base := by
        unfold Reg.matches at hmatches
        simpa [hbase, hany] using (Bool.and_eq_true_iff.mp hmatches).1
      exact ⟨.handlers (.base i n) (some 0), by simp [hthis], .handler (Nat.zero_le _)⟩
    · obtain ⟨next, hnext, hle⟩ := after_lt hn (hlt hbaseNode)
      exact ⟨.bases i (some next), by simp [hnext], .base hle j⟩
  | @baseId i n k h m =>
    obtain ⟨_, loopNode, hloopNode, rfl, baseNode, hbaseNode, hbase, -⟩ := hplace
    obtain ⟨x, hx⟩ := hget hbaseNode h
    refine .inr ?_
    rw [visit_bases hloopNode hx]
    rcases Nat.eq_or_lt_of_le h with rfl | hn
    · rw [hbaseNode] at hx
      cases hx
      have hany := (hok loopNode (List.mem_of_getElem? hloopNode) _ (List.mem_of_getElem? hbaseNode)).base
      have hthis : baseNode.base = post.base := by
        unfold Reg.matches at hmatches
        simpa [hbase, hany] using (Bool.and_eq_true_iff.mp hmatches).1
      exact ⟨.ids i n (some 0), by simp [hthis], .id (Nat.zero_le _) j⟩
    · obtain ⟨next, hnext, hle⟩ := after_lt hn (hlt hbaseNode)
      exact ⟨.bases i (some next), by simp [hnext], .baseId hle m j⟩
  | @id i k n m h =>
    obtain ⟨_, loopNode, hloopNode, rfl, baseNode, hbaseNode, hbase, idNode, hidNode, hid⟩ := hplace
    obtain ⟨x, hx⟩ := hget hidNode h
    have hbaseOk := hok loopNode (List.mem_of_getElem? hloopNode) _ (List.mem_of_getElem? hbaseNode)
    have hthis : idNode.id = post.id := by
      have hany := hbaseOk.specific idNode (List.mem_of_getElem? hidNode)
      unfold Reg.matches at hmatches
      simpa [hid, hany] using (Bool.and_eq_true_iff.mp hmatches).2
    refine .inr ?_
    rw [visit_ids hloopNode hbaseNode hx]
    rcases Nat.eq_or_lt_of_le h with rfl | hn
    · rw [hidNode] at hx
      cases hx
      rw [if_pos hthis]
      exact ⟨_, List.mem_cons_self, .handler (Nat.zero_le _)⟩
    · -- an id that comes earlier is another one
      have hother : x.id ≠ post.id := by
        obtain ⟨hm, heq⟩ := List.getElem?_eq_some_iff.mp hidNode
        obtain ⟨hn', heq'⟩ := List.getElem?_eq_some_iff.mp hx
        have hne := List.pairwise_iff_getElem.mp hbaseOk.ids n m hn' hm hn
        rw [heq, heq', hthis] at hne
        exact hne
      rw [if_neg hother]
      obtain ⟨next, hnext, hle⟩ := after_lt hn (hlt hidNode)
      exact ⟨.ids i k (some next), by simp [hnext], .id hle j⟩

end ahead

/-! ## Where the walk is -/

/-- The base and the id of the handlers at a place. -/
def labelAt (loop : Loop) (place : Place) : Option (Base × Id) :=
  (handlersAt loop place).map fun list => (list.1, list.2.1)

/-- The loop is over handlers that the event is for. -/
def Fits (loop : Loop) (post : Event) : Frame → Prop
  | .handlers place _ => ∃ base id, labelAt loop place = some (base, id) ∧ (base = .any ∨ base = post.base) ∧
      (id = anyId ∨ id = post.id)
  | .ids i k _ => labelAt loop (.base i k) = some (post.base, anyId)
  | _ => True

section fits
variable {loop : Loop} {post : Event} {frame : Frame}

theorem labelAt_base {i k : Nat} {loopNode : LoopNode} {baseNode : BaseNode} (hloopNode : loop[i]? = some loopNode)
    (hbaseNode : loopNode.baseNodes[k]? = some baseNode) : labelAt loop (.base i k) = some (baseNode.base, anyId) := by
  rw [labelAt, handlersAt_base hloopNode hbaseNode]
  rfl

theorem visit_fits (h : Fits loop post frame) : ∀ frame' ∈ (visit loop post frame).2, Fits loop post frame' := by
  unfold visit
  split
  · split
    · rename_i loopNode hloopNode
      simp only [List.forall_mem_cons]
      refine ⟨⟨.any, anyId, ?_, .inl rfl, .inl rfl⟩, trivial, trivial, nofun⟩
      rw [labelAt, handlersAt_loop hloopNode]
      rfl
    · nofun
  · split
    · split
      · intro frame' hframe'
        rw [List.mem_singleton.mp hframe']
        exact h
      · nofun
    · nofun
  · split
    · rename_i loopNode hloopNode
      split
      · rename_i baseNode hbaseNode
        have hlabel := labelAt_base hloopNode hbaseNode
        dsimp only
        split
        · rename_i hbase
          rw [hbase] at hlabel
          simp only [List.forall_mem_cons]
          exact ⟨⟨_, _, hlabel, .inr rfl, .inl rfl⟩, hlabel, trivial, nofun⟩
        · intro frame' hframe'
          rw [List.mem_singleton.mp hframe']
          trivial
      · nofun
    · nofun
  · rename_i i k m
    split
    · rename_i baseNode hbaseNode
      obtain ⟨loopNode, hloopNode, hbaseNode⟩ := Option.bind_eq_some_iff.mp hbaseNode
      have hbase : baseNode.base = post.base := by
        have hlabel := (labelAt_base hloopNode hbaseNode).symm.trans h
        rw [Option.some.injEq, Prod.mk.injEq] at hlabel
        exact hlabel.1
      split
      · rename_i idNode hidNode
        split
        · rename_i hid
          intro frame' hframe'
          rw [List.mem_singleton.mp hframe']
          refine ⟨post.base, post.id, ?_, .inr rfl, .inr rfl⟩
          rw [labelAt, handlersAt_id hloopNode hbaseNode hidNode, hbase, hid]
          rfl
        · intro frame' hframe'
          rw [List.mem_singleton.mp hframe']
          exact h
      · nofun
    · nofun
  · nofun

/-- What is run is the node that a loop over handlers is at, which is in force. -/
theorem visit_ran {r : Reg} : (visit loop post frame).1 = some r ↔
    ∃ place j, frame = .handlers place (some j) ∧ nodeAt loop place j = some r ∧ r.node.unregistered = false := by
  constructor
  · intro h
    unfold visit at h
    split at h
    · split at h <;> cases h
    · rename_i place j
      split at h
      · rename_i base id handlers hlist
        split at h
        · rename_i node hnode
          dsimp only at h
          split at h
          · cases h
          · rename_i hlive
            cases h
            exact ⟨place, j, rfl, nodeAt_some.mpr ⟨handlers, hlist, hnode⟩, Bool.eq_false_iff.mpr hlive⟩
        · cases h
      · cases h
    · split at h
      · split at h
        · dsimp only at h
          split at h <;> cases h
        · cases h
      · cases h
    · split at h
      · split at h
        · split at h <;> cases h
        · cases h
      · cases h
    · cases h
  · rintro ⟨place, j, rfl, hnode, hlive⟩
    obtain ⟨handlers, hlist, hj⟩ := nodeAt_some.mp hnode
    rw [visit_handlers hlist hj, hlive]
    rfl

theorem Fits.matches {place : Place} {j : Nat} {next : Option Nat} {r : Reg} (h : Fits loop post (.handlers place next))
    (hnode : nodeAt loop place j = some r) : r.matches post = true := by
  obtain ⟨base, id, hlabel, hbase, hid⟩ := h
  obtain ⟨handlers, hlist, -⟩ := nodeAt_some.mp hnode
  rw [labelAt, hlist, Option.map_some, Option.some.injEq, Prod.mk.injEq] at hlabel
  obtain ⟨rfl, rfl⟩ := hlabel
  simp [Reg.matches, hbase, hid]

end fits

/-! ## What handlers do on the way -/

/-- The lists are what they were, but for what was added, and for nodes that are no longer in force. -/
structure Moves (loop loop' : Loop) : Prop where
  labels : ∀ place label, labelAt loop place = some label → labelAt loop' place = some label
  nodes : ∀ place j r, nodeAt loop place j = some r → r.node.unregistered = false → r.key ∈ inForce loop' →
    ∃ r', nodeAt loop' place j = some r' ∧ r'.node.unregistered = false ∧ r'.key = r.key

theorem Moves.refl (loop : Loop) : Moves loop loop := ⟨fun _ _ h => h, fun _ _ r h hlive _ => ⟨r, h, hlive, rfl⟩⟩

theorem Moves.fits {loop loop' : Loop} {post : Event} {frame : Frame} (hmoves : Moves loop loop')
    (h : Fits loop post frame) : Fits loop' post frame := by
  cases frame with
  | handlers place next =>
    obtain ⟨base, id, hlabel, hmatches⟩ := h
    exact ⟨base, id, hmoves.labels _ _ hlabel, hmatches⟩
  | ids i k next => exact hmoves.labels _ _ h
  | loops next => trivial
  | bases i next => trivial

theorem register_moves (legacy : Bool) (new : Node) (base : BaseArg) (id : Id) (loop : Loop) :
    Moves loop (registerWithInternal legacy new base id loop).2 := by
  have hkeeps := register_keeps legacy new id base loop
  refine ⟨fun place label h => ?_, fun place j r h hlive _ => ?_⟩
  · obtain ⟨⟨b, i, handlers⟩, hlist, rfl⟩ := Option.map_eq_some_iff.mp h
    obtain ⟨handlers', hlist', -⟩ := hkeeps.handlersAt hlist
    rw [labelAt, hlist']
    rfl
  · obtain ⟨node, hnode, hhandler, hmark⟩ := hkeeps.nodeAt h
    refine ⟨_, hnode, hmark.trans hlive, ?_⟩
    unfold Reg.key
    rw [hhandler]

theorem mark_moves {loop : Loop} {place : Place} {j : Nat} {r : Reg} (hdistinct : (inForce loop).Nodup)
    (h : nodeAt loop place j = some r) (hlive : r.node.unregistered = false) :
    Moves loop (modifyAt loop marked place j) := by
  refine ⟨fun place' label h => ?_, fun place' j' r' h' hlive' hforce => ?_⟩
  · obtain ⟨list, hlist, rfl⟩ := Option.map_eq_some_iff.mp h
    rw [labelAt, handlersAt_modifyAt, hlist]
    rfl
  · by_cases hthis : place' = place ∧ j' = j
    · obtain ⟨rfl, rfl⟩ := hthis
      rw [h] at h'
      cases h'
      have hnodup := (mark_inForce h hlive).nodup_iff.mp hdistinct
      exact absurd hforce (List.nodup_cons.mp hnodup).1
    · exact ⟨r', modifyAt_nodeAt marked hthis h', hlive', rfl⟩

end EspIdf.EspEvent
