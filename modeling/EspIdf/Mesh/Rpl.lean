import Mathlib.Data.List.Basic

/-!
# The replay protection list of a mesh node

* `Rpl`, `rplSlot`, `rplUpdate` : the list, its look-up and its ageing at an IV update;
* `Node`, `step` : the list with the IV index and what has been accepted so far;
* `rplSlot_some`, `rplSlot_none` : what a look-up finds;
* `Clear` : no empty slot before the entry of a source;
* `replay_protected_iff` : over runs, when no source has two entries and no message is accepted
  out of order.
-/

namespace EspIdf.Mesh

/-! ## The list -/

/-- `struct bt_mesh_rpl`; an empty slot has the unassigned address `0`. -/
structure Rpl where
  src : Nat
  oldIv : Bool
  seq : Nat
deriving Repr, DecidableEq

def Rpl.empty : Rpl := ⟨0, false, 0⟩

/-- What the network layer reads from a message to this node that came over the air. -/
structure NetRx where
  src : Nat
  oldIv : Bool
  seq : Nat
  /-- the source of a network message is a unicast address -/
  unicast : 0 < src
deriving DecidableEq

/-- `bt_mesh_update_rpl` -/
def updateRpl (rx : NetRx) : Rpl := ⟨rx.src, rx.oldIv, rx.seq⟩

/-- The message is later than the entry of its source. -/
def Newer (rx : NetRx) (rpl : Rpl) : Prop :=
  ¬(rx.oldIv = true ∧ rpl.oldIv = false) ∧ ((rx.oldIv = false ∧ rpl.oldIv = true) ∨ rpl.seq < rx.seq)

instance (rx : NetRx) (rpl : Rpl) : Decidable (Newer rx rpl) := by
  unfold Newer
  infer_instance

/-- The loop of `rpl_check_and_store`: the slot for an accepted message, none for a replay or a full
list. -/
def rplSlot (rx : NetRx) : List Rpl → Option Nat
  | [] => none
  | rpl :: rest =>
    if rpl.src = 0 then some 0
    else if rpl.src = rx.src then if Newer rx rpl then some 0 else none
    else (rplSlot rx rest).map (· + 1)

/-- `bt_mesh_rpl_update` -/
def rplUpdate (list : List Rpl) : List Rpl :=
  list.map fun rpl => if rpl.src = 0 then rpl else if rpl.oldIv then Rpl.empty else { rpl with oldIv := true }

/-! ## Runs -/

/-- A message of a source, by its full IV index and its sequence number. -/
structure Accepted where
  src : Nat
  ivIndex : Int
  seq : Nat
deriving Repr, DecidableEq

/-- The order of `(IV index, sequence number)`. -/
def Accepted.Before (p q : Accepted) : Prop := p.ivIndex < q.ivIndex ∨ (p.ivIndex = q.ivIndex ∧ p.seq < q.seq)

instance (p q : Accepted) : Decidable (p.Before q) := by
  unfold Accepted.Before
  infer_instance

structure Node where
  rpl : List Rpl
  ivIndex : Int
  /-- what has been accepted, the earliest first -/
  accepted : List Accepted
deriving Repr, DecidableEq

inductive Event
  /-- a message, checked by `bt_mesh_rpl_check` with immediate update -/
  | receive (rx : NetRx)
  /-- the IV index goes up by one -/
  | ivUpdate

/-- The IV index a message was sent under. -/
def ivOf (ivIndex : Int) (old : Bool) : Int := if old then ivIndex - 1 else ivIndex

def step (node : Node) : Event → Node
  | .receive rx =>
    match rplSlot rx node.rpl with
    | none => node
    | some i =>
      { node with
        rpl := node.rpl.set i (updateRpl rx)
        accepted := node.accepted ++ [⟨rx.src, ivOf node.ivIndex rx.oldIv, rx.seq⟩] }
  | .ivUpdate => { node with rpl := rplUpdate node.rpl, ivIndex := node.ivIndex + 1 }

/-- A node with `size` empty slots. -/
def Node.init (size : Nat) (ivIndex : Int) : Node := ⟨List.replicate size Rpl.empty, ivIndex, []⟩

/-- No source has two entries. -/
def Single (list : List Rpl) : Prop := list.Pairwise fun a b => a.src = 0 ∨ a.src ≠ b.src

/-- What was accepted from one source is strictly increasing. -/
def Increasing (accepted : List Accepted) : Prop := accepted.Pairwise fun p q => p.src = q.src → p.Before q

def Node.Protected (node : Node) : Prop := Single node.rpl ∧ Increasing node.accepted

/-- `P` holds in every state of a run. -/
def Throughout (P : Node → Prop) (node : Node) : List Event → Prop
  | [] => P node
  | event :: later => P node ∧ Throughout P (step node event) later

/-- No empty slot stands before an entry of the source. -/
def Clear (src : Nat) (list : List Rpl) : Prop := list.Pairwise fun a b => a.src = 0 → b.src ≠ src

def Event.Clear (node : Node) : Event → Prop
  | .receive rx => Mesh.Clear rx.src node.rpl
  | .ivUpdate => True

/-- Every message of the run meets a list whose empty slots stand behind the entry of its source. -/
def Unobstructed (node : Node) : List Event → Prop
  | [] => True
  | event :: later => event.Clear node ∧ Unobstructed (step node event) later

/-! ## The look-up -/

theorem rplSlot_some {rx : NetRx} {list : List Rpl} {i : Nat} (h : rplSlot rx list = some i) :
    ∃ before slot after, list = before ++ slot :: after ∧ before.length = i ∧
      (∀ rpl ∈ before, rpl.src ≠ 0 ∧ rpl.src ≠ rx.src) ∧ (slot.src = 0 ∨ (slot.src = rx.src ∧ Newer rx slot)) := by
  induction list generalizing i with
  | nil => cases h
  | cons rpl rest ih =>
    simp only [rplSlot] at h
    split at h
    · rename_i hempty
      cases h
      exact ⟨[], rpl, rest, rfl, rfl, nofun, .inl hempty⟩
    · rename_i hused
      split at h
      · rename_i hsrc
        split at h
        · rename_i hnew
          cases h
          exact ⟨[], rpl, rest, rfl, rfl, nofun, .inr ⟨hsrc, hnew⟩⟩
        · cases h
      · rename_i hother
        rw [Option.map_eq_some_iff] at h
        obtain ⟨j, hj, rfl⟩ := h
        obtain ⟨before, slot, after, rfl, rfl, hbefore, hslot⟩ := ih hj
        refine ⟨rpl :: before, slot, after, rfl, rfl, ?_, hslot⟩
        intro rpl' hmem
        rcases List.mem_cons.mp hmem with rfl | hmem
        · exact ⟨hused, hother⟩
        · exact hbefore rpl' hmem

/-- The list after an accepted message. -/
theorem step_accepted {node : Node} {rx : NetRx} {i : Nat} (h : rplSlot rx node.rpl = some i) :
    ∃ before slot after, node.rpl = before ++ slot :: after ∧
      step node (.receive rx) =
        { node with
          rpl := before ++ updateRpl rx :: after
          accepted := node.accepted ++ [⟨rx.src, ivOf node.ivIndex rx.oldIv, rx.seq⟩] } ∧
      (∀ rpl ∈ before, rpl.src ≠ 0 ∧ rpl.src ≠ rx.src) ∧ (slot.src = 0 ∨ (slot.src = rx.src ∧ Newer rx slot)) := by
  obtain ⟨before, slot, after, hlist, hlen, hbefore, hslot⟩ := rplSlot_some h
  refine ⟨before, slot, after, hlist, ?_, hbefore, hslot⟩
  simp only [step, h]
  rw [hlist, ← hlen, List.set_append_right _ _ (Nat.le_refl _), Nat.sub_self, List.set_cons_zero]

/-- Where the entry of the source is behind no empty slot, no entry of it is left behind the slot found. -/
theorem clear_after {rx : NetRx} {before after : List Rpl} {slot : Rpl} (hsingle : Single (before ++ slot :: after))
    (hclear : Clear rx.src (before ++ slot :: after)) (hslot : slot.src = 0 ∨ slot.src = rx.src) :
    ∀ rpl ∈ after, rpl.src ≠ rx.src := by
  have hs := (List.pairwise_append.mp hsingle).2.1
  have hc := (List.pairwise_append.mp hclear).2.1
  rw [List.pairwise_cons] at hs hc
  intro rpl hmem
  rcases hslot with hempty | hsrc
  · exact hc.1 rpl hmem hempty
  · rcases hs.1 rpl hmem with hzero | hne
    · exact absurd (hsrc.symm.trans hzero) (Nat.ne_of_gt rx.unicast)
    · exact fun h => hne (hsrc.trans h.symm)

theorem single_store {rx : NetRx} {before after : List Rpl} {slot : Rpl} (hsingle : Single (before ++ slot :: after))
    (hbefore : ∀ rpl ∈ before, rpl.src ≠ 0 ∧ rpl.src ≠ rx.src) (hafter : ∀ rpl ∈ after, rpl.src ≠ rx.src) :
    Single (before ++ updateRpl rx :: after) := by
  unfold Single at hsingle ⊢
  rw [List.pairwise_append, List.pairwise_cons] at hsingle ⊢
  obtain ⟨hb, ⟨-, ha⟩, hcross⟩ := hsingle
  refine ⟨hb, ⟨fun rpl hmem => .inr fun h => hafter rpl hmem h.symm, ha⟩, ?_⟩
  intro a hmem b hmem'
  rcases List.mem_cons.mp hmem' with rfl | hmem'
  · exact .inr (hbefore a hmem).2
  · exact hcross a hmem b (List.mem_cons_of_mem _ hmem')

/-! ## The invariant -/

/-- The entry `rpl` stands for everything accepted from its source up to its own number. -/
def Covers (ivIndex : Int) (rpl : Rpl) (p : Accepted) : Prop :=
  rpl.src = p.src ∧ (p.ivIndex < ivOf ivIndex rpl.oldIv ∨ (p.ivIndex = ivOf ivIndex rpl.oldIv ∧ p.seq ≤ rpl.seq))

structure Inv (node : Node) : Prop where
  single : Single node.rpl
  increasing : Increasing node.accepted
  known : ∀ p ∈ node.accepted, 0 < p.src
  /-- what was accepted under an IV index that is still accepted has an entry -/
  covered : ∀ p ∈ node.accepted, node.ivIndex - 1 ≤ p.ivIndex → ∃ rpl ∈ node.rpl, Covers node.ivIndex rpl p

theorem inv_init (size : Nat) (ivIndex : Int) : Inv (Node.init size ivIndex) where
  single := by
    unfold Single Node.init
    rw [List.pairwise_replicate]
    exact .inr (.inl rfl)
  increasing := List.Pairwise.nil
  known := nofun
  covered := nofun

theorem inv_ivUpdate {node : Node} (h : Inv node) : Inv (step node .ivUpdate) where
  single := by
    change List.Pairwise _ (List.map _ _)
    rw [List.pairwise_map]
    refine h.single.imp ?_
    intro a b hab
    split
    · rename_i hzero
      exact .inl hzero
    · rename_i hused
      split
      · exact .inl rfl
      · refine .inr ?_
        have hne := hab.resolve_left hused
        split
        · exact hne
        · split
          · exact hused
          · exact hne
  increasing := h.increasing
  known := h.known
  covered p hp hiv := by
    have hiv' : node.ivIndex + 1 - 1 ≤ p.ivIndex := hiv
    obtain ⟨rpl, hmem, hsrc, hcover⟩ := h.covered p hp (by omega)
    have hused : rpl.src ≠ 0 := fun hz => Nat.ne_of_gt (h.known p hp) (hsrc.symm.trans hz)
    -- a pair of the IV index that was current is covered by an entry of that index
    have hnew : rpl.oldIv = false := by
      cases hold : rpl.oldIv with
      | false => rfl
      | true =>
        rw [hold] at hcover
        simp only [ivOf, if_true] at hcover
        omega
    refine ⟨{ rpl with oldIv := true }, ?_, hsrc, ?_⟩
    · refine List.mem_map.mpr ⟨rpl, hmem, ?_⟩
      rw [if_neg hused, hnew, if_neg (by nofun)]
    · rw [hnew] at hcover
      have he : ivOf (step node .ivUpdate).ivIndex true = ivOf node.ivIndex false := by
        change node.ivIndex + 1 - 1 = node.ivIndex
        omega
      rw [he]
      exact hcover

/-- What is accepted is later than everything accepted before from its source. -/
theorem accepted_before {node : Node} {rx : NetRx} {before after : List Rpl} {slot : Rpl} (h : Inv node)
    (hlist : node.rpl = before ++ slot :: after) (hbefore : ∀ rpl ∈ before, rpl.src ≠ 0 ∧ rpl.src ≠ rx.src)
    (hslot : slot.src = 0 ∨ (slot.src = rx.src ∧ Newer rx slot)) (hafter : ∀ rpl ∈ after, rpl.src ≠ rx.src)
    {p : Accepted} (hp : p ∈ node.accepted) (hsrc : p.src = rx.src) :
    p.Before ⟨rx.src, ivOf node.ivIndex rx.oldIv, rx.seq⟩ := by
  have hrange : node.ivIndex - 1 ≤ ivOf node.ivIndex rx.oldIv := by
    unfold ivOf
    split <;> omega
  by_cases hrecent : node.ivIndex - 1 ≤ p.ivIndex
  · obtain ⟨rpl, hmem, hrsrc, hcover⟩ := h.covered p hp hrecent
    rw [hsrc] at hrsrc
    rw [hlist] at hmem
    -- the entry that covers `p` is the slot found
    have hfound : rpl = slot := by
      rcases List.mem_append.mp hmem with hmem | hmem
      · exact absurd hrsrc (hbefore rpl hmem).2
      · rcases List.mem_cons.mp hmem with rfl | hmem
        · rfl
        · exact absurd hrsrc (hafter rpl hmem)
    subst hfound
    obtain ⟨-, hnotold, hnew⟩ : _ ∧ Newer rx rpl :=
      hslot.resolve_left fun hz => Nat.ne_of_gt rx.unicast (hrsrc.symm.trans hz)
    change p.ivIndex < ivOf node.ivIndex rx.oldIv ∨ (p.ivIndex = ivOf node.ivIndex rx.oldIv ∧ p.seq < rx.seq)
    cases hrx : rx.oldIv <;> cases hr : rpl.oldIv <;> rw [hrx, hr] at hnotold hnew <;> rw [hr] at hcover <;>
      simp only [ivOf, if_true, if_false, Bool.false_eq_true, reduceCtorEq, and_true, and_false,
        not_true_eq_false, false_or, true_or] at hcover hnew hnotold ⊢ <;> omega
  · left
    change p.ivIndex < ivOf node.ivIndex rx.oldIv
    omega

theorem inv_receive {node : Node} (h : Inv node) (rx : NetRx) (hclear : Clear rx.src node.rpl) :
    Inv (step node (.receive rx)) := by
  cases hfind : rplSlot rx node.rpl with
  | none =>
    simp only [step, hfind]
    exact h
  | some i =>
    obtain ⟨before, slot, after, hlist, hstep, hbefore, hslot⟩ := step_accepted hfind
    have hsingle := h.single
    rw [hlist] at hsingle hclear
    have hafter := clear_after hsingle hclear (hslot.imp id And.left)
    have hlater := fun p hp => accepted_before (p := p) h hlist hbefore hslot hafter hp
    rw [hstep]
    refine ⟨single_store hsingle hbefore hafter, ?_, ?_, ?_⟩
    · unfold Increasing
      rw [List.pairwise_append]
      refine ⟨h.increasing, List.pairwise_singleton _ _, ?_⟩
      intro p hp q hq hsrc
      rw [List.mem_singleton] at hq
      subst hq
      exact hlater p hp hsrc
    · intro p hp
      rcases List.mem_append.mp hp with hp | hp
      · exact h.known p hp
      · rw [List.mem_singleton] at hp
        subst hp
        exact rx.unicast
    · intro p hp hiv
      have hmemNew : updateRpl rx ∈ before ++ updateRpl rx :: after := by simp
      by_cases hsrc : p.src = rx.src
      · refine ⟨updateRpl rx, hmemNew, hsrc.symm, ?_⟩
        rcases List.mem_append.mp hp with hp | hp
        · have hb := hlater p hp hsrc
          exact hb.imp id fun he => ⟨he.1, Nat.le_of_lt he.2⟩
        · rw [List.mem_singleton] at hp
          subst hp
          exact .inr ⟨rfl, Nat.le_refl _⟩
      · rcases List.mem_append.mp hp with hp | hp
        · obtain ⟨rpl, hmem, hrsrc, hcover⟩ := h.covered p hp hiv
          refine ⟨rpl, ?_, hrsrc, hcover⟩
          rw [hlist] at hmem
          rcases List.mem_append.mp hmem with hmem | hmem
          · exact List.mem_append_left _ hmem
          · rcases List.mem_cons.mp hmem with rfl | hmem
            · rcases hslot with hz | ⟨hs, -⟩
              · exact absurd (hrsrc.symm.trans hz) (Nat.ne_of_gt (h.known p hp))
              · exact absurd (hrsrc.symm.trans hs) hsrc
            · exact List.mem_append_right _ (List.mem_cons_of_mem _ hmem)
        · rw [List.mem_singleton] at hp
          subst hp
          exact absurd rfl hsrc

theorem inv_step {node : Node} {event : Event} (h : Inv node) (hclear : event.Clear node) : Inv (step node event) := by
  cases event with
  | receive rx => exact inv_receive h rx hclear
  | ivUpdate => exact inv_ivUpdate h

/-! ## An obstructed look-up -/

theorem rplSlot_none {rx : NetRx} {list : List Rpl} (h : rplSlot rx list = none) :
    (∀ rpl ∈ list, rpl.src ≠ 0) ∨
    ∃ before slot after, list = before ++ slot :: after ∧ (∀ rpl ∈ before, rpl.src ≠ 0) ∧ slot.src = rx.src := by
  induction list with
  | nil => exact .inl nofun
  | cons rpl rest ih =>
    simp only [rplSlot] at h
    split at h
    · cases h
    · rename_i hused
      split at h
      · rename_i hsrc
        exact .inr ⟨[], rpl, rest, rfl, nofun, hsrc⟩
      · have hcons {l : List Rpl} (hl : ∀ r ∈ l, r.src ≠ 0) : ∀ r ∈ rpl :: l, r.src ≠ 0 := by
          intro r hmem
          rcases List.mem_cons.mp hmem with rfl | hmem
          · exact hused
          · exact hl r hmem
        rcases ih (Option.map_eq_none_iff.mp h) with hall | ⟨before, slot, after, rfl, hbefore, hslot⟩
        · exact .inl (hcons hall)
        · exact .inr ⟨rpl :: before, slot, after, rfl, hcons hbefore, hslot⟩

theorem clear_of_split {src : Nat} {before after : List Rpl} {slot : Rpl} (hbefore : ∀ rpl ∈ before, rpl.src ≠ 0)
    (hafter : ∀ rpl ∈ after, rpl.src ≠ src) : Clear src (before ++ slot :: after) := by
  unfold Clear
  rw [List.pairwise_append, List.pairwise_cons]
  refine ⟨?_, ⟨fun b hb _ => hafter b hb, ?_⟩, fun a ha _ _ hzero => absurd hzero (hbefore a ha)⟩
  · exact List.pairwise_of_forall_mem_list fun a ha _ _ hzero => absurd hzero (hbefore a ha)
  · exact List.pairwise_of_forall_mem_list fun _ _ b hb _ => hafter b hb

theorem single_after {src : Nat} {before after : List Rpl} {slot : Rpl} (h : Single (before ++ slot :: after))
    (hpos : 0 < src) (hslot : slot.src = src) : ∀ rpl ∈ after, rpl.src ≠ src := by
  have hs := (List.pairwise_append.mp h).2.1
  rw [List.pairwise_cons] at hs
  intro rpl hmem hsrc
  rcases hs.1 rpl hmem with hzero | hne
  · omega
  · exact hne (hslot.trans hsrc.symm)

/-- A message that leaves every source with one entry met no empty slot before its own. -/
theorem clear_of_single {node : Node} {event : Event} (h : Single node.rpl) (h' : Single (step node event).rpl) :
    event.Clear node := by
  cases event with
  | ivUpdate => trivial
  | receive rx =>
    change Clear rx.src node.rpl
    cases hfind : rplSlot rx node.rpl with
    | none =>
      rcases rplSlot_none hfind with hall | ⟨before, slot, after, hlist, hbefore, hslot⟩
      · exact List.pairwise_of_forall_mem_list fun a ha _ _ hzero => absurd hzero (hall a ha)
      · rw [hlist] at h ⊢
        exact clear_of_split hbefore (single_after h rx.unicast hslot)
    | some i =>
      obtain ⟨before, slot, after, hlist, hstep, hbefore, -⟩ := step_accepted hfind
      rw [hstep] at h'
      rw [hlist]
      exact clear_of_split (fun rpl hmem => (hbefore rpl hmem).1) (single_after h' rx.unicast rfl)

/-! ## Every run -/

theorem throughout_head {P : Node → Prop} {node : Node} {events : List Event} (h : Throughout P node events) : P node := by
  cases events with
  | nil => exact h
  | cons event later => exact h.1

theorem protected_iff {node : Node} (h : Inv node) (events : List Event) :
    Throughout Node.Protected node events ↔ Unobstructed node events := by
  have hprotected : node.Protected := ⟨h.single, h.increasing⟩
  induction events generalizing node with
  | nil => exact iff_of_true hprotected trivial
  | cons event later ih =>
    constructor
    · rintro ⟨-, hlater⟩
      have hclear := clear_of_single h.single (throughout_head hlater).1
      have hinv := inv_step h hclear
      exact ⟨hclear, (ih hinv ⟨hinv.single, hinv.increasing⟩).mp hlater⟩
    · rintro ⟨hclear, hlater⟩
      have hinv := inv_step h hclear
      exact ⟨hprotected, (ih hinv ⟨hinv.single, hinv.increasing⟩).mpr hlater⟩

/-- In a run of messages and IV updates no source ever has two entries, and what is accepted from each is strictly
increasing, exactly when every message meets a list without an empty slot before the entry of its source. -/
theorem replay_protected_iff (size : Nat) (ivIndex : Int) (events : List Event) :
    Throughout Node.Protected (Node.init size ivIndex) events ↔ Unobstructed (Node.init size ivIndex) events :=
  protected_iff (inv_init size ivIndex) events

/-- Source 1 is silent for two IV updates and its slot, the first, is emptied; the last message of source 2 is then
accepted a second time, under an IV index that is still accepted. -/
theorem emptied_slot_replays :
    ((([.receive ⟨1, false, 5, by decide⟩, .receive ⟨2, false, 7, by decide⟩, .ivUpdate,
        .receive ⟨2, false, 9, by decide⟩, .ivUpdate, .receive ⟨2, true, 9, by decide⟩] : List Event).foldl step
        (Node.init 3 0)).accepted =
      [⟨1, 0, 5⟩, ⟨2, 0, 7⟩, ⟨2, 1, 9⟩, ⟨2, 1, 9⟩]) ∧
    ((([.receive ⟨1, false, 5, by decide⟩, .receive ⟨2, false, 7, by decide⟩, .ivUpdate,
        .receive ⟨2, false, 9, by decide⟩, .ivUpdate, .receive ⟨2, true, 9, by decide⟩] : List Event).foldl step
        (Node.init 3 0)).rpl =
      [⟨2, true, 9⟩, ⟨2, true, 9⟩, Rpl.empty]) := by
  decide

end EspIdf.Mesh
