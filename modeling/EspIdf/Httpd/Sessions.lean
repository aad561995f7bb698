import Mathlib.Algebra.Group.Nat.Defs
import Mathlib.Data.List.Basic

/-!
# `httpd_sess.c`: the table of sessions

* `Slot`, `Hd` : the table, the control queue and, as ghosts, the connections accepted and closed;
* `acceptConn`, `processSession`, `sessClose`, `closeAll`, `step` : what the tasks do to it;
* `Counted`, `ClosedOnce`, `Contract` : what a step is to keep to;
* `contract_step`, `run_iff` : it does unless `open_fn` fails or a queued close meets another connection.

A connection is numbered when it is accepted; its descriptor may have been that of an earlier one.
-/

namespace EspIdf.Httpd.Sess

/-- `struct sock_db`, and the connection it was last used for. -/
structure Slot where
  fd : Int
  lruCounter : Nat
  lruSocket : Bool
  forAsyncReq : Bool
  conn : Nat
deriving Repr, DecidableEq

/-- `HTTPD_TASK_INIT` -/
def Slot.free : Slot := ⟨-1, 0, false, false, 0⟩

/-- What the control queue holds: a close of a slot, with the connection it is requested for. -/
inductive Work
  | close (slot : Nat) (conn : Option Nat)
  | other
  | shutdown
deriving Repr, DecidableEq

structure Config where
  maxOpenSockets : Nat
  lruPurgeEnable : Bool
  /-- `CONFIG_HTTPD_QUEUE_WORK_BLOCKING` -/
  queueWorkBlocking : Bool
  /-- Messages the control queue has room for. -/
  ctrlSlots : Nat
deriving Repr, DecidableEq

structure Hd where
  sd : List Slot
  activeCount : Int
  lruCounter : Nat
  ctrl : List Work
  stopped : Bool
  /-- Connections accepted so far. -/
  accepted : Nat
  /-- The connections whose descriptor was closed, in the order of the calls. -/
  closed : List Nat
deriving Repr, DecidableEq

def Hd.start (cfg : Config) : Hd :=
  { sd := List.replicate cfg.maxOpenSockets .free, activeCount := 0, lruCounter := 0, ctrl := [], stopped := false,
    accepted := 0, closed := [] }

/-! ## The table -/

def setSlot (hd : Hd) (i : Nat) (s : Slot) : Hd := { hd with sd := hd.sd.set i s }

/-- `httpd_sess_delete` -/
def sessDelete (hd : Hd) (i : Nat) : Hd :=
  match hd.sd[i]? with
  | none => hd
  | some s =>
    if s.fd < 0 then hd
    else
      let activeCount := hd.activeCount - 1
      { setSlot hd i { s with fd := -1 } with
        activeCount
        lruCounter := if activeCount = 0 then 0 else hd.lruCounter
        closed := hd.closed ++ [s.conn] }

/-- `httpd_sess_get_free` -/
def sessGetFree (cfg : Config) (hd : Hd) : Option Nat :=
  if hd.activeCount = cfg.maxOpenSockets then none else hd.sd.findIdx? fun s => s.fd < 0

/-- `httpd_sess_get` -/
def sessGet (hd : Hd) (sockfd : Int) : Option Nat := hd.sd.findIdx? fun s => s.fd = sockfd

/-- `HTTPD_TASK_FIND_LOWEST_LRU`, from slot `i` on. -/
def findLowestLru : List Slot → (i lruCounter : Nat) → Option Nat → Option Nat
  | [], _, _, session => session
  | s :: rest, i, lruCounter, session =>
    if s.fd = -1 then session
    else if s.forAsyncReq = false ∧ s.lruCounter < lruCounter then findLowestLru rest (i + 1) s.lruCounter (some i)
    else findLowestLru rest (i + 1) lruCounter session

/-- `UINT64_MAX` -/
def uint64Max : Nat := 2 ^ 64 - 1

/-- `httpd_sess_new`, for connection `conn`; `openOk` is the answer of `open_fn`. -/
def sessNew (cfg : Config) (hd : Hd) (newFd : Int) (conn : Nat) (openOk : Bool) : Bool × Hd :=
  if (sessGet hd newFd).isSome then (false, hd)
  else
    match sessGetFree cfg hd with
    | none => (false, hd)
    | some i =>
      let hd := { setSlot hd i { fd := newFd, lruCounter := hd.lruCounter, lruSocket := false, forAsyncReq := false, conn } with
        activeCount := hd.activeCount + 1 }
      if openOk then (true, hd) else (false, sessDelete hd i)

/-- `httpd_queue_work`; `sent` is whether the message gets through. -/
def queueWork (cfg : Config) (hd : Hd) (work : Work) (sent : Bool) : Hd :=
  if hd.ctrl.length < cfg.ctrlSlots ∧ sent = true then { hd with ctrl := hd.ctrl ++ [work] } else hd

/-- The connection that slot `i` is for. -/
def connAt (hd : Hd) (i : Nat) : Option Nat :=
  (hd.sd[i]?).bind fun s => if s.fd < 0 then none else some s.conn

/-- `httpd_sess_close_lru` -/
def sessCloseLru (cfg : Config) (hd : Hd) (sent : Bool) : Hd :=
  match findLowestLru hd.sd 0 uint64Max none with
  | none => hd
  | some i =>
    let hd := match hd.sd[i]? with
      | some s => setSlot hd i { s with lruSocket := true }
      | none => hd
    queueWork cfg hd (.close i (connAt hd i)) sent

/-- `httpd_sess_close_lru_direct` -/
def sessCloseLruDirect (hd : Hd) : Hd :=
  match findLowestLru hd.sd 0 uint64Max none with
  | none => hd
  | some i => sessDelete hd i

/-- `httpd_accept_conn`; `optsOk` is whether all socket options can be set. -/
def acceptConn (cfg : Config) (hd : Hd) (newFd : Int) (optsOk openOk sent : Bool) : Hd :=
  if cfg.lruPurgeEnable = true ∧ sessGetFree cfg hd = none then
    if cfg.queueWorkBlocking then sessCloseLruDirect hd else sessCloseLru cfg hd sent
  else
    let conn := hd.accepted
    let hd := { hd with accepted := hd.accepted + 1 }
    let exit (hd : Hd) : Hd := { hd with closed := hd.closed ++ [conn] }
    if optsOk = false then exit hd
    else
      let r := sessNew cfg hd newFd conn openOk
      if r.1 then r.2 else exit r.2

/-- `httpd_process_session`, when there is something to read; `ok` is what `httpd_sess_process` comes to. -/
def processSession (hd : Hd) (i : Nat) (ok : Bool) : Hd :=
  match hd.sd[i]? with
  | none => hd
  | some s =>
    if s.fd < 0 ∨ s.forAsyncReq = true then hd
    else if ok then { setSlot hd i { s with lruCounter := hd.lruCounter + 1 } with lruCounter := hd.lruCounter + 1 }
    else sessDelete hd i

/-- `httpd_sess_update_lru_counter` -/
def sessUpdateLruCounter (hd : Hd) (sockfd : Int) : Hd :=
  match sessGet hd sockfd with
  | none => hd
  | some i =>
    match hd.sd[i]? with
    | none => hd
    | some s => { setSlot hd i { s with lruCounter := hd.lruCounter + 1 } with lruCounter := hd.lruCounter + 1 }

/-- `httpd_sess_trigger_close` -/
def sessTriggerClose (cfg : Config) (hd : Hd) (sockfd : Int) (sent : Bool) : Hd :=
  match sessGet hd sockfd with
  | none => hd
  | some i => queueWork cfg hd (.close i (connAt hd i)) sent

/-- `httpd_sess_close`, the work that was queued. -/
def sessClose (hd : Hd) (i : Nat) : Hd :=
  match hd.sd[i]? with
  | none => hd
  | some s =>
    if s.lruCounter = 0 ∧ s.lruSocket = false then hd else sessDelete (setSlot hd i { s with lruSocket := false }) i

/-- A walk that deletes the sessions with a property. -/
def deleteWhere (p : Slot → Bool) (hd : Hd) (is : List Nat) : Hd :=
  is.foldl (fun hd i => if (hd.sd[i]?).any p then sessDelete hd i else hd) hd

/-- `httpd_sess_delete_invalid` -/
def sessDeleteInvalid (fdIsValid : Int → Bool) (hd : Hd) : Hd :=
  deleteWhere (fun s => !fdIsValid s.fd) hd (List.range hd.sd.length)

/-- `httpd_sess_close_all` -/
def sessCloseAll (hd : Hd) : Hd := deleteWhere (fun s => s.fd ≠ -1) hd (List.range hd.sd.length)

/-- `httpd_process_ctrl_msg`; after a shutdown the thread closes all sessions and ends. -/
def processCtrlMsg (hd : Hd) : Hd :=
  match hd.ctrl with
  | [] => hd
  | work :: ctrl =>
    let hd := { hd with ctrl := ctrl }
    match work with
    | .close i _ => sessClose hd i
    | .other => hd
    | .shutdown => { sessCloseAll hd with stopped := true }

/-! ## Steps -/

/-- A step of the server task or of a task that calls its functions. -/
inductive Op
  | accept (newFd : Int) (optsOk openOk sent : Bool)
  | process (i : Nat) (ok : Bool)
  | asyncReq (i : Nat) (busy : Bool)
  | updateLru (sockfd : Int)
  | triggerClose (sockfd : Int) (sent : Bool)
  | queueOther (sent : Bool)
  | deleteInvalid (fdIsValid : Int → Bool)
  | ctrlMsg
  | stop (sent : Bool)

/-- The listening socket is looked at, and the new descriptor is one that is not open. -/
def accepts (cfg : Config) (hd : Hd) (newFd : Int) : Bool :=
  (cfg.lruPurgeEnable || (sessGetFree cfg hd).isSome) && decide (0 ≤ newFd) && (sessGet hd newFd).isNone

def step (cfg : Config) (hd : Hd) (op : Op) : Hd :=
  if hd.stopped then hd
  else
    match op with
    | .accept newFd optsOk openOk sent => if accepts cfg hd newFd then acceptConn cfg hd newFd optsOk openOk sent else hd
    | .process i ok => processSession hd i ok
    | .asyncReq i busy =>
      match hd.sd[i]? with
      | none => hd
      | some s => setSlot hd i { s with forAsyncReq := busy }
    | .updateLru sockfd => sessUpdateLruCounter hd sockfd
    | .triggerClose sockfd sent => sessTriggerClose cfg hd sockfd sent
    | .queueOther sent => queueWork cfg hd .other sent
    | .deleteInvalid fdIsValid => sessDeleteInvalid fdIsValid hd
    | .ctrlMsg => processCtrlMsg hd
    | .stop sent => queueWork cfg hd .shutdown sent

/-! ## The contract -/

def Slot.valid (s : Slot) : Bool := 0 ≤ s.fd

def Counted (hd : Hd) : Prop := hd.activeCount = hd.sd.countP Slot.valid

/-- The connection has a slot with a valid descriptor. -/
def Live (hd : Hd) (c : Nat) : Prop := ∃ s ∈ hd.sd, s.valid = true ∧ s.conn = c

/-- The descriptors of the connections that are over, and no others, were closed, each one once. -/
def ClosedOnce (hd : Hd) : Prop := hd.closed.Nodup ∧ ∀ c, c ∈ hd.closed ↔ c < hd.accepted ∧ ¬Live hd c

/-- A queued close that is carried out closes nothing, or the connection it was requested for. -/
def ClosesRequested (hd hd' : Hd) : Prop :=
  ∀ i conn rest, hd.ctrl = .close i conn :: rest →
    hd'.closed = hd.closed ∨ ∃ c, conn = some c ∧ hd'.closed = hd.closed ++ [c]

def Contract (cfg : Config) (hd : Hd) (op : Op) : Prop :=
  Counted (step cfg hd op) ∧ ClosedOnce (step cfg hd op) ∧
    ((step cfg hd op).stopped = true → ∀ s ∈ (step cfg hd op).sd, s.valid = false) ∧
    match op with
    | .ctrlMsg => ClosesRequested hd (step cfg hd op)
    | _ => True

/-- `open_fn`, if it is called, does not fail; a queued close that goes through meets the connection it was requested for. -/
def Clean (cfg : Config) (hd : Hd) : Op → Prop
  | .accept newFd optsOk openOk _ =>
    hd.stopped = false → accepts cfg hd newFd = true → optsOk = true → (sessGetFree cfg hd).isSome = true → openOk = true
  | .ctrlMsg =>
    hd.stopped = false → ∀ i conn rest s, hd.ctrl = .close i conn :: rest → hd.sd[i]? = some s → s.valid = true →
      ¬(s.lruCounter = 0 ∧ s.lruSocket = false) → conn = some s.conn
  | _ => True

/-- Every step of a run is as `P` says. -/
def Along (cfg : Config) (P : Hd → Op → Prop) : Hd → List Op → Prop
  | _, [] => True
  | hd, op :: ops => P hd op ∧ Along cfg P (step cfg hd op) ops

/-! ## The table as descriptors and connections -/

abbrev Key := Int × Nat

def keys (hd : Hd) : List Key := hd.sd.map fun s => (s.fd, s.conn)

/-- The keys of the slots agree with the number of sessions, the connections accepted and those closed. -/
structure Table (ks : List Key) (active : Int) (accepted : Nat) (closed : List Nat) : Prop where
  counted : active = ks.countP fun k => 0 ≤ k.1
  nodup : closed.Nodup
  ended : ∀ c, c ∈ closed ↔ c < accepted ∧ ¬∃ k ∈ ks, 0 ≤ k.1 ∧ k.2 = c
  distinct : ∀ {i j : Nat} {k l : Key}, ks[i]? = some k → ks[j]? = some l → 0 ≤ k.1 → 0 ≤ l.1 → k.2 = l.2 → i = j
  below : ∀ k ∈ ks, 0 ≤ k.1 → k.2 < accepted

section table
variable {ks : List Key} {active : Int} {accepted : Nat} {closed : List Nat} {i : Nat} {k : Key}

theorem mem_set_iff {x y : Key} (hi : ks[i]? = some k) : x ∈ ks.set i y ↔ x = y ∨ ∃ j, j ≠ i ∧ ks[j]? = some x := by
  obtain ⟨hlt, -⟩ := List.getElem?_eq_some_iff.mp hi
  rw [List.mem_iff_getElem?]
  constructor
  · rintro ⟨j, hj⟩
    rw [List.getElem?_set] at hj
    split at hj
    · exact .inl (Option.some.inj hj).symm
    · rename_i hne
      exact .inr ⟨j, fun h => hne h.symm, hj⟩
  · rintro (rfl | ⟨j, hne, hj⟩)
    · exact ⟨i, List.getElem?_set_self hlt⟩
    · exact ⟨j, by rw [List.getElem?_set_ne (Ne.symm hne), hj]⟩

theorem countP_set {p : Key → Bool} {y : Key} (hi : ks[i]? = some k) :
    (((ks.set i y).countP p : Nat) : Int) = ks.countP p - (if p k then 1 else 0) + (if p y then 1 else 0) := by
  obtain ⟨hlt, rfl⟩ := List.getElem?_eq_some_iff.mp hi
  have hpos : p ks[i] = true → 0 < ks.countP p := fun h => List.countP_pos_iff.mpr ⟨_, List.getElem_mem hlt, h⟩
  rw [List.countP_set hlt]
  cases hp : p ks[i] with
  | true =>
    have h := hpos hp
    cases p y <;> simp <;> omega
  | false => cases p y <;> simp

/-- A session is deleted. -/
theorem Table.delete (h : Table ks active accepted closed) (hi : ks[i]? = some k) (hvalid : 0 ≤ k.1) :
    Table (ks.set i (-1, k.2)) (active - 1) accepted (closed ++ [k.2]) := by
  have hmem : k ∈ ks := List.mem_iff_getElem?.mpr ⟨i, hi⟩
  have hopen : k.2 ∉ closed := fun hc => ((h.ended k.2).mp hc).2 ⟨k, hmem, hvalid, rfl⟩
  -- no other slot is for this connection
  have hlive : ∀ c, (∃ x ∈ ks.set i (-1, k.2), 0 ≤ x.1 ∧ x.2 = c) ↔ (∃ x ∈ ks, 0 ≤ x.1 ∧ x.2 = c) ∧ c ≠ k.2 := by
    intro c
    constructor
    · rintro ⟨x, hx, hxvalid, rfl⟩
      rcases (mem_set_iff hi).mp hx with rfl | ⟨j, hne, hj⟩
      · exact absurd hxvalid (by simp)
      · exact ⟨⟨x, List.mem_iff_getElem?.mpr ⟨j, hj⟩, hxvalid, rfl⟩, fun heq => hne (h.distinct hj hi hxvalid hvalid heq)⟩
    · rintro ⟨⟨x, hx, hxvalid, rfl⟩, hne⟩
      obtain ⟨j, hj⟩ := List.mem_iff_getElem?.mp hx
      refine ⟨x, (mem_set_iff hi).mpr (.inr ⟨j, ?_, hj⟩), hxvalid, rfl⟩
      rintro rfl
      rw [hi] at hj
      cases hj
      exact hne rfl
  refine ⟨?_, ?_, fun c => ?_, ?_, ?_⟩
  · rw [countP_set hi, ← h.counted]
    simp [hvalid]
  · rw [List.nodup_append]
    refine ⟨h.nodup, List.pairwise_singleton _ _, ?_⟩
    rintro a ha b hb rfl
    rw [List.mem_singleton] at hb
    exact hopen (hb ▸ ha)
  · rw [hlive, List.mem_append, List.mem_singleton, h.ended]
    constructor
    · rintro (⟨hlt, hnot⟩ | rfl)
      · exact ⟨hlt, fun hboth => hnot hboth.1⟩
      · exact ⟨h.below k hmem hvalid, fun hboth => hboth.2 rfl⟩
    · rintro ⟨hlt, hnot⟩
      by_cases hc : c = k.2
      · exact .inr hc
      · exact .inl ⟨hlt, fun hx => hnot ⟨hx, hc⟩⟩
  · intro a b x y ha hb hx hy heq
    have hold : ∀ {c : Nat} {z : Key}, (ks.set i (-1, k.2))[c]? = some z → 0 ≤ z.1 → ks[c]? = some z := by
      intro c z hz hzvalid
      rw [List.getElem?_set] at hz
      split at hz
      · split at hz
        · cases hz
          exact absurd hzvalid (by simp)
        · cases hz
      · exact hz
    exact h.distinct (hold ha hx) (hold hb hy) hx hy heq
  · intro x hx hxvalid
    rcases (mem_set_iff hi).mp hx with rfl | ⟨j, -, hj⟩
    · exact absurd hxvalid (by simp)
    · exact h.below x (List.mem_iff_getElem?.mpr ⟨j, hj⟩) hxvalid

/-- A connection is accepted and closed without a session. -/
theorem Table.refuse (h : Table ks active accepted closed) : Table ks active (accepted + 1) (closed ++ [accepted]) := by
  have hnew : accepted ∉ closed := fun hc => Nat.lt_irrefl _ ((h.ended _).mp hc).1
  refine ⟨h.counted, ?_, fun c => ?_, h.distinct, fun k hk hvalid => Nat.lt_succ_of_lt (h.below k hk hvalid)⟩
  · rw [List.nodup_append]
    refine ⟨h.nodup, List.pairwise_singleton _ _, ?_⟩
    rintro a ha b hb rfl
    rw [List.mem_singleton] at hb
    exact hnew (hb ▸ ha)
  · rw [List.mem_append, List.mem_singleton, h.ended]
    constructor
    · rintro (⟨hlt, hnot⟩ | rfl)
      · exact ⟨Nat.lt_succ_of_lt hlt, hnot⟩
      · refine ⟨Nat.lt_succ_self _, ?_⟩
        rintro ⟨x, hx, hxvalid, heq⟩
        exact absurd heq (Nat.ne_of_lt (h.below x hx hxvalid))
    · rintro ⟨hlt, hnot⟩
      rcases Nat.lt_succ_iff_lt_or_eq.mp hlt with hlt | rfl
      · exact .inl ⟨hlt, hnot⟩
      · exact .inr rfl

/-- A connection is accepted and gets a free slot. -/
theorem Table.insert (h : Table ks active accepted closed) (hi : ks[i]? = some k) (hfree : k.1 < 0) {fd : Int} (hfd : 0 ≤ fd) :
    Table (ks.set i (fd, accepted)) (active + 1) (accepted + 1) closed := by
  have hlive : ∀ c, (∃ x ∈ ks.set i (fd, accepted), 0 ≤ x.1 ∧ x.2 = c) ↔ (∃ x ∈ ks, 0 ≤ x.1 ∧ x.2 = c) ∨ c = accepted := by
    intro c
    constructor
    · rintro ⟨x, hx, hxvalid, rfl⟩
      rcases (mem_set_iff hi).mp hx with rfl | ⟨j, -, hj⟩
      · exact .inr rfl
      · exact .inl ⟨x, List.mem_iff_getElem?.mpr ⟨j, hj⟩, hxvalid, rfl⟩
    · rintro (⟨x, hx, hxvalid, rfl⟩ | rfl)
      · obtain ⟨j, hj⟩ := List.mem_iff_getElem?.mp hx
        refine ⟨x, (mem_set_iff hi).mpr (.inr ⟨j, ?_, hj⟩), hxvalid, rfl⟩
        rintro rfl
        rw [hi] at hj
        cases hj
        omega
      · exact ⟨(fd, _), (mem_set_iff hi).mpr (.inl rfl), hfd, rfl⟩
  have hbelow : ∀ {j : Nat} {x : Key}, ks[j]? = some x → 0 ≤ x.1 → x.2 < accepted :=
    fun hj hx => h.below _ (List.mem_iff_getElem?.mpr ⟨_, hj⟩) hx
  refine ⟨?_, h.nodup, fun c => ?_, ?_, ?_⟩
  · rw [countP_set hi, ← h.counted]
    simp [hfd, show ¬0 ≤ k.1 by omega]
  · rw [h.ended, hlive]
    constructor
    · rintro ⟨hlt, hnot⟩
      exact ⟨Nat.lt_succ_of_lt hlt, fun hc => hc.elim hnot fun heq => Nat.lt_irrefl _ (heq ▸ hlt)⟩
    · rintro ⟨hlt, hnot⟩
      rcases Nat.lt_succ_iff_lt_or_eq.mp hlt with hlt | rfl
      · exact ⟨hlt, fun hx => hnot (.inl hx)⟩
      · exact absurd (.inr rfl) hnot
  · intro a b x y ha hb hx hy heq
    have hcases : ∀ {c : Nat} {z : Key}, (ks.set i (fd, accepted))[c]? = some z →
        (c = i ∧ z = (fd, accepted)) ∨ (c ≠ i ∧ ks[c]? = some z) := by
      intro c z hz
      rw [List.getElem?_set] at hz
      split at hz
      · rename_i heq
        split at hz
        · exact .inl ⟨heq.symm, (Option.some.inj hz).symm⟩
        · cases hz
      · rename_i hne
        exact .inr ⟨fun h => hne h.symm, hz⟩
    rcases hcases ha with ⟨hai, hxk⟩ | ⟨-, ha'⟩
    · rcases hcases hb with ⟨hbi, -⟩ | ⟨-, hb'⟩
      · rw [hai, hbi]
      · rw [hxk] at heq
        exact absurd heq.symm (Nat.ne_of_lt (hbelow hb' hy))
    · rcases hcases hb with ⟨-, hyk⟩ | ⟨-, hb'⟩
      · rw [hyk] at heq
        exact absurd heq (Nat.ne_of_lt (hbelow ha' hx))
      · exact h.distinct ha' hb' hx hy heq
  · intro x hx hxvalid
    rcases (mem_set_iff hi).mp hx with rfl | ⟨j, -, hj⟩
    · exact Nat.lt_succ_self _
    · exact Nat.lt_succ_of_lt (hbelow hj hxvalid)

end table

/-! ## What the steps keep -/

structure Inv (hd : Hd) : Prop where
  table : Table (keys hd) hd.activeCount hd.accepted hd.closed
  stopped : hd.stopped = true → ∀ s ∈ hd.sd, s.valid = false

theorem Inv.counted {hd : Hd} (h : Inv hd) : Counted hd := by
  have hcount := h.table.counted
  unfold keys at hcount
  rw [List.countP_map] at hcount
  exact hcount

theorem live_iff (hd : Hd) (c : Nat) : Live hd c ↔ ∃ k ∈ keys hd, 0 ≤ k.1 ∧ k.2 = c := by
  unfold Live keys
  constructor
  · rintro ⟨s, hs, hvalid, rfl⟩
    exact ⟨_, List.mem_map.mpr ⟨s, hs, rfl⟩, of_decide_eq_true hvalid, rfl⟩
  · rintro ⟨k, hk, hvalid, rfl⟩
    obtain ⟨s, hs, rfl⟩ := List.mem_map.mp hk
    exact ⟨s, hs, decide_eq_true hvalid, rfl⟩

theorem Inv.closedOnce {hd : Hd} (h : Inv hd) : ClosedOnce hd :=
  ⟨h.table.nodup, fun c => by rw [live_iff]; exact h.table.ended c⟩

theorem keys_getElem {hd : Hd} {i : Nat} {s : Slot} (hi : hd.sd[i]? = some s) : (keys hd)[i]? = some (s.fd, s.conn) := by
  unfold keys
  rw [List.getElem?_map, hi]
  rfl

theorem keys_setSlot (hd : Hd) (i : Nat) (s : Slot) : keys (setSlot hd i s) = (keys hd).set i (s.fd, s.conn) :=
  List.map_set

/-- The table is the same when the descriptors and connections are. -/
theorem Inv.congr {hd hd' : Hd} (h : Inv hd) (hkeys : keys hd' = keys hd) (hactive : hd'.activeCount = hd.activeCount)
    (haccepted : hd'.accepted = hd.accepted) (hclosed : hd'.closed = hd.closed) (hstopped : hd'.stopped = hd.stopped) :
    Inv hd' := by
  refine ⟨by rw [hkeys, hactive, haccepted, hclosed]; exact h.table, fun hstop s hs => ?_⟩
  have hkey : (s.fd, s.conn) ∈ keys hd := hkeys ▸ List.mem_map.mpr ⟨s, hs, rfl⟩
  obtain ⟨t, ht, heq⟩ := List.mem_map.mp hkey
  have hvalid := h.stopped (hstopped ▸ hstop) t ht
  unfold Slot.valid at hvalid ⊢
  rw [← (Prod.mk.inj heq).1]
  exact hvalid

theorem keys_touch {hd : Hd} {i : Nat} {s s' : Slot} (hi : hd.sd[i]? = some s) (hfd : s'.fd = s.fd)
    (hconn : s'.conn = s.conn) : keys (setSlot hd i s') = keys hd := by
  rw [keys_setSlot, hfd, hconn]
  obtain ⟨hlt, heq⟩ := List.getElem?_eq_some_iff.mp (keys_getElem hi)
  rw [← heq, List.set_getElem_self]

theorem sessDelete_invalid {hd : Hd} {i : Nat} (h : ∀ s, hd.sd[i]? = some s → s.fd < 0) : sessDelete hd i = hd := by
  unfold sessDelete
  split
  · rfl
  · rename_i s hs
    rw [if_pos (h s hs)]

theorem sessDelete_valid {hd : Hd} {i : Nat} {s : Slot} (hi : hd.sd[i]? = some s) (hvalid : 0 ≤ s.fd) :
    (sessDelete hd i).closed = hd.closed ++ [s.conn] ∧ keys (sessDelete hd i) = (keys hd).set i (-1, s.conn) ∧
      (sessDelete hd i).activeCount = hd.activeCount - 1 ∧ (sessDelete hd i).accepted = hd.accepted ∧
      (sessDelete hd i).stopped = hd.stopped := by
  have hfd : ¬s.fd < 0 := by omega
  unfold sessDelete
  rw [hi]
  dsimp only
  rw [if_neg hfd]
  exact ⟨rfl, keys_setSlot hd i _, rfl, rfl, rfl⟩

theorem sessDelete_mem {hd : Hd} {i : Nat} {s : Slot} (hs : s ∈ (sessDelete hd i).sd) : s ∈ hd.sd ∨ s.valid = false := by
  unfold sessDelete at hs
  split at hs
  · exact .inl hs
  · split at hs
    · exact .inl hs
    · rcases List.mem_or_eq_of_mem_set hs with hs | rfl
      · exact .inl hs
      · exact .inr rfl

theorem Inv.delete {hd : Hd} (h : Inv hd) (i : Nat) : Inv (sessDelete hd i) := by
  cases hi : hd.sd[i]? with
  | none =>
    rw [sessDelete_invalid fun s hs => by rw [hi] at hs; cases hs]
    exact h
  | some s =>
    by_cases hvalid : 0 ≤ s.fd
    · obtain ⟨hclosed, hkeys, hactive, haccepted, hstopped⟩ := sessDelete_valid hi hvalid
      refine ⟨?_, fun hstop t ht => ?_⟩
      · rw [hclosed, hkeys, hactive, haccepted]
        exact h.table.delete (keys_getElem hi) hvalid
      · rcases sessDelete_mem ht with ht | hfree
        · exact h.stopped (hstopped ▸ hstop) t ht
        · exact hfree
    · rw [sessDelete_invalid fun t ht => by rw [hi] at ht; cases ht; omega]
      exact h

theorem Inv.deleteWhere {hd : Hd} (h : Inv hd) (p : Slot → Bool) (is : List Nat) : Inv (deleteWhere p hd is) := by
  induction is generalizing hd with
  | nil => exact h
  | cons i is ih =>
    unfold Sess.deleteWhere at ih ⊢
    rw [List.foldl_cons]
    split
    · exact ih (h.delete i)
    · exact ih h

theorem sessDelete_getElem {hd : Hd} {i j : Nat} {s : Slot} (hs : (sessDelete hd i).sd[j]? = some s) :
    s.valid = false ∨ (hd.sd[j]? = some s ∧ i ≠ j) ∨ (hd.sd[j]? = some s ∧ s.valid = false) := by
  unfold sessDelete at hs
  split at hs
  · rename_i hi
    refine .inr (.inl ⟨hs, ?_⟩)
    rintro rfl
    rw [hi] at hs
    cases hs
  · rename_i t hi
    split at hs
    · rename_i hfree
      by_cases hij : i = j
      · subst hij
        rw [hi] at hs
        cases hs
        exact .inl (decide_eq_false (by omega))
      · exact .inr (.inl ⟨hs, hij⟩)
    · change (hd.sd.set i _)[j]? = some s at hs
      rw [List.getElem?_set] at hs
      split at hs
      · split at hs
        · cases hs
          exact .inl rfl
        · cases hs
      · rename_i hij
        exact .inr (.inl ⟨hs, hij⟩)

/-- After `httpd_sess_close_all` no descriptor is valid. -/
theorem sessCloseAll_none (hd : Hd) : ∀ s ∈ (sessCloseAll hd).sd, s.valid = false := by
  have hwalk : ∀ (is : List Nat) (hd : Hd) (j : Nat) (s : Slot), (deleteWhere (fun s => s.fd ≠ -1) hd is).sd[j]? = some s →
      s.valid = false ∨ (hd.sd[j]? = some s ∧ j ∉ is) := by
    intro is
    induction is with
    | nil => exact fun hd j s hs => .inr ⟨hs, nofun⟩
    | cons i is ih =>
      intro hd j s hs
      unfold deleteWhere at hs ih
      rw [List.foldl_cons] at hs
      rcases ih _ j s hs with hfree | ⟨hafter, hnot⟩
      · exact .inl hfree
      · split at hafter
        · rcases sessDelete_getElem hafter with hfree | ⟨hbefore, hij⟩ | ⟨-, hfree⟩
          · exact .inl hfree
          · exact .inr ⟨hbefore, fun hmem => (List.mem_cons.mp hmem).elim (fun heq => hij heq.symm) hnot⟩
          · exact .inl hfree
        · rename_i hany
          by_cases hij : j = i
          · rw [← hij, hafter, Option.any_some, decide_eq_true_eq, Decidable.not_not] at hany
            exact .inl (decide_eq_false (by omega))
          · exact .inr ⟨hafter, fun hmem => (List.mem_cons.mp hmem).elim hij hnot⟩
  intro s hs
  obtain ⟨j, hj⟩ := List.mem_iff_getElem?.mp hs
  rcases hwalk _ hd j s hj with hfree | ⟨hs, hnot⟩
  · exact hfree
  · obtain ⟨hlt, -⟩ := List.getElem?_eq_some_iff.mp hs
    exact absurd (List.mem_range.mpr hlt) hnot

theorem Inv.queueWork {hd : Hd} (h : Inv hd) (cfg : Config) (work : Work) (sent : Bool) :
    Inv (queueWork cfg hd work sent) := by
  unfold Sess.queueWork
  split
  · exact h.congr rfl rfl rfl rfl rfl
  · exact h

theorem Inv.touch {hd : Hd} (h : Inv hd) {i : Nat} {s s' : Slot} (hi : hd.sd[i]? = some s) (hfd : s'.fd = s.fd)
    (hconn : s'.conn = s.conn) : Inv (setSlot hd i s') :=
  h.congr (keys_touch hi hfd hconn) rfl rfl rfl rfl

theorem sessGetFree_some {cfg : Config} {hd : Hd} {i : Nat} (h : sessGetFree cfg hd = some i) :
    ∃ s, hd.sd[i]? = some s ∧ s.fd < 0 := by
  unfold sessGetFree at h
  split at h
  · cases h
  · obtain ⟨hlt, hfree, -⟩ := List.findIdx?_eq_some_iff_getElem.mp h
    exact ⟨hd.sd[i], List.getElem?_eq_getElem hlt, of_decide_eq_true hfree⟩

/-! ### Accepting -/

section accept
variable {cfg : Config} {hd : Hd} {newFd : Int} {optsOk openOk sent : Bool}

theorem Inv.refuse (h : Inv hd) : Inv { hd with accepted := hd.accepted + 1, closed := hd.closed ++ [hd.accepted] } :=
  ⟨h.table.refuse, h.stopped⟩

/-- The session that `httpd_sess_new` opens before it calls `open_fn`. -/
def opened (hd : Hd) (newFd : Int) (i : Nat) : Hd :=
  { setSlot hd i { fd := newFd, lruCounter := hd.lruCounter, lruSocket := false, forAsyncReq := false, conn := hd.accepted } with
    activeCount := hd.activeCount + 1
    accepted := hd.accepted + 1 }

theorem Inv.opened (h : Inv hd) (hrunning : hd.stopped = false) (hfd : 0 ≤ newFd) {i : Nat}
    (hfree : sessGetFree cfg hd = some i) : Inv (opened hd newFd i) := by
  obtain ⟨s, hi, hs⟩ := sessGetFree_some hfree
  refine ⟨?_, fun hstop => ?_⟩
  · have hkeys : keys (Sess.opened hd newFd i) = (keys hd).set i (newFd, hd.accepted) := keys_setSlot hd i _
    rw [hkeys]
    exact h.table.insert (keys_getElem hi) hs hfd
  · have hstop : hd.stopped = true := hstop
    rw [hrunning] at hstop
    cases hstop

theorem accepts_iff : accepts cfg hd newFd = true ↔
    (cfg.lruPurgeEnable = true ∨ (sessGetFree cfg hd).isSome = true) ∧ 0 ≤ newFd ∧ sessGet hd newFd = none := by
  unfold accepts
  rw [Bool.and_eq_true, Bool.and_eq_true, Bool.or_eq_true, decide_eq_true_eq, Option.isNone_iff_eq_none, and_assoc]

/-- A connection is turned away, or gets a session whose opening may yet fail. -/
theorem acceptConn_cases (h : Inv hd) (haccepts : accepts cfg hd newFd = true) :
    (optsOk = true ∧ ∃ i, sessGetFree cfg hd = some i ∧ acceptConn cfg hd newFd optsOk openOk sent =
        if openOk then opened hd newFd i
        else { sessDelete (opened hd newFd i) i with closed := (sessDelete (opened hd newFd i) i).closed ++ [hd.accepted] }) ∨
      ((optsOk = false ∨ sessGetFree cfg hd = none) ∧ Inv (acceptConn cfg hd newFd optsOk openOk sent)) := by
  obtain ⟨hlisten, hfd, hnew⟩ := accepts_iff.mp haccepts
  unfold acceptConn
  cases hfree : sessGetFree cfg hd with
  | none =>
    have hpurge : cfg.lruPurgeEnable = true := hlisten.resolve_right (by rw [hfree]; decide)
    rw [if_pos ⟨hpurge, rfl⟩]
    refine .inr ⟨.inr rfl, ?_⟩
    split
    · unfold sessCloseLruDirect
      split
      · exact h
      · exact h.delete _
    · unfold sessCloseLru
      split
      · exact h
      · rename_i i hi
        dsimp only
        refine Inv.queueWork ?_ cfg _ sent
        split
        · rename_i s hs
          exact h.touch hs rfl rfl
        · exact h
  | some i =>
    rw [if_neg (fun hc => by cases hc.2)]
    dsimp only
    cases optsOk with
    | false =>
      rw [if_pos rfl]
      exact .inr ⟨.inl rfl, h.refuse⟩
    | true =>
      rw [if_neg (by decide)]
      refine .inl ⟨rfl, i, rfl, ?_⟩
      have hget : sessGet { hd with accepted := hd.accepted + 1 } newFd = none := hnew
      have hslot : sessGetFree cfg { hd with accepted := hd.accepted + 1 } = some i := hfree
      unfold sessNew
      rw [hget, hslot]
      cases openOk <;> rfl

theorem accept_contract (h : Inv hd) (hrunning : hd.stopped = false) (haccepts : accepts cfg hd newFd = true) :
    (Inv (acceptConn cfg hd newFd optsOk openOk sent) ∨ ¬ClosedOnce (acceptConn cfg hd newFd optsOk openOk sent)) ∧
      (ClosedOnce (acceptConn cfg hd newFd optsOk openOk sent) ↔
        (optsOk = true → (sessGetFree cfg hd).isSome = true → openOk = true)) := by
  obtain ⟨-, hfd, -⟩ := accepts_iff.mp haccepts
  rcases @acceptConn_cases cfg hd newFd optsOk openOk sent h haccepts with
    ⟨hopts, i, hfree, heq⟩ | ⟨hcases, hinv⟩
  · have hopened := h.opened hrunning hfd hfree
    cases openOk with
    | true =>
      rw [if_pos rfl] at heq
      rw [heq]
      exact ⟨.inl hopened, fun _ _ _ => rfl, fun _ => hopened.closedOnce⟩
    | false =>
      rw [if_neg (by decide)] at heq
      obtain ⟨s, hi, -⟩ := sessGetFree_some hfree
      obtain ⟨hlt, -⟩ := List.getElem?_eq_some_iff.mp hi
      have hslot : (opened hd newFd i).sd[i]? = some ⟨newFd, hd.lruCounter, false, false, hd.accepted⟩ :=
        List.getElem?_set_self hlt
      obtain ⟨hclosed, -⟩ := sessDelete_valid hslot hfd
      -- the descriptor is closed with the session, and once more on the way out
      have hdup : ¬ClosedOnce (acceptConn cfg hd newFd optsOk false sent) := by
        rintro ⟨hnodup, -⟩
        rw [heq] at hnodup
        dsimp only at hnodup
        rw [hclosed, List.append_assoc, List.nodup_append] at hnodup
        exact absurd hnodup.2.1 (by simp)
      exact ⟨.inr hdup, fun hc => absurd hc hdup, fun hc => absurd (hc hopts (by rw [hfree]; rfl)) (by decide)⟩
  · refine ⟨.inl hinv, fun _ hopts hfree => ?_, fun _ => hinv.closedOnce⟩
    rcases hcases with hbad | hfull
    · rw [hopts] at hbad
      cases hbad
    · rw [hfull] at hfree
      cases hfree

end accept

/-! ### Control messages -/

section ctrl
variable {hd : Hd}

theorem Inv.closeAll (h : Inv hd) : Inv { sessCloseAll hd with stopped := true } := by
  have hall := h.deleteWhere (fun s => s.fd ≠ -1) (List.range hd.sd.length)
  exact ⟨hall.table, fun _ => sessCloseAll_none hd⟩

theorem Inv.sessClose (h : Inv hd) (i : Nat) : Inv (sessClose hd i) := by
  unfold Sess.sessClose
  split
  · exact h
  · rename_i s hi
    split
    · exact h
    · have htouch : Inv (setSlot hd i { s with lruSocket := false }) := h.touch hi rfl rfl
      exact htouch.delete i

/-- What a queued close does: nothing, or it closes the connection that has the slot. -/
theorem sessClose_closed (i : Nat) :
    (sessClose hd i).closed = match hd.sd[i]? with
      | none => hd.closed
      | some s => if (s.lruCounter = 0 ∧ s.lruSocket = false) ∨ s.valid = false then hd.closed else hd.closed ++ [s.conn] := by
  unfold sessClose
  cases hi : hd.sd[i]? with
  | none => rfl
  | some s =>
    dsimp only
    by_cases hskip : s.lruCounter = 0 ∧ s.lruSocket = false
    · rw [if_pos hskip, if_pos (.inl hskip)]
    · rw [if_neg hskip]
      obtain ⟨hlt, -⟩ := List.getElem?_eq_some_iff.mp hi
      have hslot : (setSlot hd i { s with lruSocket := false }).sd[i]? = some { s with lruSocket := false } :=
        List.getElem?_set_self hlt
      by_cases hvalid : 0 ≤ s.fd
      · rw [if_neg (by rintro (hc | hc) <;> [exact hskip hc; exact absurd hvalid (of_decide_eq_false hc)])]
        exact (sessDelete_valid hslot hvalid).1
      · rw [if_pos (.inr (decide_eq_false hvalid)), sessDelete_invalid fun t ht => by
          rw [hslot] at ht
          cases ht
          dsimp only
          omega]
        rfl

theorem Inv.processCtrlMsg (h : Inv hd) : Inv (processCtrlMsg hd) := by
  unfold Sess.processCtrlMsg
  split
  · exact h
  · rename_i work ctrl _
    have htake : Inv { hd with ctrl := ctrl } := h.congr rfl rfl rfl rfl rfl
    cases work with
    | close i conn => exact htake.sessClose i
    | other => exact htake
    | shutdown => exact htake.closeAll

theorem closesRequested_iff : ClosesRequested hd (processCtrlMsg hd) ↔
    ∀ i conn rest s, hd.ctrl = .close i conn :: rest → hd.sd[i]? = some s → s.valid = true →
      ¬(s.lruCounter = 0 ∧ s.lruSocket = false) → conn = some s.conn := by
  unfold ClosesRequested
  have hclosed : ∀ i conn rest, hd.ctrl = .close i conn :: rest →
      (processCtrlMsg hd).closed = (sessClose { hd with ctrl := rest } i).closed := by
    intro i conn rest hctrl
    unfold processCtrlMsg
    rw [hctrl]
  constructor
  · intro h i conn rest s hctrl hi hvalid hgo
    have hcases := h i conn rest hctrl
    rw [hclosed i conn rest hctrl, sessClose_closed] at hcases
    dsimp only at hcases
    rw [hi] at hcases
    dsimp only at hcases
    rw [if_neg (by rintro (hc | hc) <;> [exact hgo hc; (rw [hvalid] at hc; cases hc)])] at hcases
    rcases hcases with hsame | ⟨c, rfl, heq⟩
    · exact absurd hsame (by simp)
    · rw [List.append_cancel_left_eq] at heq
      cases heq
      rfl
  · intro h i conn rest hctrl
    rw [hclosed i conn rest hctrl, sessClose_closed]
    dsimp only
    cases hi : hd.sd[i]? with
    | none => exact .inl rfl
    | some s =>
      dsimp only
      split
      · exact .inl rfl
      · rename_i hgo
        rw [not_or] at hgo
        exact .inr ⟨s.conn, h i conn rest s hctrl hi (Bool.not_eq_false _ ▸ hgo.2) hgo.1, rfl⟩

end ctrl

/-! ### Runs -/

section runs
variable {cfg : Config} {hd : Hd}

theorem contract_of_inv {op : Op} (h : Inv (step cfg hd op))
    (hctrl : op = .ctrlMsg → ClosesRequested hd (step cfg hd op)) : Contract cfg hd op := by
  refine ⟨h.counted, h.closedOnce, h.stopped, ?_⟩
  cases op with
  | ctrlMsg => exact hctrl rfl
  | _ => trivial

/-- The steps that are neither an accept nor a control message keep the table in order. -/
theorem Inv.step_other (h : Inv hd) {op : Op} (haccept : ∀ newFd optsOk openOk sent, op ≠ .accept newFd optsOk openOk sent) :
    Inv (step cfg hd op) := by
  unfold step
  split
  · exact h
  · cases op with
    | accept newFd optsOk openOk sent => exact absurd rfl (haccept newFd optsOk openOk sent)
    | process i ok =>
      dsimp only
      unfold processSession
      split
      · exact h
      · rename_i s hi
        split
        · exact h
        · split
          · exact h.congr (keys_touch hi rfl rfl) rfl rfl rfl rfl
          · exact h.delete i
    | asyncReq i busy =>
      dsimp only
      split
      · exact h
      · rename_i s hi
        exact h.touch hi rfl rfl
    | updateLru sockfd =>
      dsimp only
      unfold sessUpdateLruCounter
      split
      · exact h
      · split
        · exact h
        · rename_i s hi
          exact h.congr (keys_touch hi rfl rfl) rfl rfl rfl rfl
    | triggerClose sockfd sent =>
      dsimp only
      unfold sessTriggerClose
      split
      · exact h
      · exact h.queueWork cfg _ sent
    | queueOther sent => exact h.queueWork cfg _ sent
    | deleteInvalid fdIsValid => exact h.deleteWhere _ _
    | ctrlMsg => exact h.processCtrlMsg
    | stop sent => exact h.queueWork cfg _ sent

/-- A step keeps to the contract exactly when it is clean, and then the table is still in order. -/
theorem contract_step (h : Inv hd) (op : Op) :
    (Contract cfg hd op ↔ Clean cfg hd op) ∧ (Contract cfg hd op → Inv (step cfg hd op)) := by
  cases op with
  | accept newFd optsOk openOk sent =>
    unfold Clean
    cases hstopped : hd.stopped with
    | true =>
      have hstep : step cfg hd (.accept newFd optsOk openOk sent) = hd := if_pos hstopped
      have hinv : Inv (step cfg hd (.accept newFd optsOk openOk sent)) := hstep.symm ▸ h
      exact ⟨⟨fun _ hc => (by cases hc), fun _ => contract_of_inv hinv nofun⟩, fun _ => hinv⟩
    | false =>
      have hrunning : ¬hd.stopped = true := by
        rw [hstopped]
        decide
      cases haccepts : accepts cfg hd newFd with
      | false =>
        have hstep : step cfg hd (.accept newFd optsOk openOk sent) = hd := by
          unfold step
          rw [if_neg hrunning]
          dsimp only
          rw [haccepts, if_neg (by decide)]
        have hinv : Inv (step cfg hd (.accept newFd optsOk openOk sent)) := hstep.symm ▸ h
        exact ⟨⟨fun _ _ hc => absurd (haccepts.symm.trans hc) (by decide), fun _ => contract_of_inv hinv nofun⟩, fun _ => hinv⟩
      | true =>
        have hstep : step cfg hd (.accept newFd optsOk openOk sent) = acceptConn cfg hd newFd optsOk openOk sent := by
          unfold step
          rw [if_neg hrunning]
          dsimp only
          rw [haccepts, if_pos rfl]
        obtain ⟨hinv, honce⟩ := @accept_contract cfg hd newFd optsOk openOk sent h hstopped haccepts
        rw [← hstep] at hinv honce
        refine ⟨⟨fun hc _ _ => honce.mp hc.2.1, fun hc => ?_⟩, fun hc => hinv.resolve_right fun hbad => hbad hc.2.1⟩
        exact contract_of_inv (hinv.resolve_right fun hbad => hbad (honce.mpr (hc rfl haccepts))) nofun
  | ctrlMsg =>
    have hinv : Inv (step cfg hd .ctrlMsg) := h.step_other nofun
    refine ⟨?_, fun _ => hinv⟩
    unfold Clean
    cases hstopped : hd.stopped with
    | true =>
      have hstep : step cfg hd .ctrlMsg = hd := if_pos hstopped
      refine ⟨fun _ hc => (by cases hc), fun _ => contract_of_inv hinv fun _ => ?_⟩
      rw [hstep]
      exact fun _ _ _ _ => .inl rfl
    | false =>
      have hstep : step cfg hd .ctrlMsg = processCtrlMsg hd := by
        unfold step
        rw [if_neg (by rw [hstopped]; decide)]
      constructor
      · rintro ⟨-, -, -, hcloses⟩ -
        dsimp only at hcloses
        rw [hstep] at hcloses
        exact closesRequested_iff.mp hcloses
      · intro hclean
        refine contract_of_inv hinv fun _ => ?_
        rw [hstep]
        exact closesRequested_iff.mpr (hclean rfl)
  | process i ok => exact ⟨iff_of_true (contract_of_inv (h.step_other nofun) nofun) trivial, fun _ => h.step_other nofun⟩
  | asyncReq i busy => exact ⟨iff_of_true (contract_of_inv (h.step_other nofun) nofun) trivial, fun _ => h.step_other nofun⟩
  | updateLru sockfd => exact ⟨iff_of_true (contract_of_inv (h.step_other nofun) nofun) trivial, fun _ => h.step_other nofun⟩
  | triggerClose sockfd sent =>
    exact ⟨iff_of_true (contract_of_inv (h.step_other nofun) nofun) trivial, fun _ => h.step_other nofun⟩
  | queueOther sent => exact ⟨iff_of_true (contract_of_inv (h.step_other nofun) nofun) trivial, fun _ => h.step_other nofun⟩
  | deleteInvalid fdIsValid =>
    exact ⟨iff_of_true (contract_of_inv (h.step_other nofun) nofun) trivial, fun _ => h.step_other nofun⟩
  | stop sent => exact ⟨iff_of_true (contract_of_inv (h.step_other nofun) nofun) trivial, fun _ => h.step_other nofun⟩

theorem along_iff (h : Inv hd) (ops : List Op) : Along cfg (Contract cfg) hd ops ↔ Along cfg (Clean cfg) hd ops := by
  induction ops generalizing hd with
  | nil => exact Iff.rfl
  | cons op ops ih =>
    obtain ⟨hiff, hnext⟩ := @contract_step cfg _ h op
    unfold Along
    constructor
    · rintro ⟨hcontract, hrest⟩
      exact ⟨hiff.mp hcontract, (ih (hnext hcontract)).mp hrest⟩
    · rintro ⟨hclean, hrest⟩
      have hcontract := hiff.mpr hclean
      exact ⟨hcontract, (ih (hnext hcontract)).mpr hrest⟩

end runs

theorem inv_start (cfg : Config) : Inv (Hd.start cfg) := by
  have hfree : ∀ k ∈ keys (Hd.start cfg), ¬0 ≤ k.1 := by
    intro k hk
    obtain ⟨s, hs, rfl⟩ := List.mem_map.mp hk
    rw [List.eq_of_mem_replicate hs]
    decide
  refine ⟨⟨?_, .nil, ?_, ?_, fun k hk hvalid => absurd hvalid (hfree k hk)⟩, nofun⟩
  · rw [List.countP_eq_zero.mpr fun k hk => by rw [decide_eq_true_eq]; exact hfree k hk]
    rfl
  · intro c
    exact ⟨nofun, fun hc => absurd hc.1 (Nat.not_lt_zero c)⟩
  · intro i j k l hi _ hvalid
    exact absurd hvalid (hfree k (List.mem_iff_getElem?.mpr ⟨i, hi⟩))

/-- A run keeps to the contract exactly when all its steps are clean. -/
theorem run_iff (cfg : Config) (ops : List Op) :
    Along cfg (Contract cfg) (.start cfg) ops ↔ Along cfg (Clean cfg) (.start cfg) ops :=
  along_iff (inv_start cfg) ops

/-- Two sessions, the older of which is purged when a third is wanted. -/
def twoSessions : Config := ⟨2, true, false, 4⟩

/-- A close is requested for the second connection, which ends by itself; a third one gets its slot. -/
def slotReused : List Op :=
  [.accept 50 true true true, .process 0 true, .accept 51 true true true, .process 1 true, .triggerClose 51 true,
    .process 1 false, .accept 51 true true true]

/-- A descriptor that `open_fn` turns away is closed with its session and once more by
`httpd_accept_conn`; a close queued for connection 1 closes connection 2. -/
theorem closed_twice_and_wrong_close :
    (step twoSessions (.start twoSessions) (.accept 50 true false true)).closed = [0, 0] ∧
      ¬Along twoSessions (Contract twoSessions) (.start twoSessions) [.accept 50 true false true] ∧
      (step twoSessions (slotReused.foldl (step twoSessions) (.start twoSessions)) .ctrlMsg).closed = [1, 2] ∧
      ¬Along twoSessions (Contract twoSessions) (.start twoSessions) (slotReused ++ [.ctrlMsg]) := by
  refine ⟨by decide, fun h => ?_, by decide, fun h => ?_⟩
  · obtain ⟨⟨-, honce, -⟩, -⟩ := h
    exact absurd honce.1 (by decide)
  · obtain ⟨-, -, -, -, -, -, -, ⟨-, -, -, hcloses⟩, -⟩ := h
    rcases hcloses 1 (some 1) [] (by decide) with hsame | ⟨c, hc, heq⟩
    · revert hsame
      decide
    · cases hc
      revert heq
      decide

end EspIdf.Httpd.Sess
