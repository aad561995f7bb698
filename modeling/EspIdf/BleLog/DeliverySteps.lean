import EspIdf.BleLog.Delivery

/-!
# Writing and flushing keep the buffers whole

* `Base`, `Framed`, `Stream`, `Settled`, `Inv` : the invariant, by what it is about;
* `getTrans_inv`, `acquireTrans_inv` : a buffer is chosen, and perhaps queued on the way;
* `writeLog_inv` : framed logs;
* `Stream.grow`, `Stream.seal`, `streamNext_inv`, `streamFlush_inv` : the stream.
-/

namespace EspIdf.BleLog

open State

/-! ## The invariant -/

/-- The buffers and who owns them. -/
structure Base (s : State) : Prop where
  ok : ∀ id, (s.trans id).Ok
  owned : ∀ id, (s.trans id).prphOwned = true ↔ id ∈ s.queue ++ s.inFlight
  once : (s.queue ++ s.inFlight).Nodup
  unshared : s.wroteOwned = false
  handed : ∀ h ∈ s.handed, ∃ frames, Encodes h.bytes frames

/-- The frames of one manager of framed logs. -/
structure Framed (s : State) (i : Nat) : Prop where
  whole : ∀ k, ∃ frames, Encodes (s.trans (.common i, k)).bytes frames
  delivered : (sentRecords s (.common i) ++ heldRecords s (.common i)).Perm (s.written (.common i))

/-- The stream: an owned buffer is one frame, and only the current one holds bytes without a frame. -/
structure Stream (s : State) : Prop where
  size : ∀ k, (s.trans (.redir, k)).size = redirBufSize
  closed : ∀ k, (s.trans (.redir, k)).prphOwned = true → ∃ frame, Encodes (s.trans (.redir, k)).bytes [frame]
  opened : ∀ k, (s.trans (.redir, k)).prphOwned = false → (s.trans (.redir, k)).pos = 0 ∨
    k = s.transIdx .redir ∧ frameHeadLen ≤ (s.trans (.redir, k)).pos ∧
      (s.trans (.redir, k)).pos + frameTailLen ≤ redirBufSize
  bytes : streamSent s ++ streamQueued s ++ streamOpen s = s.accepted

/-- Between two turns of the stream, a buffer that is not owned has more room left than a frame's overhead. -/
def Settled (s : State) : Prop :=
  ∀ k, (s.trans (.redir, k)).prphOwned = false → (s.trans (.redir, k)).pos + frameOverhead < redirBufSize

structure Inv (s : State) : Prop extends Base s, Stream s where
  framed : ∀ i, Framed s i
  settled : Settled s

/-! ## Moves -/

section moves
variable {s s' : State} {id : TransId} {t : Trans} {i : Nat}

theorem Framed.congr (h : Framed s i) (bytes : ∀ k, (s'.trans (.common i, k)).bytes = (s.trans (.common i, k)).bytes)
    (inFlight : ∀ k, (.common i, k) ∈ s'.inFlight ↔ (.common i, k) ∈ s.inFlight)
    (sent : sentRecords s' (.common i) = sentRecords s (.common i))
    (written : s'.written (.common i) = s.written (.common i)) : Framed s' i where
  whole k := by
    rw [bytes]
    exact h.whole k
  delivered := by
    have held : heldRecords s' (.common i) = heldRecords s (.common i) := by
      simp only [heldRecords, bytes, inFlight]
    rw [sent, held, written]
    exact h.delivered

theorem streamQueued_congr (bytes : ∀ id ∈ s.queue, id.1 = .redir → (s'.trans id).bytes = (s.trans id).bytes)
    (queue : s'.queue.filter (fun id => id.1 == .redir) = s.queue.filter fun id => id.1 == .redir) :
    streamQueued s' = streamQueued s := by
  rw [streamQueued, streamQueued, queue, List.flatMap_def, List.flatMap_def]
  refine congrArg List.flatten (List.map_congr_left fun id mem => ?_)
  have split := List.mem_filter.mp mem
  rw [bytes id split.1 (by simpa using split.2)]

theorem Stream.congr (h : Stream s) (trans : ∀ k, s'.trans (.redir, k) = s.trans (.redir, k))
    (idx : s'.transIdx .redir = s.transIdx .redir)
    (queue : s'.queue.filter (fun id => id.1 == .redir) = s.queue.filter fun id => id.1 == .redir)
    (sent : streamSent s' = streamSent s) (accepted : s'.accepted = s.accepted) : Stream s' where
  size k := by
    rw [trans]
    exact h.size k
  closed k := by
    rw [trans]
    exact h.closed k
  opened k := by
    rw [trans, idx]
    exact h.opened k
  bytes := by
    have queued : streamQueued s' = streamQueued s := by
      refine streamQueued_congr (fun id _ redir => ?_) queue
      obtain ⟨pool, k⟩ := id
      cases redir
      rw [trans]
    have opens : streamOpen s' = streamOpen s := by
      rw [streamOpen, streamOpen, idx, trans]
    rw [sent, queued, opens, accepted]
    exact h.bytes

theorem Settled.congr (h : Settled s) (trans : ∀ k, s'.trans (.redir, k) = s.trans (.redir, k)) : Settled s' := by
  intro k
  rw [trans]
  exact h k

theorem Base.free (h : Base s) (free : (s.trans id).prphOwned = false) : id ∉ s.queue ++ s.inFlight := by
  intro mem
  have := (h.owned id).mpr mem
  rw [free] at this
  cases this

theorem Base.put (h : Base s) (ok : t.Ok) (same : t.prphOwned = (s.trans id).prphOwned) : Base (s.put id t) where
  ok other := by
    by_cases eq : other = id
    · subst eq
      simpa using ok
    · simpa [eq] using h.ok other
  owned other := by
    by_cases eq : other = id
    · subst eq
      simpa [same] using h.owned other
    · simpa [eq] using h.owned other
  once := h.once
  unshared := h.unshared
  handed := h.handed

theorem Base.queueTrans (h : Base s) (free : (s.trans id).prphOwned = false) : Base (s.queueTrans id) := by
  have absent := h.free free
  have perm : (s.queue ++ [id] ++ s.inFlight).Perm (id :: (s.queue ++ s.inFlight)) := by
    rw [List.append_assoc]
    exact List.perm_middle
  refine ⟨fun other => ?_, fun other => ?_, ?_, h.unshared, h.handed⟩
  · by_cases eq : other = id
    · subst eq
      have ok := h.ok other
      simpa [State.queueTrans] using (⟨ok.size_lt, ok.size_le, ok.pos_le⟩ : Trans.Ok { s.trans other with prphOwned := true })
    · simpa [State.queueTrans, eq] using h.ok other
  · show _ ↔ other ∈ s.queue ++ [id] ++ s.inFlight
    rw [perm.mem_iff, List.mem_cons]
    by_cases eq : other = id
    · subst eq
      simp [State.queueTrans]
    · simpa [State.queueTrans, eq] using h.owned other
  · exact perm.nodup_iff.mpr (List.nodup_cons.mpr ⟨absent, h.once⟩)

theorem bytes_queueTrans (s : State) (id other : TransId) : ((s.queueTrans id).trans other).bytes = (s.trans other).bytes := by
  by_cases eq : other = id
  · subst eq
    simp [State.queueTrans, Trans.bytes]
  · simp [State.queueTrans, eq]

theorem Framed.queueTrans (h : Framed s i) (id : TransId) : Framed (s.queueTrans id) i :=
  h.congr (fun _ => bytes_queueTrans s id _) (fun _ => Iff.rfl) rfl rfl

theorem Stream.queueTrans_common (h : Stream s) (common : id.1 = .common i) : Stream (s.queueTrans id) := by
  obtain ⟨pool, k⟩ := id
  cases common
  exact h.congr (fun k => by simp [State.queueTrans]) rfl (by simp [State.queueTrans, State.put]) rfl rfl

theorem Inv.queueTrans_common (h : Inv s) (common : id.1 = .common i) (free : (s.trans id).prphOwned = false) :
    Inv (s.queueTrans id) where
  toBase := h.toBase.queueTrans free
  toStream := h.toStream.queueTrans_common common
  framed i := (h.framed i).queueTrans id
  settled := by
    obtain ⟨pool, k⟩ := id
    cases common
    exact h.settled.congr fun k => by simp [State.queueTrans]

theorem bytes_of_pos_zero {t : Trans} (zero : t.pos = 0) : t.bytes = [] := by
  simp [Trans.bytes, zero]

/-- The stream moves on from a buffer that the peripheral owns. -/
theorem Stream.advance (h : Stream s) (busy : (s.trans (.redir, s.transIdx .redir)).prphOwned = true) (next : Fin 4) :
    Stream { s with transIdx := Function.update s.transIdx .redir next } where
  size := h.size
  closed := h.closed
  opened k free := by
    rcases h.opened k free with zero | ⟨current, -⟩
    · exact .inl zero
    · rw [← current, free] at busy
      cases busy
  bytes := by
    have before : streamOpen s = [] := by simp [streamOpen, busy]
    have after : streamOpen { s with transIdx := Function.update s.transIdx .redir next } = [] := by
      simp only [streamOpen, Function.update_self]
      split
      · rfl
      · rename_i free
        rcases h.opened next (by simpa using free) with zero | ⟨current, -⟩
        · rw [bytes_of_pos_zero zero, List.drop_nil]
        · exact absurd busy (current ▸ free)
    have bytes := h.bytes
    rw [before] at bytes
    rw [after]
    exact bytes

theorem Inv.advance (h : Inv s) (pool : Pool)
    (busy : pool = .redir → (s.trans (.redir, s.transIdx .redir)).prphOwned = true) (next : Fin 4) :
    Inv { s with transIdx := Function.update s.transIdx pool next } where
  toBase := ⟨h.ok, h.owned, h.once, h.unshared, h.handed⟩
  toStream := by
    cases pool with
    | common i =>
      have other : Pool.redir ≠ .common i := nofun
      exact h.toStream.congr (fun _ => rfl) (Function.update_of_ne other next s.transIdx) rfl rfl rfl
    | redir => exact h.toStream.advance (busy rfl) next
  framed i := ⟨(h.framed i).whole, (h.framed i).delivered⟩
  settled := h.settled

/-! ## Choosing a buffer -/

/-- A buffer of the stream that is not owned always has room for a frame's overhead: it is never queued as it is. -/
theorem Inv.stream_room (h : Inv s) {k : Fin 4} (free : (s.trans (.redir, k)).prphOwned = false) :
    u32 (0 + frameOverhead) ≤ (s.trans (.redir, k)).freeSpace := by
  have overhead : u32 (0 + frameOverhead) = 10 := rfl
  have size : redirBufSize = 512 := rfl
  have ten : frameOverhead = 10 := rfl
  rw [freeSpace_eq (h.ok _), h.size, overhead]
  have room := h.settled k free
  omega

theorem getTransLoop_inv {pool : Pool} {logLen : Nat} (stream : pool = .redir → logLen = 0) (turns : Nat) (h : Inv s) :
    Inv (getTransLoop pool logLen turns s).1 ∧ ∀ idx, (getTransLoop pool logLen turns s).2 = some idx →
      ((getTransLoop pool logLen turns s).1.trans (pool, idx)).prphOwned = false ∧
        u32 (logLen + frameOverhead) ≤ ((getTransLoop pool logLen turns s).1.trans (pool, idx)).freeSpace ∧
        (getTransLoop pool logLen turns s).1.transIdx pool = idx := by
  induction turns generalizing s with
  | zero => exact ⟨h, fun _ none => nomatch none⟩
  | succ turns ih =>
    unfold getTransLoop
    dsimp only
    split
    · rename_i busy
      exact ih (h.advance pool (fun redir => by subst redir; exact busy) _)
    · rename_i free
      have free : (s.trans (pool, s.transIdx pool)).prphOwned = false := by simpa using free
      split
      · rename_i room
        refine ⟨h, fun idx found => ?_⟩
        cases found
        exact ⟨free, room, rfl⟩
      · rename_i short
        have framed : ∃ i, pool = .common i := by
          cases pool with
          | common i => exact ⟨i, rfl⟩
          | redir =>
            rw [stream rfl] at short
            exact absurd (h.stream_room free) short
        obtain ⟨i, rfl⟩ := framed
        have moved : Inv (if (s.trans (.common i, s.transIdx (.common i))).pos = 0 then s
            else s.queueTrans (.common i, s.transIdx (.common i))) := by
          split
          · exact h
          · exact h.queueTrans_common rfl free
        exact ih (moved.advance (.common i) (fun redir => nomatch redir) _)

theorem getTrans_inv (pool : Pool) (logLen : Nat) (stream : pool = .redir → logLen = 0) (h : Inv s) :
    Inv (getTrans s pool logLen).1 ∧ ∀ idx, (getTrans s pool logLen).2 = some idx →
      ((getTrans s pool logLen).1.trans (pool, idx)).prphOwned = false ∧
        u32 (logLen + frameOverhead) ≤ ((getTrans s pool logLen).1.trans (pool, idx)).freeSpace ∧
        (getTrans s pool logLen).1.transIdx pool = idx :=
  getTransLoop_inv stream 4 h

theorem acquireTrans_inv (logLen : Nat) (pools : List Nat) (h : Inv s) :
    Inv (acquireTrans logLen pools s).1 ∧ ∀ id, (acquireTrans logLen pools s).2 = some id →
      (∃ i, id.1 = .common i) ∧ ((acquireTrans logLen pools s).1.trans id).prphOwned = false ∧
        u32 (logLen + frameOverhead) ≤ ((acquireTrans logLen pools s).1.trans id).freeSpace := by
  induction pools generalizing s with
  | nil => exact ⟨h, fun _ none => nomatch none⟩
  | cons i pools ih =>
    obtain ⟨kept, found⟩ := getTrans_inv (.common i) logLen (fun redir => nomatch redir) h
    unfold acquireTrans
    split
    · rename_i s₁ idx got
      rw [got] at kept found
      refine ⟨kept, fun id eq => ?_⟩
      cases eq
      obtain ⟨free, room, -⟩ := found idx rfl
      exact ⟨⟨i, rfl⟩, free, room⟩
    · rename_i s₁ got
      rw [got] at kept
      exact ih kept

/-! ## Framed logs -/

theorem heldRecords_perm (s : State) (pool : Pool) (k : Fin 4) :
    (heldRecords s pool).Perm
      ((if (pool, k) ∈ s.inFlight then [] else records (s.trans (pool, k)).bytes) ++
        ((List.finRange 4).erase k).flatMap fun idx =>
          if (pool, idx) ∈ s.inFlight then [] else records (s.trans (pool, idx)).bytes) := by
  have perm := List.perm_cons_erase (List.mem_finRange k)
  exact (perm.flatMap_right _).trans (by rw [List.flatMap_cons])

/-- A frame goes into one buffer of a manager. -/
theorem Framed.write (h : Framed s i) {k : Fin 4} {frame : Frame} (short : frame.payload.length < 2 ^ 16)
    (idle : (.common i, k) ∉ s.inFlight) (bytes : t.bytes = (s.trans (.common i, k)).bytes ++ frame.bytes)
    (trans : s'.trans = Function.update s.trans (.common i, k) t) (inFlight : s'.inFlight = s.inFlight)
    (handed : s'.handed = s.handed) (written : s'.written (.common i) = s.written (.common i) ++ [frame.record]) :
    Framed s' i where
  whole idx := by
    rw [trans]
    obtain ⟨frames, encodes⟩ := h.whole idx
    by_cases eq : idx = k
    · subst eq
      rw [Function.update_self, bytes]
      exact ⟨_, encodes.snoc short⟩
    · rw [Function.update_of_ne (by simpa using eq)]
      exact ⟨frames, encodes⟩
  delivered := by
    obtain ⟨frames, encodes⟩ := h.whole k
    have grown : records t.bytes = records (s.trans (.common i, k)).bytes ++ [frame.record] := by
      rw [bytes, records_of_encodes (encodes.snoc short), records_of_encodes encodes, List.map_append]
      rfl
    have before := heldRecords_perm s (.common i) k
    have after := heldRecords_perm s' (.common i) k
    rw [if_neg idle] at before
    rw [inFlight, if_neg idle, trans, Function.update_self, grown] at after
    have others : ((List.finRange 4).erase k).flatMap (fun idx =>
          if (.common i, idx) ∈ s.inFlight then []
          else records (Function.update s.trans (.common i, k) t (.common i, idx)).bytes) =
        ((List.finRange 4).erase k).flatMap fun idx =>
          if (.common i, idx) ∈ s.inFlight then [] else records (s.trans (.common i, idx)).bytes := by
      rw [List.flatMap_def, List.flatMap_def]
      refine congrArg List.flatten (List.map_congr_left fun idx mem => ?_)
      have ne : idx ≠ k := fun eq => (List.nodup_finRange 4).not_mem_erase (eq ▸ mem)
      rw [Function.update_of_ne (by simpa using ne)]
    rw [others] at after
    have sent : sentRecords s' (.common i) = sentRecords s (.common i) := by
      rw [sentRecords, sentRecords, handed]
    rw [sent, written]
    have moved : (heldRecords s' (.common i)).Perm (heldRecords s (.common i) ++ [frame.record]) := by
      refine after.trans ?_
      rw [List.append_assoc]
      exact (List.Perm.append_left _ List.perm_append_comm).trans
        (by rw [← List.append_assoc]; exact before.symm.append_right _)
    exact (moved.append_left _).trans (by rw [← List.append_assoc]; exact h.delivered.append_right _)

theorem Base.countFrame (h : Base s) (src : Source) : Base (s.countFrame src) :=
  ⟨h.ok, h.owned, h.once, h.unshared, h.handed⟩

theorem Inv.countFrame (h : Inv s) (src : Source) : Inv (s.countFrame src) where
  toBase := h.toBase.countFrame src
  toStream := ⟨h.size, h.closed, h.opened, h.bytes⟩
  framed i := ⟨(h.framed i).whole, (h.framed i).delivered⟩
  settled := h.settled

theorem writeTrans_inv (h : Inv s) {log : Log} (common : id.1 = .common i) (free : (s.trans id).prphOwned = false)
    (room : (log.addr ++ log.append).length + frameOverhead ≤ (s.trans id).freeSpace) : Inv (writeTrans s id log) := by
  obtain ⟨t, frame, record, short, ok, unowned, size, bytes, eq⟩ := writeTrans_eq (h.ok id) free room
  obtain ⟨pool, k⟩ := id
  cases common
  have idle : (.common i, k) ∉ s.inFlight := fun mem => h.toBase.free free (List.mem_append_right _ mem)
  have written : Inv (((s.countFrame log.src).put (.common i, k) t).record (.common i) log) := by
    have base : Base ((s.countFrame log.src).put (.common i, k) t) :=
      (h.toBase.countFrame log.src).put ok (unowned.trans free.symm)
    refine ⟨⟨base.ok, base.owned, base.once, base.unshared, base.handed⟩, ?_, fun j => ?_, ?_⟩
    · exact h.toStream.congr (fun _ => by simp [State.record]) rfl rfl rfl rfl
    · by_cases same : j = i
      · subst same
        exact (h.framed j).write short idle bytes rfl rfl rfl (by simp [State.record, record, State.countFrame, State.put])
      · refine (h.framed j).congr (fun _ => by simp [State.record, same]) (fun _ => Iff.rfl) rfl ?_
        simp [State.record, same, State.countFrame, State.put]
    · exact h.settled.congr fun _ => by simp [State.record]
  rw [eq]
  split
  · exact written.queueTrans_common rfl (by simpa [State.record] using unowned)
  · exact written

theorem writeLog_inv (h : Inv s) (pools : List Nat) (log : Log) : Inv (writeLog s pools log) := by
  obtain ⟨kept, found⟩ := acquireTrans_inv (u32 (log.addr.length + log.append.length)) pools h
  unfold writeLog
  split
  · rename_i s₁ id got
    rw [got] at kept found
    obtain ⟨⟨i, common⟩, free, room⟩ := found id rfl
    refine writeTrans_inv kept common free ?_
    have fits := log.fits
    have ten : frameOverhead = 10 := rfl
    rw [u32_of_lt (by omega : log.addr.length + log.append.length < 2 ^ 32), u32_of_lt (by omega)] at room
    rw [List.length_append]
    exact room
  · rename_i s₁ got
    rw [got] at kept
    exact kept.countFrame _

/-! ## The stream -/

theorem streamOpen_eq {k : Fin 4} (current : s.transIdx .redir = k) (free : (s.trans (.redir, k)).prphOwned = false) :
    streamOpen s = (s.trans (.redir, k)).bytes.drop frameHeadLen := by
  simp [streamOpen, current, free]

/-- Bytes go into the current buffer. -/
theorem Stream.grow (h : Stream s) (base : Base s) {k : Fin 4} (current : s.transIdx .redir = k)
    (free : (s.trans (.redir, k)).prphOwned = false) (unowned : t.prphOwned = false)
    (size : t.size = (s.trans (.redir, k)).size) (low : frameHeadLen ≤ t.pos) (high : t.pos + frameTailLen ≤ redirBufSize)
    {data : List Byte} (bytes : t.bytes.drop frameHeadLen = (s.trans (.redir, k)).bytes.drop frameHeadLen ++ data)
    (trans : s'.trans = Function.update s.trans (.redir, k) t) (idx : s'.transIdx = s.transIdx) (queue : s'.queue = s.queue)
    (handed : s'.handed = s.handed) (accepted : s'.accepted = s.accepted ++ data) : Stream s' := by
  have other (k') (ne : k' ≠ k) : s'.trans (.redir, k') = s.trans (.redir, k') := by
    rw [trans, Function.update_of_ne (by simpa using ne)]
  have self : s'.trans (.redir, k) = t := by rw [trans, Function.update_self]
  refine ⟨fun k' => ?_, fun k' => ?_, fun k' => ?_, ?_⟩
  · by_cases eq : k' = k
    · subst eq
      rw [self, size]
      exact h.size k'
    · rw [other k' eq]
      exact h.size k'
  · by_cases eq : k' = k
    · subst eq
      rw [self, unowned]
      exact fun owned => nomatch owned
    · rw [other k' eq]
      exact h.closed k'
  · rw [idx]
    by_cases eq : k' = k
    · subst eq
      rw [self]
      exact fun _ => .inr ⟨current.symm, low, high⟩
    · rw [other k' eq]
      exact h.opened k'
  · have queued : streamQueued s' = streamQueued s := by
      refine streamQueued_congr (fun id mem _ => ?_) (by rw [queue])
      have ne : id ≠ (.redir, k) := fun eq => base.free free (eq ▸ List.mem_append_left _ mem)
      rw [trans, Function.update_of_ne ne]
    have sent : streamSent s' = streamSent s := by rw [streamSent, streamSent, handed]
    have opens : streamOpen s' = streamOpen s ++ data := by
      rw [streamOpen_eq (by rw [idx, current]) (by rw [self, unowned]), self, bytes, streamOpen_eq current free]
    rw [sent, queued, opens, accepted, ← List.append_assoc, h.bytes]

/-- The current buffer becomes a frame in the queue. -/
theorem Stream.seal (h : Stream s) (base : Base s) {k : Fin 4} (current : s.transIdx .redir = k)
    (free : (s.trans (.redir, k)).prphOwned = false) (size : t.size = (s.trans (.redir, k)).size) {frame : Frame}
    (short : frame.payload.length < 2 ^ 16) (bytes : t.bytes = frame.bytes)
    (payload : frame.payload = (s.trans (.redir, k)).bytes.drop frameHeadLen) (src : Source) :
    Stream (((s.countFrame src).put (.redir, k) t).queueTrans (.redir, k)) := by
  obtain ⟨s', hs'⟩ : ∃ s', s' = ((s.countFrame src).put (.redir, k) t).queueTrans (.redir, k) := ⟨_, rfl⟩
  have trans : s'.trans = Function.update s.trans (.redir, k) { t with prphOwned := true } := by
    simp [hs', State.queueTrans]
  have other (k') (ne : k' ≠ k) : s'.trans (.redir, k') = s.trans (.redir, k') := by
    rw [trans, Function.update_of_ne (by simpa using ne)]
  have self : s'.trans (.redir, k) = { t with prphOwned := true } := by rw [trans, Function.update_self]
  have idx : s'.transIdx .redir = k := by
    rw [hs']
    exact current
  rw [← hs']
  refine ⟨fun k' => ?_, fun k' => ?_, fun k' => ?_, ?_⟩
  · by_cases eq : k' = k
    · subst eq
      rw [self]
      exact size.trans (h.size k')
    · rw [other k' eq]
      exact h.size k'
  · by_cases eq : k' = k
    · subst eq
      rw [self]
      exact fun _ => ⟨frame, (show t.bytes = _ from bytes) ▸ encodes_single short⟩
    · rw [other k' eq]
      exact h.closed k'
  · by_cases eq : k' = k
    · subst eq
      rw [self]
      exact fun owned => nomatch owned
    · rw [other k' eq, idx, ← current]
      exact h.opened k'
  · have queue : s'.queue = s.queue ++ [(.redir, k)] := by
      rw [hs']
      rfl
    have before : (s.queue.filter fun id => id.1 == .redir).flatMap (fun id => payloads (s'.trans id).bytes) = streamQueued s := by
      rw [streamQueued, List.flatMap_def, List.flatMap_def]
      refine congrArg List.flatten (List.map_congr_left fun id mem => ?_)
      have ne : id ≠ (.redir, k) := fun eq =>
        base.free free (eq ▸ List.mem_append_left _ (List.mem_filter.mp mem).1)
      rw [trans, Function.update_of_ne ne]
    have sealed : payloads (s'.trans (.redir, k)).bytes = streamOpen s := by
      rw [self, streamOpen_eq current free, ← payload]
      show payloads t.bytes = _
      rw [bytes, payloads_of_encodes (encodes_single short)]
      simp
    have queued : streamQueued s' = streamQueued s ++ streamOpen s := by
      rw [streamQueued, queue, List.filter_append, List.flatMap_append, before, ← sealed]
      simp
    have opens : streamOpen s' = [] := by simp [streamOpen, idx, self]
    have sent : streamSent s' = streamSent s := by
      rw [hs']
      rfl
    have accepted : s'.accepted = s.accepted := by
      rw [hs']
      rfl
    rw [sent, queued, opens, accepted, List.append_nil, ← List.append_assoc, h.bytes]

/-- Every manager of framed logs is as it was. -/
theorem framed_same (h : ∀ i, Framed s i) (trans : ∀ i k, s'.trans (.common i, k) = s.trans (.common i, k))
    (inFlight : s'.inFlight = s.inFlight) (handed : s'.handed = s.handed) (written : s'.written = s.written) (i : Nat) :
    Framed s' i :=
  (h i).congr (fun k => by rw [trans]) (fun k => by rw [inFlight]) (by rw [sentRecords, sentRecords, handed]) (by rw [written])

/-- Only the current buffer decides whether the stream has room left. -/
theorem Stream.settled (h : Stream s) {k : Fin 4} (current : s.transIdx .redir = k)
    (room : (s.trans (.redir, k)).prphOwned = false → (s.trans (.redir, k)).pos + frameOverhead < redirBufSize) :
    Settled s := by
  intro k' free
  rcases h.opened k' free with zero | ⟨eq, -, -⟩
  · rw [zero]
    decide
  · rw [eq, current] at free ⊢
    exact room free

/-- A seal of the current buffer. -/
theorem streamSeal_inv (base : Base s) (stream : Stream s) (framed : ∀ i, Framed s i) {k : Fin 4}
    (current : s.transIdx .redir = k) (free : (s.trans (.redir, k)).prphOwned = false)
    (started : frameHeadLen < (s.trans (.redir, k)).pos) (room : (s.trans (.redir, k)).pos + frameTailLen ≤ redirBufSize)
    (src : Source) : Inv (streamSeal s (.redir, k) src) := by
  obtain ⟨t, frame, payload, short, ok, unowned, size, bytes, eq⟩ :=
    streamSeal_eq (base.ok _) free started (by rw [stream.size]; exact room) src
  have sealed := stream.seal base current free size short bytes payload src
  have put : Base ((s.countFrame src).put (.redir, k) t) := (base.countFrame src).put ok (unowned.trans free.symm)
  rw [eq]
  refine ⟨put.queueTrans (by simpa using unowned), sealed, framed_same framed (fun i k => ?_) rfl rfl rfl, ?_⟩
  · simp [State.queueTrans]
  · exact sealed.settled current fun owned => by simp [State.queueTrans] at owned

/-- The buffer that the stream goes into next, with its head reserved. -/
theorem openStream_inv (h : Inv s) {k : Fin 4} (current : s.transIdx .redir = k)
    (free : (s.trans (.redir, k)).prphOwned = false) :
    Base (openStream s (.redir, k)) ∧ Stream (openStream s (.redir, k)) ∧ (∀ i, Framed (openStream s (.redir, k)) i) ∧
      (openStream s (.redir, k)).transIdx .redir = k ∧ ((openStream s (.redir, k)).trans (.redir, k)).prphOwned = false ∧
      frameHeadLen ≤ ((openStream s (.redir, k)).trans (.redir, k)).pos ∧
      ((openStream s (.redir, k)).trans (.redir, k)).pos + frameOverhead < redirBufSize := by
  have ok := h.ok (.redir, k)
  unfold openStream
  split
  · rename_i zero
    have size := h.size k
    have full : redirBufSize = 512 := rfl
    have six : frameHeadLen = 6 := rfl
    obtain ⟨t, ht⟩ : ∃ t : Trans, t = { s.trans (.redir, k) with pos := frameHeadLen } := ⟨_, rfl⟩
    have pos : t.pos = 6 := by rw [ht, six]
    have sized : t.size = (s.trans (.redir, k)).size := by rw [ht]
    have unowned : t.prphOwned = false := by rw [ht, ← free]
    have opened : t.Ok := by
      refine ⟨by rw [sized]; exact ok.size_lt, ?_, by omega⟩
      rw [ht]
      exact ok.size_le
    have bytes : t.bytes.drop frameHeadLen = (s.trans (.redir, k)).bytes.drop frameHeadLen ++ [] := by
      rw [bytes_of_pos_zero zero, Trans.bytes, pos, six, List.drop_take]
      simp
    have put : s.setPos (.redir, k) frameHeadLen = s.put (.redir, k) t := by rw [ht, State.setPos]
    rw [put]
    have grown : Stream (s.put (.redir, k) t) := h.toStream.grow h.toBase current free unowned sized (by omega)
      (by rw [pos, full]; decide) bytes rfl rfl rfl rfl (List.append_nil _).symm
    refine ⟨h.toBase.put opened (unowned.trans free.symm), grown, framed_same h.framed (fun i k => by simp) rfl rfl rfl,
      current, ?_, ?_, ?_⟩
    · simpa using unowned
    · simp [pos, six]
    · simp [pos, full, frameOverhead, frameHeadLen, frameTailLen]
  · rename_i some
    have low := ((h.opened k free).resolve_left some).2.1
    exact ⟨h.toBase, h.toStream, h.framed, current, free, low, h.settled k free⟩

/-- One turn of a stream write. -/
theorem streamNext_inv (h : Inv s) : Inv (streamNext s) := by
  obtain ⟨kept, found⟩ := getTrans_inv .redir 0 (fun _ => rfl) h
  unfold streamNext
  split
  · rename_i s₁ got
    rw [got] at kept
    have lost := kept.countFrame .redir
    exact ⟨⟨lost.ok, lost.owned, lost.once, lost.unshared, lost.handed⟩, ⟨lost.size, lost.closed, lost.opened, lost.bytes⟩,
      fun i => ⟨(lost.framed i).whole, (lost.framed i).delivered⟩, lost.settled⟩
  · rename_i s₁ k got
    rw [got] at kept found
    obtain ⟨free, -, current⟩ := found k rfl
    obtain ⟨base, stream, framed, current, free, low, room⟩ := openStream_inv kept current free
    obtain ⟨s₂, hs₂⟩ : ∃ s₂, s₂ = openStream s₁ (.redir, k) := ⟨_, rfl⟩
    rw [← hs₂] at base stream framed current free low room
    have full : redirBufSize = 512 := rfl
    have six : frameHeadLen = 6 := rfl
    have four : frameTailLen = 4 := rfl
    have ten : frameOverhead = 10 := rfl
    have size := stream.size k
    have space := freeSpace_eq (base.ok (.redir, k))
    have available : u16 (s₂.trans (.redir, k)).freeSpace = 512 - (s₂.trans (.redir, k)).pos := by
      rw [space, size, full]
      exact u16_of_lt (by omega)
    dsimp only
    rw [← hs₂, available]
    split
    · omega
    · -- the bytes leave room for the checksum
      obtain ⟨w, hw⟩ : ∃ w, w = min s₂.streaming.length (512 - (s₂.trans (.redir, k)).pos - frameTailLen) := ⟨_, rfl⟩
      rw [← hw]
      obtain ⟨t, ok, unowned, sized, pos, bytes, eq⟩ :=
        appendStream_eq (base.ok (.redir, k)) free w (by omega) (by rw [size]; omega)
      have before : (s₂.trans (.redir, k)).bytes.length = (s₂.trans (.redir, k)).pos := by
        have fits := base.ok (.redir, k)
        have := fits.pos_le
        have := fits.size_le
        rw [Trans.bytes, List.length_take]
        omega
      have dropped : t.bytes.drop frameHeadLen = (s₂.trans (.redir, k)).bytes.drop frameHeadLen ++ s₂.streaming.take w := by
        rw [bytes, List.drop_append_of_le_length (by omega)]
      have grown : Stream (appendStream s₂ (.redir, k) w) :=
        stream.grow base current free unowned sized (by omega) (by omega) dropped (by rw [eq]; rfl) (by rw [eq]; rfl)
          (by rw [eq]; rfl) (by rw [eq]; rfl) (by rw [eq])
      have put := base.put ok (unowned.trans free.symm)
      have grownBase : Base (appendStream s₂ (.redir, k) w) := by
        rw [eq]
        exact ⟨put.ok, put.owned, put.once, put.unshared, put.handed⟩
      have grownFramed : ∀ i, Framed (appendStream s₂ (.redir, k) w) i :=
        framed_same framed (fun i k => by rw [eq]; simp) (by rw [eq]; rfl) (by rw [eq]; rfl) (by rw [eq]; rfl)
      have self : (appendStream s₂ (.redir, k) w).trans (.redir, k) = t := by
        rw [eq]
        simp
      have idx : (appendStream s₂ (.redir, k) w).transIdx .redir = k := by
        rw [eq]
        exact current
      have left : t.freeSpace = 512 - t.pos := by rw [freeSpace_eq ok, sized, size, full]
      rw [self, left]
      split
      · exact streamSeal_inv grownBase grown grownFramed idx (by rw [self]; exact unowned) (by rw [self]; omega)
          (by rw [self]; omega) .redir
      · exact ⟨grownBase, grown, grownFramed, grown.settled idx fun _ => by rw [self]; omega⟩

theorem flushTrans_inv (h : Inv s) (k : Fin 4) : Inv (flushTrans s k) := by
  unfold flushTrans
  split
  · rename_i started
    obtain ⟨free, started⟩ := started
    have some : (s.trans (.redir, k)).pos ≠ 0 := by omega
    obtain ⟨current, -, room⟩ := (h.opened k free).resolve_left some
    exact streamSeal_inv h.toBase h.toStream h.framed current.symm free started room .redir
  · exact h

theorem streamFlush_inv (h : Inv s) : Inv (streamFlush s) :=
  flushTrans_inv (flushTrans_inv (flushTrans_inv (flushTrans_inv h _) _) _) _

end moves

end EspIdf.BleLog
