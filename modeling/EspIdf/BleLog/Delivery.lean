import EspIdf.BleLog.Transport

/-!
# What the buffers hold and what a write leaves in them

* `Sound` : what the log promises of every state;
* `Trans.Ok` : the position lies in the buffer; `freeSpace_eq`, `take_blit`, `map_mem` : reading a buffer;
* `writeTrans_eq`, `streamSeal_eq` : a framed log and a seal leave one whole frame.
-/

namespace EspIdf.BleLog

open State

/-! ## What is promised -/

/-- The records that the peripheral has accepted from a manager's buffers. -/
def sentRecords (s : State) (pool : Pool) : List (Byte × List Byte) :=
  (s.handed.filter fun h => h.accepted && h.pool == pool).flatMap fun h => records h.bytes

/-- The records in the buffers that the peripheral has not accepted. -/
def heldRecords (s : State) (pool : Pool) : List (Byte × List Byte) :=
  (List.finRange 4).flatMap fun idx => if (pool, idx) ∈ s.inFlight then [] else records (s.trans (pool, idx)).bytes

/-- The payloads of the stream frames that the peripheral has accepted. -/
def streamSent (s : State) : List Byte :=
  (s.handed.filter fun h => h.accepted && h.pool == .redir).flatMap fun h => payloads h.bytes

/-- The payloads of the stream frames in the queue. -/
def streamQueued (s : State) : List Byte :=
  (s.queue.filter fun id => id.1 == .redir).flatMap fun id => payloads (s.trans id).bytes

/-- The bytes after the reserved head of the buffer that the stream goes into. -/
def streamOpen (s : State) : List Byte :=
  let t := s.trans (.redir, s.transIdx .redir)
  if t.prphOwned then [] else t.bytes.drop frameHeadLen

structure Sound (s : State) : Prop where
  /-- Every buffer handed over is frame after frame, with nothing left over. -/
  parses : ∀ h ∈ s.handed, (parse h.bytes).isSome
  /-- Every framed log is in one frame, in a buffer or handed over. -/
  framed : ∀ i, (sentRecords s (.common i) ++ heldRecords s (.common i)).Perm (s.written (.common i))
  /-- The stream is the payloads of its frames, then those of the queued ones, then the bytes without a frame. -/
  stream : streamSent s ++ streamQueued s ++ streamOpen s = s.accepted
  /-- No buffer was written while the peripheral owned it. -/
  unshared : s.wroteOwned = false
  /-- No buffer is queued twice, and exactly the queued and the accepted ones are owned. -/
  once : (s.queue ++ s.inFlight).Nodup
  owned : ∀ id, (s.trans id).prphOwned = true ↔ id ∈ s.queue ++ s.inFlight
  within : ∀ id, (s.trans id).pos ≤ (s.trans id).size

/-! ## Buffers -/

/-- The position lies in the buffer, which is as large as it says. -/
structure Trans.Ok (t : Trans) : Prop where
  size_lt : t.size < 2 ^ 16
  size_le : t.size ≤ t.buf.length
  pos_le : t.pos ≤ t.size

theorem u16_of_lt {n : Nat} (h : n < 2 ^ 16) : u16 n = n := Nat.mod_eq_of_lt h

theorem u32_of_lt {n : Nat} (h : n < 2 ^ 32) : u32 n = n := Nat.mod_eq_of_lt h

theorem freeSpace_eq {t : Trans} (ok : t.Ok) : t.freeSpace = t.size - t.pos := by
  have := ok.size_lt
  have := ok.pos_le
  unfold Trans.freeSpace u32
  omega

section blit
variable {buf bytes : List Byte} {off : Nat}

theorem length_blit (h : off + bytes.length ≤ buf.length) : (blit buf off bytes).length = buf.length := by
  simp only [blit, List.length_append, List.length_take, List.length_drop]
  omega

theorem take_blit (h : off ≤ buf.length) : (blit buf off bytes).take (off + bytes.length) = buf.take off ++ bytes := by
  have length : (buf.take off ++ bytes).length = off + bytes.length := by
    rw [List.length_append, List.length_take, Nat.min_eq_left h]
  rw [blit, ← length, List.take_left']
  rfl

/-- Two writes, one after the other. -/
theorem blit_blit {more : List Byte} (h : off + bytes.length ≤ buf.length) :
    blit (blit buf off bytes) (off + bytes.length) more = blit buf off (bytes ++ more) := by
  have length : (buf.take off ++ bytes).length = off + bytes.length := by
    rw [List.length_append, List.length_take, Nat.min_eq_left (by omega)]
  rw [blit, take_blit (by omega), blit, ← List.drop_drop, ← length, List.drop_left, length, List.drop_drop, blit,
    List.length_append, List.append_assoc, List.append_assoc, List.append_assoc, List.append_assoc, Nat.add_assoc]

/-- What was written, read back. -/
theorem drop_blit (h : off + bytes.length ≤ buf.length) : ((blit buf off bytes).drop off).take bytes.length = bytes := by
  have length : (buf.take off).length = off := by
    rw [List.length_take, Nat.min_eq_left (by omega)]
  have dropped : (blit buf off bytes).drop off = bytes ++ buf.drop (off + bytes.length) := by
    have cut : (buf.take off ++ (bytes ++ buf.drop (off + bytes.length))).drop (buf.take off).length =
        bytes ++ buf.drop (off + bytes.length) := List.drop_left
    rw [length] at cut
    rw [blit, List.append_assoc, cut]
  rw [dropped, List.take_left']
  rfl

end blit

/-- What the checksum reads of a buffer. -/
theorem map_mem (t : Trans) (heap : Nat → Byte) {off len : Nat} (h : off + len ≤ t.buf.length) :
    (List.range' (t.address + off) len).map (t.mem heap) = (t.buf.drop off).take len := by
  refine List.ext_getElem (by simp; omega) fun i hi hj => ?_
  have hlen : i < len := by simpa using hi
  have inside : off + i < t.buf.length := by omega
  rw [List.getElem_map, List.getElem_range', List.getElem_take, List.getElem_drop, Trans.mem, if_pos (by omega)]
  simp only [Nat.one_mul]
  rw [show t.address + off + i - t.address = off + i by omega, List.getElem?_eq_getElem inside]
  rfl

/-! ## Lookups -/

@[simp] theorem put_trans (s : State) (id : TransId) (t : Trans) : (s.put id t).trans = Function.update s.trans id t := rfl

@[simp] theorem countFrame_trans (s : State) (src : Source) : (s.countFrame src).trans = s.trans := rfl

@[simp] theorem put_queue (s : State) (id : TransId) (t : Trans) : (s.put id t).queue = s.queue := rfl

@[simp] theorem put_inFlight (s : State) (id : TransId) (t : Trans) : (s.put id t).inFlight = s.inFlight := rfl

@[simp] theorem put_put (s : State) (id : TransId) (t t' : Trans) : (s.put id t).put id t' = s.put id t' := by
  simp [put]

theorem put_self (s : State) (id : TransId) : s.put id (s.trans id) = s := by
  simp [put]

/-- Writing into a buffer that the peripheral does not own. -/
theorem put_memcpy {t : Trans} (free : t.prphOwned = false) (s : State) (id : TransId) (off : Nat) (bytes : List Byte) :
    (s.put id t).memcpy id off bytes = s.put id { t with buf := blit t.buf off bytes } := by
  simp [memcpy, put, free]

@[simp] theorem put_setPos (s : State) (id : TransId) (t : Trans) (pos : Nat) :
    (s.put id t).setPos id pos = s.put id { t with pos := pos } := by
  simp [setPos]

theorem put_checksum (s : State) (id : TransId) {t : Trans} {off len : Nat} (h : off + len ≤ t.buf.length) :
    (s.put id t).checksum id off len = checksumOf ((t.buf.drop off).take len) := by
  rw [checksum, fastChecksum_eq]
  simp only [put_trans, Function.update_self]
  rw [map_mem t _ h]

/-! ## Whole frames -/

/-- The log has been recorded as written through a manager. -/
def State.record (s : State) (pool : Pool) (log : Log) : State :=
  { s with written := Function.update s.written pool (s.written pool ++ [(log.src.code, log.addr ++ log.append)]) }

/-- A log that fits is appended as one frame, and the buffer is queued when it has no room for another. -/
theorem writeTrans_eq {s : State} {id : TransId} {log : Log} (ok : (s.trans id).Ok) (free : (s.trans id).prphOwned = false)
    (room : (log.addr ++ log.append).length + frameOverhead ≤ (s.trans id).freeSpace) :
    ∃ (t : Trans) (frame : Frame), frame.record = (log.src.code, log.addr ++ log.append) ∧
      frame.payload.length < 2 ^ 16 ∧ t.Ok ∧ t.prphOwned = false ∧ t.size = (s.trans id).size ∧
      t.bytes = (s.trans id).bytes ++ frame.bytes ∧
      writeTrans s id log =
        if t.freeSpace ≤ frameOverhead then (((s.countFrame log.src).put id t).record id.1 log).queueTrans id
        else ((s.countFrame log.src).put id t).record id.1 log := by
  obtain ⟨t, ht⟩ : ∃ t, t = s.trans id := ⟨_, rfl⟩
  rw [← ht] at ok free room ⊢
  rw [freeSpace_eq ok, List.length_append, frameOverhead, frameHeadLen, frameTailLen] at room
  have size_lt := ok.size_lt
  have size_le := ok.size_le
  have pos_le := ok.pos_le
  have addr : u16 log.addr.length = log.addr.length := u16_of_lt (by omega)
  have append : u16 log.append.length = log.append.length := u16_of_lt (by omega)
  have both : u16 (log.addr.length + log.append.length) = (log.addr ++ log.append).length := by
    rw [List.length_append]
    exact u16_of_lt (by omega)
  obtain ⟨frame, hframe⟩ : ∃ frame : Frame, frame = ⟨log.src.code, (s.frameSn log.src).setWidth 24, log.addr ++ log.append⟩ :=
    ⟨_, rfl⟩
  have payload : frame.payload = log.addr ++ log.append := by rw [hframe]
  have payloadLen : frame.payload.length = log.addr.length + log.append.length := by rw [payload, List.length_append]
  have head : frameHead (.ofNat 16 frame.payload.length) (makeFrameMeta log.src.code (s.frameSn log.src)) = frame.head := by
    rw [makeFrameMeta_eq, hframe]
    rfl
  have headLen : frame.head.length = 6 := rfl
  have total : frame.bytes.length = frame.payload.length + 10 := length_bytes frame
  have inside : t.pos + frame.bytes.length ≤ t.buf.length := by omega
  -- the four writes are one write of the frame
  have buf₂ : blit (blit t.buf t.pos frame.head) (t.pos + frameHeadLen) log.addr = blit t.buf t.pos (frame.head ++ log.addr) :=
    blit_blit (by omega)
  have buf₃ : blit (blit t.buf t.pos (frame.head ++ log.addr)) (t.pos + frameHeadLen + log.addr.length) log.append =
      blit t.buf t.pos (frame.head ++ frame.payload) := by
    rw [show t.pos + frameHeadLen + log.addr.length = t.pos + (frame.head ++ log.addr).length by
      rw [List.length_append, headLen, frameHeadLen]; omega, blit_blit (by rw [List.length_append]; omega), payload, List.append_assoc]
  have buf₄ : blit (blit t.buf t.pos (frame.head ++ frame.payload)) (t.pos + frameHeadLen + frame.payload.length)
      (le32 (checksumOf (frame.head ++ frame.payload))) = blit t.buf t.pos frame.bytes := by
    rw [show t.pos + frameHeadLen + frame.payload.length = t.pos + (frame.head ++ frame.payload).length by
      rw [List.length_append, headLen, frameHeadLen]; omega, blit_blit (by rw [List.length_append]; omega)]
    rfl
  have read (s : State) : (s.put id { t with buf := blit t.buf t.pos (frame.head ++ frame.payload) }).checksum id t.pos
      (frameHeadLen + frame.payload.length) = checksumOf (frame.head ++ frame.payload) := by
    have length : (frame.head ++ frame.payload).length = frameHeadLen + frame.payload.length := List.length_append
    have fits : t.pos + (frame.head ++ frame.payload).length ≤ t.buf.length := by
      rw [length, frameHeadLen]
      omega
    rw [← length, put_checksum _ _ (by rw [length_blit fits]; exact fits), drop_blit fits]
  refine ⟨{ t with buf := blit t.buf t.pos frame.bytes, pos := t.pos + frame.payload.length + frameOverhead }, frame,
    by rw [hframe]; rfl, by omega, ⟨size_lt, by rw [length_blit inside]; exact size_le, ?_⟩, free, rfl, ?_, ?_⟩
  · show t.pos + frame.payload.length + frameOverhead ≤ t.size
    rw [payloadLen, frameOverhead, frameHeadLen, frameTailLen]
    omega
  · have taken : (blit t.buf t.pos frame.bytes).take (t.pos + frame.bytes.length) = t.buf.take t.pos ++ frame.bytes :=
      take_blit (by omega)
    rw [total] at taken
    exact taken
  · have pos₄ : u16 (t.pos + frame.payload.length + frameOverhead) = t.pos + frame.payload.length + frameOverhead :=
      u16_of_lt (by rw [payloadLen, frameOverhead, frameHeadLen, frameTailLen]; omega)
    have start : s.countFrame log.src = (s.countFrame log.src).put id t := by
      rw [ht]
      exact (put_self (s.countFrame log.src) id).symm
    simp only [writeTrans, ← ht, addr, append, both, List.take_length, ← payload, head]
    rw [start, put_memcpy free, put_memcpy (by exact free), put_memcpy (by exact free), buf₂, buf₃, read, put_memcpy (by exact free),
      buf₄, put_setPos, pos₄]
    simp only [State.record, put_trans, put_put, Function.update_self, payload]

/-- A seal puts a head before the bytes of the stream and a checksum behind them, and queues the frame. -/
theorem streamSeal_eq {s : State} {id : TransId} (ok : (s.trans id).Ok) (free : (s.trans id).prphOwned = false)
    (started : frameHeadLen < (s.trans id).pos) (room : (s.trans id).pos + frameTailLen ≤ (s.trans id).size) (src : Source) :
    ∃ (t : Trans) (frame : Frame), frame.payload = (s.trans id).bytes.drop frameHeadLen ∧
      frame.payload.length < 2 ^ 16 ∧ t.Ok ∧ t.prphOwned = false ∧ t.size = (s.trans id).size ∧
      t.bytes = frame.bytes ∧ streamSeal s id src = ((s.countFrame src).put id t).queueTrans id := by
  obtain ⟨t, ht⟩ : ∃ t, t = s.trans id := ⟨_, rfl⟩
  rw [← ht] at ok free started room ⊢
  rw [frameHeadLen] at started
  rw [frameTailLen] at room
  have size_lt := ok.size_lt
  have size_le := ok.size_le
  obtain ⟨frame, hframe⟩ : ∃ frame : Frame, frame = ⟨src.code, (s.frameSn src).setWidth 24, t.bytes.drop frameHeadLen⟩ :=
    ⟨_, rfl⟩
  have payload : frame.payload = t.bytes.drop frameHeadLen := by rw [hframe]
  have payloadLen : frame.payload.length = t.pos - 6 := by
    rw [payload, List.length_drop, Trans.bytes, List.length_take, frameHeadLen]
    omega
  have len : u16 (t.pos - frameHeadLen) = frame.payload.length := by
    rw [payloadLen]
    exact u16_of_lt (by omega)
  have head : frameHead (.ofNat 16 frame.payload.length) (makeFrameMeta src.code (s.frameSn src)) = frame.head := by
    rw [makeFrameMeta_eq, hframe]
    rfl
  have headLen : frame.head.length = 6 := rfl
  have buf₁ : (blit t.buf 0 frame.head).take t.pos = frame.head ++ frame.payload := by
    have cut : (frame.head ++ t.buf.drop 6).take t.pos = frame.head ++ (t.buf.drop 6).take (t.pos - 6) := by
      rw [List.take_append, headLen, List.take_of_length_le (by omega)]
    rw [payload, Trans.bytes, List.drop_take]
    simpa [blit, headLen, frameHeadLen] using cut
  have len₁ : (blit t.buf 0 frame.head).length = t.buf.length := length_blit (by omega)
  have read (s : State) : (s.put id { t with buf := blit t.buf 0 frame.head }).checksum id 0 t.pos =
      checksumOf (frame.head ++ frame.payload) := by
    rw [put_checksum _ _ (by rw [len₁]; omega), List.drop_zero, buf₁]
  have len₂ : (blit (blit t.buf 0 frame.head) t.pos (le32 (checksumOf (frame.head ++ frame.payload)))).length = t.buf.length := by
    rw [length_blit (by rw [len₁, length_le32]; omega), len₁]
  have whole : (blit (blit t.buf 0 frame.head) t.pos (le32 (checksumOf (frame.head ++ frame.payload)))).take (t.pos + 4) =
      frame.bytes := by
    have start : t.pos ≤ (blit t.buf 0 frame.head).length := by omega
    rw [show t.pos + 4 = t.pos + (le32 (checksumOf (frame.head ++ frame.payload))).length from rfl, take_blit start, buf₁,
      Frame.bytes]
  refine ⟨{ t with
      buf := blit (blit t.buf 0 frame.head) t.pos (le32 (checksumOf (frame.head ++ frame.payload)))
      pos := t.pos + 4 }, frame, payload, by omega, ⟨size_lt, ?_, room⟩, free, rfl, whole, ?_⟩
  · show t.size ≤ _
    rw [len₂]
    exact size_le
  · have later : ¬t.pos ≤ frameHeadLen := by
      rw [frameHeadLen]
      omega
    have start : s.countFrame src = (s.countFrame src).put id t := by
      rw [ht]
      exact (put_self (s.countFrame src) id).symm
    have pos₂ : u16 (t.pos + frameTailLen) = t.pos + 4 := u16_of_lt (by rw [frameTailLen]; omega)
    simp only [streamSeal, ← ht, later, ↓reduceIte, len, head]
    rw [start, put_memcpy free, read, put_memcpy (by exact free), put_setPos, pos₂, put_put]

/-- Bytes of the stream go behind those that are there. -/
theorem appendStream_eq {s : State} {id : TransId} (ok : (s.trans id).Ok) (free : (s.trans id).prphOwned = false)
    (toWrite : Nat) (available : toWrite ≤ s.streaming.length) (room : (s.trans id).pos + toWrite ≤ (s.trans id).size) :
    ∃ t : Trans, t.Ok ∧ t.prphOwned = false ∧ t.size = (s.trans id).size ∧ t.pos = (s.trans id).pos + toWrite ∧
      t.bytes = (s.trans id).bytes ++ s.streaming.take toWrite ∧
      appendStream s id toWrite = { s.put id t with
        streaming := s.streaming.drop toWrite, accepted := s.accepted ++ s.streaming.take toWrite } := by
  obtain ⟨t, ht⟩ : ∃ t, t = s.trans id := ⟨_, rfl⟩
  rw [← ht] at ok free room ⊢
  have size_lt := ok.size_lt
  have size_le := ok.size_le
  have taken : (s.streaming.take toWrite).length = toWrite := by rw [List.length_take, Nat.min_eq_left available]
  have pos₁ : u16 (t.pos + toWrite) = t.pos + toWrite := u16_of_lt (by omega)
  refine ⟨{ t with buf := blit t.buf t.pos (s.streaming.take toWrite), pos := t.pos + toWrite }, ⟨size_lt, ?_, room⟩, free,
    rfl, rfl, ?_, ?_⟩
  · show t.size ≤ _
    rw [length_blit (by omega)]
    exact size_le
  · show (blit _ _ _).take (t.pos + toWrite) = t.buf.take t.pos ++ _
    have start : t.pos ≤ t.buf.length := by omega
    rw [show t.pos + toWrite = t.pos + (s.streaming.take toWrite).length by omega, take_blit start]
  · have written : s.memcpy id t.pos (s.streaming.take toWrite) =
        s.put id { t with buf := blit t.buf t.pos (s.streaming.take toWrite) } := by
      have whole := put_memcpy free s id t.pos (s.streaming.take toWrite)
      rwa [ht, put_self, ← ht] at whole
    rw [appendStream, ← ht, written, put_setPos, pos₁]
    rfl

end EspIdf.BleLog
