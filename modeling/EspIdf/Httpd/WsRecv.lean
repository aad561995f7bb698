import EspIdf.Httpd.HttpParser

/-!
# `httpd_ws.c`: receiving WebSocket frames

* `Sock`, `httpdRecvWithOpt` : the bytes of a session and the three ways to receive some of them;
* `getFrameType`, `recvFrameInternal` : the header and the payload of a frame;
* `WireFrame` : a masked frame as a client sends it;
* `recvAll_eq`, `recvPayload_eq`, `header_eq` : the bytes come in order, however they are cut;
* `recv_exact_iff` : which frames are received exactly.

`size_t` has 32 bits.
-/

namespace EspIdf.Httpd.Ws

/-! ## Bytes of a session -/

/-- `pending_data`, what the peer has sent and `recv` has not returned, and how the calls cut it. -/
structure Sock where
  pending : Bytes
  stream : Bytes
  cuts : Nat → Nat
  calls : Nat
  /-- With nothing left, `recv` finds the connection closed, else it times out. -/
  closed : Bool

/-- All that will be received. -/
def Sock.bytes (s : Sock) : Bytes := s.pending ++ s.stream

inductive RecvOpt
  | none
  | haltAfterPending
  | blocking
deriving Repr, DecidableEq

/-- `recv_fn`; nothing is an error or a timeout. -/
def recvFn (bufLen : Nat) (s : Sock) : Option Bytes × Sock :=
  if s.stream = [] then (none, s)
  else
    let n := min bufLen (s.cuts s.calls + 1)
    (some (s.stream.take n), { s with stream := s.stream.drop n, calls := s.calls + 1 })

/-- The loop of `httpd_recv_with_opt`; each turn but the last gets a byte. -/
def recvLoop (opt : RecvOpt) : (fuel bufLen : Nat) → Bytes → Sock → Option Bytes × Sock
  | 0, _, got, s => (some got, s)
  | fuel + 1, bufLen, got, s =>
    let r := recvFn bufLen s
    match r.1 with
    | none => (none, r.2)
    | some buf =>
      if bufLen - buf.length > 0 ∧ opt = .blocking then recvLoop opt fuel (bufLen - buf.length) (got ++ buf) r.2
      else (some (got ++ buf), r.2)

/-- `httpd_recv_with_opt` -/
def httpdRecvWithOpt (opt : RecvOpt) (bufLen : Nat) (s : Sock) : Option Bytes × Sock :=
  let got := s.pending.take bufLen
  if s.pending ≠ [] ∧ (bufLen - got.length = 0 ∨ opt = .haltAfterPending) then
    (some got, { s with pending := s.pending.drop bufLen })
  else
    let r := recvLoop opt (bufLen - got.length) (bufLen - got.length) got { s with pending := s.pending.drop bufLen }
    match r.1 with
    -- a timeout gives back what was pending
    | none => if s.closed = false ∧ got.length ≠ 0 then (some got, r.2) else (none, r.2)
    | some buf => (some buf, r.2)

/-! ## Frames -/

inductive Err
  | ok
  | fail
  | invalidState
  | invalidSize
deriving Repr, DecidableEq

/-- `httpd_ws_frame_t`, without the buffer. -/
structure Frame where
  final : Bool
  type : Nat
  len : Nat
  leftLen : Nat
deriving Repr, DecidableEq

/-- A frame as the user sets it up. -/
def Frame.zero : Frame := ⟨false, 0, 0, 0⟩

/-- The session and what `httpd_req_aux` keeps of the frame. -/
structure State where
  sock : Sock
  wsType : Nat
  wsFinal : Bool
  maskKey : Bytes

/-- Values of `size_t`. -/
def sizeT : Nat := 2 ^ 32

def beValue (bytes : Bytes) : Nat := bytes.foldl (fun n b => 256 * n + b.toNat) 0

/-- `httpd_ws_unmask_payload` from `maskOffset` on. -/
def unmaskPayload (maskKey : Bytes) : Bytes → (maskOffset : Nat) → Bytes
  | [], _ => []
  | b :: rest, maskOffset => (b ^^^ maskKey.getD (maskOffset % 4) 0) :: unmaskPayload maskKey rest (maskOffset + 1)

/-- Receiving `n` bytes, all of them. -/
def recvAll (n : Nat) (s : Sock) : Option Bytes × Sock :=
  let r := httpdRecvWithOpt .blocking n s
  match r.1 with
  | some bytes => if bytes.length = n then (some bytes, r.2) else (none, r.2)
  | none => (none, r.2)

/-- The length that the second byte announces, read in its 7-, 16- or 64-bit form. -/
def recvLen (initLen : Nat) (s : Sock) : Option Nat × Sock :=
  if initLen < 126 then (some initLen, s)
  else
    let r := recvAll (if initLen = 126 then 2 else 8) s
    (r.1.map fun bytes => beValue bytes % sizeT, r.2)

/-- The header, as far as `httpd_ws_recv_frame` reads it: second byte, length and mask. -/
def recvHeader (s : State) : Err × Frame × State :=
  let frame : Frame := { Frame.zero with final := s.wsFinal, type := s.wsType }
  let second := recvAll 1 s.sock
  match second.1 with
  | none => (.fail, frame, { s with sock := second.2 })
  | some bytes =>
    let secondByte := bytes.headD 0
    let len := recvLen (secondByte &&& 0x7F).toNat second.2
    match len.1 with
    | none => (.fail, frame, { s with sock := len.2 })
    | some n =>
      let frame := { frame with len := n, leftLen := n }
      if secondByte &&& 0x80 ≠ 0 then
        let mask := recvAll 4 len.2
        match mask.1 with
        | none => (.fail, frame, { s with sock := mask.2 })
        | some key => (.ok, frame, { s with sock := mask.2, maskKey := key })
      else (.invalidState, frame, { s with sock := len.2 })

/-- The loop that receives the payload; each turn gets a byte. -/
def recvPayload : (fuel leftLen : Nat) → Bytes → Sock → Option Bytes × Sock
  | 0, _, got, s => (some got, s)
  | fuel + 1, leftLen, got, s =>
    if leftLen = 0 then (some got, s)
    else
      let r := httpdRecvWithOpt .none leftLen s
      match r.1 with
      | none => (none, r.2)
      | some bytes =>
        if bytes.length = 0 then (none, r.2) else recvPayload fuel (leftLen - bytes.length) (got ++ bytes) r.2

/-- What a call comes to: error, frame, the bytes put into the buffer. -/
structure Result where
  err : Err
  frame : Frame
  payload : Bytes
  state : State

/-- `httpd_ws_recv_frame_internal` behind the header. -/
def recvBody (part : Bool) (frame : Frame) (maxLen : Nat) (s : State) : Result :=
  if maxLen = 0 then ⟨.ok, frame, [], s⟩
  else if frame.len > maxLen ∧ part = false then ⟨.invalidSize, frame, [], s⟩
  else if frame.leftLen = 0 then ⟨.ok, frame, [], s⟩
  else
    let left := if maxLen < frame.leftLen then maxLen else frame.leftLen
    let p := recvPayload left left [] s.sock
    match p.1 with
    | none => ⟨.fail, frame, [], { s with sock := p.2 }⟩
    | some bytes =>
      ⟨.ok, { frame with leftLen := frame.leftLen - bytes.length },
        unmaskPayload s.maskKey bytes (frame.len - frame.leftLen), { s with sock := p.2 }⟩

/-- `httpd_ws_recv_frame_internal`, with a buffer of `maxLen` bytes. -/
def recvFrameInternal (part : Bool) (frame : Frame) (maxLen : Nat) (s : State) : Result :=
  let r := if frame.len = 0 then recvHeader s else (.ok, frame, s)
  if r.1 ≠ .ok then ⟨r.1, r.2.1, [], r.2.2⟩ else recvBody part r.2.1 maxLen r.2.2

/-- `httpd_ws_recv_frame` -/
def recvFrame := recvFrameInternal false

/-- `httpd_ws_recv_frame_part` -/
def recvFramePart := recvFrameInternal true

/-- `httpd_ws_get_frame_type`, for a frame that the handler is to see. -/
def getFrameType (s : State) : State :=
  let first := recvAll 1 s.sock
  match first.1 with
  | none => { s with sock := first.2, wsFinal := true, wsType := 8 }
  | some bytes =>
    { s with sock := first.2, wsFinal := bytes.headD 0 &&& 0x80 ≠ 0, wsType := (bytes.headD 0 &&& 0x0F).toNat }

/-! ## What a handler does -/

/-- The frame by one call that asks for the length and one that has a buffer of `maxLen`. -/
def recvWhole (maxLen : Nat) (s : State) : Result :=
  let r := recvFrame .zero 0 s
  if r.err ≠ .ok then r else recvFrame r.frame maxLen r.state

/-- The frame by parts, with buffers of these lengths, until nothing is left. -/
def recvParts (frame : Frame) (s : State) : List Nat → Result
  | [] => ⟨.ok, frame, [], s⟩
  | maxLen :: rest =>
    let r := recvFramePart frame maxLen s
    if r.err ≠ .ok ∨ r.frame.leftLen = 0 then r
    else
      let more := recvParts r.frame r.state rest
      { more with payload := r.payload ++ more.payload }

/-! ## What a client sends -/

/-- `n` bytes, the high ones first. -/
def beBytes : (n value : Nat) → Bytes
  | 0, _ => []
  | n + 1, value => beBytes n (value / 256) ++ [UInt8.ofNat value]

inductive LenForm
  | bits7
  | bits16
  | bits64
deriving Repr, DecidableEq

/-- A masked frame; its length fits the form that is used for it. -/
structure WireFrame where
  final : Bool
  opcode : Fin 16
  form : LenForm
  maskKey : Bytes
  payload : Bytes
  key : maskKey.length = 4
  fits : payload.length < match form with
    | .bits7 => 126
    | .bits16 => 2 ^ 16
    | .bits64 => 2 ^ 64

namespace WireFrame
variable (f : WireFrame)

def firstByte : UInt8 := UInt8.ofNat ((if f.final then 128 else 0) + f.opcode.val)

def initLen : Nat :=
  match f.form with
  | .bits7 => f.payload.length
  | .bits16 => 126
  | .bits64 => 127

def lenBytes : Bytes :=
  match f.form with
  | .bits7 => []
  | .bits16 => beBytes 2 f.payload.length
  | .bits64 => beBytes 8 f.payload.length

def masked : Bytes := unmaskPayload f.maskKey f.payload 0

/-- The frame behind its first byte. -/
def tail : Bytes := UInt8.ofNat (128 + f.initLen) :: (f.lenBytes ++ (f.maskKey ++ f.masked))

def wire : Bytes := f.firstByte :: f.tail

end WireFrame

/-- A session that has received `split` bytes of what it will get. -/
def State.holding (bytes : Bytes) (split : Nat) (cuts : Nat → Nat) (closed : Bool) : State :=
  { sock := { pending := bytes.take split, stream := bytes.drop split, cuts, calls := 0, closed }
    wsType := 0, wsFinal := false, maskKey := [] }

section claims
variable (f : WireFrame) (rest : Bytes) (s : State)

/-- The call succeeds with the frame's payload, and the next frame is what comes next. -/
def Exact (r : Result) : Prop :=
  r.err = .ok ∧ r.frame.final = f.final ∧ r.frame.type = f.opcode ∧ r.frame.len = f.payload.length ∧
    r.payload = f.payload ∧ r.state.sock.bytes = rest

/-- A frame whose length is a `size_t` is received exactly with any buffer that is large enough, others are refused. -/
def WholeOk : Prop :=
  if f.payload.length < sizeT then ∀ maxLen, f.payload.length ≤ maxLen → Exact f rest (recvWhole maxLen s)
  else (recvFrame .zero 0 s).err ≠ .ok

/-- The same by parts: they are what the payload begins with, and the frame is complete when nothing is left. -/
def PartsOk : Prop :=
  if f.payload.length < sizeT then
    ∀ maxLens, maxLens ≠ [] →
      (recvParts .zero s maxLens).err = .ok ∧
      (recvParts .zero s maxLens).frame.leftLen = f.payload.length - maxLens.sum ∧
      (recvParts .zero s maxLens).payload = f.payload.take maxLens.sum ∧
      ((recvParts .zero s maxLens).frame.leftLen = 0 → Exact f rest (recvParts .zero s maxLens))
  else ∀ maxLen, (recvFramePart .zero maxLen s).err ≠ .ok

end claims

/-! ## Bytes come in order -/

section recv
variable {s : Sock} {n : Nat}

theorem recvFn_some (n : Nat) (s : Sock) (hn : 0 < n) (hs : s.stream ≠ []) :
    ∃ m, 0 < m ∧ m ≤ n ∧ m ≤ s.stream.length ∧ recvFn n s =
      (some (s.stream.take m), { s with stream := s.stream.drop m, calls := s.calls + 1 }) := by
  have hlen : 0 < s.stream.length := List.length_pos_iff.mpr hs
  refine ⟨min (min n (s.cuts s.calls + 1)) s.stream.length, by omega, by omega, by omega, ?_⟩
  unfold recvFn
  rw [if_neg hs]
  dsimp only
  rw [← List.take_eq_take_min, ← List.drop_eq_drop_min]

theorem recvLoop_blocking (fuel n : Nat) (got : Bytes) (s : Sock) (hfuel : n ≤ fuel) (hn : 0 < n) (hs : n ≤ s.stream.length) :
    ∃ s', recvLoop .blocking fuel n got s = (some (got ++ s.stream.take n), s') ∧ s'.pending = s.pending ∧
      s'.stream = s.stream.drop n ∧ s'.closed = s.closed := by
  induction fuel generalizing n got s with
  | zero => omega
  | succ fuel ih =>
    obtain ⟨m, hm, hmn, hms, hr⟩ := recvFn_some n s hn (by rintro h; rw [h] at hs; simp at hs; omega)
    unfold recvLoop
    rw [hr]
    dsimp only
    rw [List.length_take, Nat.min_eq_left hms]
    by_cases hmore : n - m > 0
    · rw [if_pos ⟨hmore, rfl⟩]
      obtain ⟨s', heq, hpending, hstream, hclosed⟩ := ih (n - m) (got ++ s.stream.take m)
        { s with stream := s.stream.drop m, calls := s.calls + 1 } (by omega) hmore (by simp; omega)
      refine ⟨s', ?_, hpending, ?_, hclosed⟩
      · rw [heq, List.append_assoc]
        dsimp only
        rw [← List.take_append_drop m (s.stream.take n), List.take_take, List.drop_take, Nat.min_eq_left hmn]
      · rw [hstream]
        dsimp only
        rw [List.drop_drop, show m + (n - m) = n by omega]
    · have heq : m = n := by omega
      rw [if_neg (fun h => hmore h.1), heq]
      exact ⟨_, rfl, rfl, rfl, rfl⟩

/-- Receiving without a cut. -/
theorem recvAll_eq (hn : 0 < n) (hs : n ≤ s.bytes.length) :
    ∃ s', recvAll n s = (some (s.bytes.take n), s') ∧ s'.bytes = s.bytes.drop n := by
  have hlen : s.bytes.length = s.pending.length + s.stream.length := List.length_append
  have hrecv : ∃ s', httpdRecvWithOpt .blocking n s = (some (s.bytes.take n), s') ∧ s'.bytes = s.bytes.drop n := by
    unfold httpdRecvWithOpt Sock.bytes
    dsimp only
    rw [List.length_take]
    by_cases hpending : n ≤ s.pending.length
    · have hne : s.pending ≠ [] := by
        rintro h
        rw [h] at hpending
        exact absurd hn (Nat.not_lt.mpr hpending)
      rw [if_pos ⟨hne, .inl (by omega)⟩]
      refine ⟨_, by rw [List.take_append_of_le_length hpending], ?_⟩
      dsimp only
      rw [List.drop_append_of_le_length hpending]
    · rw [if_neg (by rintro ⟨-, h | h⟩ <;> [omega; cases h])]
      obtain ⟨s', heq, hp, hstream, -⟩ := recvLoop_blocking (n - s.pending.length) (n - s.pending.length)
        (s.pending.take n) { s with pending := s.pending.drop n } (Nat.le_refl _) (by omega) (by dsimp only; omega)
      rw [Nat.min_eq_right (by omega), heq]
      dsimp only at hp hstream ⊢
      refine ⟨s', ?_, ?_⟩
      · rw [List.take_append]
      · rw [hp, hstream, List.drop_append]
  obtain ⟨s', heq, hbytes⟩ := hrecv
  refine ⟨s', ?_, hbytes⟩
  unfold recvAll
  rw [heq]
  dsimp only
  rw [if_pos (by rw [List.length_take]; omega)]

/-- A single receive gets some of the next bytes. -/
theorem recvNone_eq (hn : 0 < n) (hs : n ≤ s.bytes.length) :
    ∃ m s', 0 < m ∧ m ≤ n ∧ httpdRecvWithOpt .none n s = (some (s.bytes.take m), s') ∧ s'.bytes = s.bytes.drop m := by
  have hlen : s.bytes.length = s.pending.length + s.stream.length := List.length_append
  unfold httpdRecvWithOpt Sock.bytes
  dsimp only
  rw [List.length_take]
  by_cases hpending : n ≤ s.pending.length
  · have hne : s.pending ≠ [] := by
      rintro h
      rw [h] at hpending
      exact absurd hn (Nat.not_lt.mpr hpending)
    rw [if_pos ⟨hne, .inl (by omega)⟩]
    refine ⟨n, { s with pending := s.pending.drop n }, hn, Nat.le_refl _,
      by rw [List.take_append_of_le_length hpending], ?_⟩
    dsimp only
    rw [List.drop_append_of_le_length hpending]
  · rw [if_neg (by rintro ⟨-, h | h⟩ <;> [omega; cases h]), Nat.min_eq_right (by omega)]
    have hstream : s.stream ≠ [] := by
      rintro h
      rw [h] at hlen
      simp at hlen
      omega
    obtain ⟨m, hm, hmn, hms, hr⟩ := recvFn_some (n - s.pending.length)
      { s with pending := s.pending.drop n } (by omega) hstream
    obtain ⟨fuel, hfuel⟩ : ∃ fuel, n - s.pending.length = fuel + 1 := ⟨n - s.pending.length - 1, by omega⟩
    have hloop : recvLoop .none (n - s.pending.length) (n - s.pending.length) (s.pending.take n)
        { s with pending := s.pending.drop n } =
        (some (s.pending.take n ++ s.stream.take m),
          { s with pending := s.pending.drop n, stream := s.stream.drop m, calls := s.calls + 1 }) := by
      rw [hfuel] at hr ⊢
      unfold recvLoop
      rw [hr]
      dsimp only
      rw [if_neg (fun h => by cases h.2)]
    rw [hloop]
    dsimp only
    refine ⟨s.pending.length + m,
      { s with pending := s.pending.drop n, stream := s.stream.drop m, calls := s.calls + 1 }, by omega, by omega, ?_, ?_⟩
    · rw [List.take_append, List.take_of_length_le (show s.pending.length ≤ n by omega),
        List.take_of_length_le (Nat.le_add_right s.pending.length m), Nat.add_sub_cancel_left]
    · dsimp only
      rw [List.drop_append, List.drop_of_length_le (show s.pending.length ≤ n by omega),
        List.drop_of_length_le (Nat.le_add_right s.pending.length m), Nat.add_sub_cancel_left]

/-- The payload loop gets all it asks for. -/
theorem recvPayload_eq (fuel n : Nat) (got : Bytes) (s : Sock) (hfuel : n ≤ fuel) (hs : n ≤ s.bytes.length) :
    ∃ s', recvPayload fuel n got s = (some (got ++ s.bytes.take n), s') ∧ s'.bytes = s.bytes.drop n := by
  induction fuel generalizing n got s with
  | zero =>
    have hzero : n = 0 := by omega
    subst hzero
    exact ⟨s, by simp [recvPayload], by simp⟩
  | succ fuel ih =>
    unfold recvPayload
    split
    · rename_i hzero
      subst hzero
      exact ⟨s, by simp, by simp⟩
    · rename_i hpos
      obtain ⟨m, s', hm, hmn, heq, hbytes⟩ := recvNone_eq (Nat.pos_of_ne_zero hpos) hs
      rw [heq]
      dsimp only
      rw [List.length_take, Nat.min_eq_left (by omega), if_neg (by omega)]
      obtain ⟨s'', hrest, hbytes'⟩ := ih (n - m) (got ++ s.bytes.take m) s' (by omega)
        (by rw [hbytes, List.length_drop]; omega)
      refine ⟨s'', ?_, ?_⟩
      · rw [hrest, hbytes, List.append_assoc]
        rw [← List.take_append_drop m (s.bytes.take n), List.take_take, List.drop_take, Nat.min_eq_left hmn]
      · rw [hbytes', hbytes, List.drop_drop, show m + (n - m) = n by omega]

end recv

/-! ## Masks and lengths -/

theorem length_unmask (key bytes : Bytes) (k : Nat) : (unmaskPayload key bytes k).length = bytes.length := by
  induction bytes generalizing k with
  | nil => rfl
  | cons b bytes ih =>
    unfold unmaskPayload
    rw [List.length_cons, List.length_cons, ih]

theorem unmask_unmask (key bytes : Bytes) (k : Nat) : unmaskPayload key (unmaskPayload key bytes k) k = bytes := by
  induction bytes generalizing k with
  | nil => rfl
  | cons b bytes ih =>
    simp only [unmaskPayload]
    rw [ih, UInt8.xor_assoc, UInt8.xor_self, UInt8.xor_zero]

theorem unmask_take (key bytes : Bytes) (k n : Nat) :
    unmaskPayload key (bytes.take n) k = (unmaskPayload key bytes k).take n := by
  induction bytes generalizing k n with
  | nil => simp [unmaskPayload]
  | cons b bytes ih =>
    cases n with
    | zero => rfl
    | succ n => simp only [List.take_succ_cons, unmaskPayload, ih]

theorem unmask_drop (key bytes : Bytes) (k n : Nat) :
    unmaskPayload key (bytes.drop n) (k + n) = (unmaskPayload key bytes k).drop n := by
  induction bytes generalizing k n with
  | nil => simp [unmaskPayload]
  | cons b bytes ih =>
    cases n with
    | zero => rfl
    | succ n =>
      simp only [List.drop_succ_cons, unmaskPayload]
      rw [show k + (n + 1) = k + 1 + n by omega, ih]

theorem beValue_append (xs : Bytes) (b : UInt8) : beValue (xs ++ [b]) = 256 * beValue xs + b.toNat := by
  unfold beValue
  rw [List.foldl_append]
  rfl

theorem beValue_beBytes (n value : Nat) : beValue (beBytes n value) = value % 256 ^ n := by
  induction n generalizing value with
  | zero =>
    rw [Nat.pow_zero, Nat.mod_one]
    rfl
  | succ n ih =>
    have hpow : 256 ^ (n + 1) = 256 * 256 ^ n := by
      rw [Nat.pow_succ, Nat.mul_comm]
    rw [beBytes, beValue_append, ih, UInt8.toNat_ofNat', hpow, Nat.mod_mul]
    omega

theorem length_beBytes (n value : Nat) : (beBytes n value).length = n := by
  induction n generalizing value with
  | zero => rfl
  | succ n ih => rw [beBytes, List.length_append, ih, List.length_singleton]

theorem secondByte_bits (n : Fin 128) :
    (UInt8.ofNat (128 + n.val) &&& 0x7F).toNat = n.val ∧ UInt8.ofNat (128 + n.val) &&& 0x80 ≠ 0 := by
  revert n
  decide +kernel

theorem firstByte_bits (final : Bool) (opcode : Fin 16) :
    (decide (UInt8.ofNat ((if final then 128 else 0) + opcode.val) &&& 0x80 ≠ 0) = final) ∧
      (UInt8.ofNat ((if final then 128 else 0) + opcode.val) &&& 0x0F).toNat = opcode.val := by
  revert final opcode
  decide +kernel

/-! ## The header -/

theorem recvAll_cons {s : Sock} {n : Nat} {bytes rest : Bytes} (hn : 0 < n) (hlen : bytes.length = n)
    (hs : s.bytes = bytes ++ rest) : ∃ s', recvAll n s = (some bytes, s') ∧ s'.bytes = rest := by
  obtain ⟨s', heq, hbytes⟩ := recvAll_eq (s := s) hn (by rw [hs, List.length_append]; omega)
  refine ⟨s', ?_, ?_⟩
  · rw [heq, hs, ← hlen, List.take_left]
  · rw [hbytes, hs, ← hlen, List.drop_left]

section header
variable (f : WireFrame) {rest : Bytes}

theorem initLen_lt : f.initLen < 128 := by
  have hfits := f.fits
  unfold WireFrame.initLen
  cases hform : f.form with
  | bits7 =>
    rw [hform] at hfits
    dsimp only at hfits ⊢
    omega
  | bits16 => simp
  | bits64 => simp

/-- The length that is read is the frame's, as far as a `size_t` holds it. -/
theorem recvLen_eq {s : Sock} (hs : s.bytes = f.lenBytes ++ rest) :
    ∃ s', recvLen f.initLen s = (some (f.payload.length % sizeT), s') ∧ s'.bytes = rest := by
  have hfits := f.fits
  unfold recvLen WireFrame.initLen
  unfold WireFrame.lenBytes at hs
  cases hform : f.form with
  | bits7 =>
    rw [hform] at hfits hs
    dsimp only at hfits hs ⊢
    rw [if_pos hfits, Nat.mod_eq_of_lt (by unfold sizeT; omega)]
    exact ⟨s, rfl, hs⟩
  | bits16 =>
    rw [hform] at hfits hs
    dsimp only at hfits hs ⊢
    obtain ⟨s', heq, hrest⟩ := recvAll_cons (by decide) (length_beBytes 2 _) hs
    rw [if_neg (by decide), if_pos rfl, heq]
    refine ⟨s', ?_, hrest⟩
    rw [Option.map_some, beValue_beBytes, Nat.mod_eq_of_lt (a := f.payload.length) (by omega)]
  | bits64 =>
    rw [hform] at hfits hs
    dsimp only at hfits hs ⊢
    obtain ⟨s', heq, hrest⟩ := recvAll_cons (by decide) (length_beBytes 8 _) hs
    rw [if_neg (by decide), if_neg (by decide), heq]
    refine ⟨s', ?_, hrest⟩
    rw [Option.map_some, beValue_beBytes, Nat.mod_eq_of_lt (a := f.payload.length) (by omega)]

/-- The frame the header describes. -/
def headerFrame (s : State) : Frame := ⟨s.wsFinal, s.wsType, f.payload.length % sizeT, f.payload.length % sizeT⟩

theorem header_eq {s : State} (hs : s.sock.bytes = f.tail ++ rest) :
    ∃ s', recvHeader s = (.ok, headerFrame f s, s') ∧ s'.sock.bytes = f.masked ++ rest ∧ s'.maskKey = f.maskKey := by
  have hbits := secondByte_bits ⟨f.initLen, initLen_lt f⟩
  dsimp only at hbits
  unfold WireFrame.tail at hs
  rw [List.cons_append, ← List.singleton_append, List.append_assoc, List.append_assoc] at hs
  obtain ⟨s1, hsecond, h1⟩ := recvAll_cons (n := 1) (by decide) rfl hs
  obtain ⟨s2, hlen, h2⟩ := recvLen_eq f h1
  obtain ⟨s3, hmask, h3⟩ := recvAll_cons (by decide) f.key h2
  unfold recvHeader
  dsimp only
  rw [hsecond]
  dsimp only
  rw [List.headD_cons, hbits.1, hlen]
  dsimp only
  rw [if_pos hbits.2, hmask]
  exact ⟨_, rfl, h3, rfl⟩

theorem getFrameType_eq {s : State} (hs : s.sock.bytes = f.wire ++ rest) :
    (getFrameType s).wsFinal = f.final ∧ (getFrameType s).wsType = f.opcode ∧
      (getFrameType s).sock.bytes = f.tail ++ rest := by
  unfold WireFrame.wire at hs
  rw [List.cons_append, ← List.singleton_append] at hs
  obtain ⟨s', hfirst, hrest⟩ := recvAll_cons (n := 1) (by decide) rfl hs
  have hbits := firstByte_bits f.final f.opcode
  unfold getFrameType
  rw [hfirst]
  dsimp only
  rw [List.headD_cons]
  exact ⟨hbits.1, hbits.2, hrest⟩

end header

/-! ## The payload -/

/-- `got` bytes of the payload have been received. -/
structure Mid (f : WireFrame) (rest : Bytes) (got : Nat) (frame : Frame) (s : State) : Prop where
  final : frame.final = f.final
  type : frame.type = f.opcode
  len : frame.len = f.payload.length
  left : frame.leftLen = f.payload.length - got
  le : got ≤ f.payload.length
  key : s.maskKey = f.maskKey
  bytes : s.sock.bytes = f.masked.drop got ++ rest

section calls
variable {f : WireFrame} {rest : Bytes}

theorem length_masked (f : WireFrame) : f.masked.length = f.payload.length := length_unmask _ _ _

/-- A call unmasks the next bytes, as many as its buffer takes. -/
theorem recvBody_mid {got maxLen : Nat} {frame : Frame} {s : State} {part : Bool} (h : Mid f rest got frame s)
    (hfits : part = true ∨ f.payload.length ≤ maxLen) :
    (recvBody part frame maxLen s).err = .ok ∧ (recvBody part frame maxLen s).payload = (f.payload.drop got).take maxLen ∧
      Mid f rest (got + min maxLen (f.payload.length - got)) (recvBody part frame maxLen s).frame
        (recvBody part frame maxLen s).state := by
  unfold recvBody
  by_cases hnone : maxLen = 0
  · rw [if_pos hnone, hnone, Nat.zero_min]
    exact ⟨rfl, List.take_zero.symm, h⟩
  · have hlong : ¬(frame.len > maxLen ∧ part = false) := by
      rintro ⟨hlen, hwhole⟩
      rw [h.len] at hlen
      rcases hfits with hpart | hle
      · rw [hpart] at hwhole
        cases hwhole
      · omega
    rw [if_neg hnone, if_neg hlong, h.left]
    by_cases hdone : f.payload.length - got = 0
    · have hle := h.le
      rw [if_pos hdone, hdone, Nat.min_zero, List.drop_of_length_le (by omega)]
      exact ⟨rfl, List.take_nil.symm, h⟩
    · rw [if_neg hdone]
      obtain ⟨n, hn⟩ : ∃ n, n = if maxLen < f.payload.length - got then maxLen else f.payload.length - got := ⟨_, rfl⟩
      have hmin : n = min maxLen (f.payload.length - got) := by
        rw [hn]
        split <;> omega
      have hmasked := length_masked f
      have hlen : (f.masked.drop got).length = f.payload.length - got := by
        rw [List.length_drop, hmasked]
      obtain ⟨s', heq, hbytes⟩ := recvPayload_eq n n [] s.sock (Nat.le_refl _) (by
        rw [h.bytes, List.length_append, hlen]
        omega)
      rw [h.bytes, List.take_append_of_le_length (by omega), List.nil_append] at heq
      rw [h.bytes, List.drop_append_of_le_length (by omega)] at hbytes
      dsimp only
      rw [← hn, heq]
      dsimp only
      have htake : ((f.masked.drop got).take n).length = n := by
        rw [List.length_take, hlen]
        omega
      refine ⟨rfl, ?_, h.final, h.type, h.len, ?_, ?_, h.key, ?_⟩
      · -- the mask goes on where the part before it ended
        have hle := h.le
        have hunmask := unmask_drop f.maskKey f.masked 0 got
        rw [Nat.zero_add] at hunmask
        rw [h.len, show f.payload.length - (f.payload.length - got) = got by omega, h.key, unmask_take, hunmask]
        unfold WireFrame.masked
        rw [unmask_unmask, hmin, ← List.length_drop, ← List.take_eq_take_min]
      · rw [htake]
        dsimp only
        omega
      · omega
      · rw [hbytes, List.drop_drop, hmin]

theorem header_mid {s : State} (hs : s.sock.bytes = f.tail ++ rest) (hfinal : s.wsFinal = f.final)
    (htype : s.wsType = f.opcode) (hlen : f.payload.length < sizeT) :
    ∃ s', recvHeader s = (.ok, headerFrame f s, s') ∧ Mid f rest 0 (headerFrame f s) s' := by
  obtain ⟨s', heq, hbytes, hkey⟩ := header_eq f hs
  have hmod : f.payload.length % sizeT = f.payload.length := Nat.mod_eq_of_lt hlen
  exact ⟨s', heq, hfinal, htype, hmod, hmod, Nat.zero_le _, hkey, hbytes⟩

theorem recvFrame_header {part : Bool} {maxLen : Nat} {frame : Frame} {s s' : State} (h : recvHeader s = (.ok, frame, s')) :
    recvFrameInternal part .zero maxLen s = recvBody part frame maxLen s' := by
  have hread : (if Frame.zero.len = 0 then recvHeader s else (.ok, Frame.zero, s)) = (.ok, frame, s') := h
  unfold recvFrameInternal
  dsimp only
  rw [hread, if_neg (fun hne => hne rfl)]

theorem recvFrame_body {part : Bool} {maxLen : Nat} {frame : Frame} {s : State} (h : frame.len ≠ 0) :
    recvFrameInternal part frame maxLen s = recvBody part frame maxLen s := by
  unfold recvFrameInternal
  dsimp only
  rw [if_neg h, if_neg (fun hne => hne rfl)]

theorem Mid.exact {r : Result} {got : Nat} (h : Mid f rest got r.frame r.state) (hok : r.err = .ok)
    (hgot : got = f.payload.length) (hpayload : r.payload = f.payload) : Exact f rest r := by
  refine ⟨hok, h.final, h.type, h.len, hpayload, ?_⟩
  rw [h.bytes, hgot, List.drop_of_length_le (Nat.le_of_eq (length_masked f)), List.nil_append]

theorem recvWhole_exact {s : State} (hs : s.sock.bytes = f.tail ++ rest) (hfinal : s.wsFinal = f.final)
    (htype : s.wsType = f.opcode) (hlen : f.payload.length < sizeT) (hpos : 0 < f.payload.length) {maxLen : Nat}
    (hbuf : f.payload.length ≤ maxLen) : Exact f rest (recvWhole maxLen s) := by
  obtain ⟨s', hheader, hmid⟩ := header_mid hs hfinal htype hlen
  have hne : (headerFrame f s).len ≠ 0 := by
    rw [hmid.len]
    omega
  have hfirst : recvFrame .zero 0 s = ⟨.ok, headerFrame f s, [], s'⟩ := recvFrame_header hheader
  unfold recvWhole
  dsimp only
  rw [hfirst, if_neg (fun hc => hc rfl)]
  dsimp only
  have hbody : recvFrame (headerFrame f s) maxLen s' = recvBody false (headerFrame f s) maxLen s' := recvFrame_body hne
  rw [hbody]
  obtain ⟨hok, hpayload, hnext⟩ := recvBody_mid hmid (.inr hbuf)
  refine hnext.exact hok (by omega) ?_
  rw [hpayload, List.drop_zero, List.take_of_length_le hbuf]

theorem recvParts_mid {got : Nat} {frame : Frame} {s : State} (h : Mid f rest got frame s) (hpos : 0 < f.payload.length)
    (maxLens : List Nat) :
    (recvParts frame s maxLens).err = .ok ∧
      (recvParts frame s maxLens).payload = (f.payload.drop got).take maxLens.sum ∧
      Mid f rest (got + min maxLens.sum (f.payload.length - got)) (recvParts frame s maxLens).frame
        (recvParts frame s maxLens).state := by
  induction maxLens generalizing got frame s with
  | nil =>
    rw [List.sum_nil, Nat.zero_min]
    exact ⟨rfl, List.take_zero.symm, h⟩
  | cons maxLen maxLens ih =>
    have hcall : recvFramePart frame maxLen s = recvBody true frame maxLen s := recvFrame_body (by rw [h.len]; omega)
    obtain ⟨hok, hpayload, hnext⟩ := @recvBody_mid f rest got maxLen frame s true h (.inl rfl)
    unfold recvParts
    rw [hcall, List.sum_cons]
    dsimp only
    have hle := h.le
    have hleft := hnext.left
    by_cases hdone : (recvBody true frame maxLen s).frame.leftLen = 0
    · rw [if_pos (.inr hdone)]
      have hall : f.payload.length - got ≤ maxLen := by omega
      refine ⟨hok, ?_, ?_⟩
      · rw [hpayload, List.take_of_length_le (by rw [List.length_drop]; omega),
          List.take_of_length_le (by rw [List.length_drop]; omega)]
      · rw [Nat.min_eq_right (by omega)] at hnext ⊢
        exact hnext
    · rw [if_neg (by rintro (hc | hc) <;> [exact hc hok; exact hdone hc])]
      have hmore : maxLen < f.payload.length - got := by omega
      rw [Nat.min_eq_left (Nat.le_of_lt hmore)] at hnext
      obtain ⟨hok', hpayload', hnext'⟩ := ih hnext
      refine ⟨hok', ?_, ?_⟩
      · dsimp only
        rw [hpayload, hpayload', List.take_add, List.drop_drop]
      · dsimp only
        rw [show got + maxLen + min maxLens.sum (f.payload.length - (got + maxLen)) =
          got + min (maxLen + maxLens.sum) (f.payload.length - got) by omega] at hnext'
        exact hnext'

end calls

/-! ## Reading on -/

theorem recvFn_le (n : Nat) (s : Sock) : (recvFn n s).2.bytes.length ≤ s.bytes.length := by
  unfold recvFn Sock.bytes
  split
  · exact Nat.le_refl _
  · simp

theorem recvLoop_le (opt : RecvOpt) (fuel n : Nat) (got : Bytes) (s : Sock) :
    (recvLoop opt fuel n got s).2.bytes.length ≤ s.bytes.length := by
  induction fuel generalizing n got s with
  | zero => exact Nat.le_refl _
  | succ fuel ih =>
    have hfirst := recvFn_le n s
    unfold recvLoop
    dsimp only
    split
    · exact hfirst
    · split
      · exact Nat.le_trans (ih _ _ _) hfirst
      · exact hfirst

theorem recvAll_le (n : Nat) (s : Sock) : (recvAll n s).2.bytes.length ≤ s.bytes.length := by
  have hrecv : (httpdRecvWithOpt .blocking n s).2.bytes.length ≤ s.bytes.length := by
    have hdrop : ({ s with pending := s.pending.drop n } : Sock).bytes.length ≤ s.bytes.length := by
      unfold Sock.bytes
      simp
    unfold httpdRecvWithOpt
    dsimp only
    split
    · exact hdrop
    · have hloop := Nat.le_trans (recvLoop_le .blocking (n - (s.pending.take n).length) (n - (s.pending.take n).length)
        (s.pending.take n) { s with pending := s.pending.drop n }) hdrop
      split
      · split <;> exact hloop
      · exact hloop
  unfold recvAll
  dsimp only
  split
  · split <;> exact hrecv
  · exact hrecv

/-- A byte that is received is no longer there. -/
theorem recvAll_one_lt {s : Sock} {b : Bytes} (h : (recvAll 1 s).1 = some b) :
    (recvAll 1 s).2.bytes.length < s.bytes.length := by
  have hpos : 0 < s.bytes.length := by
    cases hs : s.bytes with
    | cons => exact Nat.zero_lt_succ _
    | nil =>
      obtain ⟨hpending, hstream⟩ := List.append_eq_nil_iff.mp hs
      simp [recvAll, httpdRecvWithOpt, recvLoop, recvFn, hpending, hstream] at h
  obtain ⟨s', heq, hbytes⟩ := recvAll_eq (s := s) (n := 1) (by decide) hpos
  rw [heq]
  dsimp only
  rw [hbytes, List.length_drop]
  omega

theorem recvLen_le (initLen : Nat) (s : Sock) : (recvLen initLen s).2.bytes.length ≤ s.bytes.length := by
  unfold recvLen
  split
  · exact Nat.le_refl _
  · exact recvAll_le _ _

theorem recvHeader_lt {s : State} (h : (recvHeader s).1 = .ok) :
    (recvHeader s).2.2.sock.bytes.length < s.sock.bytes.length := by
  unfold recvHeader at h ⊢
  dsimp only at h ⊢
  cases hsecond : (recvAll 1 s.sock).1 with
  | none =>
    rw [hsecond] at h
    cases h
  | some bytes =>
    have hfirst := recvAll_one_lt hsecond
    rw [hsecond] at h
    dsimp only at h ⊢
    have hlen := recvLen_le (bytes.headD 0 &&& 0x7F).toNat (recvAll 1 s.sock).2
    cases hn : (recvLen (bytes.headD 0 &&& 0x7F).toNat (recvAll 1 s.sock).2).1 with
    | none => exact Nat.lt_of_le_of_lt hlen hfirst
    | some n =>
      dsimp only
      have hmask := recvAll_le 4 (recvLen (bytes.headD 0 &&& 0x7F).toNat (recvAll 1 s.sock).2).2
      split
      · split <;> exact Nat.lt_of_le_of_lt (Nat.le_trans hmask hlen) hfirst
      · exact Nat.lt_of_le_of_lt hlen hfirst

/-- The second call of an empty frame reads the header of the next one. -/
theorem recvWhole_empty {f : WireFrame} {rest : Bytes} {s : State} (hs : s.sock.bytes = f.tail ++ rest)
    (hzero : f.payload.length = 0) : ¬Exact f rest (recvWhole 0 s) := by
  obtain ⟨s', hheader, hbytes, -⟩ := header_eq f hs
  have hmasked : f.masked = [] := List.length_eq_zero_iff.mp ((length_masked f).trans hzero)
  rw [hmasked, List.nil_append] at hbytes
  have hlen : (headerFrame f s).len = 0 := by
    change f.payload.length % sizeT = 0
    rw [hzero]
    rfl
  have hfirst : recvFrame .zero 0 s = ⟨.ok, headerFrame f s, [], s'⟩ := recvFrame_header hheader
  rintro ⟨hok, -, -, -, -, hrest⟩
  unfold recvWhole at hok hrest
  dsimp only at hok hrest
  rw [hfirst, if_neg (fun hc => hc rfl)] at hok hrest
  dsimp only at hok hrest
  unfold recvFrame recvFrameInternal at hok hrest
  dsimp only at hok hrest
  rw [if_pos hlen] at hok hrest
  by_cases hnext : (recvHeader s').1 = .ok
  · have hlt := recvHeader_lt hnext
    rw [if_neg (fun hc => hc hnext)] at hrest
    unfold recvBody at hrest
    rw [if_pos rfl] at hrest
    dsimp only at hrest
    rw [hrest, hbytes] at hlt
    exact Nat.lt_irrefl _ hlt
  · rw [if_pos hnext] at hok
    exact hnext hok

/-- By parts: the first call reads the header and goes on as in the middle of the frame. -/
theorem recvParts_exact {f : WireFrame} {rest : Bytes} {s : State} (hs : s.sock.bytes = f.tail ++ rest)
    (hfinal : s.wsFinal = f.final) (htype : s.wsType = f.opcode) (hlen : f.payload.length < sizeT) (maxLen : Nat)
    (maxLens : List Nat) :
    (recvParts .zero s (maxLen :: maxLens)).err = .ok ∧
      (recvParts .zero s (maxLen :: maxLens)).payload = f.payload.take (maxLen :: maxLens).sum ∧
      Mid f rest (min (maxLen :: maxLens).sum f.payload.length) (recvParts .zero s (maxLen :: maxLens)).frame
        (recvParts .zero s (maxLen :: maxLens)).state := by
  obtain ⟨s', hheader, hmid⟩ := header_mid hs hfinal htype hlen
  have hcall : recvFramePart .zero maxLen s = recvBody true (headerFrame f s) maxLen s' := recvFrame_header hheader
  rcases Nat.eq_zero_or_pos f.payload.length with hzero | hpos
  · obtain ⟨hok, hpayload, hnext⟩ := @recvBody_mid f rest 0 maxLen _ s' true hmid (.inl rfl)
    have hnil : f.payload = [] := List.length_eq_zero_iff.mp hzero
    have hleft := hnext.left
    rw [hzero, Nat.sub_zero, Nat.min_zero] at hnext
    unfold recvParts
    rw [hcall]
    dsimp only
    rw [if_pos (.inr (by omega)), hzero, Nat.min_zero]
    refine ⟨hok, ?_, hnext⟩
    rw [hpayload, hnil]
    simp
  · have hstart : recvParts .zero s (maxLen :: maxLens) = recvParts (headerFrame f s) s' (maxLen :: maxLens) := by
      have hbody : recvFramePart (headerFrame f s) maxLen s' = recvBody true (headerFrame f s) maxLen s' :=
        recvFrame_body (by rw [hmid.len]; omega)
      unfold recvParts
      rw [hcall, hbody]
    have hparts := recvParts_mid hmid hpos (maxLen :: maxLens)
    rw [Nat.zero_add, Nat.sub_zero, List.drop_zero] at hparts
    rw [hstart]
    exact hparts

/-- A frame of which the first byte has been read is received whole exactly when it is not empty and its length is a
`size_t`, and by parts exactly when its length is one. -/
theorem ready_exact_iff {f : WireFrame} {rest : Bytes} {s : State} (hs : s.sock.bytes = f.tail ++ rest)
    (hfinal : s.wsFinal = f.final) (htype : s.wsType = f.opcode) :
    (WholeOk f rest s ↔ 0 < f.payload.length ∧ f.payload.length < sizeT) ∧
      (PartsOk f rest s ↔ f.payload.length < sizeT) := by
  have haccepted : ∀ part, (recvFrameInternal part .zero 0 s).err = .ok := by
    intro part
    obtain ⟨s', hheader, -⟩ := header_eq f hs
    rw [recvFrame_header hheader]
    unfold recvBody
    rw [if_pos rfl]
  unfold WholeOk PartsOk
  by_cases hlen : f.payload.length < sizeT
  · rw [if_pos hlen, if_pos hlen]
    refine ⟨⟨fun h => ⟨?_, hlen⟩, fun h maxLen hbuf => recvWhole_exact hs hfinal htype hlen h.1 hbuf⟩,
      fun _ => hlen, fun _ maxLens hne => ?_⟩
    · rcases Nat.eq_zero_or_pos f.payload.length with hzero | hpos
      · exact absurd (h 0 (Nat.le_of_eq hzero)) (recvWhole_empty hs hzero)
      · exact hpos
    · obtain ⟨maxLen, rest', rfl⟩ := List.exists_cons_of_ne_nil hne
      obtain ⟨hok, hpayload, hmid⟩ := recvParts_exact hs hfinal htype hlen maxLen rest'
      have hleft := hmid.left
      refine ⟨hok, by omega, hpayload, fun hdone => hmid.exact hok (by omega) ?_⟩
      rw [hpayload, List.take_of_length_le (by omega)]
  · rw [if_neg hlen, if_neg hlen]
    exact ⟨⟨fun h => absurd (haccepted false) h, fun h => absurd h.2 hlen⟩,
      fun h => absurd (haccepted true) (h 0), fun h => absurd h hlen⟩

/-- A session about to receive the frame; its handler is called when the first byte has been read. -/
def ready (f : WireFrame) (rest : Bytes) (split : Nat) (cuts : Nat → Nat) (closed : Bool) : State :=
  getFrameType (.holding (f.wire ++ rest) split cuts closed)

theorem ready_eq (f : WireFrame) (rest : Bytes) (split : Nat) (cuts : Nat → Nat) (closed : Bool) :
    (ready f rest split cuts closed).wsFinal = f.final ∧ (ready f rest split cuts closed).wsType = f.opcode ∧
      (ready f rest split cuts closed).sock.bytes = f.tail ++ rest :=
  getFrameType_eq f (List.take_append_drop split _)

/-- However `recv` cuts the stream: reading the length first is exact for the frames that are not empty and have a
length that is a `size_t`, reading by parts for those that have such a length. -/
theorem recv_exact_iff (f : WireFrame) (rest : Bytes) (split : Nat) (cuts : Nat → Nat) (closed : Bool) :
    (WholeOk f rest (ready f rest split cuts closed) ↔ 0 < f.payload.length ∧ f.payload.length < sizeT) ∧
      (PartsOk f rest (ready f rest split cuts closed) ↔ f.payload.length < sizeT) := by
  obtain ⟨hfinal, htype, hbytes⟩ := ready_eq f rest split cuts closed
  exact ready_exact_iff hbytes hfinal htype

/-- A text frame with an empty payload. -/
def emptyFrame : WireFrame := ⟨true, 1, .bits7, [1, 2, 3, 4], [], rfl, by decide⟩

/-- A binary frame of `n` zero bytes. -/
def zeroFrame (n : Nat) (fits : n < 2 ^ 64) : WireFrame :=
  ⟨true, 2, .bits64, [1, 2, 3, 4], List.replicate n 0, rfl, by simpa using fits⟩

theorem zeroFrame_length (n : Nat) (fits : n < 2 ^ 64) : (zeroFrame n fits).payload.length = n :=
  List.length_replicate

theorem headerFrame_len (f : WireFrame) (s : State) : (headerFrame f s).len = f.payload.length % sizeT := rfl

theorem zeroFrame_not_received {n : Nat} {fits : n < 2 ^ 64} (huge : sizeT ≤ n) :
    ¬PartsOk (zeroFrame n fits) [] (ready (zeroFrame n fits) [] 0 (fun _ => 0) true) := by
  obtain ⟨hfinal, htype, hbytes⟩ := ready_eq (zeroFrame n fits) [] 0 (fun _ => 0) true
  intro h
  have hlen := (ready_exact_iff hbytes hfinal htype).2.mp h
  rw [zeroFrame_length] at hlen
  exact absurd hlen (Nat.not_lt.mpr huge)

/-- The empty frame is read with the header of the next one; of 2^32 + 1 bytes the length is taken for 1. -/
theorem empty_and_huge :
    ¬WholeOk emptyFrame emptyFrame.wire (ready emptyFrame emptyFrame.wire 0 (fun _ => 0) true) ∧
      ¬PartsOk (zeroFrame (2 ^ 32 + 1) (by decide)) []
          (ready (zeroFrame (2 ^ 32 + 1) (by decide)) [] 0 (fun _ => 0) true) ∧
      (headerFrame (zeroFrame (2 ^ 32 + 1) (by decide))
          (ready (zeroFrame (2 ^ 32 + 1) (by decide)) [] 0 (fun _ => 0) true)).len = 1 := by
  refine ⟨?_, ?_, ?_⟩
  · obtain ⟨hfinal, htype, hbytes⟩ := ready_eq emptyFrame emptyFrame.wire 0 (fun _ => 0) true
    exact fun h => Nat.lt_irrefl 0 ((ready_exact_iff hbytes hfinal htype).1.mp h).1
  · exact zeroFrame_not_received (by decide)
  · rw [headerFrame_len, zeroFrame_length]
    rfl

end EspIdf.Httpd.Ws
