import EspIdf.BleLog.Frame
import Mathlib.Logic.Function.Basic

/-!
# The transport buffers of the log

* `Trans`, `Pool`, `State` : a buffer, the buffer managers, and everything that the log keeps;
* `queueTrans`, `getTrans` : a buffer goes to the runtime, and a buffer is chosen;
* `writeTrans`, `streamSeal`, `streamNext`, `streamFlush` : frames, and a stream that is framed later;
* `sendTrans`, `txDone` : the peripheral takes a buffer and gives it back;
* `Event`, `step`, `run` : any sequence of these.
-/

namespace EspIdf.BleLog

/-! ## Buffers -/

/-- A value where the source keeps it in a `uint16_t`. -/
def u16 (n : Nat) : Nat := n % 2 ^ 16

/-- A value where the source keeps it in a `size_t`. -/
def u32 (n : Nat) : Nat := n % 2 ^ 32

/-- `ble_log_src_t`. -/
inductive Source where
  | internal
  | custom
  | llTask
  | llHci
  | llIsr
  | host
  | hci
  | encode
  | redir
deriving DecidableEq, Repr

def Source.code : Source → Byte
  | .internal => 0
  | .custom => 1
  | .llTask => 2
  | .llHci => 3
  | .llIsr => 4
  | .host => 5
  | .hci => 6
  | .encode => 7
  | .redir => 8

/-- The buffer managers: those of `lbm_ctx`, by number, and `redir_lbm`. -/
inductive Pool where
  | common (i : Nat)
  | redir
deriving DecidableEq, Repr

/-- A buffer of `BLE_LOG_TRANS_BUF_CNT` of a manager. -/
abbrev TransId := Pool × Fin 4

scoped instance neZeroFour : NeZero 4 := ⟨by decide⟩

scoped instance lawfulBEqTransId : LawfulBEq TransId := inferInstance

/-- `ble_log_prph_trans_t`, with the address of its buffer. -/
structure Trans where
  prphOwned : Bool
  buf : List Byte
  size : Nat
  pos : Nat
  address : Nat

namespace Trans

/-- `BLE_LOG_TRANS_FREE_SPACE`, an `int`, where it is compared with a `size_t`. -/
def freeSpace (t : Trans) : Nat := u32 (t.size + 2 ^ 32 - t.pos)

/-- The bytes that a transmission sends. -/
def bytes (t : Trans) : List Byte := t.buf.take t.pos

/-- The memory as the buffer and what lies around it. -/
def mem (t : Trans) (heap : Nat → Byte) (a : Nat) : Byte :=
  if t.address ≤ a then t.buf[a - t.address]?.getD (heap a) else heap a

end Trans

/-- What `memcpy` leaves of a buffer. -/
def blit (buf : List Byte) (off : Nat) (bytes : List Byte) : List Byte :=
  buf.take off ++ bytes ++ buf.drop (off + bytes.length)

/-- A transmission that the runtime has asked the peripheral for. -/
structure Handed where
  pool : Pool
  bytes : List Byte
  accepted : Bool
deriving DecidableEq

/-- `queue` is the runtime's queue, `inFlight` what the peripheral has accepted and not yet sent, and `streaming` what is
left of the stream write that holds the mutex. The last four fields only record what has happened. -/
structure State where
  trans : TransId → Trans
  transIdx : Pool → Fin 4
  heap : Nat → Byte
  frameSn : Source → BitVec 32
  queue : List TransId
  inFlight : List TransId
  streaming : List Byte
  wroteOwned : Bool
  handed : List Handed
  written : Pool → List (Byte × List Byte)
  accepted : List Byte

/-- `BLE_LOG_UART_REDIR_BUF_SIZE`. -/
def redirBufSize : Nat := 512

/-- `ble_log_prph_trans_init`. -/
def Trans.init (size address : Nat) : Trans where
  prphOwned := false
  buf := List.replicate size 0
  size := u16 size
  pos := 0
  address := address

/-- The managers with buffers of their sizes, wherever they were allocated. -/
def State.init (size : Nat → Nat) (address : TransId → Nat) (heap : Nat → Byte) : State where
  trans := fun id =>
    match id.1 with
    | .common i => .init (size i) (address id)
    | .redir => .init redirBufSize (address id)
  transIdx := fun _ => 0
  heap := heap
  frameSn := fun _ => 0
  queue := []
  inFlight := []
  streaming := []
  wroteOwned := false
  handed := []
  written := fun _ => []
  accepted := []

namespace State

def put (s : State) (id : TransId) (t : Trans) : State := { s with trans := Function.update s.trans id t }

def setPos (s : State) (id : TransId) (pos : Nat) : State := s.put id { s.trans id with pos := pos }

def memcpy (s : State) (id : TransId) (off : Nat) (bytes : List Byte) : State :=
  { s.put id { s.trans id with buf := blit (s.trans id).buf off bytes } with
    wroteOwned := s.wroteOwned || (s.trans id).prphOwned }

/-- `BLE_LOG_GET_FRAME_SN` : the old value is used. -/
def countFrame (s : State) (src : Source) : State :=
  { s with frameSn := Function.update s.frameSn src (s.frameSn src + 1) }

/-- `ble_log_rt_queue_trans`. -/
def queueTrans (s : State) (id : TransId) : State :=
  { s.put id { s.trans id with prphOwned := true } with queue := s.queue ++ [id] }

/-- `ble_log_fast_checksum` of bytes of a buffer. -/
def checksum (s : State) (id : TransId) (off len : Nat) : BitVec 32 :=
  fastChecksum ((s.trans id).mem s.heap) ((s.trans id).address + off) len

end State

open State

/-! ## Choosing a buffer -/

/-- The loop of `ble_log_lbm_get_trans`, for the turns that are left. -/
def getTransLoop (pool : Pool) (logLen : Nat) : Nat → State → State × Option (Fin 4)
  | 0, s => (s, none)
  | turns + 1, s =>
    let idx := s.transIdx pool
    let t := s.trans (pool, idx)
    let next := fun (s : State) => { s with transIdx := Function.update s.transIdx pool (idx + 1) }
    if t.prphOwned then getTransLoop pool logLen turns (next s)
    else if u32 (logLen + frameOverhead) ≤ t.freeSpace then (s, some idx)
    else getTransLoop pool logLen turns (next (if t.pos = 0 then s else s.queueTrans (pool, idx)))

/-- `ble_log_lbm_get_trans`. -/
def getTrans (s : State) (pool : Pool) (logLen : Nat) : State × Option (Fin 4) := getTransLoop pool logLen 4 s

/-- `ble_log_lbm_acquire_trans`, over the managers whose locks the caller gets, in this order. -/
def acquireTrans (logLen : Nat) : List Nat → State → State × Option TransId
  | [], s => (s, none)
  | i :: pools, s =>
    match getTrans s (.common i) logLen with
    | (s, some idx) => (s, some (.common i, idx))
    | (s, none) => acquireTrans logLen pools s

/-! ## Framed logs -/

/-- The two byte ranges of a log. They are objects in a 32-bit address space that holds more than them. -/
structure Log where
  src : Source
  addr : List Byte
  append : List Byte
  fits : addr.length + append.length + frameOverhead < 2 ^ 32

/-- `ble_log_lbm_write_trans`. -/
def writeTrans (s : State) (id : TransId) (log : Log) : State :=
  let pos := (s.trans id).pos
  let len := u16 log.addr.length
  let lenAppend := u16 log.append.length
  let payloadLen := u16 (len + lenAppend)
  let head := frameHead (.ofNat 16 payloadLen) (makeFrameMeta log.src.code (s.frameSn log.src))
  let s := s.countFrame log.src
  let s := s.memcpy id pos head
  let s := s.memcpy id (pos + frameHeadLen) (log.addr.take len)
  let s := s.memcpy id (pos + frameHeadLen + len) (log.append.take lenAppend)
  let s := s.memcpy id (pos + frameHeadLen + payloadLen) (le32 (s.checksum id pos (frameHeadLen + payloadLen)))
  let s := s.setPos id (u16 (pos + payloadLen + frameOverhead))
  let s := { s with written := Function.update s.written id.1 (s.written id.1 ++ [(log.src.code, log.addr ++ log.append)]) }
  if (s.trans id).freeSpace ≤ frameOverhead then s.queueTrans id else s

/-- `ble_log_write_hex_core` and `ble_log_write_hex_ll` : a log that finds no buffer only counts as a lost frame. -/
def writeLog (s : State) (pools : List Nat) (log : Log) : State :=
  match acquireTrans (u32 (log.addr.length + log.append.length)) pools s with
  | (s, some id) => writeTrans s id log
  | (s, none) => s.countFrame log.src

/-! ## The stream -/

/-- `ble_log_lbm_stream_seal`. -/
def streamSeal (s : State) (id : TransId) (src : Source) : State :=
  let pos := (s.trans id).pos
  if pos ≤ frameHeadLen then s
  else
    let payloadLen := u16 (pos - frameHeadLen)
    let head := frameHead (.ofNat 16 payloadLen) (makeFrameMeta src.code (s.frameSn src))
    let s := s.countFrame src
    let s := s.memcpy id 0 head
    let s := s.memcpy id pos (le32 (s.checksum id 0 pos))
    let s := s.setPos id (u16 (pos + frameTailLen))
    s.queueTrans id

/-- `if ((*trans)->pos == 0)`. -/
def openStream (s : State) (id : TransId) : State :=
  if (s.trans id).pos = 0 then s.setPos id frameHeadLen else s

/-- The bytes of the stream that go into the buffer next, and what follows them. -/
def appendStream (s : State) (id : TransId) (toWrite : Nat) : State :=
  let pos := (s.trans id).pos
  let data := s.streaming.take toWrite
  let s := s.memcpy id pos data
  let s := s.setPos id (u16 (pos + toWrite))
  { s with streaming := s.streaming.drop toWrite, accepted := s.accepted ++ data }

/-- One turn of the loop of `ble_log_lbm_stream_write`. -/
def streamNext (s : State) : State :=
  match getTrans s .redir 0 with
  | (s, none) => { s.countFrame .redir with streaming := [] }
  | (s, some idx) =>
    let s := openStream s (.redir, idx)
    let available := u16 (s.trans (.redir, idx)).freeSpace
    if available ≤ frameTailLen then streamSeal s (.redir, idx) .redir
    else
      let s := appendStream s (.redir, idx) (min s.streaming.length (available - frameTailLen))
      if (s.trans (.redir, idx)).freeSpace ≤ frameOverhead then streamSeal s (.redir, idx) .redir else s

/-- The body of the loop of `ble_log_lbm_stream_flush`. -/
def flushTrans (s : State) (idx : Fin 4) : State :=
  if (s.trans (.redir, idx)).prphOwned = false ∧ frameHeadLen < (s.trans (.redir, idx)).pos then
    streamSeal s (.redir, idx) .redir
  else s

/-- `ble_log_lbm_stream_flush`. -/
def streamFlush (s : State) : State :=
  let idx := s.transIdx .redir
  flushTrans (flushTrans (flushTrans (flushTrans s idx) (idx + 1)) (idx + 2)) (idx + 3)

/-! ## The peripheral -/

/-- `ble_log_rt_task` takes a buffer out of the queue for `ble_log_prph_send_trans`. -/
def sendTrans (s : State) (ok : Bool) : Option State :=
  match s.queue with
  | [] => none
  | id :: queue =>
    let t := s.trans id
    let s := { s with queue := queue, handed := s.handed ++ [Handed.mk id.1 t.bytes ok] }
    if ok then some { s with inFlight := s.inFlight ++ [id] } else some (s.put id { t with prphOwned := false })

/-- `uart_dma_tx_done_cb`. -/
def txDone (s : State) (id : TransId) : Option State :=
  if id ∈ s.inFlight then
    some { s.put id { s.trans id with pos := 0, prphOwned := false } with inFlight := s.inFlight.erase id }
  else none

/-! ## Runs -/

inductive Event where
  | write (pools : List Nat) (log : Log)
  | streamWrite (data : List Byte)
  | streamNext
  | streamFlush
  | send (ok : Bool)
  | txDone (id : TransId)

/-- The mutex keeps the flush and the next stream write out until a stream write has returned. -/
def step (s : State) : Event → Option State
  | .write pools log => some (writeLog s pools log)
  | .streamWrite data => if s.streaming = [] then some { s with streaming := data } else none
  | .streamNext => if s.streaming = [] then none else some (streamNext s)
  | .streamFlush => if s.streaming = [] then some (streamFlush s) else none
  | .send ok => sendTrans s ok
  | .txDone id => txDone s id

def run : State → List Event → Option State
  | s, [] => some s
  | s, event :: events => (step s event).bind fun s' => run s' events

end EspIdf.BleLog
