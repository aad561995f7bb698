import EspIdf.A2dp.AvCo

/-!
# The media task of the sink

* `decodeBufSize`, `queueLimit`, `queueFloor`, `pressureTarget` : the figures of each codec;
* `LocalParam` : the local parameters of the task, with the receive queue;
* `decoderReset`, `enqueBuf`, `dataReady` and the other handlers, each with the packets it frees and decodes;
* `step` : the handlers as events.

A packet is known by its address.
-/

namespace EspIdf.A2dp.Sink

open AvCo

variable {Pkt : Type}

/-! ## Figures of the codecs -/

/-- `btc_a2dp_sink_decode_buf_size`. The index is `none` for `BTAV_A2DP_CODEC_INDEX_MAX`. -/
def decodeBufSize (build : Build) : Option Codec → Nat
  | some .sbc => 1024
  | some .aac => 4 * 1024
  | some .aptx | some .aptxHd | some .aptxLl => 4 * 1024
  | some .ldac => if build.ldac then 2048 else 4 * 1024
  | some .opus => if build.opus then 4 * 2000 else 4 * 1024
  | some .lc3plus => 4 * 1024
  | some .lhdcv5 => if build.lhdcv5 then 6 * 2600 else 4 * 1024
  | none => 4 * 1024

/-- `btc_a2dp_sink_queue_limit`. -/
def queueLimit (build : Build) : Option Codec → Nat
  | some .ldac => if build.ldac then 20 else 18
  | some .lhdcv5 => if build.lhdcv5 then 32 else 18
  | _ => 18

/-- `btc_a2dp_sink_queue_floor`, the same for all codecs. -/
def queueFloor : Nat := 8

/-- `btc_a2dp_sink_pressure_target`. -/
def pressureTarget (build : Build) : Option Codec → Nat
  | some .aac => if build.aac then 10 * 1024 else 6 * 1024
  | some .lhdcv5 => if build.lhdcv5 then 8 * 1024 else 6 * 1024
  | _ => 6 * 1024

/-- `A2DP_GetDecoderInterface`; there is one interface a codec. -/
def getDecoderInterface (build : Build) (info : List Octet) : Option Codec :=
  if isPeerSinkCodecValid build info then codecOf build info else none

/-! ## The state of the task -/

/-- `btc_a2dp_sink_state`. -/
inductive State
  | off | on | shuttingDown
  deriving DecidableEq, Repr

/-- `a2dp_sink_local_param`, with the static variables of the file. -/
structure LocalParam (Pkt : Type) where
  state : State
  /-- `RxSbcQ`, the oldest packet first. -/
  queue : Option (List Pkt)
  hasEvent : Bool
  rxFlush : Bool
  decoder : Option Codec
  /-- The length of the allocation at `decode_buf`. -/
  decodeBuf : Option Nat
  decodeBufLen : Nat
  codecIndex : Option Codec
  decoderReady : Bool
  enqCounter : Octet

/-- The static initial state. -/
def LocalParam.init : LocalParam Pkt where
  state := .off
  queue := none
  hasEvent := false
  rxFlush := false
  decoder := none
  decodeBuf := none
  decodeBufLen := 0
  codecIndex := none
  decoderReady := false
  enqCounter := 0

/-- What happens to a packet. -/
inductive Action (Pkt : Type)
  | enqueue (pkt : Pkt)
  | decode (pkt : Pkt)
  | free (pkt : Pkt)
  deriving DecidableEq, Repr

/-- `btc_a2dp_sink_flush_q`. -/
def LocalParam.flushQ (param : LocalParam Pkt) : LocalParam Pkt × List (Action Pkt) :=
  match param.queue with
  | none => (param, [])
  | some pkts => ({ param with queue := some [] }, pkts.map Action.free)

/-! ## The handlers -/

/-- `btc_a2dp_sink_configure_decode_buf`; `malloc` says whether the allocation succeeds. -/
def LocalParam.configureDecodeBuf (param : LocalParam Pkt) (malloc : Bool) (requiredLen : Nat) : LocalParam Pkt × Bool :=
  if param.decodeBufLen = requiredLen ∧ (requiredLen = 0 ∨ param.decodeBuf.isSome) then (param, true)
  else
    let param := if param.decodeBuf.isSome then { param with decodeBuf := none, decodeBufLen := 0 } else param
    if requiredLen = 0 then (param, true)
    else if malloc then ({ param with decodeBuf := some requiredLen, decodeBufLen := requiredLen }, true)
    else (param, false)

/-- The configuration of the decoder at hand, and the buffer for it. -/
def LocalParam.finishReset (build : Build) (param : LocalParam Pkt) (malloc : Bool) (codecIndex : Option Codec) :
    LocalParam Pkt :=
  let configured := param.configureDecodeBuf malloc (decodeBufSize build codecIndex)
  if configured.2 then { configured.1 with codecIndex := codecIndex, decoderReady := true, rxFlush := false }
  else { configured.1 with decoderReady := false, rxFlush := true }

/-- `btc_a2dp_sink_handle_decoder_reset`; `decoderInit` is what the `decoder_init` of a new decoder returns. -/
def LocalParam.decoderReset (build : Build) (param : LocalParam Pkt) (info : List Octet) (decoderInit malloc : Bool) :
    LocalParam Pkt × List (Action Pkt) :=
  match getDecoderInterface build info with
  | none => ({ param with decoderReady := false, rxFlush := true }, [])
  | some decoder =>
    let flushed := LocalParam.flushQ { param with decoderReady := false, rxFlush := true }
    let param := flushed.1
    if some decoder ≠ param.decoder then
      let param := { (param.configureDecodeBuf malloc 0).1 with decoder := some decoder }
      if decoderInit then (param.finishReset build malloc (sinkCodecIndex build info), flushed.2)
      else ({ param with decoder := none }, flushed.2)
    else (param.finishReset build malloc (sinkCodecIndex build info), flushed.2)

/-- What `btc_a2dp_sink_handle_inc_media` asks around it. -/
structure Media (Pkt : Type) where
  peerIsSink : Bool
  datachnl : Bool
  /-- The packet header is accepted by the decoder. -/
  header : Pkt → Bool

/-- `btc_a2dp_sink_handle_inc_media`. -/
def LocalParam.handleIncMedia (param : LocalParam Pkt) (media : Media Pkt) (pkt : Pkt) : List (Action Pkt) :=
  if media.peerIsSink || param.rxFlush then []
  else if !param.decoderReady || param.decoder.isNone then []
  else if param.decodeBufLen ≠ 0 ∧ param.decodeBuf.isNone then []
  else if !media.datachnl then []
  else if !media.header pkt then []
  else [.decode pkt]

/-- The loop of `btc_a2dp_sink_data_ready`, for a number of packets. -/
def LocalParam.drain (param : LocalParam Pkt) (media : Media Pkt) : Nat → LocalParam Pkt × List (Action Pkt)
  | 0 => (param, [])
  | count + 1 =>
    if param.state ≠ .on then (param, [])
    else match param.queue with
      | some (pkt :: pkts) =>
        let param := { param with queue := some pkts }
        if param.rxFlush then (param.flushQ.1, .free pkt :: param.flushQ.2)
        else
          let rest := param.drain media count
          (rest.1, param.handleIncMedia media pkt ++ .free pkt :: rest.2)
      | _ => (param, [])

/-- `btc_a2dp_sink_data_ready`. -/
def LocalParam.dataReady (param : LocalParam Pkt) (media : Media Pkt) : LocalParam Pkt × List (Action Pkt) :=
  if param.rxFlush then param.flushQ else param.drain media (param.queue.getD []).length

/-- The drop of the oldest packets when memory is low, at every 32nd packet. -/
def LocalParam.relieve (build : Build) (param : LocalParam Pkt) (freeInternal : Nat) (pkts : List Pkt) :
    LocalParam Pkt × List (Action Pkt) :=
  let param := { param with enqCounter := param.enqCounter + 1 }
  if param.enqCounter &&& 0x1F = 0 ∧ freeInternal < pressureTarget build param.codecIndex ∧ queueFloor < pkts.length then
    ({ param with queue := some (pkts.drop (pkts.length - queueFloor)) },
      (pkts.take (pkts.length - queueFloor)).map Action.free)
  else (param, [])

/-- `btc_a2dp_sink_enque_buf`; `appended` is what `fixed_queue_enqueue` returns. -/
def LocalParam.enqueBuf (build : Build) (param : LocalParam Pkt) (pkt : Pkt) (freeInternal : Nat) (appended : Bool) :
    LocalParam Pkt × List (Action Pkt) :=
  if param.state ≠ .on then (param, [.free pkt])
  else match param.queue with
    | none => (param, [.free pkt])
    | some pkts =>
      if !param.hasEvent then (param, [.free pkt])
      else if param.rxFlush || !param.decoderReady then (param, [.free pkt])
      else if queueLimit build param.codecIndex ≤ pkts.length then (param, [.free pkt])
      else
        let relieved := param.relieve build freeInternal pkts
        if appended then
          ({ relieved.1 with queue := relieved.1.queue.map fun pkts => pkts ++ [pkt] }, relieved.2 ++ [.enqueue pkt])
        else (relieved.1, relieved.2 ++ [.free pkt])

/-- `btc_a2dp_sink_thread_init`; `queueNew` says whether the queue is allocated. -/
def LocalParam.threadInit (param : LocalParam Pkt) (queueNew : Bool) : LocalParam Pkt :=
  { param with
    state := .on
    queue := if queueNew then some [] else none
    hasEvent := true
    rxFlush := false
    decodeBuf := none
    decodeBufLen := 0
    codecIndex := none
    decoderReady := false }

/-- `btc_a2dp_sink_startup`, down to the handler of the message that it posts. -/
def LocalParam.startup (param : LocalParam Pkt) (queueNew : Bool) : LocalParam Pkt :=
  if param.state ≠ .off then param else param.threadInit queueNew

/-- `btc_a2dp_sink_thread_cleanup`. -/
def LocalParam.threadCleanup (param : LocalParam Pkt) : LocalParam Pkt × List (Action Pkt) :=
  ({ param with
      state := .off
      queue := none
      hasEvent := false
      decoder := none
      decodeBuf := none
      decodeBufLen := 0
      codecIndex := none
      decoderReady := false }, (param.queue.getD []).map Action.free)

/-- `btc_a2dp_sink_on_memory_pressure`. -/
def LocalParam.onMemoryPressure (param : LocalParam Pkt) : LocalParam Pkt × List (Action Pkt) :=
  if param.state ≠ .on then (param, [])
  else
    let flushed := LocalParam.flushQ { param with rxFlush := true }
    ((if flushed.1.decoderReady then { flushed.1 with rxFlush := false } else flushed.1), flushed.2)

/-! ## Events -/

inductive Event (Pkt : Type)
  | startup (queueNew : Bool)
  | shuttingDown
  | cleanup
  | decoderReset (info : List Octet) (decoderInit malloc : Bool)
  | clearTrack
  | flush
  | setRxFlush (enable : Bool)
  | memoryPressure
  | enqueBuf (pkt : Pkt) (freeInternal : Nat) (appended : Bool)
  | dataReady (media : Media Pkt)

/-- A handler as one step. `btc_a2dp_sink_shutdown` changes the state before the task gets its message. -/
def step (build : Build) (param : LocalParam Pkt) : Event Pkt → LocalParam Pkt × List (Action Pkt)
  | .startup queueNew => (param.startup queueNew, [])
  | .shuttingDown => ({ param with state := .shuttingDown }, [])
  | .cleanup => param.threadCleanup
  | .decoderReset info decoderInit malloc => param.decoderReset build info decoderInit malloc
  | .clearTrack => param.flushQ
  | .flush => param.flushQ
  | .setRxFlush enable => ({ param with rxFlush := enable }, [])
  | .memoryPressure => param.onMemoryPressure
  | .enqueBuf pkt freeInternal appended => param.enqueBuf build pkt freeInternal appended
  | .dataReady media => param.dataReady media

end EspIdf.A2dp.Sink
