import EspIdf.Lhdc.BitCursor
import EspIdf.Lhdc.Sns

/-!
# LHDC V5: the frames of a packet

* `lhdcDecParseHeader`, `lhdcDecDecodeFrame` : one frame at an offset of the packet, `none` for a read outside of it;
* `frameLoop` : the loop of `a2dp_lhdcv5_decoder_decode_packet`, with the frames whose payload is decoded;
* `Frame` : a well-formed frame;
* `frameLoop_frames` : the loop takes the well-formed frames, up to one that fails.

What becomes of the samples is left out: of the channels only the state and the return code of channel 0 count.
-/

namespace EspIdf.Lhdc

open BitString

/-- `lhdc_dec_ret_t`. -/
inductive DecRet
  | ok | error | invalidParam | invalidHandle | notInitialized | bufNotEnough | bitstreamError | unsupportedVersion
  | unsupportedSr | unsupportedFormat | needMoreData
  deriving DecidableEq, Repr

/-- What the decoder reads of `lhdc_dec_config_t`. -/
structure DecConfig where
  sampleRate : UInt32
  bitDepth : UInt8
  frameDuration : UInt8
  channels : UInt8
  deriving DecidableEq

/-- What the walk needs of `lhdc_band_cfg_desc_t`. -/
structure BandCfg where
  numSfb : Nat
  mdctSize : Nat
  deriving DecidableEq

def bandCfg480 : BandCfg := ⟨32, 480⟩
def bandCfg480Hr : BandCfg := ⟨32, 480⟩
def bandCfg480Lb : BandCfg := ⟨24, 480⟩
def bandCfg960 : BandCfg := ⟨32, 960⟩
def bandCfg1920 : BandCfg := ⟨32, 1920⟩

/-- `lhdc_get_samples_per_frame`, a `uint16_t`. -/
def samplesPerFrame (sampleRate : UInt32) (duration : UInt8) : Nat :=
  sampleRate.toNat * duration.toNat / 1000 % 2 ^ 16

/-- `lhdc_get_band_cfg`. -/
def getBandCfg (sampleRate : UInt32) (duration : UInt8) : BandCfg :=
  if samplesPerFrame sampleRate duration ≤ 240 then bandCfg480Hr
  else if samplesPerFrame sampleRate duration ≤ 480 then bandCfg960
  else bandCfg1920

/-- `lhdc_get_band_cfg_frame`. -/
def getBandCfgFrame (sampleRate : UInt32) (duration : UInt8) (perChBytes : Nat) : BandCfg :=
  if samplesPerFrame sampleRate duration ≤ 240 then
    let ms := (if duration ≠ 0 then duration.toNat else 5) * 10
    let bitRate := perChBytes * 8 * 10000 / ms
    if 119999 < bitRate then bandCfg480Hr else if 95999 < bitRate then bandCfg480 else bandCfg480Lb
  else if samplesPerFrame sampleRate duration ≤ 480 then bandCfg960
  else bandCfg1920

/-- What the walk needs of `lhdc_dec_frame_header_t`. -/
structure FrameHeader where
  sampleRate : UInt32
  bitDepth : UInt8
  frameDurationMs : UInt8
  channels : UInt8
  frameFlags : Nat
  frameBytes : Nat
  samplesPerChannel : Nat
  deriving DecidableEq

def maxFrameBytes : Nat := 1536

/-- The payload length in the two bytes of a frame header. -/
def payloadLen (lo hi : UInt8) : Nat := (lo.toNat + 256 * hi.toNat) % 1024 * 2

/-- `memcpy` from the packet. -/
def copyFrom (src : List UInt8) (off len : Nat) : Option (List UInt8) :=
  if off + len ≤ src.length then some ((src.drop off).take len) else none

/-- The header of a frame: the parameters of the stream, the flags and the payload length. -/
def frameHeader (cfg : DecConfig) (lo hi : UInt8) : FrameHeader where
  sampleRate := cfg.sampleRate
  channels := if cfg.channels ≠ 0 then cfg.channels else 2
  bitDepth := cfg.bitDepth
  frameDurationMs := cfg.frameDuration
  frameFlags := (lo.toNat + 256 * hi.toNat) / 1024
  frameBytes := payloadLen lo hi
  samplesPerChannel := (getBandCfg cfg.sampleRate cfg.frameDuration).mdctSize / 2

/-- What `lhdc_dec_parse_header` finds: the header, the copy of the payload and the bytes consumed. -/
structure ParsedFrame where
  header : FrameHeader
  payload : List UInt8
  consumed : Nat

/-- `lhdc_dec_parse_header` at an offset of the packet. -/
def lhdcDecParseHeader (cfg : DecConfig) (src : List UInt8) (off inBytes : Nat) :
    Option (Except DecRet ParsedFrame) :=
  if inBytes < 2 then some (.error .needMoreData)
  else do
    let lo ← src[off]?
    let hi ← src[off + 1]?
    if payloadLen lo hi = 0 ∨ maxFrameBytes < payloadLen lo hi then some (.error .bitstreamError)
    else if inBytes < 2 + payloadLen lo hi then some (.error .needMoreData)
    else do
      let payload ← copyFrom src (off + 2) (payloadLen lo hi)
      some (.ok ⟨frameHeader cfg lo hi, payload, 2 + payloadLen lo hi⟩)

/-- The two channels of a frame: the return code of channel 0, that of the frame, and the state they leave. -/
abbrev Channels (σ : Type) := σ → FrameHeader → List UInt8 → DecRet × σ

/-- A payload handed to the channels: where the frame is in the packet, and what they return. -/
structure Call where
  off : Nat
  payload : List UInt8
  ret : DecRet
  deriving DecidableEq

/-- What `lhdc_dec_decode_frame` returns. -/
structure FrameOutcome (σ : Type) where
  ret : DecRet
  consumed : Nat
  generated : Nat
  call : Option Call
  state : σ

section Walk

variable {σ : Type} (cfg : DecConfig) (channels : Channels σ)

/-- `lhdc_dec_decode_frame` at an offset of the packet, for a decoder that was initialized. `lhdc_imdct_init` does not
fail. -/
def lhdcDecDecodeFrame (state : σ) (src : List UInt8) (off inBytes outSamples : Nat) : Option (FrameOutcome σ) :=
  if inBytes < 4 then some ⟨.invalidParam, 0, 0, none, state⟩
  else
    match lhdcDecParseHeader cfg src off inBytes with
    | none => none
    | some (.error ret) => some ⟨ret, 0, 0, none, state⟩
    | some (.ok parsed) =>
        if outSamples < parsed.header.samplesPerChannel then some ⟨.bufNotEnough, 0, 0, none, state⟩
        else
          let r := channels state parsed.header parsed.payload
          if r.1 ≠ .ok then some ⟨r.1, 0, 0, some ⟨off, parsed.payload, r.1⟩, r.2⟩
          else some ⟨.ok, parsed.consumed, parsed.header.samplesPerChannel, some ⟨off, parsed.payload, .ok⟩, r.2⟩

/-- The loop of `a2dp_lhdcv5_decoder_decode_packet` from `off` on: the payloads it has decoded. -/
def frameLoop (state : σ) (src : List UInt8) (off : Nat) : Option (List Call × σ) :=
  if off + 2 ≤ src.length then
    match lhdcDecDecodeFrame cfg channels state src off (src.length - off) 1920 with
    | none => none
    | some r =>
        if r.ret ≠ .ok ∨ r.consumed = 0 then some (r.call.toList, r.state)
        else (frameLoop r.state src (off + r.consumed)).map fun rest => (r.call.toList ++ rest.1, rest.2)
  else some ([], state)
termination_by src.length - off
decreasing_by omega

/-- The walk over a packet: its first byte is a marker. -/
def walkPacket (state : σ) (src : List UInt8) : Option (List Call × σ) :=
  frameLoop cfg channels state src (if 1 ≤ src.length then 1 else 0)

end Walk

/-! ## Well-formed frames -/

/-- A frame: a header, and a payload of the length it gives. -/
structure Frame where
  lo : UInt8
  hi : UInt8
  payload : List UInt8
  len_eq : payload.length = payloadLen lo hi
  pos : 0 < payload.length
  le_max : payload.length ≤ maxFrameBytes

namespace Frame

def bytes (f : Frame) : List UInt8 := f.lo :: f.hi :: f.payload

theorem bytes_length (f : Frame) : f.bytes.length = 2 + f.payload.length := by
  unfold bytes
  rw [List.length_cons, List.length_cons]
  omega

/-- The payload length is even. -/
theorem two_le (f : Frame) : 2 ≤ f.payload.length := by
  have hlen := f.len_eq
  have hpos := f.pos
  unfold payloadLen at hlen
  omega

end Frame

/-- There is no well-formed frame at the start. -/
def NoFrame (bs : List UInt8) : Prop := ∀ (f : Frame) (tail : List UInt8), bs ≠ f.bytes ++ tail

/-- Where the frames of a packet are, from `off` on. -/
def framesFrom (off : Nat) : List Frame → List (Nat × List UInt8)
  | [] => []
  | f :: fs => (off, f.payload) :: framesFrom (off + f.bytes.length) fs

theorem noFrame_nil : NoFrame [] := by
  intro f tail h
  simp [Frame.bytes] at h

/-- Every string of bytes is its maximal prefix of well-formed frames and a rest. -/
theorem exists_frames (bs : List UInt8) :
    ∃ (frames : List Frame) (rest : List UInt8), bs = frames.flatMap Frame.bytes ++ rest ∧ NoFrame rest := by
  by_cases h : NoFrame bs
  · exact ⟨[], bs, rfl, h⟩
  · obtain ⟨f, hf⟩ := not_forall.mp h
    obtain ⟨tail, htail⟩ := not_forall.mp hf
    have hbs : bs = f.bytes ++ tail := not_not.mp htail
    have hlen : tail.length < bs.length := by
      rw [hbs, List.length_append, f.bytes_length]
      omega
    obtain ⟨frames, rest, hsplit, hrest⟩ := exists_frames tail
    exact ⟨f :: frames, rest, by rw [List.flatMap_cons, List.append_assoc, ← hsplit, hbs], hrest⟩
termination_by bs.length

/-- There is a frame where a header gives the length of what follows. -/
theorem not_noFrame {bs : List UInt8} {lo hi : UInt8} (hlo : bs[0]? = some lo) (hhi : bs[1]? = some hi)
    (hpos : payloadLen lo hi ≠ 0) (hmax : payloadLen lo hi ≤ maxFrameBytes) (hlen : 2 + payloadLen lo hi ≤ bs.length) :
    ¬NoFrame bs := by
  intro h
  have hpayload : ((bs.drop 2).take (payloadLen lo hi)).length = payloadLen lo hi := by
    rw [List.length_take, List.length_drop]
    omega
  apply h ⟨lo, hi, (bs.drop 2).take (payloadLen lo hi), hpayload, by omega, by omega⟩ ((bs.drop 2).drop (payloadLen lo hi))
  unfold Frame.bytes
  rw [List.cons_append, List.cons_append, List.take_append_drop]
  match bs, hlo, hhi with
  | _ :: _ :: _, hlo, hhi => rw [Option.some.inj hlo, Option.some.inj hhi]; rfl

theorem samplesPerChannel_le (cfg : DecConfig) (lo hi : UInt8) : (frameHeader cfg lo hi).samplesPerChannel ≤ 1920 := by
  change (getBandCfg cfg.sampleRate cfg.frameDuration).mdctSize / 2 ≤ 1920
  unfold getBandCfg
  split_ifs <;> decide

section Walk

variable {σ : Type} {cfg : DecConfig} {channels : Channels σ} {src : List UInt8} {off : Nat}

theorem parseHeader_frame {f : Frame} {tail : List UInt8} (h : src.drop off = f.bytes ++ tail) :
    lhdcDecParseHeader cfg src off (src.length - off) =
      some (.ok ⟨frameHeader cfg f.lo f.hi, f.payload, f.bytes.length⟩) := by
  have hlen := congrArg List.length h
  rw [List.length_drop, List.length_append, f.bytes_length] at hlen
  have hpos := f.pos
  have hmax := f.le_max
  have hsize : payloadLen f.lo f.hi = f.payload.length := f.len_eq.symm
  have hlo : src[off]? = some f.lo := by
    have := congrArg (fun l => l[0]?) h
    rwa [List.getElem?_drop] at this
  have hhi : src[off + 1]? = some f.hi := by
    have := congrArg (fun l => l[1]?) h
    rwa [List.getElem?_drop] at this
  have hcopy : copyFrom src (off + 2) f.payload.length = some f.payload := by
    unfold copyFrom
    rw [if_pos (by omega), ← List.drop_drop, h]
    change some ((f.payload ++ tail).take f.payload.length) = _
    rw [List.take_left]
  unfold lhdcDecParseHeader
  rw [if_neg (by omega), hlo, hhi]
  change (if payloadLen f.lo f.hi = 0 ∨ maxFrameBytes < payloadLen f.lo f.hi then _ else _) = _
  rw [hsize, if_neg (by omega), if_neg (by omega), hcopy, f.bytes_length]
  rfl

theorem parseHeader_none (h : NoFrame (src.drop off)) (hoff : off + 2 ≤ src.length) :
    ∃ ret, ret ≠ DecRet.ok ∧ lhdcDecParseHeader cfg src off (src.length - off) = some (.error ret) := by
  have hlo : src[off]? = some src[off] := List.getElem?_eq_getElem (by omega)
  have hhi : src[off + 1]? = some src[off + 1] := List.getElem?_eq_getElem (by omega)
  unfold lhdcDecParseHeader
  rw [if_neg (by omega), hlo, hhi]
  change ∃ ret, ret ≠ DecRet.ok ∧ (if payloadLen src[off] src[off + 1] = 0 ∨
    maxFrameBytes < payloadLen src[off] src[off + 1] then _ else _) = _
  by_cases hbad : payloadLen src[off] src[off + 1] = 0 ∨ maxFrameBytes < payloadLen src[off] src[off + 1]
  · rw [if_pos hbad]
    exact ⟨.bitstreamError, DecRet.noConfusion, rfl⟩
  · rw [if_neg hbad]
    by_cases hshort : src.length - off < 2 + payloadLen src[off] src[off + 1]
    · rw [if_pos hshort]
      exact ⟨.needMoreData, DecRet.noConfusion, rfl⟩
    · refine absurd h (@not_noFrame _ src[off] src[off + 1] ?_ ?_ (by omega) (by omega) ?_)
      · rw [List.getElem?_drop]
        exact hlo
      · rw [List.getElem?_drop]
        exact hhi
      · rw [List.length_drop]
        omega

/-- A frame is parsed and its payload is decoded. -/
theorem decodeFrame_frame {f : Frame} {tail : List UInt8} (h : src.drop off = f.bytes ++ tail) (state : σ) :
    lhdcDecDecodeFrame cfg channels state src off (src.length - off) 1920 =
      some (if (channels state (frameHeader cfg f.lo f.hi) f.payload).1 ≠ .ok then
        ⟨(channels state (frameHeader cfg f.lo f.hi) f.payload).1, 0, 0,
          some ⟨off, f.payload, (channels state (frameHeader cfg f.lo f.hi) f.payload).1⟩,
          (channels state (frameHeader cfg f.lo f.hi) f.payload).2⟩
      else
        ⟨.ok, f.bytes.length, (frameHeader cfg f.lo f.hi).samplesPerChannel, some ⟨off, f.payload, .ok⟩,
          (channels state (frameHeader cfg f.lo f.hi) f.payload).2⟩) := by
  have hlen := congrArg List.length h
  rw [List.length_drop, List.length_append, f.bytes_length] at hlen
  have htwo := f.two_le
  unfold lhdcDecDecodeFrame
  rw [if_neg (by omega), parseHeader_frame h]
  dsimp only
  rw [if_neg (Nat.not_lt.mpr (samplesPerChannel_le cfg f.lo f.hi))]
  split_ifs <;> rfl

/-- Without a frame nothing is decoded. -/
theorem decodeFrame_none (h : NoFrame (src.drop off)) (hoff : off + 2 ≤ src.length) (state : σ) :
    ∃ ret, ret ≠ .ok ∧ lhdcDecDecodeFrame cfg channels state src off (src.length - off) 1920 =
      some ⟨ret, 0, 0, none, state⟩ := by
  unfold lhdcDecDecodeFrame
  by_cases hfour : src.length - off < 4
  · rw [if_pos hfour]
    exact ⟨.invalidParam, DecRet.noConfusion, rfl⟩
  · obtain ⟨ret, hret, hparse⟩ : ∃ ret, ret ≠ DecRet.ok ∧
        lhdcDecParseHeader cfg src off (src.length - off) = some (.error ret) := parseHeader_none h hoff
    rw [if_neg hfour, hparse]
    exact ⟨ret, hret, rfl⟩

/-- The loop goes on after a frame that is decoded. -/
theorem frameLoop_next {f : Frame} {tail : List UInt8} (h : src.drop off = f.bytes ++ tail) {state : σ}
    (hret : (channels state (frameHeader cfg f.lo f.hi) f.payload).1 = .ok) :
    frameLoop cfg channels state src off =
      (frameLoop cfg channels (channels state (frameHeader cfg f.lo f.hi) f.payload).2 src (off + f.bytes.length)).map
        fun rest => (⟨off, f.payload, .ok⟩ :: rest.1, rest.2) := by
  have hlen := congrArg List.length h
  rw [List.length_drop, List.length_append, f.bytes_length] at hlen
  have htwo := f.two_le
  rw [frameLoop, if_pos (by omega), decodeFrame_frame h, if_neg (not_not.mpr hret)]
  dsimp only
  rw [if_neg (by rw [f.bytes_length]; simp)]
  rfl

/-- The loop ends at a frame that is not. -/
theorem frameLoop_fails {f : Frame} {tail : List UInt8} (h : src.drop off = f.bytes ++ tail) {state : σ}
    (hret : (channels state (frameHeader cfg f.lo f.hi) f.payload).1 ≠ .ok) :
    frameLoop cfg channels state src off =
      some ([⟨off, f.payload, (channels state (frameHeader cfg f.lo f.hi) f.payload).1⟩],
        (channels state (frameHeader cfg f.lo f.hi) f.payload).2) := by
  have hlen := congrArg List.length h
  rw [List.length_drop, List.length_append, f.bytes_length] at hlen
  have htwo := f.two_le
  rw [frameLoop, if_pos (by omega), decodeFrame_frame h, if_pos hret]
  dsimp only
  rw [if_pos (Or.inl hret)]
  rfl

/-- The loop ends where there is no frame. -/
theorem frameLoop_none (h : NoFrame (src.drop off)) (state : σ) : frameLoop cfg channels state src off = some ([], state) := by
  rw [frameLoop]
  split_ifs with hoff
  · obtain ⟨ret, hret, hrun⟩ : ∃ ret, ret ≠ .ok ∧ lhdcDecDecodeFrame cfg channels state src off (src.length - off) 1920 =
        some ⟨ret, 0, 0, none, state⟩ := decodeFrame_none h hoff state
    rw [hrun]
    dsimp only
    rw [if_pos (Or.inl hret)]
    rfl
  · rfl

/-- Where the frames are that the loop has decoded. -/
def places (calls : List Call) : List (Nat × List UInt8) := calls.map fun c => (c.off, c.payload)

/-- What the loop does with well-formed frames and a rest without one: it takes the frames in order, to the end or up to
one that fails. -/
theorem frameLoop_spec {frames : List Frame} {rest : List UInt8} (h : src.drop off = frames.flatMap Frame.bytes ++ rest)
    (hrest : NoFrame rest) (state : σ) :
    ∃ calls state', frameLoop cfg channels state src off = some (calls, state') ∧
      places calls <+: framesFrom off frames ∧ (∀ c ∈ calls.dropLast, c.ret = .ok) ∧
      ((∀ c ∈ calls, c.ret = .ok) → places calls = framesFrom off frames) := by
  induction frames generalizing off state with
  | nil =>
      have hnone : NoFrame (src.drop off) := h ▸ hrest
      exact ⟨[], state, frameLoop_none hnone state, List.prefix_rfl, by simp, fun _ => rfl⟩
  | cons f frames ih =>
      have hframe : src.drop off = f.bytes ++ (frames.flatMap Frame.bytes ++ rest) := by
        rw [h, List.flatMap_cons, List.append_assoc]
      by_cases hret : (channels state (frameHeader cfg f.lo f.hi) f.payload).1 = .ok
      · have hnext : src.drop (off + f.bytes.length) = frames.flatMap Frame.bytes ++ rest := by
          rw [← List.drop_drop, hframe, List.drop_left]
        obtain ⟨calls, state', hrun, hpre, hinit, hall⟩ :=
          ih hnext (channels state (frameHeader cfg f.lo f.hi) f.payload).2
        refine ⟨⟨off, f.payload, .ok⟩ :: calls, state', ?_, ?_, ?_, ?_⟩
        · rw [frameLoop_next hframe hret, hrun]
          rfl
        · exact List.cons_prefix_cons.mpr ⟨rfl, hpre⟩
        · intro c hc
          cases calls with
          | nil => simp at hc
          | cons d ds =>
              rw [List.dropLast_cons_cons] at hc
              rcases List.mem_cons.mp hc with rfl | hc
              · rfl
              · exact hinit c hc
        · intro hok
          change _ :: places calls = _
          rw [hall fun c hc => hok c (List.mem_cons_of_mem _ hc)]
          rfl
      · refine ⟨_, _, frameLoop_fails hframe hret, ?_, by simp, fun hok => absurd (hok _ List.mem_cons_self) hret⟩
        exact List.cons_prefix_cons.mpr ⟨rfl, List.nil_prefix⟩

end Walk

/-! ## Places -/

/-- The frames of a packet lie one after the other, all of them in the packet. -/
theorem framesFrom_places (frames : List Frame) (off : Nat) :
    (framesFrom off frames).Pairwise (fun p q => p.1 + 2 + p.2.length ≤ q.1) ∧
      ∀ p ∈ framesFrom off frames, off ≤ p.1 ∧ p.1 + 2 + p.2.length ≤ off + (frames.flatMap Frame.bytes).length := by
  induction frames generalizing off with
  | nil => exact ⟨List.Pairwise.nil, by simp [framesFrom]⟩
  | cons f frames ih =>
      obtain ⟨hpair, hin⟩ := ih (off + f.bytes.length)
      have hlen := f.bytes_length
      unfold framesFrom
      rw [List.flatMap_cons, List.length_append]
      constructor
      · refine List.pairwise_cons.mpr ⟨fun q hq => ?_, hpair⟩
        have := (hin q hq).1
        dsimp only
        omega
      · intro p hp
        rcases List.mem_cons.mp hp with rfl | hp
        · dsimp only
          omega
        · have := hin p hp
          omega

/-! ## Channel 0 -/

def xorMask : List UInt8 := [0xFF, 0xE7, 0x7A, 0xB3, 0xDA, 0xE5, 0xCD, 0x73]

/-- `LHDC_PERM`: where each of the first 8 bytes goes. -/
def perm (sel : UInt8) : List Nat := if sel = 0 then [4, 0, 1, 5, 7, 3, 2, 6] else [6, 3, 7, 0, 2, 1, 4, 5]

/-- `lhdc_descramble_inplace`. -/
def descrambleInplace (buf : List UInt8) : List UInt8 :=
  if buf.length < 9 then buf
  else
    ((List.range 8).map fun k => buf.getD ((perm (buf.getD 8 0 &&& 1)).idxOf k) 0 ^^^ xorMask.getD k 0) ++ buf.drop 8

/-- The number of channels a payload is divided among. -/
def FrameHeader.nCh (header : FrameHeader) : Nat := if header.channels < 1 then 1 else header.channels.toNat

/-- The part of a payload that is channel 0. -/
def channel0 (header : FrameHeader) (payload : List UInt8) : List UInt8 :=
  payload.take (if 1 < header.nCh then header.frameBytes / header.nCh else header.frameBytes)

/-- The return code of `lhdc_dec_decode_channel` for channel 0: what follows the scale factors does not fail. -/
def decodeChannel0 (header : FrameHeader) (payload : List UInt8) : DecRet :=
  let flag := bitReaderRead (bitReaderInit (descrambleInplace (channel0 header payload))) 1
  if flag.1 ≠ 0 then .bitstreamError
  else
    let globalGain := bitReaderRead flag.2 9
    match (lhdcSnsDecodeParams globalGain.2
      (getBandCfgFrame header.sampleRate header.frameDurationMs (header.frameBytes / header.nCh)).numSfb).1 with
    | none => .bitstreamError
    | some _ => .ok

/-- The channels of a frame on the ESP32, where a channel is decoded once. Channel 1 may fail. -/
def esp32Channels {σ : Type} (after : σ → FrameHeader → List UInt8 → σ) : Channels σ := fun state header payload =>
  (decodeChannel0 header payload, after state header payload)

theorem numSfb_range (sampleRate : UInt32) (duration : UInt8) (perChBytes : Nat) :
    1 ≤ (getBandCfgFrame sampleRate duration perChBytes).numSfb ∧
      (getBandCfgFrame sampleRate duration perChBytes).numSfb ≤ LHDC_DEC_MAX_SFB := by
  unfold getBandCfgFrame
  dsimp only
  split_ifs <;> decide

/-- Channel 0 is decoded if its first bit, the flag, is 0. -/
theorem decodeChannel0_eq (header : FrameHeader) (payload : List UInt8) : decodeChannel0 header payload =
    if value ((ofBytes (descrambleInplace (channel0 header payload))).take 1) = 0 then .ok else .bitstreamError := by
  have hrange := numSfb_range header.sampleRate header.frameDurationMs (header.frameBytes / header.nCh)
  have hflag : (bitReaderRead (bitReaderInit (descrambleInplace (channel0 header payload))) 1).1 =
      value ((ofBytes (descrambleInplace (channel0 header payload))).take 1) :=
    ((Reads.start (descrambleInplace (channel0 header payload))).read (n := 1) (by decide)).1
  unfold decodeChannel0
  dsimp only
  rw [hflag]
  by_cases hzero : value ((ofBytes (descrambleInplace (channel0 header payload))).take 1) = 0
  · rw [if_neg (not_not.mpr hzero), if_pos hzero]
    unfold lhdcSnsDecodeParams
    rw [if_neg (by omega)]
    dsimp only
    split_ifs <;> rfl
  · rw [if_pos hzero, if_neg hzero]

/-- The decoder's frame loop ends for every packet, reads nothing outside of it and decodes the payloads of the
well-formed frames after the marker, in order: all of the maximal prefix, or up to the first one that fails. -/
theorem walkPacket_frames {σ : Type} (cfg : DecConfig) (channels : Channels σ) (state : σ) (src : List UInt8) :
    ∃ calls state' frames rest, walkPacket cfg channels state src = some (calls, state') ∧
      src.drop 1 = frames.flatMap Frame.bytes ++ rest ∧ NoFrame rest ∧
      places calls <+: framesFrom 1 frames ∧ (∀ c ∈ calls.dropLast, c.ret = .ok) ∧
      ((∀ c ∈ calls, c.ret = .ok) → places calls = framesFrom 1 frames) ∧
      calls.Pairwise (fun c d => c.off + 2 + c.payload.length ≤ d.off) ∧
      ∀ c ∈ calls, 1 ≤ c.off ∧ c.off + 2 + c.payload.length ≤ src.length := by
  cases src with
  | nil =>
      exact ⟨[], state, [], [], @frameLoop_none _ cfg channels [] 0 noFrame_nil state, rfl, noFrame_nil, List.prefix_rfl, by simp, fun _ => rfl,
        List.Pairwise.nil, by simp⟩
  | cons b bs =>
      obtain ⟨frames, rest, hsplit, hrest⟩ := exists_frames ((b :: bs).drop 1)
      obtain ⟨calls, state', hrun, hpre, hinit, hall⟩ :=
        @frameLoop_spec _ cfg channels (b :: bs) 1 frames rest hsplit hrest state
      obtain ⟨hpair, hin⟩ := framesFrom_places frames 1
      have hlen := congrArg List.length hsplit
      rw [List.length_drop, List.length_append] at hlen
      have hplaces : (places calls).Pairwise fun p q => p.1 + 2 + p.2.length ≤ q.1 := hpair.sublist hpre.sublist
      refine ⟨calls, state', frames, rest, hrun, hsplit, hrest, hpre, hinit, hall, List.pairwise_map.mp hplaces, ?_⟩
      intro c hc
      obtain ⟨hlo, hhi⟩ := hin _ (hpre.subset (List.mem_map.mpr ⟨c, hc, rfl⟩))
      dsimp only at hlo hhi
      rw [List.length_cons] at hlen ⊢
      omega

/-- Two frames of two bytes, the flag of the first one set. -/
def flaggedFrame : Frame where
  lo := 1
  hi := 0
  payload := [0x80, 0]
  len_eq := rfl
  pos := Nat.zero_lt_succ 1
  le_max := Nat.le_add_left 2 1534

def plainFrame : Frame where
  lo := 1
  hi := 0
  payload := [0, 0]
  len_eq := rfl
  pos := Nat.zero_lt_succ 1
  le_max := Nat.le_add_left 2 1534

/-- The second of two well-formed frames is not decoded after the first one failed. -/
theorem walkPacket_stops :
    [0, 1, 0, 0x80, 0, 1, 0, 0, 0].drop 1 = flaggedFrame.bytes ++ plainFrame.bytes ∧
    walkPacket ⟨48000, 16, 5, 2⟩ (esp32Channels fun (_ : Unit) _ _ => ()) () [0, 1, 0, 0x80, 0, 1, 0, 0, 0] =
      some ([⟨1, [0x80, 0], .bitstreamError⟩], ()) := by
  have hsplit : [0, 1, 0, 0x80, 0, 1, 0, 0, 0].drop 1 = flaggedFrame.bytes ++ plainFrame.bytes := rfl
  refine ⟨hsplit, ?_⟩
  have hret : decodeChannel0 (frameHeader ⟨48000, 16, 5, 2⟩ flaggedFrame.lo flaggedFrame.hi) flaggedFrame.payload =
      .bitstreamError := by
    rw [decodeChannel0_eq]
    decide
  have hfails := @frameLoop_fails Unit ⟨48000, 16, 5, 2⟩ (esp32Channels fun _ _ _ => ()) _ 1 _ _ hsplit () (by
    change decodeChannel0 _ _ ≠ _
    rw [hret]
    exact DecRet.noConfusion)
  refine hfails.trans ?_
  change some ([(⟨1, flaggedFrame.payload, decodeChannel0 _ _⟩ : Call)], ()) = _
  rw [hret]
  rfl

end EspIdf.Lhdc
