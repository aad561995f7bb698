import Mathlib.Data.List.Basic
import Mathlib.Tactic.Ring

/-!
# The LATM parser of the AAC sink

* `Bitstream` : `bitstream_t`, with the fields it has been asked for;
* `LatmParser` : `latm_parser_t` without the cached bytes that nothing reads;
* `LatmM` : programs over both that can return early with an error code;
* `parseAudioSpecificConfig`, `parseStreamMuxConfig` : the configuration;
* `parsePayloadLengthInfo`, `payloadMux` : the length of the payload;
* `latmParseFrame` : one packet.

Pointers are not null. A `size_t` has 32 bits.
-/

namespace EspIdf.A2dp

/-- `latm_error_t`. -/
inductive LatmError
  | nullPointer | notEnoughData | invalidSync | unsupportedConfig | invalidFrame | bufferTooSmall
  deriving DecidableEq, Repr

/-- `latm_audio_config_t`. -/
structure LatmAudioConfig where
  objectType : Nat
  sampleRate : Nat
  channelConfig : Nat
  frameLengthFlag : Nat
  configValid : Bool
  deriving DecidableEq, Repr

/-- `latm_parser_t`. -/
structure LatmParser where
  audioMuxVersion : Nat
  allStreamsSameTime : Nat
  numSubFrames : Nat
  numProgram : Nat
  numLayer : Nat
  frameLengthType : Nat
  frameLength : Nat
  audioConfig : LatmAudioConfig
  configParsed : Bool
  useSameStreamMux : Bool
  deriving DecidableEq, Repr

/-- `latm_parser_init`. -/
def latmParserInit : LatmParser := ⟨0, 0, 0, 0, 0, 0, 0, ⟨0, 0, 0, 0, false⟩, false, false⟩

/-! ## The bit reader -/

/-- A run of bits in a packet. -/
structure Field where
  start : Nat
  width : Nat
  deriving DecidableEq, Repr

/-- `bitstream_t`. The fields read or skipped so far, the last one first, are for the specification only. -/
structure Bitstream where
  data : List UInt8
  bitPos : Nat
  asked : List Field
  deriving DecidableEq, Repr

/-- `data_len * 8`. -/
def bitCount (data : List UInt8) : Nat := data.length * 8 % 2 ^ 32

/-- `bs_bits_left`, a difference of 32-bit words. -/
def Bitstream.bitsLeft (bs : Bitstream) : Nat :=
  if bs.bitPos ≤ bitCount bs.data then bitCount bs.data - bs.bitPos else bitCount bs.data + 2 ^ 32 - bs.bitPos

/-- The loop of `bs_read_bits` with `n` bits to go: a pass takes what it can of the byte at `pos`. -/
def readLoop (data : List UInt8) : Nat → Nat → Nat → Nat → Nat × Nat
  | 0, _, pos, result => (result, pos)
  | fuel + 1, n, pos, result =>
      if n = 0 then (result, pos)
      else
        let bitsInThisByte := min (8 - pos % 8) n
        let shift := 8 - pos % 8 - bitsInThisByte
        let val := (data.getD (pos / 8) 0).toNat >>> shift &&& (1 <<< bitsInThisByte - 1)
        readLoop data fuel (n - bitsInThisByte) (pos + bitsInThisByte) (result <<< bitsInThisByte ||| val)

/-- `bs_read_bits`: `0`, and no move, when there are not enough bits. -/
def bsReadBits (bs : Bitstream) (n : Nat) : Nat × Bitstream :=
  if n = 0 ∨ 32 < n then (0, bs)
  else
    let asked := ⟨bs.bitPos, n⟩ :: bs.asked
    if bs.bitsLeft < n then (0, { bs with asked := asked })
    else ((readLoop bs.data n n bs.bitPos 0).1,
      { bs with bitPos := (readLoop bs.data n n bs.bitPos 0).2, asked := asked })

/-- `bs_skip_bits`: at most to the end. -/
def bsSkipBits (bs : Bitstream) (n : Nat) : Bitstream :=
  { bs with
    bitPos := min ((bs.bitPos + n) % 2 ^ 32) (bitCount bs.data)
    asked := ⟨bs.bitPos, n⟩ :: bs.asked }

/-! ## Programs -/

/-- The parser and the packet it reads. -/
structure LatmState where
  parser : LatmParser
  bs : Bitstream
  deriving DecidableEq, Repr

/-- A program that can return early: what it has done to the state stays. -/
def LatmM (α : Type) := LatmState → Except LatmError α × LatmState

namespace LatmM

instance : Monad LatmM where
  pure a := fun s => (.ok a, s)
  bind m f := fun s =>
    match m s with
    | (.ok a, s') => f a s'
    | (.error e, s') => (.error e, s')

section Bind
variable {α β : Type} {m : LatmM α} {f : α → LatmM β} {s s' : LatmState}

theorem bind_ok {a : α} (h : m s = (.ok a, s')) : (m >>= f) s = f a s' := by
  simp only [bind, h]

theorem bind_error {e : LatmError} (h : m s = (.error e, s')) : (m >>= f) s = (.error e, s') := by
  simp only [bind, h]

end Bind

def fail {α : Type} (e : LatmError) : LatmM α := fun s => (.error e, s)

/-- Do `m` if `c`. -/
def onlyIf (c : Prop) [Decidable c] (m : LatmM Unit) : LatmM Unit := if c then m else pure ()

def refuseIf (c : Prop) [Decidable c] : LatmM Unit := onlyIf c (fail .unsupportedConfig)

def getParser : LatmM LatmParser := fun s => (.ok s.parser, s)

def setParser (f : LatmParser → LatmParser) : LatmM Unit := fun s => (.ok (), { s with parser := f s.parser })

/-- `config` in `parse_audio_specific_config` points into the parser. -/
def setConfig (f : LatmAudioConfig → LatmAudioConfig) : LatmM Unit :=
  setParser fun p => { p with audioConfig := f p.audioConfig }

def readBits (n : Nat) : LatmM Nat := fun s => (.ok (bsReadBits s.bs n).1, { s with bs := (bsReadBits s.bs n).2 })

def readBit : LatmM Nat := readBits 1

def skipBits (n : Nat) : LatmM Unit := fun s => (.ok (), { s with bs := bsSkipBits s.bs n })

def getBitPos : LatmM Nat := fun s => (.ok s.bs.bitPos, s)

/-- A bound on the passes of a loop that reads at least a bit in each: the bits of the packet. -/
def passes : LatmM Nat := fun s => (.ok (s.bs.data.length * 8 + 1), s)

end LatmM

open LatmM

/-! ## The configuration -/

/-- The loop of `latm_get_value`, with `n` bytes to go. -/
def getValueLoop (value : Nat) : Nat → LatmM Nat
  | 0 => pure value
  | n + 1 => do
      let byte ← readBits 8
      getValueLoop (value <<< 8 ||| byte) n

/-- `latm_get_value`. -/
def latmGetValue : LatmM Nat := do
  let bytesForValue ← readBits 2
  getValueLoop 0 (bytesForValue + 1)

def sampleRateTable : List Nat :=
  [96000, 88200, 64000, 48000, 44100, 32000, 24000, 22050, 16000, 12000, 11025, 8000, 7350]

/-- `audioObjectType`, which an escape value extends. -/
def readObjectType : LatmM Nat := do
  let audioObjectType ← readBits 5
  if audioObjectType = 31 then do
    let ext ← readBits 6
    pure (32 + ext)
  else pure audioObjectType

/-- `GASpecificConfig`. -/
def parseGaSpecificConfig : LatmM Unit := do
  let frameLengthFlag ← readBit
  setConfig fun c => { c with frameLengthFlag := frameLengthFlag }
  let dependsOnCoreCoder ← readBit
  onlyIf (dependsOnCoreCoder ≠ 0) (skipBits 14)
  let _ ← readBit

/-- `samplingFrequencyIndex`, with the rate itself behind an escape value. -/
def parseSampleRate : LatmM Unit := do
  let sfIndex ← readBits 4
  if sfIndex = 0x0F then do
    let rate ← readBits 24
    setConfig fun c => { c with sampleRate := rate }
  else if sfIndex < 13 then
    setConfig fun c => { c with sampleRate := sampleRateTable.getD sfIndex 0 }
  else fail .unsupportedConfig

/-- `parse_audio_specific_config`. -/
def parseAudioSpecificConfig : LatmM Unit := do
  let audioObjectType ← readObjectType
  setConfig fun c => { c with objectType := audioObjectType }
  parseSampleRate
  let channelConfig ← readBits 4
  setConfig fun c => { c with channelConfig := channelConfig }
  onlyIf (audioObjectType = 2) parseGaSpecificConfig
  setConfig fun c => { c with configValid := true }

/-- The configuration of the only layer, which version 1 gives a length. -/
def parseLayerConfig : LatmM Unit := do
  let p ← getParser
  if p.audioMuxVersion = 0 then parseAudioSpecificConfig
  else do
    let ascLen ← latmGetValue
    let ascStart ← getBitPos
    parseAudioSpecificConfig
    let ascEnd ← getBitPos
    let ascRead := (ascEnd + 2 ^ 32 - ascStart) % 2 ^ 32
    onlyIf (ascRead < ascLen) (skipBits (ascLen - ascRead))

/-- `frameLengthType` and what follows it. -/
def parseFrameLengthType : LatmM Unit := do
  let frameLengthType ← readBits 3
  setParser fun p => { p with frameLengthType := frameLengthType }
  if frameLengthType = 0 then do
    let _ ← readBits 8
  else if frameLengthType = 1 then do
    let frameLength ← readBits 9
    setParser fun p => { p with frameLength := frameLength }
  else fail .unsupportedConfig

/-- `otherDataLenEsc`: bytes to skip, each with a bit that says whether another follows. -/
def skipOtherData : Nat → LatmM Unit
  | 0 => pure ()
  | fuel + 1 => do
      let esc ← readBit
      skipBits 8
      onlyIf (esc ≠ 0) (skipOtherData fuel)

/-- The length of the other data, which version 1 gives as a value. -/
def parseOtherData : LatmM Unit := do
  let p ← getParser
  if p.audioMuxVersion = 1 then do
    let _ ← latmGetValue
  else do
    let n ← passes
    skipOtherData n

/-- `otherDataPresent` and `crcCheckPresent`. -/
def parseTrailer : LatmM Unit := do
  let otherDataPresent ← readBit
  onlyIf (otherDataPresent ≠ 0) parseOtherData
  let crcCheckPresent ← readBit
  onlyIf (crcCheckPresent ≠ 0) (skipBits 8)

/-- `audioMuxVersionA`, which version 0 does not have. -/
def readMuxVersionA (audioMuxVersion : Nat) : LatmM Nat := if audioMuxVersion = 1 then readBit else pure 0

/-- `audioMuxVersion`: a version from the future is refused. -/
def parseMuxVersion : LatmM Unit := do
  let audioMuxVersion ← readBit
  setParser fun p => { p with audioMuxVersion := audioMuxVersion }
  let audioMuxVersionA ← readMuxVersionA audioMuxVersion
  refuseIf (audioMuxVersionA ≠ 0)
  onlyIf (audioMuxVersion = 1) do
    let _ ← latmGetValue

/-- The numbers of sub-frames, programs and layers: one program with one layer is all that is supported. -/
def parseCounts : LatmM Unit := do
  let allStreamsSameTime ← readBit
  setParser fun p => { p with allStreamsSameTime := allStreamsSameTime }
  let numSubFrames ← readBits 6
  setParser fun p => { p with numSubFrames := numSubFrames + 1 }
  let numProgram ← readBits 4
  setParser fun p => { p with numProgram := numProgram + 1 }
  refuseIf (numProgram + 1 ≠ 1)
  let numLayer ← readBits 3
  setParser fun p => { p with numLayer := numLayer + 1 }
  refuseIf (numLayer + 1 ≠ 1)

/-- `parse_stream_mux_config`. -/
def parseStreamMuxConfig : LatmM Unit := do
  parseMuxVersion
  parseCounts
  parseLayerConfig
  parseFrameLengthType
  parseTrailer
  setParser fun p => { p with configParsed := true }

/-! ## The payload -/

/-- The loop of `parse_payload_length_info`. -/
def payloadLengthLoop (length : Nat) : Nat → LatmM Nat
  | 0 => pure length
  | fuel + 1 => do
      let tmp ← readBits 8
      let length := (length + tmp) % 2 ^ 32
      if tmp = 255 then payloadLengthLoop length fuel else pure length

/-- `parse_payload_length_info`. -/
def parsePayloadLengthInfo : LatmM Nat := do
  let n ← passes
  payloadLengthLoop 0 n

/-- The length of one sub-frame: a mode that is not supported leaves the one before. -/
def subFrameLen (aacFrameLen : Nat) : LatmM Nat := do
  let p ← getParser
  if p.frameLengthType = 0 then parsePayloadLengthInfo
  else if p.frameLengthType = 1 then pure p.frameLength
  else pure aacFrameLen

/-- The loop over the sub-frames: the last of their lengths. -/
def payloadMux (aacFrameLen : Nat) : Nat → LatmM Nat
  | 0 => pure aacFrameLen
  | n + 1 => do
      let len ← subFrameLen aacFrameLen
      payloadMux len n

/-- The configuration of a packet: its own, or the stored one. -/
def muxConfig (useSameStreamMux : Nat) : LatmM Unit := do
  let p ← getParser
  if useSameStreamMux = 0 then parseStreamMuxConfig else refuseIf (p.configParsed = false)

/-- The multiplex element up to the payload: its position and length. -/
def muxHeader : LatmM (Nat × Nat) := do
  let useSameStreamMux ← readBit
  setParser fun p => { p with useSameStreamMux := useSameStreamMux ≠ 0 }
  muxConfig useSameStreamMux
  let p ← getParser
  let aacFrameLen ← payloadMux 0 p.numSubFrames
  let frameBitOffset ← getBitPos
  pure (frameBitOffset, aacFrameLen)

/-- Byte `i` of a payload that starts at bit `offset`, off a byte boundary. -/
def shiftedByte (data : List UInt8) (offset i : Nat) : UInt8 :=
  let srcByte := offset / 8 + i
  let high := data.getD srcByte 0 <<< .ofNat (offset % 8)
  if srcByte + 1 < data.length then high ||| data.getD (srcByte + 1) 0 >>> .ofNat (8 - offset % 8) else high

/-- The `len` bytes from bit `offset`. -/
def extractAac (data : List UInt8) (offset len : Nat) : List UInt8 :=
  if offset % 8 = 0 then (data.drop (offset / 8)).take len
  else (List.range len).map (shiftedByte data offset)

/-- `latm_frame_info_t`. -/
structure LatmFrameInfo where
  frameLengthBits : Nat
  frameLengthBytes : Nat
  bitOffset : Nat
  isByteAligned : Bool
  deriving DecidableEq, Repr

/-- What a call leaves: the bytes put in `aac_out` or an error, the parser, the frame info once it is filled in, and the
reader. -/
structure LatmOutcome where
  result : Except LatmError (List UInt8)
  parser : LatmParser
  info : Option LatmFrameInfo
  bs : Bitstream

/-- The checks after the header, and the extraction. -/
def extractFrame (data : List UInt8) (aacOutSize offset len : Nat) : Except LatmError (List UInt8) :=
  if aacOutSize < len then .error .bufferTooSmall
  else if data.length < (offset / 8 + len) % 2 ^ 32 then .error .notEnoughData
  else .ok (extractAac data offset len)

def bsInit (data : List UInt8) : Bitstream := ⟨data, 0, []⟩

/-- `latm_parse_frame`. -/
def latmParseFrame (parser : LatmParser) (data : List UInt8) (aacOutSize : Nat) : LatmOutcome :=
  if data.length < 2 then ⟨.error .notEnoughData, parser, none, bsInit data⟩
  else
    match muxHeader ⟨parser, bsInit data⟩ with
    | (.error e, s) => ⟨.error e, s.parser, none, s.bs⟩
    | (.ok (offset, len), s) =>
        ⟨extractFrame data aacOutSize offset len, s.parser,
          some ⟨len * 8 % 2 ^ 32, len, offset, decide (offset % 8 = 0)⟩, s.bs⟩

end EspIdf.A2dp
