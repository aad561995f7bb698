import EspIdf.BleLog.Checksum

/-!
# Log frames

* `frameHead`, `le32` : the head and the tail of a frame, low bytes first;
* `Frame`, `Frame.bytes` : a frame and its bytes;
* `parse` : what the receiver makes of a buffer;
* `Encodes`, `parse_of_encodes` : a buffer that is frame after frame is read back as these frames.
-/

namespace EspIdf.BleLog

/-! ## Bytes -/

def le16 (value : BitVec 16) : List Byte := [value.extractLsb' 0 8, value.extractLsb' 8 8]

def le32 (value : BitVec 32) : List Byte :=
  [value.extractLsb' 0 8, value.extractLsb' 8 8, value.extractLsb' 16 8, value.extractLsb' 24 8]

/-- `BLE_LOG_MAKE_FRAME_META`. -/
def makeFrameMeta (src : Byte) (sn : BitVec 32) : BitVec 32 := src.setWidth 32 &&& 0xFF#32 ||| sn <<< 8

/-- `ble_log_frame_head_t`, packed. -/
def frameHead (length : BitVec 16) (frameMeta : BitVec 32) : List Byte := le16 length ++ le32 frameMeta

/-- `BLE_LOG_FRAME_HEAD_LEN`. -/
def frameHeadLen : Nat := 6

/-- `BLE_LOG_FRAME_TAIL_LEN`. -/
def frameTailLen : Nat := 4

/-- `BLE_LOG_FRAME_OVERHEAD`. -/
def frameOverhead : Nat := frameHeadLen + frameTailLen

/-! ## Frames -/

structure Frame where
  src : Byte
  sn : BitVec 24
  payload : List Byte
deriving DecidableEq

namespace Frame

def head (frame : Frame) : List Byte := frameHead (.ofNat 16 frame.payload.length) (frame.sn ++ frame.src)

def bytes (frame : Frame) : List Byte :=
  frame.head ++ frame.payload ++ le32 (checksumOf (frame.head ++ frame.payload))

/-- The source and the payload. -/
def record (frame : Frame) : Byte × List Byte := (frame.src, frame.payload)

end Frame

/-- One frame, if its length fits and its checksum is right, and what follows it. -/
def parseFrame : List Byte → Option (Frame × List Byte)
  | l0 :: l1 :: m0 :: m1 :: m2 :: m3 :: rest =>
    let length := (l1 ++ l0 : BitVec 16).toNat
    let payload := rest.take length
    if payload.length < length then none
    else
      match rest.drop length with
      | c0 :: c1 :: c2 :: c3 :: rest =>
        if (c3 ++ c2 ++ c1 ++ c0 : BitVec 32) = checksumOf (l0 :: l1 :: m0 :: m1 :: m2 :: m3 :: payload) then
          some ({ src := m0, sn := m3 ++ m2 ++ m1, payload := payload }, rest)
        else none
      | _ => none
  | _ => none

/-- At most `fuel` frames, with nothing left over. -/
def parseFrames : Nat → List Byte → Option (List Frame)
  | _, [] => some []
  | 0, _ :: _ => none
  | fuel + 1, bytes =>
    match parseFrame bytes with
    | some (frame, rest) => (parseFrames fuel rest).map (frame :: ·)
    | none => none

/-- A frame has more than one byte, so there are no more frames than bytes. -/
def parse (bytes : List Byte) : Option (List Frame) := parseFrames bytes.length bytes

/-- The bytes are these frames, one after the other. -/
structure Encodes (bytes : List Byte) (frames : List Frame) : Prop where
  bytes_eq : bytes = frames.flatMap Frame.bytes
  short : ∀ frame ∈ frames, frame.payload.length < 2 ^ 16

/-- The sources and payloads in a buffer. -/
def records (bytes : List Byte) : List (Byte × List Byte) := ((parse bytes).getD []).map Frame.record

/-- The payloads in a buffer, put together. -/
def payloads (bytes : List Byte) : List Byte := ((parse bytes).getD []).flatMap Frame.payload

/-! ## Reading back -/

@[simp] theorem length_le16 (value : BitVec 16) : (le16 value).length = 2 := rfl

@[simp] theorem length_le32 (value : BitVec 32) : (le32 value).length = 4 := rfl

@[simp] theorem length_frameHead (length : BitVec 16) (frameMeta : BitVec 32) :
    (frameHead length frameMeta).length = frameHeadLen := rfl

theorem length_bytes (frame : Frame) : frame.bytes.length = frame.payload.length + frameOverhead := by
  simp [Frame.bytes, Frame.head, frameOverhead, frameTailLen]
  omega

theorem makeFrameMeta_eq (src : Byte) (sn : BitVec 32) : makeFrameMeta src sn = (sn.setWidth 24 ++ src : BitVec 32) := by
  apply BitVec.eq_of_getLsbD_eq
  intro i hi
  have mask : 0xFF#32 = (BitVec.allOnes 8).setWidth 32 := by decide
  rw [makeFrameMeta, mask, BitVec.getLsbD_append]
  simp only [BitVec.getLsbD_or, BitVec.getLsbD_and, BitVec.getLsbD_setWidth, BitVec.getLsbD_allOnes,
    BitVec.getLsbD_shiftLeft]
  by_cases low : i < 8
  · simp [hi, low]
  · have short : i - 8 < 24 := by omega
    simp [hi, low, short]

theorem parseFrame_bytes {frame : Frame} (short : frame.payload.length < 2 ^ 16) (rest : List Byte) :
    parseFrame (frame.bytes ++ rest) = some (frame, rest) := by
  have length : (BitVec.ofNat 16 frame.payload.length).toNat = frame.payload.length := by
    rw [BitVec.toNat_ofNat, Nat.mod_eq_of_lt short]
  have src : (frame.sn ++ frame.src : BitVec 32).extractLsb' 0 8 = frame.src := BitField.extract_append_low _ _
  have sn : ((frame.sn ++ frame.src : BitVec 32).extractLsb' 24 8 ++ (frame.sn ++ frame.src : BitVec 32).extractLsb' 16 8 ++
      (frame.sn ++ frame.src : BitVec 32).extractLsb' 8 8 : BitVec 24) = frame.sn := by
    apply BitVec.eq_of_getLsbD_eq
    intro i hi
    simp only [BitVec.getLsbD_append, BitVec.getLsbD_extractLsb']
    grind
  have taken (tail : List Byte) : (frame.payload ++ tail).take frame.payload.length = frame.payload := by simp
  have left (tail : List Byte) : (frame.payload ++ tail).drop frame.payload.length = tail := by simp
  simp only [Frame.bytes, Frame.head, frameHead, le16, le32, List.cons_append, List.nil_append, List.append_assoc,
    parseFrame, BitField.append_extract16, BitField.append_extract32, length, taken, left, src, sn]
  simp

theorem parseFrames_of_encodes (frames : List Frame) (short : ∀ frame ∈ frames, frame.payload.length < 2 ^ 16) {fuel : Nat}
    (enough : frames.length ≤ fuel) : parseFrames fuel (frames.flatMap Frame.bytes) = some frames := by
  induction frames generalizing fuel with
  | nil => simp [parseFrames]
  | cons frame frames ih =>
    obtain ⟨fuel, rfl⟩ : ∃ n, fuel = n + 1 := ⟨fuel - 1, by simp at enough; omega⟩
    have first := parseFrame_bytes (short frame (by simp)) (frames.flatMap Frame.bytes)
    have rest : parseFrames fuel (frames.flatMap Frame.bytes) = some frames :=
      ih (fun frame mem => short frame (by simp [mem])) (by simpa using enough)
    obtain ⟨byte, bytes, shape⟩ : ∃ byte bytes, frame.bytes ++ frames.flatMap Frame.bytes = byte :: bytes := ⟨_, _, rfl⟩
    rw [List.flatMap_cons, shape, parseFrames, ← shape, first]
    · simp [rest]
    · exact fun empty => nomatch empty

theorem length_flatMap_bytes (frames : List Frame) : frames.length ≤ (frames.flatMap Frame.bytes).length := by
  induction frames with
  | nil => simp
  | cons frame frames ih =>
    have := length_bytes frame
    simp only [List.flatMap_cons, List.length_append, List.length_cons, frameOverhead, frameHeadLen] at *
    omega

section encodes
variable {bytes : List Byte} {frames : List Frame}

theorem parse_of_encodes (h : Encodes bytes frames) : parse bytes = some frames := by
  rw [parse, h.bytes_eq]
  exact parseFrames_of_encodes frames h.short (length_flatMap_bytes frames)

theorem encodes_nil : Encodes [] [] := ⟨rfl, fun _ mem => nomatch mem⟩

theorem Encodes.snoc (h : Encodes bytes frames) {frame : Frame} (short : frame.payload.length < 2 ^ 16) :
    Encodes (bytes ++ frame.bytes) (frames ++ [frame]) where
  bytes_eq := by simp [h.bytes_eq]
  short other mem := by
    rcases List.mem_append.mp mem with mem | mem
    · exact h.short other mem
    · rw [List.mem_singleton.mp mem]
      exact short

theorem records_of_encodes (h : Encodes bytes frames) : records bytes = frames.map Frame.record := by
  rw [records, parse_of_encodes h]
  rfl

theorem payloads_of_encodes (h : Encodes bytes frames) : payloads bytes = frames.flatMap Frame.payload := by
  rw [payloads, parse_of_encodes h]
  rfl

theorem encodes_single {frame : Frame} (short : frame.payload.length < 2 ^ 16) : Encodes frame.bytes [frame] := by
  simpa using encodes_nil.snoc short

end encodes

end EspIdf.BleLog
