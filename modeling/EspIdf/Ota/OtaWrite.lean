import EspIdf.Lib.NorFlash

/-!
# Writing an image: `esp_ota_write` and `esp_ota_end`

* `OtaOps` : an update in progress, with the bytes carried to the next 16-byte block under flash encryption;
* `otaWrite`, `otaEnd` : the calls of the application;
* `otaSession` : an image written in chunks.

Flash contents are as a decrypting read sees them.
-/

namespace EspIdf.Ota

open NorFlash

/-- The type of the partition the image is for. -/
inductive FinalType
  | app | bootloader | partitionTable | other
  deriving DecidableEq, Repr

/-- The staging partition of an update, and what the image is for. -/
structure Staging where
  address : Nat
  size : Nat
  final : FinalType
  flashEncryption : Bool
  address_dvd : 4096 ∣ address
  size_dvd : 4096 ∣ size

/-- `ota_ops_entry_t`. -/
structure OtaOps where
  needErase : Bool
  wroteSize : Nat
  partialBytes : Nat
  partialData : List UInt8
  deriving DecidableEq

inductive OtaWriteErr
  | invalidArg | invalidSize | invalidState
  /-- `ESP_ERR_OTA_VALIDATE_FAILED` of the first chunk. -/
  | badHeader
  /-- `ESP_ERR_OTA_VALIDATE_FAILED` of the complete image. -/
  | notVerified
  deriving DecidableEq, Repr

abbrev WriteProg := Prog OtaOps OtaWriteErr

/-- `esp_partition_erase_range`. -/
def partitionErase (p : Staging) (offset size : Nat) : WriteProg Unit :=
  if p.size < offset then Prog.fail .invalidArg
  else if p.size - offset < size then Prog.fail .invalidSize
  else if size % 4096 ≠ 0 then Prog.fail .invalidSize
  else if offset % 4096 ≠ 0 then Prog.fail .invalidArg
  else Prog.issue (.erase (p.address + offset) size)

/-- `esp_partition_write`. -/
def partitionWrite (p : Staging) (offset : Nat) (bytes : List UInt8) : WriteProg Unit :=
  if p.size < offset then Prog.fail .invalidArg
  else if p.size - offset < bytes.length then Prog.fail .invalidSize
  else if p.flashEncryption ∧ (p.address + offset) % 16 ≠ 0 then Prog.fail .invalidArg
  else if p.flashEncryption ∧ bytes.length % 16 ≠ 0 then Prog.fail .invalidSize
  else Prog.issue (.write (p.address + offset) bytes)

/-- The sequential erase before `size` bytes are written. -/
def eraseBefore (p : Staging) (wroteSize size : Nat) : WriteProg Unit :=
  let firstSector := wroteSize / 4096
  let lastSector := (wroteSize + size - 1) / 4096
  if wroteSize % 4096 = 0 then partitionErase p wroteSize ((lastSector - firstSector + 1) * 4096)
  else if firstSector ≠ lastSector then
    partitionErase p ((firstSector + 1) * 4096) ((lastSector - firstSector) * 4096)
  else pure ()

/-- Whether a first chunk may start an image. -/
def HeaderOk (final : FinalType) (data : List UInt8) : Prop :=
  match final with
  | .app | .bootloader => data.head? = some 0xE9
  | .partitionTable => 2 ≤ data.length → data.take 2 = [0xAA, 0x50]
  | .other => True

instance (final : FinalType) (data : List UInt8) : Decidable (HeaderOk final data) := by
  unfold HeaderOk
  cases final <;> infer_instance

/-- `memcpy` into a buffer. -/
def patch (buf : List UInt8) (at_ : Nat) (bytes : List UInt8) : List UInt8 :=
  buf.take at_ ++ bytes ++ buf.drop (at_ + bytes.length)

namespace OtaOps

variable (it : OtaOps) (data : List UInt8)

/-- `it->wrote_size += n`. -/
def advance (n : Nat) : OtaOps := { it with wroteSize := it.wroteSize + n }

/-- Save the trailing bytes of `data` that do not fill a block. -/
def saveTail : OtaOps where
  needErase := it.needErase
  wroteSize := it.wroteSize
  partialBytes := data.length % 16
  partialData :=
    if data.length % 16 ≠ 0 then patch it.partialData 0 (data.drop (data.length - data.length % 16))
    else it.partialData

/-- `copy_len`: the bytes of `data` that go into the block of carried ones. -/
def copyLen : Nat := min (16 - it.partialBytes) data.length

/-- Fill up the block of carried bytes. -/
def fillPartial : OtaOps where
  needErase := it.needErase
  wroteSize := it.wroteSize
  partialBytes := it.partialBytes + it.copyLen data
  partialData := patch it.partialData it.partialBytes (data.take (it.copyLen data))

/-- Empty the block of carried bytes. -/
def clearPartial : OtaOps := { it with partialBytes := 0, partialData := List.replicate 16 0xFF }

/-- Count the block of carried bytes as written. -/
def padded : OtaOps := { it with wroteSize := it.wroteSize + 16, partialBytes := 0 }

end OtaOps

/-- Write `data` at the end of what was written. -/
def appendBytes (p : Staging) (data : List UInt8) : WriteProg Unit := do
  let it ← Prog.getRam
  partitionWrite p it.wroteSize data
  Prog.modifyRam (·.advance data.length)

/-- Save the trailing bytes that do not fill a block, write the others. -/
def writeBlocks (p : Staging) (data : List UInt8) : WriteProg Unit := do
  Prog.modifyRam (·.saveTail data)
  appendBytes p (data.take (data.length - data.length % 16))

/-- Write the block of carried bytes when it is full. -/
def flushPartial (p : Staging) : WriteProg Unit := do
  let it ← Prog.getRam
  partitionWrite p it.wroteSize it.partialData
  Prog.modifyRam fun it => it.clearPartial.advance 16

/-- `esp_ota_write` under flash encryption. -/
def writeEncrypted (p : Staging) (data : List UInt8) : WriteProg Unit := do
  let it ← Prog.getRam
  if it.partialBytes ≠ 0 then
    Prog.modifyRam (·.fillPartial data)
    if it.partialBytes + it.copyLen data ≠ 16 then pure ()
    else
      flushPartial p
      writeBlocks p (data.drop (it.copyLen data))
  else writeBlocks p data

/-- `esp_ota_write`. -/
def otaWrite (p : Staging) (data : List UInt8) : WriteProg Unit := do
  if data = [] then pure ()
  else
    let it ← Prog.getRam
    if it.needErase then eraseBefore p it.wroteSize data.length else pure ()
    if (it.wroteSize = 0 ∧ it.partialBytes = 0) ∧ ¬HeaderOk p.final data then Prog.fail .badHeader
    else if p.flashEncryption then writeEncrypted p data
    else appendBytes p data

/-- `esp_ota_end`, with the result of the image verification. -/
def otaEnd (p : Staging) (verified : Bool) : WriteProg Unit := do
  let it ← Prog.getRam
  if it.wroteSize = 0 then Prog.fail .invalidArg
  else
    if 0 < it.partialBytes then
      (partitionWrite p it.wroteSize it.partialData).orFail .invalidState
      Prog.modifyRam (·.padded)
    else pure ()
    if verified then pure () else Prog.fail .notVerified

/-- The update `esp_ota_begin` starts for sequential writes. -/
def OtaOps.sequential : OtaOps where
  needErase := true
  wroteSize := 0
  partialBytes := 0
  partialData := List.replicate 16 0

def writeAll (p : Staging) : List (List UInt8) → WriteProg Unit
  | [] => pure ()
  | data :: chunks => do
      otaWrite p data
      writeAll p chunks

/-- An image written in chunks; the caller stops at the first error. -/
def otaSession (p : Staging) (chunks : List (List UInt8)) (verified : Bool) : WriteProg Unit := do
  writeAll p chunks
  otaEnd p verified

end EspIdf.Ota
