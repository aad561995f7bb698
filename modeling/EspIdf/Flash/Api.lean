import EspIdf.Lib.Calls
import Mathlib.Algebra.GroupWithZero.Nat

/-!
# `esp_flash_api.c`: read, write, erase and encrypted write

* `Call` : the calls to the hooks of the OS, to the host's cache flush and to the chip's driver;
* `Chip`, `Config`, `Place` : what a function is given besides its request;
* `espFlashRead`, `espFlashWrite`, `espFlashEraseRegion`, `espFlashWriteEncrypted` : the functions, for a chip
  that is initialised and a driver that has their operations; the debugging checks of writes are off;
* `pieceLoop` : the loop that a write and an erase share.
-/

namespace EspIdf.Flash

open Calls

abbrev EspErr := Int

def ESP_OK : EspErr := 0
def ESP_ERR_NO_MEM : EspErr := 0x101
def ESP_ERR_INVALID_ARG : EspErr := 0x102
def ESP_ERR_INVALID_SIZE : EspErr := 0x104
def ESP_ERR_NOT_SUPPORTED : EspErr := 0x106
def ESP_ERR_NOT_ALLOWED : EspErr := 0x10D
def ESP_ERR_FLASH_NOT_INITIALISED : EspErr := 0x6003
def ESP_ERR_FLASH_PROTECTED : EspErr := 0x6006

inductive Call
  | start
  | finish
  | yield
  | getProtectedRegions
  | read (address length : Nat)
  | write (address : Nat) (data : List UInt8)
  | eraseSector (address : Nat)
  | eraseBlock (address : Nat)
  | writeEncrypted (address : Nat) (data : List UInt8)
  | flushCache (address length : Nat)
deriving Repr, DecidableEq

abbrev Api := Prog Call EspErr

structure Region where
  offset : UInt32
  size : UInt32
deriving Repr, DecidableEq

/-- A chip with its driver and the hooks of its OS: `start`, `end` and the cache flush are there, the others may be. -/
structure Chip where
  size : UInt32
  sectorSize : UInt32
  blockEraseSize : UInt32
  /-- The driver has a `yield`. -/
  yields : Bool
  regionProtected : Option (UInt32 → UInt32 → EspErr)
  /-- The driver has a `get_protected_regions`. -/
  readsProtection : Bool
  protectableRegions : List Region
  /-- `num_protectable_regions` is below 64. -/
  fewRegions : protectableRegions.length ≤ 63
  /-- The bits that `get_protected_regions` gives. -/
  protectedMask : Nat
  /-- It is `esp_flash_default_chip`. -/
  isDefault : Bool

/-- The rows of an encrypted write: on the ESP32 with what the cache shows next to a range that begins or ends within
a row, on later targets with a largest row of 64 octets or of 32. -/
inductive Target
  | esp32 (preBuf postBuf : List UInt8)
  | xts (blockMax64 : Bool)

structure Config where
  maxReadChunk : Nat
  readChunk_pos : 0 < maxReadChunk
  maxWriteChunk : Nat
  writeChunk_pos : 0 < maxWriteChunk
  bypassBlockErase : Bool
  target : Target

/-- `MAX_READ_CHUNK`, and the options as they stand by default. -/
def Config.default : Config := ⟨16384, by decide, 8192, by decide, false, .xts true⟩

/-- A temporary buffer for a read. -/
structure TempBuffer where
  actualLen : Nat
  pos : 0 < actualLen

/-- Where a read may put its octets: into the caller's buffer at once, or into a temporary one, if there is one. -/
inductive Place
  | direct
  | bounce (temp : Option TempBuffer)

/-- The memory from a pointer on. -/
abbrev Mem := Nat → UInt8

def octets (mem : Mem) (offset n : Nat) : List UInt8 := (List.range n).map fun i => mem (offset + i)

/-- `n` octets of `src` are put at `offset`. -/
def store (mem : Mem) (offset n : Nat) (src : Mem) : Mem := fun i =>
  if offset ≤ i ∧ i < offset + n then src (i - offset) else mem i

/-! ## The bus -/

/-- `spiflash_end_default`: an earlier error is the one that is returned. -/
def spiflashEnd (err : EspErr) : Api EspErr := do
  let endErr ← call .finish
  return if err = ESP_OK then endErr else err

/-- `flash_end_flush_cache` -/
def flashEndFlushCache (err : EspErr) (busAcquired : Bool) (address length : Nat) : Api EspErr := do
  let acquireErr ← if busAcquired then pure ESP_OK else call .start
  if acquireErr ≠ ESP_OK then
    return if err = ESP_OK then acquireErr else err
  else
    let flushErr ← call (.flushCache address length)
    spiflashEnd (if err = ESP_OK then flushErr else err)

/-- `CHECK_WRITE_ADDRESS`: the error that the function is left with; no option makes it abort. -/
def checkWriteAddress (chip : Chip) (address size : UInt32) : Option EspErr :=
  match chip.regionProtected with
  | none => none
  | some regionProtected =>
    let ret := regionProtected address size
    if ret = ESP_ERR_NOT_ALLOWED then some ret
    else if ret ≠ ESP_OK then some ESP_ERR_INVALID_ARG
    else none

/-! ## Reads -/

section read
variable (flash : Mem)

/-- The loop of `esp_flash_read`: `offset` octets are in the caller's buffer, directly or by way of the temporary
one. -/
def readLoop (readChunkSize : Nat) : (fuel : Nat) → (address length offset : Nat) → Mem → Api (EspErr × Mem)
  | 0, _, _, _, mem => return (ESP_OK, mem)
  | fuel + 1, address, length, offset, mem => do
    let err ← call .start
    if err ≠ ESP_OK then return (err, mem)
    else
      let lengthToRead := min readChunkSize length
      let err ← call (.read address lengthToRead)
      if err ≠ ESP_OK then
        let _ ← spiflashEnd err
        return (err, mem)
      else
        let err ← spiflashEnd err
        let mem := store mem offset lengthToRead fun i => flash (address + i)
        if err = ESP_OK ∧ length - lengthToRead > 0 then
          readLoop readChunkSize fuel ((address + lengthToRead) % 2 ^ 32) (length - lengthToRead)
            (offset + lengthToRead) mem
        else return (err, mem)

/-- `esp_flash_read`, with the caller's buffer as it leaves it; `flash` is what the driver reads. -/
def espFlashRead (cfg : Config) (chip : Chip) (place : Place) (buffer : Option Mem) (address length : UInt32) :
    Api (EspErr × Option Mem) :=
  match buffer with
  | none => return (ESP_ERR_INVALID_ARG, none)
  | some mem =>
    if address > chip.size ∨ address + length > chip.size then return (ESP_ERR_INVALID_ARG, buffer)
    else if length = 0 then return (ESP_OK, buffer)
    else
      let run (readChunkSize : Nat) : Api (EspErr × Option Mem) := do
        let out ← readLoop flash readChunkSize length.toNat address.toNat length.toNat 0 mem
        return (out.1, some out.2)
      match place with
      | .direct => run (min cfg.maxReadChunk length.toNat)
      | .bounce (some temp) => run temp.actualLen
      | .bounce none => return (ESP_ERR_NO_MEM, buffer)

end read

/-! ## Writes and erases -/

/-- The next piece: the call to the driver, and its length. -/
structure NextPiece where
  call : Call
  len : Nat

/-- How the loop of a write or of an erase is left. -/
inductive Exit
  | returned (err : EspErr)
  | tail (err : EspErr) (busAcquired : Bool)
deriving Repr, DecidableEq

/-- The loop of `esp_flash_write` and of `esp_flash_erase_region`: `next` is given the address, the octets that are
done and those that remain. -/
def pieceLoop (chip : Chip) (next : Nat → Nat → Nat → NextPiece) :
    (fuel : Nat) → (address done remain : Nat) → Api Exit
  | 0, _, _, _ => return .tail ESP_OK false
  | fuel + 1, address, done, remain => do
    let err ← if chip.yields then call .yield else pure ESP_OK
    if err ≠ ESP_OK then return .returned err
    else
      let err ← call .start
      if err ≠ ESP_OK then return .tail err false
      else
        let piece := next address done remain
        let err ← call piece.call
        if err ≠ ESP_OK ∨ remain - piece.len = 0 then return .tail err true
        else
          let err ← spiflashEnd ESP_OK
          -- `bus_acquired` is cleared behind this test
          if err ≠ ESP_OK then return .tail err true
          else pieceLoop chip next fuel ((address + piece.len) % 2 ^ 32) (done + piece.len) (remain - piece.len)

/-- The next piece of a write: a chunk of the caller's buffer, or what fits in the 32 octets on the stack. -/
def writePiece (cfg : Config) (direct : Bool) (mem : Mem) (address done remain : Nat) : NextPiece :=
  let writeLen := min remain (if direct then cfg.maxWriteChunk else 32)
  ⟨.write address (octets mem done writeLen), writeLen⟩

/-- The loop of `esp_flash_write`, and what is behind it: at `restore_cache` the error of the loop is returned,
whatever the flush gives. -/
def writeRange (cfg : Config) (chip : Chip) (direct : Bool) (mem : Mem) (address length : Nat) : Api EspErr := do
  let out ← pieceLoop chip (writePiece cfg direct mem) length address 0 length
  match out with
  | .returned err => return err
  | .tail err busAcquired =>
    let ret ← flashEndFlushCache err busAcquired address length
    return if err = ESP_OK then ret else err

/-- `esp_flash_write` -/
def espFlashWrite (cfg : Config) (chip : Chip) (direct : Bool) (buffer : Option Mem) (address length : UInt32) :
    Api EspErr :=
  match checkWriteAddress chip address length with
  | some err => return err
  | none =>
    match buffer with
    | none => return ESP_ERR_INVALID_ARG
    | some mem =>
      if address > chip.size ∨ length > chip.size - address then return ESP_ERR_INVALID_ARG
      else if length = 0 then return ESP_OK
      else writeRange cfg chip direct mem address.toNat length.toNat

def regionsOverlap (aStart aLen bStart bLen : UInt32) : Bool :=
  aStart + aLen > bStart && bStart + bLen > aStart

/-- The loop over the regions that can be protected. -/
def meetsProtected (chip : Chip) (start len : UInt32) : Bool :=
  chip.protectableRegions.zipIdx.any fun r =>
    chip.protectedMask.testBit r.2 && regionsOverlap start len r.1.offset r.1.size

/-- The test for write protection in `esp_flash_erase_region`. -/
def checkProtected (chip : Chip) (start len : UInt32) : Api EspErr := do
  if chip.readsProtection ∧ chip.protectableRegions.length > 0 then
    let err ← call .start
    if err ≠ ESP_OK then return err
    else
      let err ← call .getProtectedRegions
      spiflashEnd (if err = ESP_OK ∧ meetsProtected chip start len then ESP_ERR_FLASH_PROTECTED else err)
  else return ESP_OK

/-- The next piece of an erase: a block where one begins and is wanted as a whole, else a sector. -/
def erasePiece (cfg : Config) (chip : Chip) (address _done remain : Nat) : NextPiece :=
  let blockEraseSize := chip.blockEraseSize.toNat
  if cfg.bypassBlockErase = false ∧ blockEraseSize > 0 ∧ remain ≥ blockEraseSize ∧ address % blockEraseSize = 0 then
    ⟨.eraseBlock address, blockEraseSize⟩
  else ⟨.eraseSector address, chip.sectorSize.toNat⟩

/-- The loop of `esp_flash_erase_region`, and what is behind it. -/
def eraseRange (cfg : Config) (chip : Chip) (start len : Nat) : Api EspErr := do
  let out ← pieceLoop chip (erasePiece cfg chip) len start 0 len
  match out with
  | .returned err => return err
  | .tail err busAcquired => flashEndFlushCache err busAcquired start len

/-- `esp_flash_erase_region` -/
def espFlashEraseRegion (cfg : Config) (chip : Chip) (start len : UInt32) : Api EspErr :=
  match checkWriteAddress chip start len with
  | some err => return err
  | none =>
    if chip.sectorSize = 0 ∨ chip.blockEraseSize % chip.sectorSize ≠ 0 then return ESP_ERR_FLASH_NOT_INITIALISED
    else if start > chip.size ∨ len > chip.size - start then return ESP_ERR_INVALID_ARG
    else if start % chip.sectorSize ≠ 0 ∨ len % chip.sectorSize ≠ 0 then return ESP_ERR_INVALID_ARG
    else if len = 0 then return ESP_OK
    else do
      let err ← checkProtected chip start len
      if err ≠ ESP_OK then return err else eraseRange cfg chip start.toNat len.toNat

/-! ## Encrypted writes -/

/-- A row: its address and data, and how far it takes the write. -/
structure Row where
  address : Nat
  data : List UInt8
  rowSizeLength : Nat

/-- The row behind `i` octets. -/
def nextRow (target : Target) (mem : Mem) (address length i : Nat) : Row :=
  let rowAddr := (address + i) % 2 ^ 32
  match target with
  | .esp32 preBuf postBuf =>
    if i = 0 ∧ rowAddr % 32 ≠ 0 then ⟨rowAddr - 16, preBuf ++ octets mem i 16, 16⟩
    else if length - i = 16 then ⟨rowAddr, octets mem i 16 ++ postBuf, 16⟩
    else ⟨rowAddr, octets mem i 32, 32⟩
  | .xts blockMax64 =>
    let rowSize :=
      if rowAddr % 64 = 0 ∧ length - i ≥ 64 ∧ blockMax64 then 64
      else if rowAddr % 32 = 0 ∧ length - i ≥ 32 then 32
      else 16
    ⟨rowAddr, octets mem i rowSize, rowSize⟩

/-- The loop over the rows: the error with which it goes to `restore_cache`, or `ESP_OK`. -/
def rowLoop (lockOnce : Bool) (row : Nat → Row) (length : Nat) : (fuel : Nat) → (i : Nat) → Api EspErr
  | 0, _ => return ESP_OK
  | fuel + 1, i => do
    if i < length then
      let err ← if lockOnce then pure ESP_OK else call .start
      if err ≠ ESP_OK then return err
      else
        let err ← call (.writeEncrypted (row i).address (row i).data)
        if err ≠ ESP_OK then return err
        else
          let err ← if lockOnce then pure ESP_OK else spiflashEnd ESP_OK
          if err ≠ ESP_OK then return err
          else rowLoop lockOnce row length fuel (i + (row i).rowSizeLength)
    else return ESP_OK

/-- `restore_cache` of `esp_flash_write_encrypted`: the bus is released first, whether it is held or not. -/
def restoreCache (err : EspErr) (address length : Nat) : Api EspErr := do
  let _ ← spiflashEnd ESP_OK
  let _ ← flashEndFlushCache err false address length
  return err

/-- The rows of `esp_flash_write_encrypted`, and what is behind them. -/
def writeRows (lockOnce : Bool) (row : Nat → Row) (address length : Nat) : Api EspErr := do
  let err ← if lockOnce then call .start else pure ESP_OK
  if err ≠ ESP_OK then return err
  else
    let err ← rowLoop lockOnce row length length 0
    if err ≠ ESP_OK then restoreCache err address length
    else
      let err ← if lockOnce then spiflashEnd ESP_OK else pure ESP_OK
      if err ≠ ESP_OK then restoreCache err address length
      else flashEndFlushCache err false address length

/-- `esp_flash_write_encrypted` -/
def espFlashWriteEncrypted (cfg : Config) (chip : Chip) (lockOnce : Bool) (address : UInt32) (buffer : Option Mem)
    (length : UInt32) : Api EspErr :=
  if !chip.isDefault then return ESP_ERR_NOT_SUPPORTED
  else
    match checkWriteAddress chip address length with
    | some err => return err
    | none =>
      match buffer with
      | none => return ESP_ERR_INVALID_ARG
      | some mem =>
        if address > chip.size ∨ length > chip.size - address then return ESP_ERR_INVALID_ARG
        else if address % 16 ≠ 0 then return ESP_ERR_INVALID_ARG
        else if length = 0 then return ESP_OK
        else if length % 16 ≠ 0 then return ESP_ERR_INVALID_SIZE
        else writeRows lockOnce (nextRow cfg.target mem address.toNat length.toNat) address.toNat length.toNat

end EspIdf.Flash
