import EspIdf.Lib.Fallible
import EspIdf.Lib.Word32
import Mathlib.Tactic.Ring

/-!
# Reading an application image, `esp_image_format.c`

Built without secure boot and without anti-rollback.

* `Device` : the chip, its flash, and what the functions ask of both;
* `Metadata`, `Work` : `esp_image_metadata_t`, and the checksum, the hash, the RAM and the reads so far;
* `processSegmentData`, `processChunks`, `processSegment`, `processSegments` : the segments, a window of pages at a time;
* `processImageHeader`, `processChecksum`, `processAppendedHash` : what stands before and behind them;
* `imageLoad`, `espImageVerify`, `espImageGetMetadata` : the calls.
-/

namespace EspIdf.Image

open Word32 Fallible

/-! ## Devices -/

/-- `bootloader_flash_read` and `bootloader_mmap` succeed or fail, and give the bytes of the flash. -/
structure Flash where
  byte : Nat → UInt8
  readable : (address length : Nat) → Bool
  mappable : (address length : Nat) → Bool

def Flash.bytes (f : Flash) (a n : Nat) : List UInt8 := (List.range n).map fun i => f.byte ((a + i) % 2 ^ 32)

def Flash.word (f : Flash) (a : Nat) : UInt32 :=
  leWord (f.byte (a % 2 ^ 32)) (f.byte ((a + 1) % 2 ^ 32)) (f.byte ((a + 2) % 2 ^ 32)) (f.byte ((a + 3) % 2 ^ 32))

structure Device where
  flash : Flash
  /-- `CONFIG_IDF_TARGET_ESP32`. -/
  esp32 : Bool
  /-- `SOC_MMU_PAGE_SIZE_CONFIGURABLE`. -/
  pageSizeConfigurable : Bool
  /-- `SOC_SPI_MEM_SUPPORT_CACHE_32BIT_ADDR_MAP`. -/
  cache32BitAddrMap : Bool
  /-- `BOOTLOADER_BUILD`. -/
  bootloaderBuild : Bool
  /-- `SPI_FLASH_MMU_PAGE_SIZE`. -/
  pageSize : Nat
  /-- `bootloader_mmap_get_free_pages()`. -/
  freePages : Nat
  isBootloader : Nat → Bool
  shouldMap : Nat → Bool
  shouldLoad : Nat → Bool
  /-- `verify_load_addresses`. -/
  verifyLoadAddresses : (start stop : Nat) → Bool
  /-- `bootloader_common_check_chip_validity`. -/
  checkChipValidity : (header : List UInt8) → (bootloader : Bool) → Bool
  /-- `bootloader_common_check_efuse_blk_validity`. -/
  checkEfuseBlkValidity : (minRev maxRev : Nat) → Bool
  /-- `bootloader_fill_random`, as it ends the loop. -/
  random : UInt32 × UInt32
  /-- `bootloader_sha256_start` has memory. -/
  shaStarts : Bool
  /-- `esp_cpu_dbgr_is_attached()`. -/
  debuggerAttached : Bool
  sha256 : List UInt8 → List UInt8
  pageSize_pos : 0 < pageSize
  pageSize_dvd : 8 ∣ pageSize
  random_ne : random.1 ≠ 0 ∧ random.2 ≠ 0

/-- `ESP_IMAGE_MAX_FLASH_ADDR_SIZE`. -/
def Device.maxFlashAddrSize (d : Device) : Nat := if d.cache32BitAddrMap then 2 ^ 32 - 1 else 0x1000000

inductive EspErr where
  | fail
  | noMem
  | invalidArg
  | imageInvalid
deriving DecidableEq, Repr

/-- An error that is returned, or an access past an array, after which nothing is said of what happens. -/
inductive Fault where
  | err (code : EspErr)
  | undefined
deriving DecidableEq, Repr

/-- A read of the data of a segment of `dataLen` bytes, `length` bytes from `offset` on. -/
structure Read where
  offset : Nat
  length : Nat
  dataLen : Nat
deriving DecidableEq, Repr

/-- A function of the loader, with the reads of segment data that it makes. -/
abbrev Loader := Run Fault Read

def ensure (b : Bool) (code : EspErr) : Loader Unit := if b then pure () else .fail (.err code)

/-- `bootloader_flash_read`. -/
def Device.flashRead (d : Device) (a n : Nat) : Loader (List UInt8) :=
  if d.flash.readable a n then pure (d.flash.bytes a n) else .fail (.err .fail)

/-! ## Images -/

/-- `esp_partition_pos_t`. -/
structure PartitionPos where
  offset : Nat
  size : Nat
  offset_lt : offset < 2 ^ 32
  size_lt : size < 2 ^ 32

/-- `esp_image_segment_header_t`. -/
structure SegmentHeader where
  loadAddr : Nat
  dataLen : Nat
deriving DecidableEq, Repr

/-- `ESP_IMAGE_MAX_SEGMENTS`. -/
def maxSegments : Nat := 16

/-- `sizeof(esp_image_header_t)`. -/
def headerSize : Nat := 24

/-- `sizeof(esp_image_segment_header_t)`. -/
def segmentHeaderSize : Nat := 8

/-- `HASH_LEN`. -/
def hashLen : Nat := 32

/-- `ESP_APP_DESC_MAGIC_WORD`. -/
def appDescMagicWord : UInt32 := 0xABCD5432

/-- `esp_image_metadata_t`, with the bytes of the image header and as many segments as are written. -/
structure Metadata where
  startAddr : Nat
  image : List UInt8
  segments : List SegmentHeader
  segmentData : List Nat
  imageLen : Nat
  imageDigest : List UInt8
  mmuPageSize : Nat
deriving DecidableEq, Repr

namespace Metadata

def magic (m : Metadata) : UInt8 := m.image.getD 0 0

def segmentCount (m : Metadata) : Nat := (m.image.getD 1 0).toNat

def hashAppended (m : Metadata) : Bool := m.image.getD 23 0 != 0

end Metadata

/-- What the segments are processed into: `*checksum` and the bytes that `sha_handle` is fed, if they are there, the RAM
and `ram_obfs_value`. -/
structure Work where
  checksum : Option UInt32
  sha : Option (List UInt8)
  ram : Nat → UInt8
  obfs : UInt32 × UInt32

/-- The bytes stored from `a` on. -/
def store (ram : Nat → UInt8) (a : Nat) (bs : List UInt8) : Nat → UInt8 :=
  fun x => if sub32 x (a % 2 ^ 32) < bs.length then bs.getD (sub32 x (a % 2 ^ 32)) 0 else ram x

def readRam (ram : Nat → UInt8) (a : Nat) : UInt32 :=
  leWord (ram (a % 2 ^ 32)) (ram ((a + 1) % 2 ^ 32)) (ram ((a + 2) % 2 ^ 32)) (ram ((a + 3) % 2 ^ 32))

/-- `(i & 1) ? ram_obfs_value[0] : ram_obfs_value[1]`. -/
def obfuscation (obfs : UInt32 × UInt32) (i : Nat) : UInt32 := if i % 2 = 1 then obfs.1 else obfs.2

/-! ## Segments -/

/-- `process_segment_data_t`: a window of a segment of `segmentLen` bytes, `offset` bytes from its start. -/
structure SegmentData where
  segment : Nat
  loadAddr : Nat
  dataAddr : Nat
  dataLen : Nat
  doLoad : Bool
  isSegmentStart : Bool
  startAddr : Nat
  offset : Nat
  segmentLen : Nat

def SegmentData.read (s : SegmentData) (at' length : Nat) : Read := ⟨s.offset + at', length, s.segmentLen⟩

/-- `sha_handle != NULL && i % SHA_CHUNK == 0`, where `i` counts words. -/
def Work.hashes (w : Work) (i : Nat) : Bool := w.sha.isSome && 4 * i % 1024 == 0

/-- What one turn of the loop of `process_segment_data` makes of a word. -/
def addWord (d : Device) (s : SegmentData) (w : Work) (i : Nat) : Work :=
  let word := d.flash.word (s.dataAddr + 4 * i)
  { w with
    checksum := w.checksum.map (· ^^^ word)
    ram := if d.bootloaderBuild ∧ s.doLoad then
        store w.ram (s.loadAddr + 4 * i) (leBytes (word ^^^ obfuscation w.obfs i))
      else w.ram
    sha := if w.hashes i then w.sha.map (· ++ d.flash.bytes (s.dataAddr + 4 * i) (min 1024 (s.dataLen - 4 * i)))
      else w.sha }

/-- One turn of the loop of `process_segment_data`. -/
def processWord (d : Device) (s : SegmentData) (w : Work) (i : Nat) : Loader Work := do
  .tell [s.read (4 * i) 4]
  .tell (if w.hashes i then [s.read (4 * i) (min 1024 (s.dataLen - 4 * i))] else [])
  return addWord d s w i

/-- The random values are set where one is missing. -/
def setObfs (d : Device) (w : Work) : Work :=
  { w with obfs := if d.bootloaderBuild ∧ (w.obfs.1 = 0 ∨ w.obfs.2 = 0) then d.random else w.obfs }

/-- The first window of the first segment of an application. -/
def SegmentData.isAppDesc (d : Device) (s : SegmentData) : Bool :=
  s.segment == 0 && s.isSegmentStart && !d.isBootloader s.startAddr

/-- The check of `esp_app_desc_t`'s eFuse block revisions, at the offsets 176 and 178 of the structure. -/
def checkAppDesc (d : Device) (s : SegmentData) : Loader Unit :=
  if s.isAppDesc d && !d.esp32 then do
    let revs := d.flash.word (s.dataAddr + 176)
    .tell [s.read 176 4]
    ensure (d.checkEfuseBlkValidity (revs.toNat % 2 ^ 16) (revs.toNat / 2 ^ 16)) .fail
  else pure ()

/-- `process_segment_data`. -/
def processSegmentData (d : Device) (s : SegmentData) (w : Work) : Loader Work :=
  if s.doLoad = false ∧ w.checksum = none then pure w
  else do
    ensure (d.flash.mappable s.dataAddr s.dataLen) .fail
    if w.checksum = none ∧ w.sha = none then
      .tell [s.read 0 s.dataLen]
      return { w with ram := store w.ram s.loadAddr (d.flash.bytes s.dataAddr s.dataLen) }
    else
      checkAppDesc d s
      (List.range ((s.dataLen + 3) / 4)).foldlM (processWord d s) (setObfs d w)

/-- `max_image_len` at an address, or 0 where there is no page left. -/
def maxImageLen (d : Device) (dataAddr : Nat) : Nat :=
  let maxPages := d.freePages - (if dataAddr % d.pageSize ≠ 0 then 1 else 0)
  if maxPages * d.pageSize < 2 ^ 32 then maxPages * d.pageSize else 2 ^ 32 - 1

/-- The loop of `process_segment` with the windows that `maxLen` allows: `remain` bytes are left, and the fuel is as
much. -/
def processChunks (d : Device) (maxLen : Nat → Nat) (s : SegmentData) :
    (fuel : Nat) → (offset remain : Nat) → Work → Loader Work
  | 0, _, _, w => pure w
  | fuel + 1, offset, remain, w =>
    if remain = 0 then pure w
    else do
      let dataAddr := add32 s.dataAddr offset
      ensure (maxLen dataAddr != 0) .noMem
      let dataLen := min remain (maxLen dataAddr)
      let w ← processSegmentData d
        { s with
          loadAddr := add32 s.loadAddr offset
          dataAddr := dataAddr
          dataLen := dataLen
          isSegmentStart := offset == 0
          offset := offset } w
      processChunks d maxLen s fuel (offset + dataLen) (remain - dataLen) w

/-- The page size that `verify_segment_header` finds in `esp_app_desc_t`, at the offset 180 of the structure, or takes
for granted. -/
def findMmuPageSize (d : Device) (index : Nat) (segment : SegmentHeader) (dataAddr : Nat) (m : Metadata) :
    Loader Metadata :=
  if d.pageSizeConfigurable = false then pure { m with mmuPageSize := d.pageSize }
  else if index = 0 then
    if d.isBootloader m.startAddr then pure { m with mmuPageSize := d.pageSize }
    else do
      let _ ← d.flashRead dataAddr 4
      .tell [⟨0, 4, segment.dataLen⟩]
      let _ ← d.flashRead (add32 dataAddr 180) 4
      .tell [⟨180, 4, segment.dataLen⟩]
      ensure (d.flash.word dataAddr == appDescMagicWord) .fail
      let log := (d.flash.word (dataAddr + 180)).toNat % 2 ^ 8
      -- a RISC-V shift, by the low five bits
      return { m with mmuPageSize := if 0 < log then 2 ^ (log % 32) else d.pageSize }
  else pure m

/-- `verify_segment_header`. -/
def verifySegmentHeader (d : Device) (index : Nat) (segment : SegmentHeader) (dataAddr : Nat) (m : Metadata) :
    Loader Metadata := do
  ensure (segment.dataLen % 4 == 0 && decide (segment.dataLen < d.maxFlashAddrSize)) .imageInvalid
  let m ← findMmuPageSize d index segment dataAddr m
  ensure (!d.shouldMap segment.loadAddr || dataAddr % m.mmuPageSize == segment.loadAddr % m.mmuPageSize) .imageInvalid
  return m

/-- `esp_image_segment_header_t` as it stands in the flash. -/
def Flash.segmentHeader (f : Flash) (a : Nat) : SegmentHeader where
  loadAddr := (f.word a).toNat
  dataLen := (f.word (a + 4)).toNat

/-- `process_segment`. -/
def processSegment (d : Device) (maxLen : Nat → Nat) (index flashAddr : Nat) (doLoad : Bool) (m : Metadata) (w : Work) :
    Loader (SegmentHeader × Metadata × Work) := do
  let header ← d.flashRead flashAddr segmentHeaderSize
  let segment := d.flash.segmentHeader flashAddr
  let w := { w with sha := w.sha.map (· ++ header) }
  let dataAddr := add32 flashAddr segmentHeaderSize
  let m ← verifySegmentHeader d index segment dataAddr m
  let doLoad := doLoad && d.shouldLoad segment.loadAddr
  ensure (!d.bootloaderBuild || !doLoad || segment.dataLen == 0 ||
    d.verifyLoadAddresses segment.loadAddr (segment.loadAddr + segment.dataLen)) .imageInvalid
  let w ← processChunks d maxLen ⟨index, segment.loadAddr, dataAddr, 0, doLoad, true, m.startAddr, 0, segment.dataLen⟩
    segment.dataLen 0 segment.dataLen w
  return (segment, m, w)

/-- The loop of `process_segments`, with `count` segments to come from `nextAddr` on; `&data->segments[index]` is past the
array from the index `maxSegments` on. -/
def segmentLoop (d : Device) (maxLen : Nat → Nat) (doLoad : Bool) :
    (count index nextAddr : Nat) → Metadata → Work → Loader (Nat × Metadata × Work)
  | 0, _, nextAddr, m, w => pure (nextAddr, m, w)
  | count + 1, index, nextAddr, m, w =>
    if maxSegments ≤ index then .fail .undefined
    else do
      let (segment, m, w) ← processSegment d maxLen index nextAddr doLoad m w
      let dataAddr := add32 nextAddr segmentHeaderSize
      segmentLoop d maxLen doLoad count (index + 1) (add32 dataAddr segment.dataLen)
        { m with segments := m.segments ++ [segment], segmentData := m.segmentData ++ [dataAddr] } w

/-- `process_segments`. -/
def processSegments (d : Device) (maxLen : Nat → Nat) (doLoad : Bool) (m : Metadata) (w : Work) :
    Loader (Metadata × Work) := do
  let start := add32 m.startAddr m.imageLen
  let (endAddr, m, w) ← segmentLoop d maxLen doLoad m.segmentCount 0 start m w
  ensure (decide (m.startAddr ≤ endAddr)) .imageInvalid
  return ({ m with imageLen := add32 m.imageLen (sub32 endAddr start) }, w)

/-! ## Header, checksum and hash -/

/-- `verify_image_header`. -/
def verifyImageHeader (d : Device) (m : Metadata) : Loader Unit := do
  ensure (m.magic == 0xE9) .imageInvalid
  ensure (d.checkChipValidity m.image (d.isBootloader m.startAddr)) .fail
  ensure (decide (m.segmentCount ≤ maxSegments)) .imageInvalid

/-- `process_image_header`, with the bytes that the hash has been fed. -/
def processImageHeader (d : Device) (partOffset : Nat) (verifySha doVerify : Bool) :
    Loader (Metadata × Option (List UInt8)) := do
  let image ← d.flashRead partOffset headerSize
  let m : Metadata := ⟨partOffset, image, [], [], headerSize, [], 0⟩
  if doVerify then do
    ensure (!(m.hashAppended && verifySha) || d.shaStarts) .noMem
    verifyImageHeader d m
    return (m, if m.hashAppended && verifySha then some image else none)
  else return (m, none)

/-- The length of the padding and the checksum byte: to the next multiple of 16. -/
def checksumLen (unpadded : Nat) : Nat := sub32 (add32 (add32 unpadded 1) 15 / 16 * 16) unpadded

/-- The four bytes of the checksum word added without carry. -/
def calcChecksum (word : UInt32) : UInt8 := (leBytes word).foldl (· ^^^ ·) 0

/-- `process_checksum`. -/
def processChecksum (d : Device) (sha : Option (List UInt8)) (checksumWord : UInt32) (m : Metadata)
    (skipCheckChecksum : Bool) : Loader (Metadata × Option (List UInt8)) := do
  let length := checksumLen m.imageLen
  let buf ← if !skipCheckChecksum || sha.isSome then d.flashRead (add32 m.startAddr m.imageLen) length
    else pure (List.replicate length 0)
  ensure (skipCheckChecksum || calcChecksum checksumWord == buf.getD (length - 1) 0) .imageInvalid
  return ({ m with imageLen := add32 m.imageLen length }, sha.map (· ++ buf))

/-- `process_appended_hash_and_sig`, without a signature. -/
def processAppendedHash (d : Device) (partLen : Nat) (doVerify : Bool) (m : Metadata) : Loader Metadata := do
  let m ← if m.hashAppended then do
      let digest ← if doVerify then d.flashRead (add32 m.startAddr m.imageLen) hashLen else pure m.imageDigest
      pure { m with imageDigest := digest, imageLen := add32 m.imageLen hashLen }
    else pure m
  ensure (decide (m.imageLen ≤ partLen)) .imageInvalid
  return m

/-- The loop that deobfuscates the words of one segment. -/
def deobfuscateSegment (obfs : UInt32 × UInt32) (ram : Nat → UInt8) (segment : SegmentHeader) : Nat → UInt8 :=
  (List.range (segment.dataLen / 4)).foldl (fun ram j =>
    store ram (segment.loadAddr + 4 * j) (leBytes (readRam ram (segment.loadAddr + 4 * j) ^^^ obfuscation obfs j))) ram

/-- The deobfuscation at the end of `image_load`. -/
def deobfuscate (d : Device) (doLoad : Bool) (m : Metadata) (w : Work) : Work :=
  if d.bootloaderBuild ∧ doLoad ∧ w.obfs.1 ≠ 0 ∧ w.obfs.2 ≠ 0 then
    { w with
      ram := (m.segments.filter fun segment => d.shouldLoad segment.loadAddr).foldl (deobfuscateSegment w.obfs) w.ram }
  else w

/-! ## Calls -/

inductive LoadMode where
  | verify
  | verifySilent
  | load
  | loadNoValidate
deriving DecidableEq, Repr

/-- `image_load`, from the contents of the RAM and of `ram_obfs_value` on. -/
def imageLoad (d : Device) (maxLen : Nat → Nat) (mode : LoadMode) (part : PartitionPos) (ram : Nat → UInt8)
    (obfs : UInt32 × UInt32) : Loader (Metadata × Work) := do
  let doLoad := d.bootloaderBuild && (mode == .load || mode == .loadNoValidate)
  let doVerify := !d.bootloaderBuild || mode != .loadNoValidate
  let verifySha := !d.isBootloader part.offset && doVerify
  ensure (decide (part.size ≤ d.maxFlashAddrSize)) .invalidArg
  let (m, sha) ← processImageHeader d part.offset verifySha doVerify
  let (m, w) ← processSegments d maxLen doLoad m ⟨if doVerify then some 0xEF else none, sha, ram, obfs⟩
  let (m, sha) ← processChecksum d w.sha (w.checksum.getD 0xEF) m (!doVerify || d.debuggerAttached)
  let m ← processAppendedHash d part.size doVerify m
  ensure (!verifySha || d.debuggerAttached || sha.all fun fed => d.sha256 fed == m.imageDigest) .imageInvalid
  return (m, deobfuscate d doLoad m { w with sha := sha })

/-- `esp_image_verify`. -/
def espImageVerify (d : Device) (mode : LoadMode) (part : PartitionPos) (ram : Nat → UInt8) (obfs : UInt32 × UInt32) :
    Except Fault Metadata :=
  (imageLoad d (maxImageLen d) mode part ram obfs).result.map Prod.fst

/-- What `esp_image_get_metadata` does. -/
def getMetadata (d : Device) (part : PartitionPos) : Loader Metadata := do
  ensure (decide (part.size ≤ d.maxFlashAddrSize)) .invalidArg
  let (m, _) ← processImageHeader d part.offset false false
  let (m, _) ← processSegments d (maxImageLen d) false m ⟨none, none, fun _ => 0, (0, 0)⟩
  let (m, _) ← processChecksum d none 0 m true
  processAppendedHash d part.size true m

/-- `esp_image_get_metadata`. -/
def espImageGetMetadata (d : Device) (part : PartitionPos) : Except Fault Metadata := (getMetadata d part).result

end EspIdf.Image
