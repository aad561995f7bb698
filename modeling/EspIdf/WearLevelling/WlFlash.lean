import EspIdf.Lib.Crc32
import EspIdf.Lib.NorFlash

/-!
# The wear-levelling driver `WL_Flash`

* `WlConfig`, `WlState` : `wl_config_t` and `wl_state_t`, with the bytes they take on flash;
* `Partition` : the flash partition below the driver, which checks bounds and erase alignment;
* `config` : the geometry computed from a configuration (all arithmetic on 32-bit words);
* `init`, `recoverPos`, `initSections`, `updateV1_V2` : start-up and recovery;
* `updateWL`, `calcAddr` : the moving dummy page;
* `eraseSector`, `write`, `read`, `flush` : the driver's interface.
-/

namespace EspIdf.WearLevelling

open Word32 Crc32 NorFlash

/-- The error codes the driver returns. -/
inductive EspErr
  | fail | noMem | invalidArg | invalidState | invalidSize
  deriving DecidableEq, Repr

/-- `wl_config_t`. -/
structure WlConfig where
  wlPartitionStartAddr : UInt32
  wlPartitionSize : UInt32
  wlPageSize : UInt32
  flashSectorSize : UInt32
  wlUpdateRate : UInt32
  wlPosUpdateRecordSize : UInt32
  version : UInt32
  wlTempBuffSize : UInt32
  crc32 : UInt32
  deriving DecidableEq, Repr

/-- The words of a configuration before its CRC. -/
def WlConfig.words (c : WlConfig) : List UInt32 :=
  [c.wlPartitionStartAddr, c.wlPartitionSize, c.wlPageSize, c.flashSectorSize, c.wlUpdateRate,
    c.wlPosUpdateRecordSize, c.version, c.wlTempBuffSize]

/-- The bytes of a configuration, padded to its alignment. -/
def WlConfig.bytes (c : WlConfig) : List UInt8 := (c.words ++ [c.crc32, 0, 0, 0]).flatMap leBytes

/-- `wl_state_t`. -/
structure WlState where
  wlDummySecPos : UInt32
  wlPartMaxSecPos : UInt32
  wlDummySecMoveCount : UInt32
  wlSecEraseCycleCount : UInt32
  wlMaxSecEraseCycleCount : UInt32
  wlBlockSize : UInt32
  version : UInt32
  wlDeviceId : UInt32
  reserved : Vector UInt32 7
  crc32 : UInt32
  deriving DecidableEq

/-- The words before `wl_device_id`, over which version 1 computed its CRC. -/
def WlState.wordsV1 (s : WlState) : List UInt32 :=
  [s.wlDummySecPos, s.wlPartMaxSecPos, s.wlDummySecMoveCount, s.wlSecEraseCycleCount,
    s.wlMaxSecEraseCycleCount, s.wlBlockSize, s.version]

/-- The words before the CRC. -/
def WlState.wordsV2 (s : WlState) : List UInt32 := s.wordsV1 ++ s.wlDeviceId :: s.reserved.toList

def WlState.bytes (s : WlState) : List UInt8 := (s.wordsV2 ++ [s.crc32]).flatMap leBytes

def WlState.ofBytes (bs : List UInt8) : WlState where
  wlDummySecPos := (wordsOf bs).getD 0 0
  wlPartMaxSecPos := (wordsOf bs).getD 1 0
  wlDummySecMoveCount := (wordsOf bs).getD 2 0
  wlSecEraseCycleCount := (wordsOf bs).getD 3 0
  wlMaxSecEraseCycleCount := (wordsOf bs).getD 4 0
  wlBlockSize := (wordsOf bs).getD 5 0
  version := (wordsOf bs).getD 6 0
  wlDeviceId := (wordsOf bs).getD 7 0
  reserved := Vector.ofFn fun i => (wordsOf bs).getD (8 + i) 0
  crc32 := (wordsOf bs).getD 15 0

def WlState.crcV1 (s : WlState) : UInt32 := crc32Le 0xFFFFFFFF (s.wordsV1.flatMap leBytes)

def WlState.crcV2 (s : WlState) : UInt32 := crc32Le 0xFFFFFFFF (s.wordsV2.flatMap leBytes)

/-- A header is taken for valid when its CRC matches. -/
def WlState.CrcOk (s : WlState) : Prop := s.crcV2 = s.crc32

instance (s : WlState) : Decidable s.CrcOk := inferInstanceAs (Decidable (_ = _))

/-- The partition under the driver: its size and the unit it erases. -/
structure Partition where
  size : UInt32
  eraseSize : UInt32
  deriving DecidableEq, Repr

/-- The fields `config` sets. -/
structure WlDevice where
  cfg : WlConfig
  partition : Partition
  stateSize : UInt32
  cfgSize : UInt32
  addrCfg : UInt32
  addrState1 : UInt32
  addrState2 : UInt32
  flashSize : UInt32
  deriving DecidableEq, Repr

/-- The fields that change afterwards. -/
structure WlRam where
  state : WlState
  tempBuff : List UInt8
  dummyAddr : UInt32
  initialized : Bool
  deriving DecidableEq

abbrev WlProg := Prog WlRam EspErr

/-! ## The partition -/

/-- The bounds every access is checked against. -/
def Partition.inBounds (p : Partition) (offset size : UInt32) : WlProg Unit :=
  if p.size < offset then Prog.fail .invalidArg
  else if p.size - offset < size then Prog.fail .invalidSize
  else pure ()

def Partition.read (p : Partition) (offset size : UInt32) : WlProg (List UInt8) := do
  p.inBounds offset size
  Prog.readFlash offset.toNat size.toNat

def Partition.write (p : Partition) (offset : UInt32) (bytes : List UInt8) : WlProg Unit := do
  p.inBounds offset (.ofNat bytes.length)
  Prog.issue (.write offset.toNat bytes)

def Partition.eraseRange (p : Partition) (offset size : UInt32) : WlProg Unit := do
  p.inBounds offset size
  if size % p.eraseSize ≠ 0 then Prog.fail .invalidSize
  else if offset % p.eraseSize ≠ 0 then Prog.fail .invalidArg
  else Prog.issue (.erase offset.toNat size.toNat)

def Partition.eraseSector (p : Partition) (sector : UInt32) : WlProg Unit :=
  p.eraseRange (sector * p.eraseSize) p.eraseSize

/-! ## Configuration -/

/-- The size of a header, `sizeof(wl_state_t)`. -/
def stateHeader : UInt32 := 64

/-- The copy of the configuration the driver keeps: with its CRC, and a buffer that holds a position record. -/
def WlConfig.adopt (cfg : WlConfig) : WlConfig :=
  { cfg with
    crc32 := crc32Le 0xFFFFFFFF (cfg.words.flatMap leBytes)
    wlTempBuffSize := if cfg.wlTempBuffSize < cfg.wlPosUpdateRecordSize then cfg.wlPosUpdateRecordSize
      else cfg.wlTempBuffSize }

/-- The areas `config` lays out from the end of the partition. -/
def WlConfig.layout (cfg : WlConfig) (partition : Partition) : WlDevice :=
  let need := stateHeader + cfg.wlPartitionSize / cfg.flashSectorSize * cfg.wlPosUpdateRecordSize
  let stateSize := if cfg.flashSectorSize < need then
    (need + cfg.flashSectorSize - 1) / cfg.flashSectorSize * cfg.flashSectorSize else cfg.flashSectorSize
  let cfgSize := (48 + cfg.flashSectorSize - 1) / cfg.flashSectorSize * cfg.flashSectorSize
  { cfg := cfg
    partition := partition
    stateSize := stateSize
    cfgSize := cfgSize
    addrCfg := cfg.wlPartitionStartAddr + cfg.wlPartitionSize - cfgSize
    addrState1 := cfg.wlPartitionStartAddr + cfg.wlPartitionSize - stateSize * 2 - cfgSize
    addrState2 := cfg.wlPartitionStartAddr + cfg.wlPartitionSize - stateSize * 1 - cfgSize
    flashSize := ((cfg.wlPartitionSize - stateSize * 2 - cfgSize) / cfg.wlPageSize - 1) * cfg.wlPageSize }

/-- `WL_Flash::config`. -/
def config (cfg : WlConfig) (partition : Partition) (mallocOk : Bool) : Except EspErr (WlDevice × WlRam) :=
  let cfg := cfg.adopt
  if cfg.flashSectorSize % cfg.wlTempBuffSize ≠ 0 then .error .invalidArg
  else if cfg.wlPageSize < cfg.flashSectorSize then .error .invalidArg
  else
    let d := cfg.layout partition
    -- `ptrdiff_t` is signed: from 2^31 on the size counts as negative
    if d.flashSize = 0 ∨ 0x80000000 ≤ d.flashSize then .error .invalidArg
    else if mallocOk = false then .error .noMem
    else .ok (d, {
      state := WlState.ofBytes []
      tempBuff := List.replicate cfg.wlTempBuffSize.toNat 0
      dummyAddr := 0
      initialized := false })

/-! ## Position records -/

/-- The four words that mark position `n` as passed. -/
def okWords (deviceId n : UInt32) : List UInt32 :=
  (List.range 4).map fun i => crc32Le 0xFFFFFFFF (leBytes (deviceId + n * 4 + .ofNat i))

def fillOkBuff (n : UInt32) (r : WlRam) : WlRam :=
  { r with tempBuff := (okWords r.state.wlDeviceId n).flatMap leBytes ++ r.tempBuff.drop 16 }

def okBuffSet (r : WlRam) (n : UInt32) : Bool := wordsOf (r.tempBuff.take 16) = okWords r.state.wlDeviceId n

/-- The address of position record `i` of the copy at `addrState`. -/
def WlDevice.recordAddr (d : WlDevice) (addrState : UInt32) (i : UInt32) : UInt32 :=
  addrState + stateHeader + i * d.cfg.wlPosUpdateRecordSize

/-- The number of records `init` goes through. -/
def WlDevice.recordCount (d : WlDevice) : UInt32 := d.cfg.wlPartitionSize / d.cfg.flashSectorSize

/-- `partition->read(addr, temp_buff, size)`. -/
def WlDevice.readTemp (d : WlDevice) (addr size : UInt32) : WlProg Unit := do
  let bytes ← d.partition.read addr size
  Prog.modifyRam fun r => { r with tempBuff := bytes ++ r.tempBuff.drop bytes.length }

/-- `partition->write(addr, temp_buff, size)`. -/
def WlDevice.writeTemp (d : WlDevice) (addr size : UInt32) : WlProg Unit := do
  let r ← Prog.getRam
  d.partition.write addr (r.tempBuff.take size.toNat)

def WlDevice.readState (d : WlDevice) (addr : UInt32) : WlProg WlState := do
  let bytes ← d.partition.read addr stateHeader
  pure (WlState.ofBytes bytes)

def setState (f : WlState → WlState) : WlProg Unit := Prog.modifyRam fun r => { r with state := f r.state }

/-! ## Start-up -/

/-- The loop of `recoverPos`: the first position whose record is missing, or the last one. -/
def WlDevice.recoverPosFrom (d : WlDevice) (i position : Nat) : Nat → WlProg Nat
  | 0 => pure position
  | n + 1 => do
      d.readTemp (d.recordAddr d.addrState1 (.ofNat i)) d.cfg.wlPosUpdateRecordSize
      let r ← Prog.getRam
      if okBuffSet r (.ofNat i) then d.recoverPosFrom (i + 1) i n else pure i

def WlDevice.recoverPos (d : WlDevice) : WlProg Unit := do
  let r ← Prog.getRam
  let position ← d.recoverPosFrom 0 0 r.state.wlPartMaxSecPos.toNat
  setState fun s => { s with wlDummySecPos := .ofNat position }
  setState fun s => if s.wlDummySecPos = s.wlPartMaxSecPos ∧ s.wlDummySecPos ≠ 0 then
    { s with wlDummySecPos := s.wlDummySecPos - 1 } else s

/-- The state `initSections` writes, with `rand` drawn for the device id. -/
def WlDevice.freshState (d : WlDevice) (rand : UInt32) (s : WlState) : WlState :=
  let maxCount := d.flashSize / d.stateSize * d.cfg.wlUpdateRate
  let s := { s with
    wlDummySecPos := 0
    wlSecEraseCycleCount := 0
    wlDummySecMoveCount := 0
    wlMaxSecEraseCycleCount := if d.cfg.wlUpdateRate ≠ 0 then d.cfg.wlUpdateRate else maxCount
    version := d.cfg.version
    wlBlockSize := d.cfg.wlPageSize
    wlDeviceId := rand
    reserved := Vector.replicate 7 0
    wlPartMaxSecPos := 1 + d.flashSize / d.cfg.wlPageSize }
  { s with crc32 := s.crcV2 }

def WlDevice.initSections (d : WlDevice) (rand : UInt32) : WlProg Unit := do
  setState (d.freshState rand)
  let r ← Prog.getRam
  d.partition.eraseRange d.addrState1 d.stateSize
  d.partition.write d.addrState1 r.state.bytes
  d.partition.eraseRange d.addrState2 d.stateSize
  d.partition.write d.addrState2 r.state.bytes
  d.partition.eraseRange d.addrCfg d.cfgSize
  d.partition.write d.addrCfg d.cfg.bytes

/-- The position scan of `updateV1_V2`: version 1 marked a position by its record's first byte. -/
def WlDevice.scanV1 (d : WlDevice) (i pos : Nat) : Nat → WlProg Nat
  | 0 => pure pos
  | n + 1 => do
      let bits ← d.partition.read (d.recordAddr d.addrState1 (.ofNat i)) 1
      if bits = [0xFF] then pure i else d.scanV1 (i + 1) i n

/-- `memset(temp_buff, 0, n)`. -/
def clearTemp (n : Nat) (r : WlRam) : WlRam :=
  { r with tempBuff := List.replicate n 0 ++ r.tempBuff.drop n }

/-- Write the records `0 .. pos` of one copy. -/
def WlDevice.writeRecords (d : WlDevice) (addrState : UInt32) (pos : Nat) : WlProg Unit := do
  Prog.modifyRam (clearTemp d.cfg.wlPosUpdateRecordSize.toNat)
  Prog.loop (pos + 1) fun i => do
    Prog.modifyRam (fillOkBuff (.ofNat i))
    d.writeTemp (d.recordAddr addrState (.ofNat i)) d.cfg.wlPosUpdateRecordSize

def WlDevice.updateV1_V2 (d : WlDevice) (rand : UInt32) : WlProg Unit := do
  let copy ← d.readState d.addrState2
  let r ← Prog.getRam
  if r.state.crcV1 = r.state.wlDeviceId ∧ copy.crcV1 = copy.wlDeviceId ∧
      r.state.wlDeviceId = copy.wlDeviceId ∧ r.state.version = 1 ∧ copy.version = 1 then do
    let pos ← d.scanV1 0 0 r.state.wlPartMaxSecPos.toNat
    let pos := if pos = r.state.wlPartMaxSecPos.toNat ∧ pos ≠ 0 then pos - 1 else pos
    setState fun s =>
      let s := { s with version := 2, wlDummySecPos := 0, wlDeviceId := rand,
                         reserved := Vector.replicate 7 0 }
      { s with crc32 := s.crcV2 }
    let r ← Prog.getRam
    d.partition.eraseRange d.addrState1 d.stateSize
    d.partition.write d.addrState1 r.state.bytes
    d.writeRecords d.addrState1 pos
    d.partition.eraseRange d.addrState2 d.stateSize
    d.partition.write d.addrState2 r.state.bytes
    d.writeRecords d.addrState2 pos
    setState fun s => { s with wlDummySecPos := .ofNat pos }
  else Prog.fail .fail

/-- Erase the copy at `dst`, write header `s` there and copy the records of `src` that are set. -/
def WlDevice.rebuild (d : WlDevice) (src dst : UInt32) (s : WlState) : WlProg Unit := do
  d.partition.eraseRange dst d.stateSize
  d.partition.write dst s.bytes
  Prog.loop d.recordCount.toNat fun i => do
    d.readTemp (d.recordAddr src (.ofNat i)) d.cfg.wlPosUpdateRecordSize
    let r ← Prog.getRam
    if okBuffSet r (.ofNat i) then
      d.writeTemp (d.recordAddr dst (.ofNat i)) d.cfg.wlPosUpdateRecordSize
    else pure ()

/-- Both headers are broken: a new flash, or one formatted by version 1. Only `ESP_FAIL` leads to a new format; other
errors of the update are lost. -/
def WlDevice.updateOrFormat (d : WlDevice) (rand : UInt32) : WlProg Unit := fun r img =>
  match (d.updateV1_V2 rand r img).result with
  | .error .fail => Prog.andThen (d.updateV1_V2 rand).attempt (fun _ => d.initSections rand) r img
  | _ => (d.updateV1_V2 rand).attempt r img

/-- `WL_Flash::init`. -/
def WlDevice.init (d : WlDevice) (rand : UInt32) : WlProg Unit := do
  Prog.modifyRam fun r => { r with initialized := false }
  Prog.attempt (do let s ← d.readState d.addrState1; setState fun _ => s)
  let copy ← d.readState d.addrState2
  let r ← Prog.getRam
  if r.state.CrcOk ∧ copy.CrcOk then do
    if r.state.version ≠ d.cfg.version then
      d.initSections rand
    else if r.state.crc32 ≠ copy.crc32 then
      -- the second copy was not updated
      d.rebuild d.addrState1 d.addrState2 r.state
    else pure ()
    d.recoverPos
  else if ¬r.state.CrcOk ∧ ¬copy.CrcOk then do
    d.updateOrFormat rand
    d.recoverPos
  else do
    if r.state.CrcOk then do
      d.rebuild d.addrState1 d.addrState2 r.state
      let s ← d.readState d.addrState2
      setState fun _ => s
    else do
      d.rebuild d.addrState2 d.addrState1 copy
      let s ← d.readState d.addrState1
      setState fun _ => { s with wlDummySecPos := s.wlPartMaxSecPos - 1 }
    let r ← Prog.getRam
    if r.state.version ≠ d.cfg.version then d.initSections rand else pure ()
  Prog.modifyRam fun r => { r with initialized := true }

/-! ## The moving dummy page -/

/-- Try the move again at the next erase. -/
def retryMove : WlProg Unit :=
  setState fun s => { s with wlSecEraseCycleCount := s.wlMaxSecEraseCycleCount - 1 }

/-- The page after the dummy page, cyclically. -/
def WlState.nextPos (s : WlState) : UInt32 :=
  if s.wlPartMaxSecPos ≤ s.wlDummySecPos + 1 then 0 else s.wlDummySecPos + 1

/-- Copy piece `i` of a page through the buffer. -/
def WlDevice.movePiece (d : WlDevice) (dataAddr dummyAddr : UInt32) (i : Nat) : WlProg Unit := do
  d.readTemp (dataAddr + .ofNat i * d.cfg.wlTempBuffSize) d.cfg.wlTempBuffSize
  d.writeTemp (dummyAddr + .ofNat i * d.cfg.wlTempBuffSize) d.cfg.wlTempBuffSize

/-- Copy the page at `dataAddr` over the dummy page. -/
def WlDevice.moveBlock (d : WlDevice) (dataAddr dummyAddr : UInt32) : WlProg Unit := do
  d.partition.eraseRange dummyAddr d.cfg.wlPageSize
  Prog.loop (d.cfg.wlPageSize / d.cfg.wlTempBuffSize).toNat (d.movePiece dataAddr dummyAddr)

/-- Mark position `pos` as passed in the copy at `addrState`. -/
def WlDevice.markPos (d : WlDevice) (addrState pos : UInt32) : WlProg Unit := do
  Prog.modifyRam (fillOkBuff pos)
  d.writeTemp (d.recordAddr addrState pos) d.cfg.wlPosUpdateRecordSize

/-- The header after the dummy page has gone round once. -/
def WlState.wrap (s : WlState) : WlState :=
  let moveCount := s.wlDummySecMoveCount + 1
  let s := { s with
    wlDummySecPos := 0
    wlDummySecMoveCount := if s.wlPartMaxSecPos - 1 ≤ moveCount then 0 else moveCount }
  { s with crc32 := s.crcV2 }

def WlDevice.writeHeaders (d : WlDevice) : WlProg Unit := do
  let r ← Prog.getRam
  d.partition.eraseRange d.addrState1 d.stateSize
  d.partition.write d.addrState1 r.state.bytes
  d.partition.eraseRange d.addrState2 d.stateSize
  d.partition.write d.addrState2 r.state.bytes

/-- Copy the next page over the dummy page and mark the position of `s` as passed in both copies. -/
def WlDevice.moveDummy (d : WlDevice) (s : WlState) : WlProg Unit := do
  let dataAddr := d.cfg.wlPartitionStartAddr + s.nextPos * d.cfg.wlPageSize
  let dummyAddr := d.cfg.wlPartitionStartAddr + s.wlDummySecPos * d.cfg.wlPageSize
  Prog.modifyRam fun r => { r with dummyAddr := dummyAddr }
  (d.moveBlock dataAddr dummyAddr).onError retryMove
  (d.markPos d.addrState1 s.wlDummySecPos).onError retryMove
  (d.markPos d.addrState2 s.wlDummySecPos).onError retryMove

/-- Go on to the next position, and to the next round after the last one. -/
def WlDevice.stepPos (d : WlDevice) : WlProg Unit := do
  setState fun s => { s with wlDummySecPos := s.wlDummySecPos + 1 }
  let r ← Prog.getRam
  if r.state.wlPartMaxSecPos ≤ r.state.wlDummySecPos then do
    setState WlState.wrap
    d.writeHeaders
  else pure ()

/-- The part of `updateWL` that moves the dummy page on. -/
def WlDevice.advance (d : WlDevice) : WlProg Unit := do
  setState fun s => { s with wlSecEraseCycleCount := 0 }
  let r ← Prog.getRam
  d.moveDummy r.state
  d.stepPos

/-- `WL_Flash::updateWL`. -/
def WlDevice.updateWL (d : WlDevice) : WlProg Unit := do
  setState fun s => { s with wlSecEraseCycleCount := s.wlSecEraseCycleCount + 1 }
  let r ← Prog.getRam
  if r.state.wlSecEraseCycleCount < r.state.wlMaxSecEraseCycleCount then pure () else d.advance

/-- `WL_Flash::calcAddr`. -/
def WlDevice.calcAddr (d : WlDevice) (s : WlState) (addr : UInt32) : UInt32 :=
  let result := (d.flashSize - s.wlDummySecMoveCount * d.cfg.wlPageSize + addr) % d.flashSize
  let dummyAddr := s.wlDummySecPos * d.cfg.wlPageSize
  if result < dummyAddr then result else result + d.cfg.wlPageSize

/-! ## The interface -/

/-- Fail unless `init` has succeeded; otherwise the current state. -/
def ready : WlProg WlState := do
  let r ← Prog.getRam
  if r.initialized = false then Prog.fail .invalidState else pure r.state

def WlDevice.eraseSector (d : WlDevice) (sector : UInt32) : WlProg Unit := do
  let _ ← ready
  d.updateWL
  let r ← Prog.getRam
  let virtAddr := d.calcAddr r.state (sector * d.cfg.flashSectorSize)
  d.partition.eraseSector ((d.cfg.wlPartitionStartAddr + virtAddr) / d.cfg.flashSectorSize)

/-- The number of whole pages before the last piece of an access. -/
def WlDevice.chunkCount (d : WlDevice) (size : UInt32) : UInt32 := (size - 1) / d.cfg.wlPageSize

def WlDevice.write (d : WlDevice) (destAddr : UInt32) (src : List UInt8) : WlProg Unit := do
  let s ← ready
  let page := d.cfg.wlPageSize
  let count := d.chunkCount (.ofNat src.length)
  Prog.loop count.toNat fun i =>
    d.partition.write (d.cfg.wlPartitionStartAddr + d.calcAddr s (destAddr + .ofNat i * page))
      ((src.drop (i * page.toNat)).take page.toNat)
  d.partition.write (d.cfg.wlPartitionStartAddr + d.calcAddr s (destAddr + count * page))
    (src.drop (count * page).toNat)

/-- The chunks `i, i + 1, ...` of a read, `n` of them. -/
def WlDevice.readChunks (d : WlDevice) (s : WlState) (srcAddr : UInt32) (i : Nat) : Nat → WlProg (List UInt8)
  | 0 => pure []
  | n + 1 => do
      let bytes ← d.partition.read
        (d.cfg.wlPartitionStartAddr + d.calcAddr s (srcAddr + .ofNat i * d.cfg.wlPageSize)) d.cfg.wlPageSize
      let rest ← d.readChunks s srcAddr (i + 1) n
      pure (bytes ++ rest)

def WlDevice.read (d : WlDevice) (srcAddr size : UInt32) : WlProg (List UInt8) := do
  let s ← ready
  let page := d.cfg.wlPageSize
  let count := d.chunkCount size
  let bytes ← d.readChunks s srcAddr 0 count.toNat
  let last ← d.partition.read (d.cfg.wlPartitionStartAddr + d.calcAddr s (srcAddr + count * page))
    (size - count * page)
  pure (bytes ++ last)

/-- `WL_Flash::flush`. -/
def WlDevice.flush (d : WlDevice) : WlProg Unit := do
  retryMove
  d.updateWL

end EspIdf.WearLevelling
