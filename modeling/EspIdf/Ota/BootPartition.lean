import EspIdf.Ota.OtaRuns

/-!
# The partition that boots next, for the bootloader and for `esp_ota_get_boot_partition`

* `PartitionInfo` : an entry of the partition table, read by both programs;
* `BootloaderState` : what the bootloader keeps of the table, and its choice, for any number of OTA slots;
* `espOtaGetBootPartition` : what the application takes for the choice;
* `Contiguous` : tables whose OTA slots are numbered from 0 on, each other kind of partition at most once.

As in `OtaData`, there is no flash encryption and no anti-rollback.
-/

namespace EspIdf.Ota

open NorFlash

/-- `esp_partition_pos_t`. -/
structure PartitionPos where
  offset : Nat
  size : Nat
  deriving DecidableEq

/-- `esp_partition_info_t`. -/
structure PartitionInfo where
  type : UInt8
  subtype : UInt8
  pos : PartitionPos
  deriving DecidableEq

def partTypeApp : UInt8 := 0x00
def partTypeData : UInt8 := 0x01

def partSubtypeFactory : UInt8 := 0x00
def partSubtypeOtaFlag : UInt8 := 0x10
def partSubtypeOtaMask : UInt8 := 0x0f
def partSubtypeTest : UInt8 := 0x20
def partSubtypeDataOta : UInt8 := 0x00

def maxOtaSlots : Nat := 16

def factoryIndex : Int := -1
def testAppIndex : Int := -2

/-! ## The bootloader -/

/-- `bootloader_state_t`. -/
structure BootloaderState where
  otaInfo : PartitionPos
  factory : PartitionPos
  test : PartitionPos
  ota : Nat → PartitionPos
  appCount : Nat

def noPartition : PartitionPos := ⟨0, 0⟩

/-- The subtype of an app partition is that of an OTA slot. -/
def IsOtaSubtype (subtype : UInt8) : Prop := subtype &&& ~~~partSubtypeOtaMask = partSubtypeOtaFlag

instance (subtype : UInt8) : Decidable (IsOtaSubtype subtype) := inferInstanceAs (Decidable (_ = _))

namespace BootloaderState

def zero : BootloaderState := ⟨noPartition, noPartition, noPartition, fun _ => noPartition, 0⟩

/-- One entry of the table. -/
def loadEntry (bs : BootloaderState) (p : PartitionInfo) : BootloaderState :=
  if p.type = partTypeApp then
    if p.subtype = partSubtypeFactory then { bs with factory := p.pos }
    else if p.subtype = partSubtypeTest then { bs with test := p.pos }
    else if IsOtaSubtype p.subtype then
      { bs with
        ota := Function.update bs.ota (p.subtype &&& partSubtypeOtaMask).toNat p.pos
        appCount := bs.appCount + 1 }
    else bs
  else if p.type = partTypeData then
    if p.subtype = partSubtypeDataOta then { bs with otaInfo := p.pos } else bs
  else bs

/-- `bootloader_utility_load_partition_table`. -/
def loadPartitionTable (table : List PartitionInfo) : BootloaderState := table.foldl loadEntry zero

/-- `index_to_partition`. -/
def indexToPartition (bs : BootloaderState) (index : Int) : PartitionPos :=
  if index = factoryIndex then bs.factory
  else if index = testAppIndex then bs.test
  else if 0 ≤ index ∧ index < maxOtaSlots ∧ index < bs.appCount then bs.ota index.toNat
  else noPartition

end BootloaderState

/-- Where an entry of the OTA data partition is. -/
def PartitionPos.entryAddr (p : PartitionPos) (i : Fin 2) : Nat := p.offset + 4096 * i

/-- The entries in an OTA data partition. -/
def PartitionPos.entries (p : PartitionPos) (img : Image) : TwoOtadata := fun i =>
  OtaSelectEntry.ofBytes (readBytes img (p.entryAddr i) 32)

namespace BootloaderState

/-- `bootloader_common_read_otadata`. -/
def readOtadata (bs : BootloaderState) : OtaProg TwoOtadata :=
  if bs.otaInfo.offset = 0 then Prog.fail .notFound
  else if bs.otaInfo.size < 2 * 4096 then Prog.fail .fail
  else do
    let bs0 ← Prog.readFlash (bs.otaInfo.entryAddr 0) 32
    let bs1 ← Prog.readFlash (bs.otaInfo.entryAddr 1) 32
    pure ![OtaSelectEntry.ofBytes bs0, OtaSelectEntry.ofBytes bs1]

/-- `write_otadata`. -/
def writeOtadata (bs : BootloaderState) (i : Fin 2) (s : OtaSelectEntry) : OtaProg Unit := do
  Prog.issue (.erase (bs.otaInfo.entryAddr i / 4096 * 4096) 4096)
  Prog.issue (.write (bs.otaInfo.entryAddr i) s.bytes)

/-- One round of the loop that marks entries as aborted. -/
def abortOne (bs : BootloaderState) (rollback : Bool) (two : TwoOtadata) (i : Fin 2) : OtaProg Unit :=
  if rollback ∧ (two i).otaState = imgPendingVerify then bs.writeOtadata i (two i).abortPending else pure ()

/-- The choice among the entries, with the one chosen marked. -/
def selectBootIndex (bs : BootloaderState) (rollback : Bool) (two : TwoOtadata) : OtaProg (Int × Bool) :=
  if ((two 0).SelectInvalid ∧ (two 1).SelectInvalid) ∨ bs.appCount = 0 then
    if bs.factory.offset ≠ 0 then pure (factoryIndex, false) else pure (0, (two 0).Initial ∧ (two 1).Initial)
  else
    match getActiveOtadata two with
    | none => pure (factoryIndex, false)
    | some active => do
        if rollback ∧ (two active).otaState = imgNew then
          bs.writeOtadata active { two active with otaState := imgPendingVerify }
        else pure ()
        pure (Int.ofNat (((two active).otaSeq - 1) % .ofNat bs.appCount : UInt32).toNat, false)

/-- `bootloader_utility_get_selected_boot_partition`, with rollback support or without. An index and
`ota_has_initial_contents`. -/
def getSelectedBootPartition (bs : BootloaderState) (rollback : Bool) : OtaProg (Int × Bool) :=
  if bs.otaInfo.offset = 0 then pure (factoryIndex, false)
  else do
    let two ← bs.readOtadata
    bs.abortOne rollback two 0
    bs.abortOne rollback two 1
    bs.selectBootIndex rollback (if rollback then aborted two else two)

/-- `try_load_partition`. -/
def tryLoad (imageOk : PartitionPos → Bool) (p : PartitionPos) : Bool := p.size ≠ 0 && imageOk p

/-- The indices `bootloader_utility_load_boot_image` tries: down to the factory app, then up from `start`. -/
def tryOrder (bs : BootloaderState) (start : Int) : List Int :=
  (List.range (start + 2).toNat).map (fun k : Nat => start - k) ++
    (List.range (bs.appCount - (start + 1)).toNat).map fun k : Nat => start + 1 + k

/-- `set_actual_ota_seq`. -/
def setActualOtaSeq (bs : BootloaderState) (index : Int) (initialContents : Bool) : OtaProg Unit :=
  if factoryIndex < index ∧ initialContents then bs.writeOtadata 0 (actualEntry index) else pure ()

/-- `bootloader_utility_load_boot_image`: the partition whose image is started. -/
def loadBootImage (bs : BootloaderState) (imageOk : PartitionPos → Bool) (start : Int) (initialContents : Bool) :
    OtaProg PartitionPos :=
  if start = testAppIndex then
    if tryLoad imageOk bs.test then pure bs.test else Prog.fail .reset
  else
    match (bs.tryOrder start).find? fun i => tryLoad imageOk (bs.indexToPartition i) with
    | some index => do
        bs.setActualOtaSeq index initialContents
        pure (bs.indexToPartition index)
    | none => if tryLoad imageOk bs.test then pure bs.test else Prog.fail .reset

/-- A start of the device. -/
def boot (bs : BootloaderState) (rollback : Bool) (imageOk : PartitionPos → Bool) : OtaProg PartitionPos := do
  let selected ← bs.getSelectedBootPartition rollback
  bs.loadBootImage imageOk selected.1 selected.2

end BootloaderState

/-! ## The application -/

/-- `esp_partition_find_first`. -/
def espPartitionFindFirst (table : List PartitionInfo) (type subtype : UInt8) : Option PartitionInfo :=
  table.find? fun p => p.type = type ∧ p.subtype = subtype

/-- The loop of `esp_ota_get_app_partition_count` from `count`: nothing if its assertion fails. -/
def appPartitionCountFrom (table : List PartitionInfo) (count : Nat) : Nat → Option Nat
  | 0 => none
  | fuel + 1 =>
      match espPartitionFindFirst table partTypeApp (partSubtypeOtaFlag + .ofNat count) with
      | none => some count
      | some _ => if count < 16 then appPartitionCountFrom table (count + 1) fuel else none

/-- `esp_ota_get_app_partition_count`. The assertion ends the loop after 17 rounds. -/
def espOtaGetAppPartitionCount (table : List PartitionInfo) : Option Nat := appPartitionCountFrom table 0 17

/-- `find_default_boot_partition`. -/
def findDefaultBootPartition (table : List PartitionInfo) : Option PartitionInfo :=
  match espPartitionFindFirst table partTypeApp partSubtypeFactory with
  | some p => some p
  | none =>
      match (List.range 16).findSome? fun s =>
        espPartitionFindFirst table partTypeApp (partSubtypeOtaFlag + .ofNat s) with
      | some p => some p
      | none => espPartitionFindFirst table partTypeApp partSubtypeTest

/-- `esp_ota_get_boot_partition`: an inner `none` is `NULL`, an outer one the failed assertion. -/
def espOtaGetBootPartition (table : List PartitionInfo) (img : Image) : Option (Option PartitionInfo) :=
  match espPartitionFindFirst table partTypeData partSubtypeDataOta with
  | none => some none
  | some otadata =>
      match espOtaGetAppPartitionCount table with
      | none => none
      | some count =>
          let two := otadata.pos.entries img
          if ((two 0).SelectInvalid ∧ (two 1).SelectInvalid) ∨ count = 0 then some (findDefaultBootPartition table)
          else
            match getActiveOtadata two with
            | none => some (findDefaultBootPartition table)
            | some active =>
                let otaSlot : UInt32 := ((two active).otaSeq - 1) % .ofNat count
                some (espPartitionFindFirst table partTypeApp (partSubtypeOtaFlag + .ofNat otaSlot.toNat))

/-! ## Partition tables -/

/-- A partition for an app, of a subtype. -/
def PartitionInfo.IsApp (subtype : UInt8) (p : PartitionInfo) : Prop := p.type = partTypeApp ∧ p.subtype = subtype

/-- A partition for an OTA app. -/
def PartitionInfo.IsOtaApp (p : PartitionInfo) : Prop := p.type = partTypeApp ∧ IsOtaSubtype p.subtype

/-- A partition for OTA data. -/
def PartitionInfo.IsOtaData (p : PartitionInfo) : Prop := p.type = partTypeData ∧ p.subtype = partSubtypeDataOta

instance (subtype : UInt8) : DecidablePred (PartitionInfo.IsApp subtype) :=
  fun p => inferInstanceAs (Decidable (p.type = partTypeApp ∧ p.subtype = subtype))

instance : DecidablePred PartitionInfo.IsOtaApp :=
  fun p => inferInstanceAs (Decidable (p.type = partTypeApp ∧ IsOtaSubtype p.subtype))

instance : DecidablePred PartitionInfo.IsOtaData :=
  fun p => inferInstanceAs (Decidable (p.type = partTypeData ∧ p.subtype = partSubtypeDataOta))

/-- A partition table with `n` OTA slots, numbered from 0 on, and `otadata` for OTA data. -/
structure Contiguous (table : List PartitionInfo) (n : Nat) (otadata : PartitionInfo) : Prop where
  le_max : n ≤ maxOtaSlots
  slots : ((table.filter fun p => p.IsOtaApp).map PartitionInfo.subtype).Perm
    ((List.range n).map fun k => partSubtypeOtaFlag + .ofNat k)
  one_factory : (table.countP fun p => p.IsApp partSubtypeFactory) ≤ 1
  one_test : (table.countP fun p => p.IsApp partSubtypeTest) ≤ 1
  otadata_only : (table.filter fun p => p.IsOtaData) = [otadata]
  two_sectors : 2 * 4096 ≤ otadata.pos.size
  /-- The partition table itself comes before every partition. -/
  offset_ne : ∀ p ∈ table, p.pos.offset ≠ 0

/-- All app images verify. -/
def AllBootable (table : List PartitionInfo) (imageOk : PartitionPos → Bool) : Prop :=
  ∀ p ∈ table, p.type = partTypeApp → BootloaderState.tryLoad imageOk p.pos = true

end EspIdf.Ota
