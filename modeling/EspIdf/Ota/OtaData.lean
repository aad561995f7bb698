import EspIdf.Lib.Crc32
import EspIdf.Lib.NorFlash
import Mathlib.Data.Fin.VecNotation

/-!
# The OTA data partition: `esp_ota_ops`, `bootloader_utility`, `bootloader_common_loader`

* `OtaSelectEntry` : an entry, one in each of two sectors, without flash encryption;
* `getActiveOtadata` : which entry counts;
* `setBootPartition`, `currentOtaIsWorkable`, `otaBegin` : what an application does to the entries;
* `getSelectedBootPartition`, `loadBootImage` : what the bootloader makes of them, with rollback and without
  anti-rollback.

App images appear only through whether they pass verification.
-/

namespace EspIdf.Ota

open Word32 Crc32 NorFlash

/-- `esp_ota_select_entry_t`. -/
structure OtaSelectEntry where
  otaSeq : UInt32
  seqLabel : Vector UInt8 20
  otaState : UInt32
  crc : UInt32
  deriving DecidableEq

/-! The values of `esp_ota_img_states_t`. -/

def imgNew : UInt32 := 0
def imgPendingVerify : UInt32 := 1
def imgValid : UInt32 := 2
def imgInvalid : UInt32 := 3
def imgAborted : UInt32 := 4

def seqMax : UInt32 := 0xFFFFFFFF

namespace OtaSelectEntry

def bytes (s : OtaSelectEntry) : List UInt8 :=
  leBytes s.otaSeq ++ s.seqLabel.toList ++ leBytes s.otaState ++ leBytes s.crc

def ofBytes (bs : List UInt8) : OtaSelectEntry where
  otaSeq := (wordsOf bs).getD 0 0
  seqLabel := Vector.ofFn fun i => bs.getD (4 + i) 0
  otaState := (wordsOf bs).getD 6 0
  crc := (wordsOf bs).getD 7 0

/-- `bootloader_common_ota_select_crc`. -/
def selectCrc (s : OtaSelectEntry) : UInt32 := crc32Le 0xFFFFFFFF (leBytes s.otaSeq)

/-- `bootloader_common_ota_select_invalid`. -/
def SelectInvalid (s : OtaSelectEntry) : Prop :=
  s.otaSeq = seqMax ∨ s.otaState = imgInvalid ∨ s.otaState = imgAborted

instance (s : OtaSelectEntry) : Decidable s.SelectInvalid := inferInstanceAs (Decidable (_ ∨ _ ∨ _))

/-- `bootloader_common_ota_select_valid`. -/
def SelectValid (s : OtaSelectEntry) : Prop := ¬s.SelectInvalid ∧ s.crc = s.selectCrc

instance (s : OtaSelectEntry) : Decidable s.SelectValid := inferInstanceAs (Decidable (_ ∧ _))

/-- An entry that was never written, or not completely. -/
def Initial (s : OtaSelectEntry) : Prop := s.otaSeq = seqMax ∨ s.crc ≠ s.selectCrc

instance (s : OtaSelectEntry) : Decidable s.Initial := inferInstanceAs (Decidable (_ ∨ _))

/-- The entry with a sequence number and the CRC that goes with it. -/
def withSeq (s : OtaSelectEntry) (seq : UInt32) : OtaSelectEntry :=
  let s := { s with otaSeq := seq }
  { s with crc := s.selectCrc }

def blank : OtaSelectEntry := ofBytes (List.replicate 32 0xFF)

end OtaSelectEntry

/-- The two entries. -/
abbrev TwoOtadata := Fin 2 → OtaSelectEntry

scoped instance neZeroTwo : NeZero 2 := ⟨by decide⟩

/-- The other one of two entries. -/
def other (i : Fin 2) : Fin 2 := i + 1

/-- `bootloader_common_select_otadata` with `max == true`. -/
def selectOtadata (two : TwoOtadata) (valid : Fin 2 → Bool) : Option (Fin 2) :=
  if valid 0 && valid 1 then
    if max (two 0).otaSeq (two 1).otaSeq = (two 0).otaSeq then some 0 else some 1
  else if valid 0 then some 0
  else if valid 1 then some 1
  else none

/-- `bootloader_common_get_active_otadata`. -/
def getActiveOtadata (two : TwoOtadata) : Option (Fin 2) := selectOtadata two fun i => decide (two i).SelectValid

/-- A partition table with contiguous OTA slots and, perhaps, a factory app. -/
structure OtaTable where
  /-- The address and the size of the OTA data partition. -/
  otadata : Nat
  otadataSize : Nat
  appCount : Nat
  factory : Bool
  two_le : 2 ≤ appCount
  le_max : appCount ≤ 16
  offset_ne : otadata ≠ 0
  aligned : 4096 ∣ otadata
  two_sectors : 2 * 4096 ≤ otadataSize
  deriving DecidableEq

namespace OtaTable

def count (t : OtaTable) : UInt32 := .ofNat t.appCount

/-- The address of an entry. -/
def entryAddr (t : OtaTable) (i : Fin 2) : Nat := t.otadata + 4096 * i

/-- The slot an entry names. -/
def slot (t : OtaTable) (s : OtaSelectEntry) : Nat := ((s.otaSeq - 1) % t.count).toNat

end OtaTable

inductive OtaErr
  | fail | notFound | invalidArg | validateFailed | rollbackFailed | rollbackInvalidState | partitionConflict
  | alreadyInProgress
  /-- No image could be loaded: `bootloader_reset`. -/
  | reset
  /-- A loop that does not end. -/
  | hang
  deriving DecidableEq, Repr

/-- The functions keep no RAM state. -/
abbrev OtaProg := Prog Unit OtaErr

def readOtadata (t : OtaTable) : OtaProg TwoOtadata := do
  let bs0 ← Prog.readFlash (t.entryAddr 0) 32
  let bs1 ← Prog.readFlash (t.entryAddr 1) 32
  pure ![OtaSelectEntry.ofBytes bs0, OtaSelectEntry.ofBytes bs1]

/-- `write_otadata`: erase the sector of an entry, write the entry. -/
def writeOtadata (t : OtaTable) (i : Fin 2) (s : OtaSelectEntry) : OtaProg Unit := do
  Prog.issue (.erase (t.entryAddr i / 4096 * 4096) 4096)
  Prog.issue (.write (t.entryAddr i) s.bytes)

/-! ## The application -/

/-- An app partition an application can select. -/
inductive AppPartition
  | factory
  | ota (slot : Nat)
  deriving DecidableEq, Repr

/-- The loop of `compute_ota_seq_for_target_slot`, from `i`. -/
def computeSeqFrom (current base count i : UInt32) : Nat → Option UInt32
  | 0 => none
  | fuel + 1 =>
      if base + i * count < current then computeSeqFrom current base count (i + 1) fuel else some (base + i * count)

/-- `compute_ota_seq_for_target_slot`. After `2 ^ 32` rounds the loop is where it was. -/
def computeOtaSeqForTargetSlot (current otaSlot count : UInt32) : Option UInt32 :=
  if count = 0 then some 0 else computeSeqFrom current ((otaSlot + 1) % count) count 0 (2 ^ 32)

/-- Where `esp_rewrite_ota_data` writes an entry for a slot, and its sequence number. -/
def nextOtadata (t : OtaTable) (two : TwoOtadata) (otaSlot : Nat) : Option (Fin 2 × UInt32) :=
  match getActiveOtadata two with
  | some active =>
      if t.slot (two active) = otaSlot then some (active, (two active).otaSeq)
      else (computeOtaSeqForTargetSlot (two active).otaSeq (.ofNat otaSlot) t.count).map fun seq => (other active, seq)
  | none => some (0, .ofNat otaSlot + 1)

/-- `rewrite_ota_seq`. -/
def rewriteOtaSeq (t : OtaTable) (two : TwoOtadata) (seq : UInt32) (i : Fin 2) : OtaProg Unit :=
  writeOtadata t i ((two i).withSeq seq)

/-- `esp_rewrite_ota_data`. -/
def espRewriteOtaData (t : OtaTable) (otaSlot : Nat) : OtaProg Unit := do
  let two ← readOtadata t
  if t.appCount ≤ otaSlot then Prog.fail .invalidArg
  else
    match nextOtadata t two otaSlot with
    | none => Prog.fail .hang
    | some (next, seq) => rewriteOtaSeq t (Function.update two next { two next with otaState := imgNew }) seq next

/-- `esp_ota_set_boot_partition`. -/
def setBootPartition (t : OtaTable) (imageOk : Bool) (p : AppPartition) : OtaProg Unit :=
  if imageOk = false then Prog.fail .validateFailed
  else
    match p with
    | .factory => Prog.issue (.erase t.otadata t.otadataSize)
    | .ota slot => espRewriteOtaData t slot

/-- `esp_ota_check_rollback_is_possible`. -/
def checkRollbackIsPossible (t : OtaTable) (imageOk : AppPartition → Bool) (two : TwoOtadata) : Bool :=
  match getActiveOtadata two with
  | none => false
  | some active =>
      if (two (other active)).SelectValid then imageOk (.ota (t.slot (two (other active))))
      else t.factory && imageOk .factory

/-- `esp_ota_current_ota_is_workable`. -/
def currentOtaIsWorkable (t : OtaTable) (imageOk : AppPartition → Bool) (valid : Bool) : OtaProg Unit := do
  let two ← readOtadata t
  match getActiveOtadata two with
  | none => Prog.fail .fail
  | some active =>
      if valid then
        if (two active).otaState ≠ imgValid then
          rewriteOtaSeq t (Function.update two active { two active with otaState := imgValid }) (two active).otaSeq
            active
        else pure ()
      else if checkRollbackIsPossible t imageOk two = false then Prog.fail .rollbackFailed
      else
        rewriteOtaSeq t (Function.update two active { two active with otaState := imgInvalid }) (two active).otaSeq
          active

/-- The state `esp_ota_get_state_partition` finds for a slot. -/
def getStatePartition (t : OtaTable) (two : TwoOtadata) (otaSlot : Nat) : Option UInt32 :=
  if t.slot (two 0) = otaSlot ∧ (two 0).crc = (two 0).selectCrc then some (two 0).otaState
  else if t.slot (two 1) = otaSlot ∧ (two 1).crc = (two 1).selectCrc then some (two 1).otaState
  else none

/-- Whether the running app is still to be confirmed. -/
def runningPending (t : OtaTable) (two : TwoOtadata) : AppPartition → Bool
  | .factory => false
  | .ota slot => getStatePartition t two slot = some imgPendingVerify

/-- `erase_last_boot_app_partition(true)`, called by the app in `running`. -/
def invalidateInactiveOtaDataSlot (t : OtaTable) (running : AppPartition) : OtaProg Unit := do
  let two ← readOtadata t
  match getActiveOtadata two with
  | none => Prog.fail .fail
  | some active =>
      if (two (other active)).Initial then Prog.fail .fail
      else if running = .ota (t.slot (two (other active))) then Prog.fail .fail
      else Prog.issue (.erase (t.entryAddr (other active)) 4096)

/-- `esp_ota_begin` for slot `target`, called by the app in `running`; what it erases of the slot is left out. -/
def otaBegin (t : OtaTable) (running : AppPartition) (target : Nat) (inProgress : Bool) : OtaProg Unit := do
  if running = .ota target then Prog.fail .partitionConflict
  else do
    let two ← readOtadata t
    if runningPending t two running then Prog.fail .rollbackInvalidState
    else if inProgress then Prog.fail .alreadyInProgress
    else (invalidateInactiveOtaDataSlot t running).attempt

/-! ## The bootloader -/

/-- Mark an entry that was not confirmed as aborted. -/
def OtaSelectEntry.abortPending (s : OtaSelectEntry) : OtaSelectEntry :=
  if s.otaState = imgPendingVerify then { s with otaState := imgAborted } else s

/-- One round of the loop that marks entries as aborted. -/
def abortOne (t : OtaTable) (two : TwoOtadata) (i : Fin 2) : OtaProg Unit :=
  if (two i).otaState = imgPendingVerify then writeOtadata t i (two i).abortPending else pure ()

/-- The choice among entries none of which is unconfirmed, with the one chosen marked. -/
def selectBootIndex (t : OtaTable) (two : TwoOtadata) : OtaProg (Int × Bool) :=
  if (two 0).SelectInvalid ∧ (two 1).SelectInvalid then
    if t.factory then pure (-1, false) else pure (0, (two 0).Initial ∧ (two 1).Initial)
  else
    match getActiveOtadata two with
    | none => pure (-1, false)
    | some active => do
        if (two active).otaState = imgNew then
          writeOtadata t active { two active with otaState := imgPendingVerify }
        else pure ()
        pure (Int.ofNat (t.slot (two active)), false)

/-- `bootloader_utility_get_selected_boot_partition`: an index, `-1` for the factory app, and whether the entries have
their initial contents. -/
def getSelectedBootPartition (t : OtaTable) : OtaProg (Int × Bool) := do
  let two ← readOtadata t
  abortOne t two 0
  abortOne t two 1
  selectBootIndex t fun i => (two i).abortPending

/-- `set_actual_ota_seq`. -/
def setActualOtaSeq (t : OtaTable) (index : Int) (initialContents : Bool) : OtaProg Unit :=
  if -1 < index ∧ initialContents then
    writeOtadata t 0 (({ OtaSelectEntry.blank with otaState := imgValid } : OtaSelectEntry).withSeq
      (.ofNat index.toNat + 1))
  else pure ()

/-- `index_to_partition`, for partitions of the table. -/
def OtaTable.partition? (t : OtaTable) (index : Int) : Option AppPartition :=
  if index = -1 then if t.factory then some .factory else none
  else if 0 ≤ index ∧ index.toNat < t.appCount then some (.ota index.toNat)
  else none

/-- The indices `bootloader_utility_load_boot_image` tries: down to the factory app, then up from `start`. -/
def tryOrder (t : OtaTable) (start : Int) : List Int :=
  (List.range (start + 2).toNat).map (fun k : Nat => start - k) ++
    (List.range (t.appCount - (start + 1).toNat)).map fun k : Nat => start + 1 + k

/-- The first image that passes verification. -/
def firstBootable (t : OtaTable) (imageOk : AppPartition → Bool) (start : Int) : Option (Int × AppPartition) :=
  (tryOrder t start).findSome? fun i => ((t.partition? i).filter fun p => imageOk p).map fun p => (i, p)

/-- `bootloader_utility_load_boot_image`. -/
def loadBootImage (t : OtaTable) (imageOk : AppPartition → Bool) (start : Int) (initialContents : Bool) :
    OtaProg AppPartition :=
  match firstBootable t imageOk start with
  | none => Prog.fail .reset
  | some (index, p) => do
      setActualOtaSeq t index initialContents
      pure p

/-- A start of the device: the index selected, and the app that runs. -/
def boot (t : OtaTable) (imageOk : AppPartition → Bool) : OtaProg (Int × AppPartition) := do
  let selected ← getSelectedBootPartition t
  let p ← loadBootImage t imageOk selected.1 selected.2
  pure (selected.1, p)

end EspIdf.Ota
