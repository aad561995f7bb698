import EspIdf.Lib.Crc32
import EspIdf.Lib.NorFlash

/-!
# The boot record of the TEE: `bootloader_utility_tee`

* `TeeSelectEntry` : the record, two copies in two sectors, without flash encryption;
* `getValidTeeOtadata`, `updateTeeOtadata` : reading it, with repair of a broken copy, and replacing it;
* `verdict` : what a read returns for the two copies (`getValid_result`);
* `leftover` : the first copy when power is lost during an update (`update_cut`);
* `tee_update_safe_iff` : when a cut leaves the old or the new record to the next read.
-/

namespace EspIdf.Ota

open Word32 Crc32 NorFlash

def flashSectorSize : UInt32 := 4096

/-- `esp_tee_ota_select_entry_t`. -/
structure TeeSelectEntry where
  magic : UInt32
  version : UInt8
  bootPartition : UInt8
  otaState : UInt8
  reserved1 : UInt8
  reserved2 : Vector UInt32 5
  crc : UInt32
  deriving DecidableEq

def teeOtadataMagic : UInt32 := 0x4337e1e1

namespace TeeSelectEntry

def bytes (e : TeeSelectEntry) : List UInt8 :=
  leBytes e.magic ++ [e.version, e.bootPartition, e.otaState, e.reserved1] ++ e.reserved2.toList.flatMap leBytes ++
    leBytes e.crc

def ofBytes (bs : List UInt8) : TeeSelectEntry where
  magic := (wordsOf bs).getD 0 0
  version := bs.getD 4 0
  bootPartition := bs.getD 5 0
  otaState := bs.getD 6 0
  reserved1 := bs.getD 7 0
  reserved2 := Vector.ofFn fun i => (wordsOf bs).getD (2 + i) 0
  crc := (wordsOf bs).getD 7 0

/-- The CRC over the fields before `crc`. -/
def computedCrc (e : TeeSelectEntry) : UInt32 := crc32Le 0 (e.bytes.take 28)

/-- `blank_otadata`. -/
def blank : TeeSelectEntry := ofBytes (List.replicate 32 0xFF)

/-- The record `update_tee_otadata` writes. -/
def fresh (bootPartition otaState : UInt8) : TeeSelectEntry :=
  let otadata : TeeSelectEntry := ⟨teeOtadataMagic, 0, bootPartition, otaState, 0, Vector.replicate 5 0, 0⟩
  { otadata with crc := otadata.computedCrc }

end TeeSelectEntry

/-- Where the TEE OTA data partition is. -/
structure TeePartitionPos where
  offset : UInt32
  size : UInt32
  deriving DecidableEq

inductive TeeErr
  | invalidArg | invalidSize | notFound | fail
  /-- The call of `abort`. -/
  | abort
  deriving DecidableEq, Repr

/-- The functions keep no RAM state. -/
abbrev TeeProg := Prog Unit TeeErr

def writeTeeOtadataSector (e : TeeSelectEntry) (offset : UInt32) : TeeProg Unit := do
  Prog.issue (.erase ((offset / flashSectorSize).toNat * flashSectorSize.toNat) flashSectorSize.toNat)
  Prog.issue (.write offset.toNat e.bytes)

def readTeeOtadata (info : TeePartitionPos) : TeeProg (TeeSelectEntry × TeeSelectEntry) :=
  if info.offset = 0 then Prog.fail .invalidArg
  else if info.size < 2 * flashSectorSize then Prog.fail .invalidSize
  else do
    let bs0 ← Prog.readFlash info.offset.toNat 32
    let bs1 ← Prog.readFlash (info.offset.toNat + flashSectorSize.toNat) 32
    pure (TeeSelectEntry.ofBytes bs0, TeeSelectEntry.ofBytes bs1)

def writeTeeOtadata (e : TeeSelectEntry) (info : TeePartitionPos) : TeeProg Unit := do
  writeTeeOtadataSector e info.offset
  writeTeeOtadataSector e (info.offset + flashSectorSize)

def getValidTeeOtadata (info : TeePartitionPos) : TeeProg TeeSelectEntry := do
  let (e0, e1) ← (readTeeOtadata info).orFail .notFound
  if e0 = e1 then do
    if e0 ≠ TeeSelectEntry.blank ∧ (e0.magic ≠ teeOtadataMagic ∨ e0.computedCrc ≠ e0.crc) then Prog.fail .fail
    else pure e0
  else if e0.computedCrc = e0.crc then do
    (writeTeeOtadataSector e0 (info.offset + flashSectorSize)).attempt
    pure e0
  else if e1.computedCrc = e1.crc then do
    (writeTeeOtadataSector e1 info.offset).attempt
    pure e1
  else Prog.fail .abort

def updateTeeOtadata (info : TeePartitionPos) (bootPartition otaState : UInt8) : TeeProg Unit :=
  writeTeeOtadata (TeeSelectEntry.fresh bootPartition otaState) info

/-! ## Records and bytes -/

namespace TeeSelectEntry

theorem bytes_length (e : TeeSelectEntry) : e.bytes.length = 32 := by
  unfold bytes
  simp only [List.length_append, leBytes_length, flatMap_leBytes_length, Vector.length_toList, List.length_cons,
    List.length_nil]

/-- The words of a record. -/
theorem wordsOf_bytes (e : TeeSelectEntry) : wordsOf e.bytes =
    e.magic :: leWord e.version e.bootPartition e.otaState e.reserved1 :: (e.reserved2.toList ++ [e.crc]) := by
  unfold bytes leBytes
  simp only [List.cons_append, List.nil_append, wordsOf, leWord_leBytes]
  have htail := wordsOf_flatMap (e.reserved2.toList ++ [e.crc])
  rw [List.flatMap_append, List.flatMap_singleton] at htail
  rw [← htail]
  rfl

theorem ofBytes_bytes (e : TeeSelectEntry) : ofBytes e.bytes = e := by
  have hwords := e.wordsOf_bytes
  unfold ofBytes
  rw [hwords]
  obtain ⟨magic, version, boot, state, reserved1, reserved2, crc⟩ := e
  have hlen : reserved2.toList.length = 5 := Vector.length_toList
  have hres : (Vector.ofFn fun i : Fin 5 => (magic :: leWord version boot state reserved1 ::
      (reserved2.toList ++ [crc])).getD (2 + i) 0) = reserved2 := by
    apply Vector.ext
    intro i hi
    rw [Vector.getElem_ofFn]
    simp only [List.getD_eq_getElem?_getD, show 2 + i = i + 2 by omega, List.getElem?_cons_succ]
    rw [List.getElem?_append_left (by omega)]
    simp [hi]
  have hcrc : (magic :: leWord version boot state reserved1 :: (reserved2.toList ++ [crc])).getD 7 0 = crc := by
    simp only [List.getD_eq_getElem?_getD, List.getElem?_cons_succ]
    rw [List.getElem?_append_right (by omega), hlen]
    rfl
  simp only [hres, hcrc]
  rfl

theorem fresh_crc (bootPartition otaState : UInt8) :
    (fresh bootPartition otaState).computedCrc = (fresh bootPartition otaState).crc := rfl

theorem fresh_magic (bootPartition otaState : UInt8) : (fresh bootPartition otaState).magic = teeOtadataMagic := rfl

/-- An erased copy does not pass for a record. -/
theorem blank_crc : blank.computedCrc ≠ blank.crc := by
  decide +kernel

end TeeSelectEntry

/-! ## What a read returns -/

/-- A partition of two whole sectors. -/
structure TeePartitionPos.Usable (info : TeePartitionPos) : Prop where
  offset_ne : info.offset ≠ 0
  size_ge : 2 * flashSectorSize.toNat ≤ info.size.toNat
  aligned : flashSectorSize.toNat ∣ info.offset.toNat
  fits : info.offset.toNat + 2 * flashSectorSize.toNat ≤ 2 ^ 32

/-- The copy at `addr`. -/
def copyAt (img : Image) (addr : Nat) : TeeSelectEntry := TeeSelectEntry.ofBytes (readBytes img addr 32)

def TeePartitionPos.copy0 (info : TeePartitionPos) (img : Image) : TeeSelectEntry := copyAt img info.offset.toNat

def TeePartitionPos.copy1 (info : TeePartitionPos) (img : Image) : TeeSelectEntry :=
  copyAt img (info.offset.toNat + flashSectorSize.toNat)

/-- The result of `get_valid_tee_otadata` for two copies. -/
def verdict (e0 e1 : TeeSelectEntry) : Except TeeErr TeeSelectEntry :=
  if e0 = e1 then
    if e0 ≠ TeeSelectEntry.blank ∧ (e0.magic ≠ teeOtadataMagic ∨ e0.computedCrc ≠ e0.crc) then .error .fail
    else .ok e0
  else if e0.computedCrc = e0.crc then .ok e0
  else if e1.computedCrc = e1.crc then .ok e1
  else .error .abort

theorem getValid_result {info : TeePartitionPos} (h : info.Usable) (img : Image) :
    (getValidTeeOtadata info () img).result = verdict (info.copy0 img) (info.copy1 img) := by
  have hsize : ¬info.size < 2 * flashSectorSize := by
    have hge := h.size_ge
    rw [UInt32.lt_iff_toNat_lt]
    exact not_lt.mpr hge
  have hread : (readTeeOtadata info).orFail .notFound () img = ⟨.ok (info.copy0 img, info.copy1 img), (), []⟩ := by
    unfold Prog.orFail readTeeOtadata
    rw [if_neg h.offset_ne, if_neg hsize]
    rfl
  unfold getValidTeeOtadata
  rw [bind_quiet hread]
  dsimp only
  unfold verdict
  split_ifs <;> rfl

/-! ## Cuts of an update -/

/-- The bytes of the first copy when power is lost after `k` bytes of operation `n`, `n < 2`. -/
def leftover (old new : List UInt8) (n k : Nat) : List UInt8 :=
  if n = 0 then List.replicate (min k 32) 0xFF ++ old.drop k else new.take k ++ List.replicate (32 - k) 0xFF

theorem writeSector_run (e : TeeSelectEntry) {offset : UInt32} (ha : flashSectorSize.toNat ∣ offset.toNat)
    (img : Image) : writeTeeOtadataSector e offset () img =
      ⟨.ok (), (), [.erase offset.toNat 4096, .write offset.toNat e.bytes]⟩ := by
  have hstart : (offset / flashSectorSize).toNat * flashSectorSize.toNat = offset.toNat := by
    rw [UInt32.toNat_div, Nat.div_mul_cancel ha]
  unfold writeTeeOtadataSector
  rw [hstart]
  rfl

section Update

variable {info : TeePartitionPos} (h : info.Usable) (bootPartition otaState : UInt8) (img : Image)
include h

theorem update_run : updateTeeOtadata info bootPartition otaState () img = ⟨.ok (), (),
    [.erase info.offset.toNat 4096, .write info.offset.toNat (TeeSelectEntry.fresh bootPartition otaState).bytes,
      .erase (info.offset.toNat + 4096) 4096,
      .write (info.offset.toNat + 4096) (TeeSelectEntry.fresh bootPartition otaState).bytes]⟩ := by
  have h4096 : flashSectorSize.toNat = 4096 := rfl
  have hfits := h.fits
  have hnext : (info.offset + flashSectorSize).toNat = info.offset.toNat + 4096 :=
    toNat_add_of_lt (by rw [h4096] at hfits ⊢; omega)
  have haligned : flashSectorSize.toNat ∣ (info.offset + flashSectorSize).toNat := by
    rw [hnext]
    exact Nat.dvd_add h.aligned (dvd_refl _)
  unfold updateTeeOtadata writeTeeOtadata
  rw [bind_run (writeSector_run _ h.aligned _) (writeSector_run _ haligned _), hnext]
  rfl

/-- Before the first copy is complete the second one is untouched; from then on the first one is the new record. -/
theorem update_cut (n k : Nat) :
    let cut := cutAt (updateTeeOtadata info bootPartition otaState () img).ops n k img
    if n < 2 then
      info.copy0 cut = TeeSelectEntry.ofBytes (leftover (readBytes img info.offset.toNat 32)
          (TeeSelectEntry.fresh bootPartition otaState).bytes n k) ∧
        info.copy1 cut = info.copy1 img
    else info.copy0 cut = TeeSelectEntry.fresh bootPartition otaState := by
  have h4096 : flashSectorSize.toNat = 4096 := rfl
  have hlen := (TeeSelectEntry.fresh bootPartition otaState).bytes_length
  -- the operations on the two copies
  have hwithin0 : ∀ op ∈ [Op.erase info.offset.toNat 4096,
      .write info.offset.toNat (TeeSelectEntry.fresh bootPartition otaState).bytes],
      op.Within info.offset.toNat 4096 := by
    intro op hop
    simp only [List.mem_cons, List.not_mem_nil, or_false] at hop
    rcases hop with rfl | rfl
    · exact ⟨le_rfl, le_rfl⟩
    · exact ⟨le_rfl, by omega⟩
  have hwithin1 : ∀ op ∈ [Op.erase (info.offset.toNat + 4096) 4096,
      .write (info.offset.toNat + 4096) (TeeSelectEntry.fresh bootPartition otaState).bytes],
      op.Within (info.offset.toNat + 4096) 4096 := by
    intro op hop
    simp only [List.mem_cons, List.not_mem_nil, or_false] at hop
    rcases hop with rfl | rfl
    · exact ⟨le_rfl, le_rfl⟩
    · exact ⟨le_rfl, by omega⟩
  rw [update_run h]
  dsimp only
  rw [show ∀ a b c d : Op, [a, b, c, d] = [a, b] ++ [c, d] from fun _ _ _ _ => rfl, cutAt_append]
  split_ifs with h1 h2 h2
  · constructor
    · unfold TeePartitionPos.copy0 copyAt leftover
      congr 1
      match n, h1 with
      | 0, _ =>
        change readBytes (eraseRange img info.offset.toNat (min k 4096)) _ _ = _
        rw [readBytes_eraseRange, if_pos rfl, min_assoc, show min 4096 32 = 32 from rfl]
        congr 1
        rcases le_total k 4096 with hk | hk
        · rw [min_eq_left hk]
        · rw [min_eq_right hk, List.drop_eq_nil_of_le (by simp), List.drop_eq_nil_of_le (by simp; omega)]
      | 1, _ => exact readBytes_program_take hlen (fun a h3 h4 => eraseRange_in h3 (by omega)) k
    · unfold TeePartitionPos.copy1 copyAt
      rw [readBytes_congr fun a h3 _ => cut_out hwithin0 (cut_iff_cutAt.mpr ⟨n, k, rfl⟩) (Or.inr (by omega))]
  · exact absurd h1 (by simpa using h2)
  · exact absurd h2 (by simpa using h1)
  · unfold TeePartitionPos.copy0 copyAt
    rw [readBytes_congr fun a _ h4 => cut_out hwithin1 (cut_iff_cutAt.mpr ⟨_, k, rfl⟩) (Or.inl (by omega))]
    have herased : ∀ a, info.offset.toNat ≤ a → a < info.offset.toNat + 32 →
        eraseRange img info.offset.toNat 4096 a = 0xFF := fun a h3 h4 => eraseRange_in h3 (by omega)
    have hread := readBytes_program_take hlen herased 32
    rw [Nat.sub_self, List.replicate_zero, List.append_nil, List.take_of_length_le (le_of_eq hlen)] at hread
    exact (congrArg TeeSelectEntry.ofBytes hread).trans (TeeSelectEntry.ofBytes_bytes _)

end Update

/-! ## The next read -/

/-- The first copy cut off to `t` does no harm: it is the old or the new record already, or a read goes to a second
copy that holds the old or the new record. -/
def HarmlessCopy (e0 e1 new t : TeeSelectEntry) : Prop :=
  t = e0 ∨ t = new ∨ (t = e1 ∧ e0.computedCrc ≠ e0.crc ∧ e1.magic = teeOtadataMagic) ∨
    (t.computedCrc ≠ t.crc ∧ e1.computedCrc = e1.crc ∧ (e0 = e1 ∨ e0.computedCrc ≠ e0.crc ∨ e1 = new))

/-- The next read gives the old or the new record exactly when what is left of the first copy is harmless. -/
theorem verdict_iff {e0 e1 old new t : TeeSelectEntry} (hold : verdict e0 e1 = .ok old)
    (hnew : new.computedCrc = new.crc) (hmagic : new.magic = teeOtadataMagic) :
    (verdict t e1 = .ok old ∨ verdict t e1 = .ok new) ↔ HarmlessCopy e0 e1 new t := by
  have hblank := TeeSelectEntry.blank_crc
  unfold verdict at hold ⊢
  unfold HarmlessCopy
  by_cases h01 : e0 = e1
  · -- both copies hold the old record; a read goes to the second one unless `t` passes for a record
    grind
  · by_cases hc0 : e0.computedCrc = e0.crc
    · -- only the first copy holds it, and `t` replaces that
      grind
    · -- only the second copy holds it
      grind

/-- The first copy is the new record: so is the result. -/
theorem verdict_new {e1 new : TeeSelectEntry} (hnew : new.computedCrc = new.crc)
    (hmagic : new.magic = teeOtadataMagic) : verdict new e1 = .ok new := by
  have haccepted : ¬(new ≠ TeeSelectEntry.blank ∧ (new.magic ≠ teeOtadataMagic ∨ new.computedCrc ≠ new.crc)) :=
    fun h => h.2.elim (fun h => h hmagic) (fun h => h hnew)
  unfold verdict
  rw [if_neg haccepted, if_pos hnew]
  exact ite_self _

/-- When power is lost during an update, the next read gives the old or the new record exactly when the first copy is
complete or what is left of it is harmless. -/
theorem tee_update_safe_iff {info : TeePartitionPos} (h : info.Usable) {img : Image} {old : TeeSelectEntry}
    (hold : (getValidTeeOtadata info () img).result = .ok old) (bootPartition otaState : UInt8) (n k : Nat) :
    let new := TeeSelectEntry.fresh bootPartition otaState
    let cut := cutAt (updateTeeOtadata info bootPartition otaState () img).ops n k img
    ((getValidTeeOtadata info () cut).result = .ok old ∨ (getValidTeeOtadata info () cut).result = .ok new) ↔
      (n < 2 → HarmlessCopy (info.copy0 img) (info.copy1 img) new
        (TeeSelectEntry.ofBytes (leftover (readBytes img info.offset.toNat 32) new.bytes n k))) := by
  intro new cut
  have hcut := update_cut h bootPartition otaState img n k
  have hnew := TeeSelectEntry.fresh_crc bootPartition otaState
  have hmagic := TeeSelectEntry.fresh_magic bootPartition otaState
  rw [getValid_result h] at hold
  simp only [getValid_result h]
  dsimp only at hcut
  split_ifs at hcut with hn
  · rw [hcut.1, hcut.2, verdict_iff hold hnew hmagic]
    exact ⟨fun hh _ => hh, fun hh => hh hn⟩
  · rw [hcut, verdict_new hnew hmagic]
    exact ⟨fun _ hlt => absurd hlt hn, fun _ => Or.inr rfl⟩

/-! ## The first update of an erased partition -/

/-- A partition of two sectors behind the partition table. -/
def twoSectors : TeePartitionPos := ⟨0xd000, 0x2000⟩

theorem twoSectors_usable : twoSectors.Usable where
  offset_ne := by decide
  size_ge := by decide
  aligned := by decide
  fits := by decide

theorem getValid_erased : (getValidTeeOtadata twoSectors () fun _ => 0xFF).result = .ok TeeSelectEntry.blank := by
  rw [getValid_result twoSectors_usable]
  rfl

theorem tee_update_safe_iff_twoSectors :
    let cut := cutAt (updateTeeOtadata twoSectors 0x30 0xAA () fun _ => 0xFF).ops 2 7 fun _ => 0xFF
    (getValidTeeOtadata twoSectors () cut).result = .ok TeeSelectEntry.blank ∨
      (getValidTeeOtadata twoSectors () cut).result = .ok (TeeSelectEntry.fresh 0x30 0xAA) :=
  (tee_update_safe_iff twoSectors_usable getValid_erased 0x30 0xAA 2 7).mpr fun hlt => absurd hlt (by decide)

/-- Both copies are erased, a state reads accept. Power is lost after four bytes of the first record ever written:
every further read calls `abort`. -/
theorem first_update_cut_aborts :
    (getValidTeeOtadata twoSectors () fun _ => 0xFF).result = .ok TeeSelectEntry.blank ∧
      (getValidTeeOtadata twoSectors () (cutAt (updateTeeOtadata twoSectors 0x30 0xAA () fun _ => 0xFF).ops 1 4
        fun _ => 0xFF)).result = .error .abort := by
  refine ⟨getValid_erased, ?_⟩
  have hcut := update_cut twoSectors_usable 0x30 0xAA (fun _ => 0xFF) 1 4
  dsimp only at hcut
  rw [if_pos (by decide)] at hcut
  rw [getValid_result twoSectors_usable, hcut.1, hcut.2]
  unfold verdict
  rw [if_neg (by decide +kernel), if_neg (by decide +kernel), if_neg (by decide +kernel)]

end EspIdf.Ota
