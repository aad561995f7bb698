import EspIdf.WearLevelling.ExtPerf

/-!
# Erasing part of a sector with a dump: `WL_Ext_Safe`

* `ExtPerf.recover`, `ExtPerf.safeEraseSectorFit` : the class over the layer of `ExtPerf`, two sectors reserved;
* `recover_clean`, `recover_pending` : what a restart issues, without and with a pending record;
* `PowerSafe x first count n k` : a cut after `k` bytes of operation `n` loses nothing outside the erased range;
* `erase_sector_fit_safe_iff` : it does not, except for a record cut off in the middle (`HarmlessRecord`).
-/

namespace EspIdf.WearLevelling

open Word32 NorFlash

/-- `WL_EXT_SAFE_OK`. -/
def safeOk : UInt32 := 0x12345678

/-- `WL_Ext_Safe_State`. -/
structure TransState where
  sectorRestoreSign : UInt32
  sectorBaseAddr : UInt32
  sectorBaseAddrOffset : UInt32
  count : UInt32
  deriving DecidableEq, Repr

namespace TransState

def bytes (t : TransState) : List UInt8 :=
  [t.sectorRestoreSign, t.sectorBaseAddr, t.sectorBaseAddrOffset, t.count].flatMap leBytes

def ofBytes (bs : List UInt8) : TransState where
  sectorRestoreSign := (wordsOf bs).getD 0 0
  sectorBaseAddr := (wordsOf bs).getD 1 0
  sectorBaseAddrOffset := (wordsOf bs).getD 2 0
  count := (wordsOf bs).getD 3 0

/-- What an erased sector holds of the record after its first `k` bytes. -/
def cutOff (t : TransState) (k : Nat) : TransState := ofBytes (t.bytes.take k ++ List.replicate (16 - k) 0xFF)

theorem ofBytes_bytes (t : TransState) : ofBytes t.bytes = t := by
  unfold ofBytes bytes
  rw [wordsOf_flatMap]
  rfl

/-- A record that is written completely. -/
theorem cutOff_all (t : TransState) {k : Nat} (hk : 16 ≤ k) : t.cutOff k = t := by
  unfold cutOff
  rw [show 16 - k = 0 by omega, List.replicate_zero, List.append_nil, List.take_of_length_le hk, t.ofBytes_bytes]

theorem bytes_length (t : TransState) : t.bytes.length = 16 := rfl

end TransState

namespace ExtPerf

def buffTransStateAddr (x : ExtPerf) : UInt32 := x.size - 2 * x.flashSectorSize

def dumpAddr (x : ExtPerf) : UInt32 := x.size - 1 * x.flashSectorSize

/-- The record written before flash sector `base` is erased. -/
def transState (x : ExtPerf) (firstEraseSector count : UInt32) : TransState where
  sectorRestoreSign := safeOk
  sectorBaseAddr := firstEraseSector / x.flashFatSectorSizeFactor
  sectorBaseAddrOffset := firstEraseSector % x.flashFatSectorSizeFactor
  count := count

/-- `WL_Ext_Safe::erase_sector_fit`. -/
def safeEraseSectorFit (x : ExtPerf) (firstEraseSector count : UInt32) : ExtProg Unit := do
  let base := firstEraseSector / x.flashFatSectorSizeFactor
  let preCheckStart := firstEraseSector % x.flashFatSectorSizeFactor
  x.stash base preCheckStart count
  x.eraseSector (x.dumpAddr / x.flashSectorSize)
  let buffer ← Prog.getRam
  x.write x.dumpAddr (buffer.take x.flashSectorSize.toNat)
  x.eraseSector (x.buffTransStateAddr / x.flashSectorSize)
  x.write (x.buffTransStateAddr + 0) (x.transState firstEraseSector count).bytes
  x.eraseSector base
  x.restore base preCheckStart count
  x.eraseSector (x.buffTransStateAddr / x.flashSectorSize)

/-- `WL_Ext_Safe::recover`. -/
def recover (x : ExtPerf) : ExtProg Unit := do
  let bytes ← x.read x.buffTransStateAddr 16
  let state := TransState.ofBytes bytes
  if state.sectorRestoreSign = safeOk then do
    let dump ← x.read x.dumpAddr x.flashSectorSize
    Prog.modifyRam (store 0 dump)
    x.eraseSector state.sectorBaseAddr
    x.restore state.sectorBaseAddr state.sectorBaseAddrOffset state.count
    x.eraseRange x.safeEraseSectorFit x.buffTransStateAddr x.flashSectorSize
  else pure ()

/-! ## The reserved sectors -/

/-- Room for the record and for the two reserved sectors. -/
structure Reserves (x : ExtPerf) : Prop extends x.Fits where
  record_le : 16 ≤ x.flashSectorSize.toNat
  room : 2 * x.flashSectorSize.toNat ≤ x.size.toNat

/-- Where the record and the dump are. -/
def statePos (x : ExtPerf) : Nat := x.size.toNat - 2 * x.flashSectorSize.toNat

def dumpPos (x : ExtPerf) : Nat := x.size.toNat - x.flashSectorSize.toNat

/-- The record in the flash. -/
def pending (x : ExtPerf) (img : Image) : TransState := TransState.ofBytes (readBytes img x.statePos 16)

namespace Reserves

variable {x : ExtPerf} (h : x.Reserves)
include h

theorem stateAddr_toNat : x.buffTransStateAddr.toNat = x.statePos := by
  have hroom := h.room
  have hlt := h.size_lt
  have h2 : (2 * x.flashSectorSize : UInt32).toNat = 2 * x.flashSectorSize.toNat :=
    toNat_mul_of_lt (by change 2 * _ < _; omega)
  unfold buffTransStateAddr statePos
  rw [toNat_sub_of_le (by rw [h2]; exact hroom), h2]

theorem dumpAddr_toNat : x.dumpAddr.toNat = x.dumpPos := by
  have hroom := h.room
  unfold dumpAddr dumpPos
  rw [UInt32.one_mul, toNat_sub_of_le (by omega)]

theorem statePos_dvd : x.flashSectorSize.toNat ∣ x.statePos := Nat.dvd_sub h.size_dvd (Nat.dvd_mul_left _ _)

theorem dumpPos_dvd : x.flashSectorSize.toNat ∣ x.dumpPos := Nat.dvd_sub h.size_dvd (dvd_refl _)

theorem wrap_state : x.wrap x.buffTransStateAddr = x.statePos := by
  have hS := h.sector_pos
  have hroom := h.room
  have hpos : x.statePos = x.size.toNat - 2 * x.flashSectorSize.toNat := rfl
  rw [h.wrap_of_lt (by rw [h.stateAddr_toNat]; omega), h.stateAddr_toNat]

theorem wrap_dump : x.wrap x.dumpAddr = x.dumpPos := by
  have hS := h.sector_pos
  have hroom := h.room
  have hpos : x.dumpPos = x.size.toNat - x.flashSectorSize.toNat := rfl
  rw [h.wrap_of_lt (by rw [h.dumpAddr_toNat]; omega), h.dumpAddr_toNat]

theorem place_state : x.place (x.buffTransStateAddr / x.flashSectorSize) = x.statePos := by
  have hS := h.sector_pos
  have hroom := h.room
  have hpos : x.statePos = x.size.toNat - 2 * x.flashSectorSize.toNat := rfl
  rw [h.place_div (by rw [h.stateAddr_toNat]; exact h.statePos_dvd) (by rw [h.stateAddr_toNat]; omega),
    h.stateAddr_toNat]

theorem place_dump : x.place (x.dumpAddr / x.flashSectorSize) = x.dumpPos := by
  have hS := h.sector_pos
  have hroom := h.room
  have hpos : x.dumpPos = x.size.toNat - x.flashSectorSize.toNat := rfl
  rw [h.place_div (by rw [h.dumpAddr_toNat]; exact h.dumpPos_dvd) (by rw [h.dumpAddr_toNat]; omega),
    h.dumpAddr_toNat]

omit h in
/-- Two sectors are the same or apart. -/
theorem place_apart {a b : Nat} (ha : x.flashSectorSize.toNat ∣ a) (hb : x.flashSectorSize.toNat ∣ b) (hne : a ≠ b) :
    a + x.flashSectorSize.toNat ≤ b ∨ b + x.flashSectorSize.toNat ≤ a := by
  obtain ⟨i, rfl⟩ := ha
  obtain ⟨j, rfl⟩ := hb
  rw [← Nat.mul_succ, ← Nat.mul_succ]
  rcases lt_trichotomy i j with hij | rfl | hij
  · exact Or.inl (Nat.mul_le_mul_left _ hij)
  · exact absurd rfl hne
  · exact Or.inr (Nat.mul_le_mul_left _ hij)

end Reserves

/-! ## Records -/

theorem pending_congr {x : ExtPerf} {img img' : Image}
    (he : ∀ a, x.statePos ≤ a → a < x.statePos + 16 → img a = img' a) : x.pending img = x.pending img' := by
  unfold pending
  rw [readBytes_congr he]

/-- The signature is not there when its first byte is erased. -/
theorem pending_broken {x : ExtPerf} {img : Image} (hff : img x.statePos = 0xFF) :
    (x.pending img).sectorRestoreSign ≠ safeOk := by
  have e : readBytes img x.statePos 16 = 0xFF :: readBytes img (x.statePos + 1) 15 := by
    rw [show 16 = 1 + 15 from rfl, readBytes_append]
    simp [readBytes, hff]
  intro hok
  unfold pending TransState.ofBytes at hok
  rw [e] at hok
  change leWord 0xFF _ _ _ = safeOk at hok
  have hn := congrArg UInt32.toNat hok
  rw [leWord_toNat] at hn
  have h255 : (0xFF : UInt8).toNat = 255 := rfl
  have hsafe : safeOk.toNat = 0x12345678 := rfl
  rw [h255, hsafe] at hn
  omega

/-- A record cut off after `k` bytes, as read from an erased sector. -/
theorem pending_cutOff {x : ExtPerf} {img : Image} {t : TransState} {k : Nat}
    (herased : ∀ a, x.statePos ≤ a → a < x.statePos + 16 → img a = 0xFF) :
    x.pending (program img x.statePos (t.bytes.take k)) = t.cutOff k := by
  unfold pending TransState.cutOff
  rw [readBytes_program_take t.bytes_length herased]

/-! ## What the two functions issue -/

section Runs

variable {x : ExtPerf} (h : x.Reserves)
include h

/-- The operations that put the sector back from `dump`. -/
def restoring (x : ExtPerf) (t : TransState) (dump : List UInt8) : List Op :=
  .erase (x.place t.sectorBaseAddr) x.flashSectorSize.toNat ::
    (List.range' 0 x.flashFatSectorSizeFactor.toNat).flatMap
      (x.restoreOps t.sectorBaseAddr t.sectorBaseAddrOffset t.count dump)

/-- The operations that erase the record. -/
def clearing (x : ExtPerf) : List Op := [.erase x.statePos x.flashSectorSize.toNat]

/-- The operations that save the sector. -/
def saving (x : ExtPerf) (dump : List UInt8) : List Op :=
  [.erase x.dumpPos x.flashSectorSize.toNat, .write x.dumpPos dump, .erase x.statePos x.flashSectorSize.toNat]

theorem safeEraseSectorFit_run (first count : UInt32) {buffer : List UInt8}
    (hlen : buffer.length = x.flashSectorSize.toNat) (img : Image) :
    ∃ dump, x.safeEraseSectorFit first count buffer img = ⟨.ok (), dump,
        x.saving dump ++ ([.write x.statePos (x.transState first count).bytes] ++
          (x.restoring (x.transState first count) dump ++ x.clearing))⟩ ∧
      dump.length = x.flashSectorSize.toNat ∧
      ∀ p < x.flashSectorSize.toNat, dump.getD p 0xFF =
        if Kept (first % x.flashFatSectorSizeFactor) count (p / x.fatSectorSize.toNat) then
          img (x.place (first / x.flashFatSectorSizeFactor) + p)
        else buffer.getD p 0xFF := by
  obtain ⟨dump, hstash, hdump, hbytes⟩ := stash_run (h.laid (first / x.flashFatSectorSizeFactor))
    (first % x.flashFatSectorSizeFactor) count hlen img
  refine ⟨dump, ?_, hdump, hbytes⟩
  have htake : dump.take x.flashSectorSize.toNat = dump := List.take_of_length_le (le_of_eq hdump)
  have herase := h.toFits.eraseSector_run
  have hdumpWrite : ∀ img', x.write x.dumpAddr (dump.take x.flashSectorSize.toNat) dump img' =
      ⟨.ok (), dump, [.write x.dumpPos dump]⟩ := by
    intro img'
    rw [htake, ← h.wrap_dump]
    rfl
  have hstateWrite : ∀ img', x.write (x.buffTransStateAddr + 0) (x.transState first count).bytes dump img' =
      ⟨.ok (), dump, [.write x.statePos (x.transState first count).bytes]⟩ := by
    intro img'
    rw [UInt32.add_zero, ← h.wrap_state]
    rfl
  unfold safeEraseSectorFit
  rw [bind_quiet hstash, bind_run (herase _ dump _) rfl, bind_quiet rfl, bind_run (hdumpWrite _) rfl,
    bind_run (herase _ dump _) rfl, bind_run (hstateWrite _) rfl, bind_run (herase _ dump _) rfl,
    bind_run (restore_run _ count dump _) (herase _ dump _), h.place_dump, h.place_state]
  rfl

theorem recover_clean {buffer : List UInt8} {img : Image} (hsign : (x.pending img).sectorRestoreSign ≠ safeOk) :
    x.recover buffer img = ⟨.ok (), buffer, []⟩ := by
  have hread : x.read x.buffTransStateAddr 16 buffer img = ⟨.ok (readBytes img x.statePos 16), buffer, []⟩ := by
    rw [← h.wrap_state]
    rfl
  unfold recover
  rw [bind_quiet hread]
  change (if (x.pending img).sectorRestoreSign = safeOk then _ else _ : ExtProg Unit) buffer img = _
  rw [if_neg hsign]
  rfl

theorem recover_pending {buffer : List UInt8} (hlen : buffer.length = x.flashSectorSize.toNat) {img : Image}
    (hsign : (x.pending img).sectorRestoreSign = safeOk) :
    x.recover buffer img = ⟨.ok (), readBytes img x.dumpPos x.flashSectorSize.toNat,
      x.restoring (x.pending img) (readBytes img x.dumpPos x.flashSectorSize.toNat) ++ x.clearing⟩ := by
  have hread : x.read x.buffTransStateAddr 16 buffer img = ⟨.ok (readBytes img x.statePos 16), buffer, []⟩ := by
    rw [← h.wrap_state]
    rfl
  have hdump : x.read x.dumpAddr x.flashSectorSize buffer img =
      ⟨.ok (readBytes img x.dumpPos x.flashSectorSize.toNat), buffer, []⟩ := by
    rw [← h.wrap_dump]
    rfl
  have hstore : store 0 (readBytes img x.dumpPos x.flashSectorSize.toNat) buffer =
      readBytes img x.dumpPos x.flashSectorSize.toNat := by
    unfold store
    rw [readBytes_length, List.take_zero, List.nil_append, List.drop_eq_nil_of_le (by omega), List.append_nil]
  have hmodify : Prog.modifyRam (ε := EspErr) (store 0 (readBytes img x.dumpPos x.flashSectorSize.toNat)) buffer img =
      ⟨.ok (), readBytes img x.dumpPos x.flashSectorSize.toNat, []⟩ := by
    change (⟨.ok (), store 0 _ buffer, []⟩ : Outcome _ _ _) = _
    rw [hstore]
  have hlast : ∀ img', x.eraseRange x.safeEraseSectorFit x.buffTransStateAddr x.flashSectorSize
      (readBytes img x.dumpPos x.flashSectorSize.toNat) img' =
        ⟨.ok (), readBytes img x.dumpPos x.flashSectorSize.toNat, x.clearing⟩ := by
    intro img'
    rw [h.toFits.eraseRange_sector _ (by rw [h.stateAddr_toNat]; exact h.statePos_dvd), h.toFits.eraseSector_run,
      h.place_state]
    rfl
  unfold recover
  rw [bind_quiet hread]
  change (if (x.pending img).sectorRestoreSign = safeOk then _ else _ : ExtProg Unit) buffer img = _
  rw [if_pos hsign, bind_quiet hdump, bind_quiet hmodify, bind_run (h.toFits.eraseSector_run _ _ _) rfl,
    bind_run (restore_run _ _ _ _) (hlast _)]
  rfl

theorem restoring_within (t : TransState) {dump : List UInt8} (hlen : dump.length = x.flashSectorSize.toNat) :
    ∀ op ∈ x.restoring t dump, op.Within (x.place t.sectorBaseAddr) x.flashSectorSize.toNat := by
  intro op hop
  rcases List.mem_cons.mp hop with rfl | hop
  · exact ⟨le_rfl, le_rfl⟩
  · exact restore_within (h.laid _) _ _ hlen op hop

/-- The sector put back: the FAT sectors the record keeps come from the dump. -/
theorem restoring_in (t : TransState) {dump : List UInt8} (hlen : dump.length = x.flashSectorSize.toNat) (img : Image)
    {p : Nat} (hp : p < x.flashSectorSize.toNat) :
    applyAll (x.restoring t dump) img (x.place t.sectorBaseAddr + p) =
      if Kept t.sectorBaseAddrOffset t.count (p / x.fatSectorSize.toNat) then dump.getD p 0xFF else 0xFF := by
  apply restore_erased (h.laid _) _ _ hlen _ hp
  intro q hq
  exact eraseRange_in (by omega) (by omega)

omit h in
theorem clearing_in {img : Image} {a : Nat} (h1 : x.statePos ≤ a) (h2 : a < x.statePos + x.flashSectorSize.toNat) :
    applyAll x.clearing img a = 0xFF :=
  eraseRange_in h1 h2

omit h in
theorem clearing_out {img : Image} {a : Nat} (ha : a < x.statePos ∨ x.statePos + x.flashSectorSize.toNat ≤ a) :
    applyAll x.clearing img a = img a :=
  eraseRange_out ha

end Runs

/-! ## Restarts after a cut -/

/-- Byte `a` belongs to the user and not to the `count` FAT sectors from `first` on. -/
def Outside (x : ExtPerf) (first count : UInt32) (a : Nat) : Prop :=
  a < x.statePos ∧
    (a < first.toNat * x.fatSectorSize.toNat ∨ (first.toNat + count.toNat) * x.fatSectorSize.toNat ≤ a)

/-- A restart on `cut` brings back what `img` held outside the range, and the next one changes nothing. -/
def Recovers (x : ExtPerf) (first count : UInt32) (img cut : Image) : Prop :=
  ∀ buffer buffer' : List UInt8, buffer.length = x.flashSectorSize.toNat → buffer'.length = x.flashSectorSize.toNat →
    (x.recover buffer cut).result = .ok () ∧
      (∀ a, x.Outside first count a → x.recover.flash buffer cut a = img a) ∧
      x.recover buffer' (x.recover.flash buffer cut) = ⟨.ok (), buffer', []⟩

/-- A power cut after `k` bytes of operation `n` of `erase_sector_fit` loses nothing outside the range. -/
def PowerSafe (x : ExtPerf) (first count : UInt32) (n k : Nat) : Prop :=
  ∀ (img : Image) (buffer : List UInt8), buffer.length = x.flashSectorSize.toNat →
    (x.pending img).sectorRestoreSign ≠ safeOk →
    x.Recovers first count img (cutAt (x.safeEraseSectorFit first count buffer img).ops n k img)

/-- Acting on the record cut off after `k` bytes does no harm: it is not signed, it names a reserved sector, or it
names the right one with all the FAT sectors to keep. -/
def HarmlessRecord (x : ExtPerf) (first count : UInt32) (k : Nat) : Prop :=
  let t := (x.transState first count).cutOff k
  t.sectorRestoreSign ≠ safeOk ∨ x.place t.sectorBaseAddr = x.statePos ∨ x.place t.sectorBaseAddr = x.dumpPos ∨
    (x.place t.sectorBaseAddr = x.place (first / x.flashFatSectorSizeFactor) ∧
      ∀ i < x.flashFatSectorSizeFactor.toNat, Kept (first % x.flashFatSectorSizeFactor) count i →
        Kept t.sectorBaseAddrOffset t.count i)

instance (x : ExtPerf) (first count : UInt32) (k : Nat) : Decidable (x.HarmlessRecord first count k) :=
  inferInstanceAs (Decidable (_ ∨ _ ∨ _ ∨ _ ∧ _))

/-- The range lies in one flash sector of the user. -/
structure InSector (x : ExtPerf) (first count : UInt32) : Prop where
  user : ((first / x.flashFatSectorSizeFactor).toNat + 1) * x.flashSectorSize.toNat ≤ x.statePos
  count_le : (first % x.flashFatSectorSizeFactor).toNat + count.toNat ≤ x.flashFatSectorSizeFactor.toNat

section Restart

variable {x : ExtPerf} (h : x.Reserves) {first count : UInt32}
include h

theorem recovers_clean {img cut : Image} (hsign : (x.pending cut).sectorRestoreSign ≠ safeOk)
    (hsame : ∀ a, x.Outside first count a → cut a = img a) : x.Recovers first count img cut := by
  intro buffer buffer' _ _
  have hflash : x.recover.flash buffer cut = cut := by
    unfold Prog.flash
    rw [recover_clean h hsign]
    rfl
  rw [hflash, recover_clean h hsign, recover_clean h hsign]
  exact ⟨rfl, hsame, rfl⟩

/-- After acting on a signed record the sector it names is put back and the record is gone. -/
theorem flash_pending {buffer : List UInt8} (hlen : buffer.length = x.flashSectorSize.toNat) {cut : Image}
    (hsign : (x.pending cut).sectorRestoreSign = safeOk) {a : Nat} (ha : a < x.statePos) :
    (∀ p < x.flashSectorSize.toNat, a = x.place (x.pending cut).sectorBaseAddr + p →
        x.recover.flash buffer cut a =
          if Kept (x.pending cut).sectorBaseAddrOffset (x.pending cut).count (p / x.fatSectorSize.toNat) then
            cut (x.dumpPos + p)
          else 0xFF) ∧
      (a < x.place (x.pending cut).sectorBaseAddr ∨
          x.place (x.pending cut).sectorBaseAddr + x.flashSectorSize.toNat ≤ a →
        x.recover.flash buffer cut a = cut a) := by
  have hdump : (readBytes cut x.dumpPos x.flashSectorSize.toNat).length = x.flashSectorSize.toNat :=
    readBytes_length _ _ _
  have hflash : x.recover.flash buffer cut a =
      applyAll (x.restoring (x.pending cut) (readBytes cut x.dumpPos x.flashSectorSize.toNat)) cut a := by
    unfold Prog.flash
    rw [recover_pending h hlen hsign, applyAll_append, clearing_out (Or.inl ha)]
  constructor
  · intro p hp e
    rw [hflash, e, restoring_in h _ hdump _ hp, readBytes_getD hp]
  · intro hout
    rw [hflash]
    exact cut_out (restoring_within h _ hdump) (cut_all _ _) hout

theorem recovers_pending {img cut : Image} (hsign : (x.pending cut).sectorRestoreSign = safeOk)
    (hback : ∀ buffer : List UInt8, buffer.length = x.flashSectorSize.toNat →
      ∀ a, x.Outside first count a → x.recover.flash buffer cut a = img a) : x.Recovers first count img cut := by
  intro buffer buffer' hlen _
  refine ⟨?_, hback buffer hlen, ?_⟩
  · rw [recover_pending h hlen hsign]
  · apply recover_clean h
    apply pending_broken
    unfold Prog.flash
    rw [recover_pending h hlen hsign, applyAll_append]
    exact clearing_in le_rfl (by have := h.sector_pos; omega)

end Restart

/-! ## The range and its sector -/

namespace InSector

variable {x : ExtPerf} {first count : UInt32} (hr : x.InSector first count) (h : x.Reserves)
include hr h

omit hr in
/-- The number of a FAT sector is that of its flash sector and its index there. -/
theorem first_mul : first.toNat * x.fatSectorSize.toNat =
    (first / x.flashFatSectorSizeFactor).toNat * x.flashSectorSize.toNat +
      (first % x.flashFatSectorSizeFactor).toNat * x.fatSectorSize.toNat := by
  rw [← h.fatSized.factor_mul, ← Nat.mul_assoc, ← Nat.add_mul, UInt32.toNat_div, UInt32.toNat_mod, Nat.div_add_mod']

theorem place_base : x.place (first / x.flashFatSectorSizeFactor) =
    (first / x.flashFatSectorSizeFactor).toNat * x.flashSectorSize.toNat := by
  have hu := hr.user
  have hS := h.sector_pos
  have hlt := h.size_lt
  have hpos : x.statePos = x.size.toNat - 2 * x.flashSectorSize.toNat := rfl
  rw [Nat.add_mul, Nat.one_mul] at hu
  have hmul : (first / x.flashFatSectorSizeFactor * x.flashSectorSize).toNat =
      (first / x.flashFatSectorSizeFactor).toNat * x.flashSectorSize.toNat := toNat_mul_of_lt (by omega)
  unfold place
  rw [h.wrap_of_lt (by rw [hmul]; omega), hmul]

theorem place_le : x.place (first / x.flashFatSectorSizeFactor) + x.flashSectorSize.toNat ≤ x.statePos := by
  have hu := hr.user
  rw [Nat.add_mul, Nat.one_mul] at hu
  rw [hr.place_base h]
  exact hu

/-- A byte of the sector is outside the range when its FAT sector is kept. -/
theorem outside_iff {p : Nat} (hp : p < x.flashSectorSize.toNat) :
    x.Outside first count (x.place (first / x.flashFatSectorSizeFactor) + p) ↔
      Kept (first % x.flashFatSectorSizeFactor) count (p / x.fatSectorSize.toNat) := by
  have hle := hr.place_le h
  have hcount := hr.count_le
  have hfat := h.fat_pos
  have hS := x.flashSectorSize.toNat_lt
  have hfac := x.flashFatSectorSizeFactor.toNat_lt
  have hi : p / x.fatSectorSize.toNat < x.flashFatSectorSizeFactor.toNat := by
    rw [factor_toNat]
    exact Nat.div_lt_div_of_lt_of_dvd h.fat_dvd hp
  have hi32 : (UInt32.ofNat (p / x.fatSectorSize.toNat)).toNat = p / x.fatSectorSize.toNat :=
    toNat_ofNat_of_lt (by omega)
  have hsum : (count + first % x.flashFatSectorSizeFactor).toNat =
      count.toNat + (first % x.flashFatSectorSizeFactor).toNat := toNat_add_of_lt (by omega)
  unfold Outside Kept
  rw [UInt32.lt_iff_toNat_lt, UInt32.le_iff_toNat_le, hi32, hsum, Nat.add_mul, first_mul h, hr.place_base h,
    Nat.div_lt_iff_lt_mul hfat, Nat.le_div_iff_mul_le hfat, Nat.add_mul]
  rw [hr.place_base h] at hle
  omega

/-- A user byte of another sector is outside the range. -/
theorem outside_of_out {a : Nat} (ha : a < x.statePos)
    (hout : a < x.place (first / x.flashFatSectorSizeFactor) ∨
      x.place (first / x.flashFatSectorSizeFactor) + x.flashSectorSize.toNat ≤ a) : x.Outside first count a := by
  have hmul := Nat.mul_le_mul_right x.fatSectorSize.toNat hr.count_le
  rw [Nat.add_mul, h.fatSized.factor_mul] at hmul
  have hfirst : first.toNat * x.fatSectorSize.toNat = _ := first_mul h
  rw [hr.place_base h] at hout
  refine ⟨ha, ?_⟩
  rw [Nat.add_mul]
  omega

end InSector

/-! ## The cuts -/

section Cuts

variable {x : ExtPerf} (h : x.Reserves) {first count : UInt32} (hr : x.InSector first count)
include h hr

/-- A signed record that names the right sector brings it back from a complete dump. -/
theorem recovers_dump {img cut : Image} (hsign : (x.pending cut).sectorRestoreSign = safeOk)
    (hplace : x.place (x.pending cut).sectorBaseAddr = x.place (first / x.flashFatSectorSizeFactor))
    (hkept : ∀ i < x.flashFatSectorSizeFactor.toNat, Kept (first % x.flashFatSectorSizeFactor) count i →
      Kept (x.pending cut).sectorBaseAddrOffset (x.pending cut).count i)
    (hdump : ∀ p < x.flashSectorSize.toNat,
      Kept (first % x.flashFatSectorSizeFactor) count (p / x.fatSectorSize.toNat) →
        cut (x.dumpPos + p) = img (x.place (first / x.flashFatSectorSizeFactor) + p))
    (hsame : ∀ a < x.statePos, (a < x.place (first / x.flashFatSectorSizeFactor) ∨
      x.place (first / x.flashFatSectorSizeFactor) + x.flashSectorSize.toNat ≤ a) → cut a = img a) :
    x.Recovers first count img cut := by
  apply recovers_pending h hsign
  intro buffer hlen a ha
  obtain ⟨hin, hout⟩ := flash_pending h hlen hsign ha.1
  rw [hplace] at hin hout
  by_cases hsec : x.place (first / x.flashFatSectorSizeFactor) ≤ a ∧
      a < x.place (first / x.flashFatSectorSizeFactor) + x.flashSectorSize.toNat
  · obtain ⟨p, rfl⟩ := Nat.exists_eq_add_of_le hsec.1
    have hp : p < x.flashSectorSize.toNat := by omega
    have hk := (hr.outside_iff h hp).mp ha
    have hi : p / x.fatSectorSize.toNat < x.flashFatSectorSizeFactor.toNat := by
      rw [factor_toNat]
      exact Nat.div_lt_div_of_lt_of_dvd h.fat_dvd hp
    rw [hin p hp rfl, if_pos (hkept _ hi hk), hdump p hp hk]
  · rw [hout (by omega), hsame a ha.1 (by omega)]

omit hr in
/-- A signed record that names a reserved sector leaves the user's bytes alone. -/
theorem recovers_reserved {img cut : Image} (hsign : (x.pending cut).sectorRestoreSign = safeOk)
    (hplace : x.statePos ≤ x.place (x.pending cut).sectorBaseAddr)
    (hsame : ∀ a, x.Outside first count a → cut a = img a) : x.Recovers first count img cut := by
  apply recovers_pending h hsign
  intro buffer hlen a ha
  rw [(flash_pending h hlen hsign ha.1).2 (Or.inl (lt_of_lt_of_le ha.1 hplace)), hsame a ha]

omit hr in
theorem saving_out {dump : List UInt8} (hlen : dump.length = x.flashSectorSize.toNat) :
    ∀ op ∈ x.saving dump, op.Within x.statePos (2 * x.flashSectorSize.toNat) := by
  have hroom := h.room
  have hstate : x.statePos = x.size.toNat - 2 * x.flashSectorSize.toNat := rfl
  have hdump : x.dumpPos = x.size.toNat - x.flashSectorSize.toNat := rfl
  intro op hop
  simp only [saving, List.mem_cons, List.not_mem_nil, or_false] at hop
  rcases hop with rfl | rfl | rfl
  · exact ⟨by omega, by omega⟩
  · exact ⟨by omega, by omega⟩
  · exact ⟨le_rfl, by omega⟩

omit hr in
/-- While the sector is saved there is no signed record. -/
theorem pending_saving {dump : List UInt8} (hlen : dump.length = x.flashSectorSize.toNat) {img cut : Image}
    (hsign : (x.pending img).sectorRestoreSign ≠ safeOk) (hc : Cut img (x.saving dump) cut) :
    (x.pending cut).sectorRestoreSign ≠ safeOk := by
  have hrec := h.record_le
  have hroom := h.room
  have hstate : x.statePos = x.size.toNat - 2 * x.flashSectorSize.toNat := rfl
  have hdump : x.dumpPos = x.size.toNat - x.flashSectorSize.toNat := rfl
  have hwithin : ∀ op ∈ [Op.erase x.dumpPos x.flashSectorSize.toNat, .write x.dumpPos dump],
      op.Within x.dumpPos x.flashSectorSize.toNat := by
    intro op hop
    simp only [List.mem_cons, List.not_mem_nil, or_false] at hop
    rcases hop with rfl | rfl
    · exact ⟨le_rfl, le_rfl⟩
    · exact ⟨le_rfl, by omega⟩
  -- the dump leaves the record alone
  have hkeep : ∀ img', Cut img [.erase x.dumpPos x.flashSectorSize.toNat, .write x.dumpPos dump] img' →
      x.pending img' = x.pending img := fun img' hc' =>
    pending_congr fun a _ h2 => cut_out hwithin hc' (Or.inl (by omega))
  rw [show x.saving dump = [Op.erase x.dumpPos x.flashSectorSize.toNat, .write x.dumpPos dump] ++ x.clearing from rfl,
    cut_append] at hc
  rcases hc with hc | ⟨k, rfl⟩ | hc
  · rw [hkeep _ hc]
    exact hsign
  · rcases Nat.eq_zero_or_pos k with rfl | hk
    · rw [op_take_zero, hkeep _ (cut_all _ _)]
      exact hsign
    · exact pending_broken (eraseRange_in le_rfl (by omega))
  · rw [show cut = _ from hc]
    exact pending_broken (clearing_in le_rfl (by omega))

/-- A cut behind the record. -/
theorem recovers_late {img mid cut : Image} {dump : List UInt8} (hlen : dump.length = x.flashSectorSize.toNat)
    (hmid : x.pending mid = x.transState first count)
    (hdump : ∀ p < x.flashSectorSize.toNat,
      Kept (first % x.flashFatSectorSizeFactor) count (p / x.fatSectorSize.toNat) →
        dump.getD p 0xFF = img (x.place (first / x.flashFatSectorSizeFactor) + p))
    (hstored : ∀ p < x.flashSectorSize.toNat, mid (x.dumpPos + p) = dump.getD p 0xFF)
    (hsame : ∀ a < x.statePos, mid a = img a)
    (hc : Cut mid (x.restoring (x.transState first count) dump ++ x.clearing) cut) :
    x.Recovers first count img cut := by
  have hrec := h.record_le
  have hle := hr.place_le h
  have hroom := h.room
  have hstate : x.statePos = x.size.toNat - 2 * x.flashSectorSize.toNat := rfl
  have hdumpPos : x.dumpPos = x.size.toNat - x.flashSectorSize.toNat := rfl
  -- until the record is erased, a restart does the work again
  have hsigned : ∀ c, Cut mid (x.restoring (x.transState first count) dump) c → x.Recovers first count img c := by
    intro c hc
    have hout : ∀ a, (a < x.place (first / x.flashFatSectorSizeFactor) ∨
        x.place (first / x.flashFatSectorSizeFactor) + x.flashSectorSize.toNat ≤ a) → c a = mid a :=
      fun a ha => cut_out (restoring_within h _ hlen) hc ha
    have hpend : x.pending c = x.transState first count := by
      rw [← hmid]
      exact pending_congr fun a h1 _ => hout a (Or.inr (by omega))
    apply recovers_dump h hr
    · rw [hpend]
      rfl
    · rw [hpend]
      rfl
    · intro i _ hk
      rw [hpend]
      exact hk
    · intro p hp hk
      rw [hout _ (Or.inr (by omega)), hstored p hp, hdump p hp hk]
    · intro a ha hsec
      rw [hout a hsec, hsame a ha]
  -- from then on there is nothing left to do
  have hdone : ∀ c : Image, c x.statePos = 0xFF →
      (∀ a < x.statePos, c a = applyAll (x.restoring (x.transState first count) dump) mid a) →
      x.Recovers first count img c := by
    intro c hff hc
    apply recovers_clean h (pending_broken hff)
    intro a ha
    rw [hc a ha.1]
    by_cases hsec : x.place (first / x.flashFatSectorSizeFactor) ≤ a ∧
        a < x.place (first / x.flashFatSectorSizeFactor) + x.flashSectorSize.toNat
    · obtain ⟨p, rfl⟩ := Nat.exists_eq_add_of_le hsec.1
      have hp : p < x.flashSectorSize.toNat := by omega
      have hk := (hr.outside_iff h hp).mp ha
      have hin := restoring_in h (x.transState first count) hlen mid hp
      rw [← hdump p hp hk]
      exact hin.trans (if_pos hk)
    · have hout := cut_out (restoring_within h (x.transState first count) hlen) (cut_all mid _)
        (show a < x.place (first / x.flashFatSectorSizeFactor) ∨
          x.place (first / x.flashFatSectorSizeFactor) + x.flashSectorSize.toNat ≤ a by omega)
      rw [hout, hsame a ha.1]
  rcases cut_append.mp hc with hc | ⟨k, rfl⟩ | hc
  · exact hsigned cut hc
  · rcases Nat.eq_zero_or_pos k with rfl | hk
    · rw [op_take_zero]
      exact hsigned _ (cut_all _ _)
    · exact hdone _ (eraseRange_in le_rfl (by omega)) fun a ha => eraseRange_out (Or.inl ha)
  · rw [show cut = _ from hc]
    exact hdone _ (clearing_in le_rfl (by omega)) fun a ha => clearing_out (Or.inl ha)

omit hr in
/-- What the flash holds when the record is written. -/
theorem saved (img : Image) {dump : List UInt8} (hlen : dump.length = x.flashSectorSize.toNat) :
    (∀ a < x.statePos, applyAll (x.saving dump) img a = img a) ∧
      (∀ a, x.statePos ≤ a → a < x.statePos + 16 → applyAll (x.saving dump) img a = 0xFF) ∧
      ∀ p < x.flashSectorSize.toNat, applyAll (x.saving dump) img (x.dumpPos + p) = dump.getD p 0xFF := by
  have hrec := h.record_le
  have hroom := h.room
  have hstate : x.statePos = x.size.toNat - 2 * x.flashSectorSize.toNat := rfl
  have hdump : x.dumpPos = x.size.toNat - x.flashSectorSize.toNat := rfl
  refine ⟨?_, ?_, ?_⟩
  · intro a ha
    exact cut_out (saving_out h hlen) (cut_all _ _) (Or.inl ha)
  · intro a h1 h2
    exact eraseRange_in h1 (by omega)
  · intro p hp
    change NorFlash.eraseRange (program (NorFlash.eraseRange img x.dumpPos _) x.dumpPos dump) x.statePos _ _ = _
    rw [eraseRange_out (by omega), program_in (by omega) (by omega), eraseRange_in (by omega) (by omega), and_allOnes,
      Nat.add_sub_cancel_left]

/-- A cut inside the record loses nothing when acting on what was written does no harm. -/
theorem recovers_record {img : Image} {dump : List UInt8} (hlen : dump.length = x.flashSectorSize.toNat)
    (hdump : ∀ p < x.flashSectorSize.toNat,
      Kept (first % x.flashFatSectorSizeFactor) count (p / x.fatSectorSize.toNat) →
        dump.getD p 0xFF = img (x.place (first / x.flashFatSectorSizeFactor) + p))
    {k : Nat} (hk : x.HarmlessRecord first count k) :
    x.Recovers first count img
      (program (applyAll (x.saving dump) img) x.statePos ((x.transState first count).bytes.take k)) := by
  have hrec := h.record_le
  have hroom := h.room
  have hstate : x.statePos = x.size.toNat - 2 * x.flashSectorSize.toNat := rfl
  have hdumpPos : x.dumpPos = x.size.toNat - x.flashSectorSize.toNat := rfl
  obtain ⟨hsame, herased, hstored⟩ := saved h img hlen
  have hpend := pending_cutOff (x := x) (t := x.transState first count) (k := k) herased
  have htake : ((x.transState first count).bytes.take k).length ≤ 16 := by
    rw [List.length_take, TransState.bytes_length]
    omega
  have huser : ∀ a < x.statePos, program (applyAll (x.saving dump) img) x.statePos
      ((x.transState first count).bytes.take k) a = img a := by
    intro a ha
    rw [program_out (Or.inl ha), hsame a ha]
  by_cases hsign : ((x.transState first count).cutOff k).sectorRestoreSign = safeOk
  · have hsign' := hsign
    rw [← hpend] at hsign'
    rcases hk with hk | hk | hk | ⟨hplace, hkept⟩
    · exact absurd hsign hk
    · exact recovers_reserved h hsign' (by rw [hpend, hk]) fun a ha => huser a ha.1
    · exact recovers_reserved h hsign' (by rw [hpend, hk]; omega) fun a ha => huser a ha.1
    · apply recovers_dump h hr hsign'
      · rw [hpend, hplace]
      · intro i hi hki
        rw [hpend]
        exact hkept i hi hki
      · intro p hp hkp
        rw [program_out (by omega), hstored p hp, hdump p hp hkp]
      · intro a ha _
        exact huser a ha
  · exact recovers_clean h (by rw [hpend]; exact hsign) fun a ha => huser a ha.1

/-- A harmful record shows on a flash where all but one byte is erased. -/
theorem harmful_loses {k : Nat} (hk : ¬x.HarmlessRecord first count k) :
    ∃ q, x.Outside first count q ∧ ∀ (img : Image) (dump buffer : List UInt8), (∀ a ≠ q, img a = 0xFF) →
      dump.length = x.flashSectorSize.toNat → buffer.length = x.flashSectorSize.toNat →
      (∀ p < x.flashSectorSize.toNat, dump.getD p 0xFF =
        if Kept (first % x.flashFatSectorSizeFactor) count (p / x.fatSectorSize.toNat) then
          img (x.place (first / x.flashFatSectorSizeFactor) + p)
        else 0xFF) →
      x.recover.flash buffer
        (program (applyAll (x.saving dump) img) x.statePos ((x.transState first count).bytes.take k)) q = 0xFF := by
  have hS := h.sector_pos
  have hfat := h.fat_pos
  have hrec := h.record_le
  have hroom := h.room
  have hstate : x.statePos = x.size.toNat - 2 * x.flashSectorSize.toNat := rfl
  have hdumpPos : x.dumpPos = x.size.toNat - x.flashSectorSize.toNat := rfl
  have htake : ((x.transState first count).bytes.take k).length ≤ 16 := by
    rw [List.length_take, TransState.bytes_length]
    omega
  unfold HarmlessRecord at hk
  dsimp only at hk
  simp only [not_or, not_and, not_not] at hk
  obtain ⟨hsign, hne1, hne2, hright⟩ := hk
  -- the record as the restart reads it
  have hpend : ∀ (img : Image) (dump : List UInt8), dump.length = x.flashSectorSize.toNat →
      x.pending (program (applyAll (x.saving dump) img) x.statePos ((x.transState first count).bytes.take k)) =
        (x.transState first count).cutOff k := fun img dump hlen => pending_cutOff (saved h img hlen).2.1
  generalize (x.transState first count).cutOff k = t at hsign hne1 hne2 hright hpend
  have hTle := h.place_le t.sectorBaseAddr
  have hTdvd := h.place_dvd t.sectorBaseAddr
  have hTuser : x.place t.sectorBaseAddr + x.flashSectorSize.toNat ≤ x.statePos := by
    have h1 := Reserves.place_apart hTdvd h.statePos_dvd hne1
    have h2 := Reserves.place_apart hTdvd h.dumpPos_dvd hne2
    omega
  by_cases hT : x.place t.sectorBaseAddr = x.place (first / x.flashFatSectorSizeFactor)
  · -- a FAT sector to keep is not put back
    have hex := hright hT
    simp only [not_forall] at hex
    obtain ⟨i, hi, hki, hnot⟩ := hex
    have hle := h.fatSized.index_lt hi
    have hdiv : i * x.fatSectorSize.toNat / x.fatSectorSize.toNat = i := Nat.mul_div_cancel i hfat
    refine ⟨x.place t.sectorBaseAddr + i * x.fatSectorSize.toNat, ?_, ?_⟩
    · rw [hT, hr.outside_iff h (by omega), hdiv]
      exact hki
    · intro img dump buffer _ hdump hlen _
      have hp := hpend img dump hdump
      have hin := (flash_pending h hlen (by rw [hp]; exact hsign)
        (show x.place t.sectorBaseAddr + i * x.fatSectorSize.toNat < x.statePos by omega)).1
        (i * x.fatSectorSize.toNat) (by omega) (by rw [hp])
      rw [hin, hp, hdiv, if_neg hnot]
  · -- another sector of the user is erased
    have hapart := Reserves.place_apart hTdvd (h.place_dvd (first / x.flashFatSectorSizeFactor)) hT
    refine ⟨x.place t.sectorBaseAddr, hr.outside_of_out h (by omega) (by omega), ?_⟩
    intro img dump buffer himg hdump hlen hbytes
    have hp := hpend img dump hdump
    have hin := (flash_pending h hlen (by rw [hp]; exact hsign)
      (show x.place t.sectorBaseAddr < x.statePos by omega)).1 0 hS (by rw [hp, Nat.add_zero])
    have hff : dump.getD 0 0xFF = 0xFF := by
      rw [hbytes 0 hS, Nat.add_zero, himg _ (Ne.symm hT)]
      exact ite_self _
    rw [hin, program_out (by omega), (saved h img hdump).2.2 0 hS, hff]
    exact ite_self _

/-- A harmful record loses a byte outside the range. -/
theorem unsafe_of_harmful {k : Nat} (hk : ¬x.HarmlessRecord first count k) : ¬x.PowerSafe first count 3 k := by
  intro hsafe
  obtain ⟨q, hq, hlost⟩ := harmful_loses h hr hk
  have hlen : (List.replicate x.flashSectorSize.toNat (0xFF : UInt8)).length = x.flashSectorSize.toNat :=
    List.length_replicate
  obtain ⟨dump, hrun, hdump, hbytes⟩ := safeEraseSectorFit_run h first count hlen fun a => if a = q then 0 else 0xFF
  have hclear : (x.pending fun a => if a = q then 0 else 0xFF).sectorRestoreSign ≠ safeOk :=
    pending_broken (if_neg (ne_of_gt hq.1))
  obtain ⟨-, hback, -⟩ := hsafe _ _ hlen hclear _ _ hlen hlen
  have hlast := hlost (fun a => if a = q then 0 else 0xFF) dump _ (fun a ha => if_neg ha) hdump hlen (by
    intro p hp
    rw [hbytes p hp]
    simp only [List.getD_eq_getElem?_getD, List.getElem?_replicate, if_pos hp, Option.getD_some])
  have hkept := hback q hq
  rw [hrun] at hkept
  change x.recover.flash _ (program (applyAll (x.saving dump) _) x.statePos _) q = _ at hkept
  rw [hlast] at hkept
  exact absurd (hkept.trans (if_pos rfl)) (by decide)

/-- Every other cut is safe. -/
theorem safe_of_harmless {n k : Nat} (hrecord : n = 3 → x.HarmlessRecord first count k) :
    x.PowerSafe first count n k := by
  intro img buffer hlen hsign
  obtain ⟨dump, hrun, hdump, hbytes⟩ := safeEraseSectorFit_run h first count hlen img
  have hkept : ∀ p < x.flashSectorSize.toNat,
      Kept (first % x.flashFatSectorSizeFactor) count (p / x.fatSectorSize.toNat) →
        dump.getD p 0xFF = img (x.place (first / x.flashFatSectorSizeFactor) + p) := by
    intro p hp hk
    rw [hbytes p hp, if_pos hk]
  rw [hrun]
  dsimp only
  rw [cutAt_append]
  split_ifs with h3
  · have hc : Cut img (x.saving dump) (cutAt (x.saving dump) n k img) := cut_iff_cutAt.mpr ⟨n, k, rfl⟩
    apply recovers_clean h (pending_saving h hdump hsign hc)
    intro a ha
    exact cut_out (saving_out h hdump) hc (Or.inl ha.1)
  · change ¬n < 3 at h3
    rw [show (x.saving dump).length = 3 from rfl, cutAt_append]
    split_ifs with h4
    · obtain rfl : n = 3 := by
        change n - 3 < 1 at h4
        omega
      exact recovers_record h hr hdump hkept (hrecord rfl)
    · have hrec := h.record_le
      have hroom := h.room
      have hstate : x.statePos = x.size.toNat - 2 * x.flashSectorSize.toNat := rfl
      have hdumpPos : x.dumpPos = x.size.toNat - x.flashSectorSize.toNat := rfl
      have hlen16 := (x.transState first count).bytes_length
      obtain ⟨hsame, herased, hstored⟩ := saved h img hdump
      refine recovers_late h hr hdump ?_ hkept ?_ ?_ (cut_iff_cutAt.mpr ⟨_, k, rfl⟩)
      · have hcut := pending_cutOff (x := x) (t := x.transState first count) (k := 16) herased
        rw [TransState.cutOff_all _ le_rfl, List.take_of_length_le (le_of_eq hlen16)] at hcut
        exact hcut
      · intro p hp
        exact (program_out (by omega)).trans (hstored p hp)
      · intro a ha
        exact (program_out (Or.inl ha)).trans (hsame a ha)

/-- A power cut during `erase_sector_fit` loses a byte outside the range exactly when it cuts off the record and
what is left of it does harm. -/
theorem erase_sector_fit_safe_iff (n k : Nat) :
    x.PowerSafe first count n k ↔ (n = 3 → x.HarmlessRecord first count k) := by
  constructor
  · rintro hsafe rfl
    by_contra hk
    exact unsafe_of_harmful h hr hk hsafe
  · exact safe_of_harmless h hr

end Cuts

/-- Eight sectors of eight FAT sectors. -/
def eightSectors : ExtPerf where
  size := 32768
  rotation := 0
  flashSectorSize := 4096
  fatSectorSize := 512

theorem eightSectors_reserves : eightSectors.Reserves where
  fat_pos := by decide
  word_dvd_fat := by decide
  fat_dvd := by decide
  sector_dvd_word := by decide
  size_dvd := by decide
  rotation_dvd := by decide
  rotation_lt := by decide
  size_lt := by decide
  record_le := by decide
  room := by decide

theorem eightSectors_inSector : eightSectors.InSector 0 1 where
  user := by decide
  count_le := by decide

theorem erase_sector_fit_safe_iff_eightSectors : eightSectors.PowerSafe 0 1 4 100 :=
  (erase_sector_fit_safe_iff eightSectors_reserves eightSectors_inSector 4 100).mpr (by decide)

/-- Erasing the first FAT sector of a flash sector, cut off before the count of the record is written: the restart
takes every FAT sector for erased. -/
theorem cut_record_loses_sector : ¬eightSectors.PowerSafe 0 1 3 12 :=
  unsafe_of_harmful eightSectors_reserves eightSectors_inSector (by decide)

end ExtPerf

end EspIdf.WearLevelling
