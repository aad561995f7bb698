import EspIdf.WearLevelling.ExtPerf
import Mathlib.Data.List.Basic

/-!
# What `WL_Ext_Perf::erase_range` erases

* `sectorOps`, `rangeOps` : erasing the FAT sectors from `lo` up to `hi`, one flash sector after the other;
* `sectorOps_cleared`, `rangeOps_cleared` : what these operations leave;
* `fit_run`, `eraseRange_run` : the operations `erase_sector_fit` and `erase_range` issue;
* `eraseRange_exact_iff` : the call erases its range and nothing else just when the range is part of the flash.
-/

namespace EspIdf.WearLevelling

open Word32 NorFlash

namespace ExtPerf

/-! ## The operations, sector by sector -/

/-- FAT sector `f` is not among the ones from `lo` up to `hi`. -/
def OutOf (lo hi f : Nat) : Prop := f < lo ∨ hi ≤ f

instance (lo hi f : Nat) : Decidable (OutOf lo hi f) := inferInstanceAs (Decidable (_ ∨ _))

/-- On flash sector `b`: one erase, and each FAT sector that is not to be erased written back. -/
def sectorOps (x : ExtPerf) (lo hi : Nat) (img : Image) (b : Nat) : List Op :=
  .erase (b * x.flashSectorSize.toNat) x.flashSectorSize.toNat ::
    (List.range' 0 x.flashFatSectorSizeFactor.toNat).flatMap fun i =>
      if OutOf lo hi (b * x.flashFatSectorSizeFactor.toNat + i) then
        [.write (b * x.flashSectorSize.toNat + i * x.fatSectorSize.toNat)
          (readBytes img (b * x.flashSectorSize.toNat + i * x.fatSectorSize.toNat) x.fatSectorSize.toNat)]
      else []

/-- How many flash sectors the FAT sectors from `lo` up to `hi` touch. -/
def touched (x : ExtPerf) (lo hi : Nat) : Nat :=
  if lo < hi then
    (hi - 1) / x.flashFatSectorSizeFactor.toNat + 1 - lo / x.flashFatSectorSizeFactor.toNat
  else 0

/-- Each flash sector touched is erased once, in order. -/
def rangeOps (x : ExtPerf) (lo hi : Nat) (img : Image) : List Op :=
  (List.range' (lo / x.flashFatSectorSizeFactor.toNat) (x.touched lo hi)).flatMap (x.sectorOps lo hi img)

/-- The call issues the operations of its range, after which the bytes of the range are erased and all others are as
before. -/
def ErasesExactly (x : ExtPerf) (startAddress size : UInt32) : Prop :=
  ∀ (buffer : List UInt8) (img : Image), buffer.length = x.flashSectorSize.toNat →
    let call := x.eraseRange x.eraseSectorFit startAddress size
    (call buffer img).result = (if size = 0 then .error .invalidSize else .ok ()) ∧
      (call buffer img).ops = x.rangeOps (startAddress.toNat / x.fatSectorSize.toNat)
        ((startAddress.toNat + size.toNat) / x.fatSectorSize.toNat) img ∧
      ∀ a, call.flash buffer img a =
        if startAddress.toNat ≤ a ∧ a < startAddress.toNat + size.toNat then 0xFF else img a

/-! ## Sectors of the flash -/

/-- A layer over whole flash sectors, each of any number of FAT sectors. -/
structure Sized (x : ExtPerf) : Prop extends x.FatSized where
  size_dvd : x.flashSectorSize.toNat ∣ x.size.toNat
  rotation_lt : x.rotation.toNat < x.size.toNat
  size_lt : x.size.toNat < 2 ^ 31

namespace FatSized

variable {x : ExtPerf} (h : x.FatSized)
include h

theorem factor_pos (hS : 0 < x.flashSectorSize.toNat) : 0 < x.flashFatSectorSizeFactor.toNat := by
  rw [factor_toNat]
  exact Nat.div_pos (Nat.le_of_dvd hS h.fat_dvd) h.fat_pos

/-- A FAT sector of a flash sector, among all FAT sectors. -/
theorem mul_sector (b i : Nat) : (b * x.flashFatSectorSizeFactor.toNat + i) * x.fatSectorSize.toNat =
    b * x.flashSectorSize.toNat + i * x.fatSectorSize.toNat := by
  rw [Nat.add_mul, Nat.mul_assoc, h.factor_mul]

/-- The FAT sector of a byte of flash sector `b`. -/
theorem fat_of_byte (b p : Nat) : (b * x.flashSectorSize.toNat + p) / x.fatSectorSize.toNat =
    b * x.flashFatSectorSizeFactor.toNat + p / x.fatSectorSize.toNat := by
  rw [← h.factor_mul, ← Nat.mul_assoc, Nat.add_comm, Nat.add_mul_div_right _ _ h.fat_pos, Nat.add_comm]

end FatSized

namespace Sized

variable {x : ExtPerf} (h : x.Sized)
include h

theorem size_pos : 0 < x.size.toNat := lt_of_le_of_lt (Nat.zero_le _) h.rotation_lt

theorem sector_pos : 0 < x.flashSectorSize.toNat := Nat.pos_of_dvd_of_pos h.size_dvd h.size_pos

theorem factor_pos : 0 < x.flashFatSectorSizeFactor.toNat := h.toFatSized.factor_pos h.sector_pos

theorem wrap_of_lt {addr : UInt32} (ha : addr.toNat < x.size.toNat) : x.wrap addr = addr.toNat :=
  ExtPerf.wrap_of_lt h.size_lt (le_of_lt h.rotation_lt) ha

/-- The number of a sector of the flash is a word. -/
theorem sector_toNat {b : Nat} (hb : (b + 1) * x.flashSectorSize.toNat ≤ x.size.toNat) :
    (UInt32.ofNat b).toNat = b ∧ (UInt32.ofNat b * x.flashSectorSize).toNat = b * x.flashSectorSize.toNat := by
  have hS := h.sector_pos
  have hlt := h.size_lt
  have hbS : b ≤ b * x.flashSectorSize.toNat := Nat.le_mul_of_pos_right b hS
  rw [Nat.add_mul, Nat.one_mul] at hb
  have hb32 : (UInt32.ofNat b).toNat = b := toNat_ofNat_of_lt (by omega)
  exact ⟨hb32, by rw [toNat_mul_of_lt (by rw [hb32]; omega), hb32]⟩

theorem place_eq {b : Nat} (hb : (b + 1) * x.flashSectorSize.toNat ≤ x.size.toNat) :
    x.place (.ofNat b) = b * x.flashSectorSize.toNat := by
  have hS := h.sector_pos
  have hword := (h.sector_toNat hb).2
  rw [Nat.add_mul, Nat.one_mul] at hb
  unfold place
  rw [h.wrap_of_lt (by rw [hword]; omega), hword]

theorem laid {b : Nat} (hb : (b + 1) * x.flashSectorSize.toNat ≤ x.size.toNat) : x.Laid (.ofNat b) where
  toFatSized := h.toFatSized
  wrap_fatAddr := by
    intro i hi
    have hle := h.index_lt hi
    have hfat := h.fat_pos
    have hlt := h.size_lt
    have hindex := h.index_toNat hi
    have hword := (h.sector_toNat hb).2
    rw [h.place_eq hb]
    rw [Nat.add_mul, Nat.one_mul] at hb
    have haddr : (x.fatAddr (.ofNat b) i).toNat = b * x.flashSectorSize.toNat + i * x.fatSectorSize.toNat := by
      unfold fatAddr
      rw [toNat_add_of_lt (by rw [hword, hindex]; omega), hword, hindex]
    rw [h.wrap_of_lt (by rw [haddr]; omega), haddr]

theorem eraseSector_run {b : Nat} (hb : (b + 1) * x.flashSectorSize.toNat ≤ x.size.toNat) (buffer : List UInt8)
    (img : Image) : x.eraseSector (.ofNat b) buffer img =
      ⟨.ok (), buffer, [.erase (b * x.flashSectorSize.toNat) x.flashSectorSize.toNat]⟩ := by
  have e : x.sectorStart (x.place (.ofNat b)) = b * x.flashSectorSize.toNat := by
    rw [h.place_eq hb]
    unfold sectorStart
    rw [Nat.mul_div_cancel _ h.sector_pos]
  unfold eraseSector
  change (⟨.ok (), buffer, [.erase (x.sectorStart (x.place (.ofNat b))) _]⟩ : Outcome _ _ _) = _
  rw [e]

end Sized

/-! ## One flash sector -/

/-- Some of the FAT sectors from `lo` up to `hi` are on flash sector `b`. -/
structure Touches (x : ExtPerf) (lo hi b : Nat) : Prop where
  lt : lo < hi
  lo_lt : lo < b * x.flashFatSectorSizeFactor.toNat + x.flashFatSectorSizeFactor.toNat
  lt_hi : b * x.flashFatSectorSizeFactor.toNat < hi

/-- What `erase_sector_fit` is told to erase of flash sector `b`. -/
structure Told (x : ExtPerf) (lo hi b : Nat) (preCheckStart count : UInt32) : Prop where
  start : preCheckStart.toNat = lo - b * x.flashFatSectorSizeFactor.toNat
  count : count.toNat = min hi (b * x.flashFatSectorSizeFactor.toNat + x.flashFatSectorSizeFactor.toNat) -
    max lo (b * x.flashFatSectorSizeFactor.toNat)

section Sector

variable {x : ExtPerf} {lo hi b : Nat} {preCheckStart count : UInt32}

/-- It keeps just the FAT sectors that are not to be erased. -/
theorem Told.kept_iff (told : x.Told lo hi b preCheckStart count) (touches : x.Touches lo hi b) {i : Nat}
    (hi' : i < x.flashFatSectorSizeFactor.toNat) :
    Kept preCheckStart count i ↔ OutOf lo hi (b * x.flashFatSectorSizeFactor.toNat + i) := by
  obtain ⟨hstart, hcount⟩ := told
  obtain ⟨hlt, hlo, hhi⟩ := touches
  have hF := x.flashFatSectorSizeFactor.toNat_lt
  generalize x.flashFatSectorSizeFactor.toNat = F at *
  have hword : (UInt32.ofNat i).toNat = i := toNat_ofNat_of_lt (by omega)
  have hsum : (count + preCheckStart).toNat = count.toNat + preCheckStart.toNat := toNat_add_of_lt (by omega)
  unfold Kept OutOf
  rw [UInt32.lt_iff_toNat_lt, UInt32.le_iff_toNat_le, hword, hsum, hstart, hcount]
  omega

theorem Touches.told (touches : x.Touches lo hi b) : x.Told lo hi b
    (.ofNat (lo - b * x.flashFatSectorSizeFactor.toNat))
    (.ofNat (min hi (b * x.flashFatSectorSizeFactor.toNat + x.flashFatSectorSizeFactor.toNat) -
      max lo (b * x.flashFatSectorSizeFactor.toNat))) := by
  obtain ⟨hlt, hlo, hhi⟩ := touches
  have hF := x.flashFatSectorSizeFactor.toNat_lt
  exact ⟨toNat_ofNat_of_lt (by omega), toNat_ofNat_of_lt (by omega)⟩

/-- The second loop of `erase_sector_fit`, from a buffer that holds what is to be kept. -/
theorem Told.restoreOps_eq (told : x.Told lo hi b preCheckStart count) (touches : x.Touches lo hi b) (h : x.Sized)
    (hb : (b + 1) * x.flashSectorSize.toNat ≤ x.size.toNat) {buffer : List UInt8} {img : Image}
    (hlen : buffer.length = x.flashSectorSize.toNat)
    (hbuffer : ∀ p < x.flashSectorSize.toNat, Kept preCheckStart count (p / x.fatSectorSize.toNat) →
      buffer.getD p 0xFF = img (b * x.flashSectorSize.toNat + p)) :
    .erase (b * x.flashSectorSize.toNat) x.flashSectorSize.toNat ::
      (List.range' 0 x.flashFatSectorSizeFactor.toNat).flatMap
        (x.restoreOps (.ofNat b) preCheckStart count buffer) = x.sectorOps lo hi img b := by
  unfold sectorOps
  congr 1
  apply List.flatMap_congr
  intro i hi'
  rw [List.mem_range'_1, Nat.zero_add] at hi'
  have hlaid := h.laid hb
  unfold restoreOps
  simp only [told.kept_iff touches hi'.2]
  by_cases hout : OutOf lo hi (b * x.flashFatSectorSizeFactor.toNat + i)
  · rw [if_pos hout, if_pos hout, hlaid.wrap_fatAddr i hi'.2, h.place_eq hb, h.bufferOffset_eq hi'.2]
    have hle := h.index_lt hi'.2
    have hbytes := @readBytes_eq_of_getD img (b * x.flashSectorSize.toNat + i * x.fatSectorSize.toNat)
      ((buffer.drop (i * x.fatSectorSize.toNat)).take x.fatSectorSize.toNat)
    rw [List.length_take, List.length_drop, hlen, Nat.min_eq_left (by omega)] at hbytes
    rw [hbytes]
    intro k hk
    have hp : (i * x.fatSectorSize.toNat + k) / x.fatSectorSize.toNat = i := by
      rw [Nat.add_comm, Nat.add_mul_div_right _ _ h.fat_pos, Nat.div_eq_of_lt hk, Nat.zero_add]
    have hbyte := hbuffer (i * x.fatSectorSize.toNat + k) (by omega)
      (by rw [hp]; exact (told.kept_iff touches hi'.2).mpr hout)
    simp only [List.getD_eq_getElem?_getD, List.getElem?_take, List.getElem?_drop] at hbyte ⊢
    rw [if_pos hk, hbyte, Nat.add_assoc]
  · rw [if_neg hout, if_neg hout]

/-- `erase_sector_fit`, called for the FAT sectors of flash sector `b` that are to be erased. -/
theorem Touches.fit_run (touches : x.Touches lo hi b) (h : x.Sized)
    (hb : (b + 1) * x.flashSectorSize.toNat ≤ x.size.toNat) {first count : UInt32}
    (hfirst : first.toNat = max lo (b * x.flashFatSectorSizeFactor.toNat))
    (hcount : count.toNat = min hi (b * x.flashFatSectorSizeFactor.toNat + x.flashFatSectorSizeFactor.toNat) -
      max lo (b * x.flashFatSectorSizeFactor.toNat))
    {buffer : List UInt8} (hlen : buffer.length = x.flashSectorSize.toNat) (img : Image) :
    ∃ buffer', x.eraseSectorFit first count buffer img = ⟨.ok (), buffer', x.sectorOps lo hi img b⟩ ∧
      buffer'.length = x.flashSectorSize.toNat := by
  obtain ⟨hlt, hlo, hhi⟩ := touches
  have hF := h.factor_pos
  have hbword := (h.sector_toNat hb).1
  have hdiv : first / x.flashFatSectorSizeFactor = .ofNat b := by
    apply UInt32.toNat_inj.mp
    rw [UInt32.toNat_div, hbword, hfirst]
    apply Nat.div_eq_of_lt_le
    · omega
    · rw [Nat.add_mul, Nat.one_mul]
      omega
  have hmod : (first % x.flashFatSectorSizeFactor).toNat = lo - b * x.flashFatSectorSizeFactor.toNat := by
    have hdm := Nat.div_add_mod' first.toNat x.flashFatSectorSizeFactor.toNat
    rw [← UInt32.toNat_div, hdiv, hbword] at hdm
    rw [UInt32.toNat_mod]
    omega
  have told : x.Told lo hi b (first % x.flashFatSectorSizeFactor) count := ⟨hmod, hcount⟩
  obtain ⟨buffer', hstash, hlen', hbytes⟩ :=
    stash_run (h.laid hb) (first % x.flashFatSectorSizeFactor) count hlen img
  refine ⟨buffer', ?_, hlen'⟩
  change (x.stash (first / x.flashFatSectorSizeFactor) (first % x.flashFatSectorSizeFactor) count >>= fun _ =>
    x.eraseSector (first / x.flashFatSectorSizeFactor) >>= fun _ =>
      x.restore (first / x.flashFatSectorSizeFactor) (first % x.flashFatSectorSizeFactor) count) buffer img = _
  rw [hdiv, bind_quiet hstash, bind_run (h.eraseSector_run hb buffer' img) (restore_run _ count buffer' _),
    List.singleton_append, told.restoreOps_eq ⟨hlt, hlo, hhi⟩ h hb hlen']
  intro p hp hk
  rw [hbytes p hp, if_pos hk, h.place_eq hb]

/-- A sector all of whose FAT sectors are to be erased. -/
theorem sectorOps_whole (img : Image) (hlo : lo ≤ b * x.flashFatSectorSizeFactor.toNat)
    (hhi : b * x.flashFatSectorSizeFactor.toNat + x.flashFatSectorSizeFactor.toNat ≤ hi) :
    x.sectorOps lo hi img b = [.erase (b * x.flashSectorSize.toNat) x.flashSectorSize.toNat] := by
  unfold sectorOps
  congr 1
  rw [List.flatMap_eq_nil_iff]
  intro i hi'
  rw [List.mem_range'_1] at hi'
  exact if_neg (by unfold OutOf; omega)

/-- The operations depend on the bytes outside the range only. -/
theorem Sized.sectorOps_congr (h : x.Sized) {img img' : Image}
    (hsame : ∀ a, OutOf lo hi (a / x.fatSectorSize.toNat) → img a = img' a) :
    x.sectorOps lo hi img b = x.sectorOps lo hi img' b := by
  unfold sectorOps
  congr 1
  apply List.flatMap_congr
  intro i hi'
  by_cases hout : OutOf lo hi (b * x.flashFatSectorSizeFactor.toNat + i)
  · rw [if_pos hout, if_pos hout]
    congr 2
    apply readBytes_congr
    intro a ha ha'
    apply hsame
    rw [← h.mul_sector] at ha ha'
    rwa [Nat.div_eq_of_lt_le ha (by rwa [Nat.succ_mul])]
  · rw [if_neg hout, if_neg hout]

/-- What the operations on a sector leave. -/
theorem Touches.sectorOps_apply (touches : x.Touches lo hi b) (h : x.Sized)
    (hb : (b + 1) * x.flashSectorSize.toNat ≤ x.size.toNat) (img : Image) (a : Nat) :
    applyAll (x.sectorOps lo hi img b) img a =
      if a / x.flashSectorSize.toNat = b ∧ ¬OutOf lo hi (a / x.fatSectorSize.toNat) then 0xFF else img a := by
  have hlen : (readBytes img (b * x.flashSectorSize.toNat) x.flashSectorSize.toNat).length =
      x.flashSectorSize.toNat := readBytes_length _ _ _
  have told := touches.told
  have hlaid := h.laid hb
  rw [← told.restoreOps_eq touches h hb hlen fun p hp _ => readBytes_getD hp _]
  by_cases hin : a / x.flashSectorSize.toNat = b
  · obtain ⟨p, hp, rfl⟩ : ∃ p < x.flashSectorSize.toNat, a = b * x.flashSectorSize.toNat + p := by
      refine ⟨a % x.flashSectorSize.toNat, Nat.mod_lt _ h.sector_pos, ?_⟩
      rw [← hin, Nat.div_add_mod']
    have hi' : p / x.fatSectorSize.toNat < x.flashFatSectorSizeFactor.toNat := by
      rw [Nat.div_lt_iff_lt_mul h.fat_pos, h.factor_mul]
      exact hp
    have herased : ∀ q < x.flashSectorSize.toNat, NorFlash.eraseRange img (b * x.flashSectorSize.toNat)
        x.flashSectorSize.toNat (x.place (.ofNat b) + q) = 0xFF := by
      intro q hq
      rw [h.place_eq hb]
      exact eraseRange_in (by omega) (by omega)
    have hrestored := restore_erased hlaid (.ofNat (lo - b * x.flashFatSectorSizeFactor.toNat))
      (.ofNat (min hi (b * x.flashFatSectorSizeFactor.toNat + x.flashFatSectorSizeFactor.toNat) -
        max lo (b * x.flashFatSectorSizeFactor.toNat))) hlen herased hp
    rw [h.place_eq hb] at hrestored
    rw [applyAll, Op.apply, hrestored, h.fat_of_byte]
    simp only [told.kept_iff touches hi', hin, true_and]
    by_cases hout : OutOf lo hi (b * x.flashFatSectorSizeFactor.toNat + p / x.fatSectorSize.toNat)
    · rw [if_pos hout, if_neg (not_not.mpr hout), readBytes_getD hp]
    · rw [if_neg hout, if_pos hout]
  · rw [if_neg (fun hand => hin hand.1)]
    have hout : a < b * x.flashSectorSize.toNat ∨ b * x.flashSectorSize.toNat + x.flashSectorSize.toNat ≤ a := by
      by_contra hnot
      rw [not_or, not_lt, not_le] at hnot
      exact hin (Nat.div_eq_of_lt_le hnot.1 (by rw [Nat.succ_mul]; exact hnot.2))
    apply cut_out _ (cut_all _ _) hout
    intro op hop
    rcases List.mem_cons.mp hop with rfl | hop
    · exact ⟨le_rfl, le_rfl⟩
    · have hwithin := restore_within hlaid _ _ hlen op hop
      rwa [h.place_eq hb] at hwithin

end Sector

/-! ## One sector after the other -/

/-- The FAT sectors from `lo` up to `m` are erased. -/
def cleared (x : ExtPerf) (lo m : Nat) (img : Image) : Image := fun a =>
  if lo ≤ a / x.fatSectorSize.toNat ∧ a / x.fatSectorSize.toNat < m then 0xFF else img a

section Range

variable {x : ExtPerf} {lo hi b : Nat}

theorem FatSized.sector_of_byte (h : x.FatSized) (a : Nat) :
    a / x.flashSectorSize.toNat = a / x.fatSectorSize.toNat / x.flashFatSectorSizeFactor.toNat := by
  rw [Nat.div_div_eq_div_mul, Nat.mul_comm, h.factor_mul]

/-- One more sector, after the ones before it. -/
theorem Touches.sectorOps_cleared (touches : x.Touches lo hi b) (h : x.Sized)
    (hb : (b + 1) * x.flashSectorSize.toNat ≤ x.size.toNat) (img : Image) :
    applyAll (x.sectorOps lo hi img b) (x.cleared lo (b * x.flashFatSectorSizeFactor.toNat) img) =
      x.cleared lo (min hi (b * x.flashFatSectorSizeFactor.toNat + x.flashFatSectorSizeFactor.toNat)) img := by
  have hF := h.factor_pos
  have hsame : ∀ a, OutOf lo hi (a / x.fatSectorSize.toNat) →
      img a = x.cleared lo (b * x.flashFatSectorSizeFactor.toNat) img a := by
    intro a hout
    have hlt := touches.lt_hi
    exact (if_neg (by unfold OutOf at hout; omega)).symm
  rw [h.sectorOps_congr hsame]
  funext a
  have hdiv := Nat.div_eq_iff (x := a / x.fatSectorSize.toNat) (y := b) hF
  rw [touches.sectorOps_apply h hb, h.sector_of_byte]
  unfold cleared OutOf
  obtain ⟨hlt, hlo, hhi⟩ := touches
  generalize a / x.fatSectorSize.toNat / x.flashFatSectorSizeFactor.toNat = q at hdiv ⊢
  generalize a / x.fatSectorSize.toNat = f at *
  generalize x.flashFatSectorSizeFactor.toNat = F at *
  split_ifs
  all_goals first | rfl | omega

theorem touches_of (hlt : lo < hi) (hF : 0 < x.flashFatSectorSizeFactor.toNat)
    (hlo : lo / x.flashFatSectorSizeFactor.toNat ≤ b) (hhi : b ≤ (hi - 1) / x.flashFatSectorSizeFactor.toNat) :
    x.Touches lo hi b where
  lt := hlt
  lo_lt := by
    rw [← Nat.succ_mul]
    exact (Nat.div_lt_iff_lt_mul hF).mp (Nat.lt_succ_of_le hlo)
  lt_hi := by
    have hle := (Nat.le_div_iff_mul_le hF).mp hhi
    omega

/-- The flash has the sectors a range touches. -/
theorem Sized.sector_le (h : x.Sized) (hlt : lo < hi) (hsize : hi * x.fatSectorSize.toNat ≤ x.size.toNat)
    (hhi : b ≤ (hi - 1) / x.flashFatSectorSizeFactor.toNat) : (b + 1) * x.flashSectorSize.toNat ≤ x.size.toNat := by
  obtain ⟨n, hn⟩ := h.size_dvd
  have hF := h.factor_pos
  rw [hn, ← h.factor_mul] at hsize ⊢
  have hle := (Nat.le_div_iff_mul_le hF).mp hhi
  rw [Nat.mul_right_comm] at hsize
  have hhin : hi ≤ x.flashFatSectorSizeFactor.toNat * n := Nat.le_of_mul_le_mul_right hsize h.fat_pos
  have hbn : b < n := by
    by_contra hnot
    have hmul := Nat.mul_le_mul_right x.flashFatSectorSizeFactor.toNat (not_lt.mp hnot)
    rw [Nat.mul_comm n] at hmul
    omega
  rw [Nat.mul_comm _ n]
  exact Nat.mul_le_mul_right _ hbn

/-- The first sectors of a range. -/
theorem Sized.rangeOps_cleared (h : x.Sized) (hlt : lo < hi) (hsize : hi * x.fatSectorSize.toNat ≤ x.size.toNat)
    (img : Image) {n : Nat} (hn : lo / x.flashFatSectorSizeFactor.toNat + n ≤
      (hi - 1) / x.flashFatSectorSizeFactor.toNat + 1) :
    applyAll ((List.range' (lo / x.flashFatSectorSizeFactor.toNat) n).flatMap (x.sectorOps lo hi img)) img =
      x.cleared lo (min hi ((lo / x.flashFatSectorSizeFactor.toNat + n) * x.flashFatSectorSizeFactor.toNat)) img := by
  induction n with
  | zero =>
      have hle := Nat.div_mul_le_self lo x.flashFatSectorSizeFactor.toNat
      funext a
      exact (if_neg (by rw [Nat.add_zero]; omega)).symm
  | succ n ih =>
      have touches := touches_of hlt h.factor_pos (Nat.le_add_right (lo / x.flashFatSectorSizeFactor.toNat) n) (by omega)
      have hstep := touches.sectorOps_cleared h (h.sector_le hlt hsize (by omega)) img
      rw [List.range'_concat, List.flatMap_append, applyAll_append, ih (by omega), Nat.one_mul,
        List.flatMap_singleton, Nat.min_eq_right (le_of_lt touches.lt_hi), hstep, ← Nat.succ_mul]
      rfl

end Range

/-! ## The whole call -/

/-- How many of `cnt` FAT sectors from `lo` on `erase_range` takes for the head of the range. -/
def headCount (F lo cnt : Nat) : Nat := if lo % F = 0 ∧ F ≤ cnt then 0 else min cnt (F - lo % F)

/-- How many are left for its tail. -/
def tailCount (F lo cnt : Nat) : Nat := (cnt - headCount F lo cnt) % F

/-- The three parts of the call. -/
def parts (x : ExtPerf) (fit : UInt32 → UInt32 → ExtProg Unit) (first pre restStart post postStart : UInt32) (n : Nat) :
    ExtProg Unit :=
  (if pre ≠ 0 then fit first pre else pure ()) >>= fun _ =>
    (Prog.loop n fun i => x.eraseSector (restStart / x.flashSectorSize + .ofNat i)) >>= fun _ =>
      if post ≠ 0 then fit postStart post else pure ()

theorem Sized.eraseRange_parts {x : ExtPerf} (h : x.Sized) (fit : UInt32 → UInt32 → ExtProg Unit)
    {start size : UInt32} {lo cnt : Nat} (hstart : start.toNat = lo * x.fatSectorSize.toNat)
    (hsize : size.toNat = cnt * x.fatSectorSize.toNat) (hcnt : 0 < cnt)
    (hle : (lo + cnt) * x.fatSectorSize.toNat ≤ x.size.toNat) :
    ∃ first pre restStart post postStart : UInt32, ∃ n : Nat,
      x.eraseRange fit start size = x.parts fit first pre restStart post postStart n ∧ first.toNat = lo ∧
      pre.toNat = headCount x.flashFatSectorSizeFactor.toNat lo cnt ∧
      restStart.toNat = (lo + headCount x.flashFatSectorSizeFactor.toNat lo cnt) * x.fatSectorSize.toNat ∧
      post.toNat = tailCount x.flashFatSectorSizeFactor.toNat lo cnt ∧
      postStart.toNat = lo + cnt - tailCount x.flashFatSectorSizeFactor.toNat lo cnt ∧
      n = (cnt - headCount x.flashFatSectorSizeFactor.toNat lo cnt -
        tailCount x.flashFatSectorSizeFactor.toNat lo cnt) / x.flashFatSectorSizeFactor.toNat := by
  have hfat := h.fat_pos
  have hF := h.factor_pos
  have hlt := h.size_lt
  have hF32 := x.flashFatSectorSizeFactor.toNat_lt
  have hword : ∀ k ≤ lo + cnt, k * x.fatSectorSize.toNat < 2 ^ 32 := fun k hk =>
    lt_of_le_of_lt (le_trans (Nat.mul_le_mul_right _ hk) hle) (lt_trans hlt (by decide))
  have hcount32 : lo + cnt < 2 ^ 32 := lt_of_le_of_lt (Nat.le_mul_of_pos_right _ hfat) (hword _ le_rfl)
  have hsizemod : size % x.fatSectorSize = 0 := by
    apply UInt32.toNat_inj.mp
    rw [UInt32.toNat_mod, hsize]
    exact Nat.mul_mod_left _ _
  have hsizene : size ≠ 0 := by
    intro e
    rw [e] at hsize
    exact absurd hsize.symm (Nat.mul_pos hcnt hfat).ne'
  have hstartmod : start % x.fatSectorSize = 0 := by
    apply UInt32.toNat_inj.mp
    rw [UInt32.toNat_mod, hstart]
    exact Nat.mul_mod_left _ _
  have hsectors : (size / x.fatSectorSize).toNat = cnt := by
    rw [UInt32.toNat_div, hsize, Nat.mul_div_cancel _ hfat]
  have hfirst : (start / x.fatSectorSize).toNat = lo := by
    rw [UInt32.toNat_div, hstart, Nat.mul_div_cancel _ hfat]
  unfold eraseRange
  rw [if_neg (not_or.mpr ⟨not_not.mpr hsizemod, hsizene⟩), if_neg (not_not.mpr hstartmod)]
  dsimp only
  have hpcs : (start / x.fatSectorSize % x.flashFatSectorSizeFactor).toNat =
      lo % x.flashFatSectorSizeFactor.toNat := by rw [UInt32.toNat_mod, hfirst]
  generalize start / x.fatSectorSize % x.flashFatSectorSizeFactor = pcs at hpcs ⊢
  have hmod := Nat.mod_lt lo hF
  have hsub : (x.flashFatSectorSizeFactor - pcs).toNat =
      x.flashFatSectorSizeFactor.toNat - lo % x.flashFatSectorSizeFactor.toNat := by
    rw [toNat_sub_of_le (by rw [hpcs]; omega), hpcs]
  have hpcc : (if size / x.fatSectorSize < x.flashFatSectorSizeFactor - pcs then size / x.fatSectorSize
      else x.flashFatSectorSizeFactor - pcs).toNat =
      min cnt (x.flashFatSectorSizeFactor.toNat - lo % x.flashFatSectorSizeFactor.toNat) := by
    simp only [UInt32.lt_iff_toNat_lt, hsectors, hsub]
    split_ifs <;> omega
  generalize (if size / x.fatSectorSize < x.flashFatSectorSizeFactor - pcs then size / x.fatSectorSize
    else x.flashFatSectorSizeFactor - pcs) = pcc at hpcc ⊢
  have hleft : (size / x.fatSectorSize - pcc).toNat = cnt - pcc.toNat := by
    rw [toNat_sub_of_le (by omega), hsectors]
  -- the head that `erase_range` uses in the end leaves as many FAT sectors over
  have htail : ((size / x.fatSectorSize - pcc) % x.flashFatSectorSizeFactor).toNat =
      tailCount x.flashFatSectorSizeFactor.toNat lo cnt := by
    rw [UInt32.toNat_mod, hleft, hpcc]
    unfold tailCount headCount
    split_ifs with hw
    · rw [hw.1, Nat.sub_zero, Nat.min_eq_right hw.2, Nat.sub_zero, ← Nat.mod_eq_sub_mod hw.2]
    · rfl
  have htle : tailCount x.flashFatSectorSizeFactor.toNat lo cnt ≤ cnt - pcc.toNat := by
    rw [← htail, UInt32.toNat_mod, hleft]
    exact Nat.mod_le _ _
  generalize (size / x.fatSectorSize - pcc) % x.flashFatSectorSizeFactor = post at htail ⊢
  generalize htaildef : tailCount x.flashFatSectorSizeFactor.toNat lo cnt = t at htail htle ⊢
  have hpostmul : (post * x.fatSectorSize).toNat = t * x.fatSectorSize.toNat := by
    rw [toNat_mul_of_lt (by rw [htail]; exact hword t (by omega)), htail]
  have hsum : (start + size).toNat = (lo + cnt) * x.fatSectorSize.toNat := by
    rw [toNat_add_of_lt (by rw [hstart, hsize, ← Nat.add_mul]; exact hword _ le_rfl), hstart,
      hsize, Nat.add_mul]
  have hpostStart : ((start + size - post * x.fatSectorSize) / x.fatSectorSize).toNat = lo + cnt - t := by
    rw [UInt32.toNat_div, toNat_sub_of_le (by rw [hpostmul, hsum]; exact Nat.mul_le_mul_right _ (by omega)), hpostmul,
      hsum, ← Nat.sub_mul, Nat.mul_div_cancel _ hfat]
  have hrest : (size / x.fatSectorSize - pcc - post).toNat = cnt - pcc.toNat - t := by
    rw [toNat_sub_of_le (by rw [hleft, htail]; exact htle), hleft, htail]
  have hrestStart : ∀ pre : UInt32, pre.toNat ≤ cnt →
      (start + pre * x.fatSectorSize).toNat = (lo + pre.toNat) * x.fatSectorSize.toNat := by
    intro pre hpre
    have hmul : (pre * x.fatSectorSize).toNat = pre.toNat * x.fatSectorSize.toNat :=
      toNat_mul_of_lt (hword _ (by omega))
    rw [toNat_add_of_lt (by rw [hstart, hmul, ← Nat.add_mul]; exact hword _ (by omega)),
      hstart, hmul, Nat.add_mul]
  by_cases hw : lo % x.flashFatSectorSizeFactor.toNat = 0 ∧ x.flashFatSectorSizeFactor.toNat ≤ cnt
  · have hwhole : decide (pcc = x.flashFatSectorSizeFactor ∧ pcs = 0) = true := by
      refine decide_eq_true ⟨UInt32.toNat_inj.mp ?_, UInt32.toNat_inj.mp ?_⟩
      · rw [hpcc, hw.1]
        omega
      · rw [hpcs, hw.1]
        rfl
    have hhead : headCount x.flashFatSectorSizeFactor.toNat lo cnt = 0 := if_pos hw
    have hpccF : pcc.toNat = x.flashFatSectorSizeFactor.toNat := by
      rw [hpcc, hw.1]
      omega
    simp only [hwhole, if_true]
    refine ⟨_, 0, _, post, _, _, by unfold parts; split_ifs <;> rfl, hfirst, by rw [hhead]; rfl, ?_, htail, hpostStart, ?_⟩
    · rw [hrestStart 0 (Nat.zero_le _), hhead]
      rfl
    · rw [UInt32.toNat_div, toNat_add_of_lt (by rw [hrest]; omega), hrest, hhead]
      congr 1
      omega
  · have hwhole : decide (pcc = x.flashFatSectorSizeFactor ∧ pcs = 0) = false := by
      refine decide_eq_false fun hand => hw ?_
      have h0 : lo % x.flashFatSectorSizeFactor.toNat = 0 := by
        rw [← hpcs, hand.2]
        rfl
      rw [hand.1, h0] at hpcc
      omega
    have hhead : headCount x.flashFatSectorSizeFactor.toNat lo cnt = pcc.toNat := by
      rw [hpcc]
      exact if_neg hw
    simp only [hwhole, Bool.false_eq_true, if_false]
    refine ⟨_, pcc, _, post, _, _, by unfold parts; split_ifs <;> rfl, hfirst, hhead.symm, ?_, htail, hpostStart, ?_⟩
    · rw [hrestStart pcc (by omega), hhead]
    · rw [UInt32.toNat_div, hrest, hhead]

/-- How the flash sectors a range touches divide into the one of its head of `p` FAT sectors, whole ones and the one of
its tail of `t`. -/
structure Divided (F lo cnt p t heads wholes tails : Nat) : Prop where
  head_le : p ≤ cnt
  head : p ≠ 0 → heads = 1 ∧ p = min (lo + cnt) (lo / F * F + F) - max lo (lo / F * F)
  no_head : p = 0 → heads = 0
  wholes_eq : wholes = (cnt - p - t) / F
  after_head : p < cnt → lo + p = (lo / F + heads) * F
  left : wholes * F + t = cnt - p
  tail_lt : t < F
  tail : t ≠ 0 → tails = 1
  no_tail : t = 0 → tails = 0
  total : (lo + cnt - 1) / F + 1 = lo / F + heads + wholes + tails

theorem headCount_le (F lo cnt : Nat) : headCount F lo cnt ≤ cnt := by
  unfold headCount
  split_ifs <;> omega

theorem divided {F lo cnt : Nat} (hF : 0 < F) (hcnt : 0 < cnt) : ∃ heads wholes tails,
    Divided F lo cnt (headCount F lo cnt) (tailCount F lo cnt) heads wholes tails := by
  have hdm := Nat.div_add_mod' lo F
  have hmod := Nat.mod_lt lo hF
  have hhead := headCount_le F lo cnt
  have hleft := Nat.div_add_mod' (cnt - headCount F lo cnt) F
  have htlt : tailCount F lo cnt < F := Nat.mod_lt _ hF
  have hwholes : (cnt - headCount F lo cnt) / F = (cnt - headCount F lo cnt - tailCount F lo cnt) / F :=
    Nat.div_eq_sub_mod_div
  rw [show (cnt - headCount F lo cnt) % F = tailCount F lo cnt from rfl] at hleft
  -- a head is there unless the range starts with a whole flash sector
  have hzero : headCount F lo cnt = 0 → lo % F = 0 ∧ F ≤ cnt := by
    unfold headCount
    split_ifs with hw
    · exact fun _ => hw
    · omega
  have hpos : headCount F lo cnt ≠ 0 → headCount F lo cnt = min cnt (F - lo % F) := by
    unfold headCount
    split_ifs with hw
    · exact fun hne => absurd rfl hne
    · exact fun _ => rfl
  generalize (cnt - headCount F lo cnt) / F = wholes at hleft hwholes
  generalize tailCount F lo cnt = t at *
  generalize headCount F lo cnt = p at *
  have hafter : p < cnt → lo + p = (lo / F + if p = 0 then 0 else 1) * F := by
    intro hlt
    split_ifs with hp
    · have h0 := (hzero hp).1
      rw [Nat.add_zero]
      omega
    · have hmin := hpos hp
      rw [Nat.add_mul, Nat.one_mul]
      omega
  have htotal : (lo + cnt - 1) / F + 1 =
      lo / F + (if p = 0 then 0 else 1) + wholes + if t = 0 then 0 else 1 := by
    have hdiv : ∀ {y}, y * F < lo + cnt → lo + cnt ≤ y * F + F → (lo + cnt - 1) / F = y := fun h1 h2 =>
      Nat.div_eq_of_lt_le (by omega) (by rw [Nat.succ_mul]; omega)
    by_cases hall : p = cnt
    · have hw0 : wholes * F = 0 := by omega
      have hw : wholes = 0 := (Nat.mul_eq_zero.mp hw0).resolve_right hF.ne'
      have hmin := hpos (by omega)
      rw [hdiv (y := lo / F) (by omega) (by omega), if_neg (by omega), if_pos (by omega), hw]
    · have hlo := hafter (by omega)
      by_cases ht : t = 0
      · obtain ⟨w, rfl⟩ : ∃ w, wholes = w + 1 := by
          cases wholes with
          | zero => omega
          | succ w => exact ⟨w, rfl⟩
        rw [Nat.succ_mul] at hleft
        rw [hdiv (y := lo / F + (if p = 0 then 0 else 1) + w) (by rw [Nat.add_mul _ w]; omega)
          (by rw [Nat.add_mul _ w]; omega), if_pos ht]
        rfl
      · rw [hdiv (y := lo / F + (if p = 0 then 0 else 1) + wholes) (by rw [Nat.add_mul _ wholes]; omega)
          (by rw [Nat.add_mul _ wholes]; omega), if_neg ht]
  refine ⟨if p = 0 then 0 else 1, wholes, if t = 0 then 0 else 1, hhead, fun hp => ⟨if_neg hp, ?_⟩, fun hp => if_pos hp,
    hwholes, hafter, hleft, htlt, fun ht => if_neg ht, fun ht => if_pos ht, htotal⟩
  have hmin := hpos hp
  omega

section Run

variable {x : ExtPerf} {lo cnt heads wholes tails : Nat}
  (d : Divided x.flashFatSectorSizeFactor.toNat lo cnt (headCount x.flashFatSectorSizeFactor.toNat lo cnt)
    (tailCount x.flashFatSectorSizeFactor.toNat lo cnt) heads wholes tails)
include d

theorem Divided.touches (h : x.Sized) (hcnt : 0 < cnt) {b : Nat} (hlo : lo / x.flashFatSectorSizeFactor.toNat ≤ b)
    (hb : b < lo / x.flashFatSectorSizeFactor.toNat + heads + wholes + tails) : x.Touches lo (lo + cnt) b := by
  have htotal := d.total
  exact touches_of (by omega) h.factor_pos hlo (by omega)

theorem Divided.sector_le (h : x.Sized) (hcnt : 0 < cnt) (hle : (lo + cnt) * x.fatSectorSize.toNat ≤ x.size.toNat)
    {b : Nat} (hb : b < lo / x.flashFatSectorSizeFactor.toNat + heads + wholes + tails) :
    (b + 1) * x.flashSectorSize.toNat ≤ x.size.toNat := by
  have htotal := d.total
  exact h.sector_le (show lo < lo + cnt by omega) hle (by omega)

/-- The head of the range. -/
theorem Divided.head_run (h : x.Sized) (hcnt : 0 < cnt) (hle : (lo + cnt) * x.fatSectorSize.toNat ≤ x.size.toNat)
    {first pre : UInt32} (hfirst : first.toNat = lo)
    (hpre : pre.toNat = headCount x.flashFatSectorSizeFactor.toNat lo cnt) {buffer : List UInt8}
    (hlen : buffer.length = x.flashSectorSize.toNat) (img : Image) :
    ∃ buffer', (if pre ≠ 0 then x.eraseSectorFit first pre else pure ()) buffer img = ⟨.ok (), buffer',
        (List.range' (lo / x.flashFatSectorSizeFactor.toNat) heads).flatMap (x.sectorOps lo (lo + cnt) img)⟩ ∧
      buffer'.length = x.flashSectorSize.toNat := by
  by_cases hp : pre = 0
  · have h0 : headCount x.flashFatSectorSizeFactor.toNat lo cnt = 0 := by
      rw [← hpre, hp]
      rfl
    rw [if_neg (not_not.mpr hp), d.no_head h0]
    exact ⟨buffer, rfl, hlen⟩
  · have h0 : headCount x.flashFatSectorSizeFactor.toNat lo cnt ≠ 0 := by
      rw [← hpre]
      exact fun e => hp (UInt32.toNat_inj.mp e)
    obtain ⟨hone, hcount⟩ := d.head h0
    have hdiv := Nat.div_mul_le_self lo x.flashFatSectorSizeFactor.toNat
    have hmax : first.toNat = max lo (lo / x.flashFatSectorSizeFactor.toNat * x.flashFatSectorSizeFactor.toNat) := by
      rw [hfirst, Nat.max_eq_left hdiv]
    obtain ⟨buffer', hrun, hlen'⟩ := (d.touches h hcnt le_rfl (by omega)).fit_run h
      (d.sector_le h hcnt hle (by omega)) hmax (hpre.trans hcount) hlen img
    rw [if_pos hp, hone, List.range'_one, List.flatMap_singleton]
    exact ⟨buffer', hrun, hlen'⟩

/-- The flash sectors all of which is in the range. -/
theorem Divided.wholes_run (h : x.Sized) (hcnt : 0 < cnt) (hle : (lo + cnt) * x.fatSectorSize.toNat ≤ x.size.toNat)
    {restStart : UInt32} (hrest : restStart.toNat =
      (lo + headCount x.flashFatSectorSizeFactor.toNat lo cnt) * x.fatSectorSize.toNat) (buffer : List UInt8)
    (img img' : Image) :
    Prog.loop wholes (fun i => x.eraseSector (restStart / x.flashSectorSize + .ofNat i)) buffer img' = ⟨.ok (), buffer,
      (List.range' (lo / x.flashFatSectorSizeFactor.toNat + heads) wholes).flatMap (x.sectorOps lo (lo + cnt) img)⟩ := by
  have hS := h.sector_pos
  have hF := h.factor_pos
  have hshift : List.range' (lo / x.flashFatSectorSizeFactor.toNat + heads) wholes =
      (List.range' 0 wholes).map (lo / x.flashFatSectorSizeFactor.toNat + heads + ·) := by
    rw [List.map_add_range', Nat.add_zero]
  unfold Prog.loop
  rw [loopFrom_ops (fun i => [.erase (x.sectorStart (x.place (restStart / x.flashSectorSize + .ofNat i)))
    x.flashSectorSize.toNat]) (fun _ _ => rfl), hshift, List.flatMap_map]
  congr 1
  apply List.flatMap_congr
  intro i hi
  rw [List.mem_range'_1, Nat.zero_add] at hi
  have hb := d.sector_le h hcnt hle (b := lo / x.flashFatSectorSizeFactor.toNat + heads + i) (by omega)
  have hlast := d.sector_le h hcnt hle (b := lo / x.flashFatSectorSizeFactor.toNat + heads) (by omega)
  have hmul : (i + 1) * x.flashFatSectorSizeFactor.toNat ≤ wholes * x.flashFatSectorSizeFactor.toNat :=
    Nat.mul_le_mul_right _ hi.2
  have hleft := d.left
  have hafter := d.after_head (by rw [Nat.succ_mul] at hmul; omega)
  have hdiv : restStart / x.flashSectorSize = .ofNat (lo / x.flashFatSectorSizeFactor.toNat + heads) := by
    apply UInt32.toNat_inj.mp
    rw [UInt32.toNat_div, hrest, hafter, Nat.mul_assoc, h.factor_mul, Nat.mul_div_cancel _ hS, (h.sector_toNat hlast).1]
  have hword : restStart / x.flashSectorSize + .ofNat i =
      .ofNat (lo / x.flashFatSectorSizeFactor.toNat + heads + i) := by
    rw [hdiv, ← UInt32.ofNat_add]
  rw [hword, sectorOps_whole, h.place_eq hb]
  · unfold sectorStart
    rw [Nat.mul_div_cancel _ hS]
  · rw [Nat.add_mul _ i]
    omega
  · rw [Nat.add_mul _ i]
    rw [Nat.succ_mul] at hmul
    omega

/-- The tail of the range, after what comes before it. -/
theorem Divided.tail_run (h : x.Sized) (hcnt : 0 < cnt) (hle : (lo + cnt) * x.fatSectorSize.toNat ≤ x.size.toNat)
    {postStart post : UInt32} (hpostStart : postStart.toNat = lo + cnt - tailCount x.flashFatSectorSizeFactor.toNat lo cnt)
    (hpost : post.toNat = tailCount x.flashFatSectorSizeFactor.toNat lo cnt) {buffer : List UInt8}
    (hlen : buffer.length = x.flashSectorSize.toNat) (img : Image) :
    ∃ buffer', (if post ≠ 0 then x.eraseSectorFit postStart post else pure ()) buffer
        (applyAll ((List.range' (lo / x.flashFatSectorSizeFactor.toNat) (heads + wholes)).flatMap
          (x.sectorOps lo (lo + cnt) img)) img) = ⟨.ok (), buffer',
        (List.range' (lo / x.flashFatSectorSizeFactor.toNat + (heads + wholes)) tails).flatMap
          (x.sectorOps lo (lo + cnt) img)⟩ := by
  by_cases hp : post = 0
  · have h0 : tailCount x.flashFatSectorSizeFactor.toNat lo cnt = 0 := by
      rw [← hpost, hp]
      rfl
    rw [if_neg (not_not.mpr hp), d.no_tail h0]
    exact ⟨buffer, rfl⟩
  · have h0 : tailCount x.flashFatSectorSizeFactor.toNat lo cnt ≠ 0 := by
      rw [← hpost]
      exact fun e => hp (UInt32.toNat_inj.mp e)
    have hone := d.tail h0
    have hleft := d.left
    have hlt := d.tail_lt
    have hhead := d.head_le
    have hafter := d.after_head (by omega)
    have htotal := d.total
    have hstart : lo + cnt - tailCount x.flashFatSectorSizeFactor.toNat lo cnt =
        (lo / x.flashFatSectorSizeFactor.toNat + (heads + wholes)) * x.flashFatSectorSizeFactor.toNat := by
      rw [← Nat.add_assoc, Nat.add_mul _ wholes]
      omega
    rw [if_pos hp, hone, List.range'_one, List.flatMap_singleton,
      h.rangeOps_cleared (by omega) hle img (by omega)]
    have hsame : ∀ a, OutOf lo (lo + cnt) (a / x.fatSectorSize.toNat) → img a = x.cleared lo
        (min (lo + cnt) ((lo / x.flashFatSectorSizeFactor.toNat + (heads + wholes)) *
          x.flashFatSectorSizeFactor.toNat)) img a := by
      intro a hout
      exact (if_neg (by unfold OutOf at hout; omega)).symm
    rw [h.sectorOps_congr hsame]
    have touches := d.touches h hcnt
      (b := lo / x.flashFatSectorSizeFactor.toNat + (heads + wholes)) (by omega) (by omega)
    have hmax : postStart.toNat = max lo ((lo / x.flashFatSectorSizeFactor.toNat + (heads + wholes)) *
        x.flashFatSectorSizeFactor.toNat) := by
      rw [hpostStart, hstart, Nat.max_eq_right (by omega)]
    obtain ⟨buffer', hrun, -⟩ := touches.fit_run h (d.sector_le h hcnt hle (by omega)) hmax
      (by rw [hpost, ← hstart]; omega) hlen _
    exact ⟨buffer', hrun⟩

end Run

/-- `erase_range` on a range inside the flash issues the operations of its range. -/
theorem Sized.eraseRange_run {x : ExtPerf} (h : x.Sized) {start size : UInt32} {lo cnt : Nat}
    (hstart : start.toNat = lo * x.fatSectorSize.toNat) (hsize : size.toNat = cnt * x.fatSectorSize.toNat)
    (hcnt : 0 < cnt) (hle : (lo + cnt) * x.fatSectorSize.toNat ≤ x.size.toNat) {buffer : List UInt8}
    (hlen : buffer.length = x.flashSectorSize.toNat) (img : Image) :
    ∃ buffer', x.eraseRange x.eraseSectorFit start size buffer img =
      ⟨.ok (), buffer', x.rangeOps lo (lo + cnt) img⟩ := by
  obtain ⟨first, pre, restStart, post, postStart, n, e, hfirst, hpre, hrest, hpost, hpostStart, hn⟩ :=
    h.eraseRange_parts x.eraseSectorFit hstart hsize hcnt hle
  obtain ⟨heads, wholes, tails, d⟩ := @divided _ lo _ h.factor_pos hcnt
  rw [← d.wholes_eq] at hn
  subst hn
  obtain ⟨b, hhead, hb⟩ := d.head_run h hcnt hle hfirst hpre hlen img
  obtain ⟨b', htail⟩ := d.tail_run h hcnt hle hpostStart hpost hb img
  have hwholes := d.wholes_run h hcnt hle hrest b img
    (applyAll ((List.range' (lo / x.flashFatSectorSizeFactor.toNat) heads).flatMap (x.sectorOps lo (lo + cnt) img)) img)
  rw [← List.range'_append_1, List.flatMap_append, applyAll_append] at htail
  refine ⟨b', ?_⟩
  rw [e]
  unfold parts
  rw [bind_run hhead (bind_run hwholes htail)]
  unfold rangeOps touched
  rw [if_pos (show lo < lo + cnt by omega), d.total, Nat.add_assoc, Nat.add_assoc, Nat.add_sub_cancel_left,
    ← List.range'_append_1, ← List.range'_append_1, List.flatMap_append, List.flatMap_append, ← Nat.add_assoc]

/-! ## Every call -/

/-- Every operation of the layer is on the flash. -/
theorem Sized.eraseRange_issues {x : ExtPerf} (h : x.Sized) (startAddress size : UInt32) :
    (x.eraseRange x.eraseSectorFit startAddress size).Issues fun op => op.addr < x.size.toNat := by
  have hwrap : ∀ addr, x.wrap addr < x.size.toNat := fun addr => wrap_lt h.size_pos addr
  have hsector : ∀ sector, (x.eraseSector sector).Issues fun op => op.addr < x.size.toNat := fun sector =>
    issues_issue (lt_of_le_of_lt (Nat.div_mul_le_self _ _) (hwrap _))
  have hstash : ∀ base pre count, (x.stash base pre count).Issues fun op => op.addr < x.size.toNat :=
    fun base pre count => issues_loop fun i =>
      issues_ite (issues_bind issues_readFlash fun _ => issues_modifyRam) issues_pure
  have hrestore : ∀ base pre count, (x.restore base pre count).Issues fun op => op.addr < x.size.toNat :=
    fun base pre count => issues_loop fun i =>
      issues_ite (issues_bind issues_getRam fun _ => issues_issue (hwrap _)) issues_pure
  have hfit : ∀ first count, (x.eraseSectorFit first count).Issues fun op => op.addr < x.size.toNat := fun first count =>
    issues_bind (hstash _ _ _) fun _ => issues_bind (hsector _) fun _ => hrestore _ _ _
  unfold eraseRange
  refine issues_ite issues_fail (issues_ite issues_fail (issues_ite (issues_bind (hfit _ _) fun _ => ?_) ?_))
  · exact issues_bind (issues_loop fun _ => hsector _) fun _ => issues_ite (hfit _ _) issues_pure
  · exact issues_bind (issues_loop fun _ => hsector _) fun _ => issues_ite (hfit _ _) issues_pure

section Exact

variable {x : ExtPerf} (h : x.Sized) {startAddress size : UInt32} {lo cnt : Nat}
  (hlo : startAddress.toNat = lo * x.fatSectorSize.toNat) (hcnt : size.toNat = cnt * x.fatSectorSize.toNat)
include h hlo hcnt

theorem Sized.range_eq : startAddress.toNat / x.fatSectorSize.toNat = lo ∧
    (startAddress.toNat + size.toNat) / x.fatSectorSize.toNat = lo + cnt := by
  refine ⟨?_, ?_⟩
  · rw [hlo, Nat.mul_div_cancel _ h.fat_pos]
  · rw [hlo, hcnt, ← Nat.add_mul, Nat.mul_div_cancel _ h.fat_pos]

omit h hlo in
theorem count_pos (hne : size ≠ 0) : 0 < cnt := by
  rcases Nat.eq_zero_or_pos cnt with rfl | hpos
  · exact absurd (UInt32.toNat_inj.mp (hcnt.trans (Nat.zero_mul _))) hne
  · exact hpos

/-- A range of no bytes is refused. -/
theorem Sized.exact_of_empty (hzero : size = 0) : x.ErasesExactly startAddress size := by
  subst hzero
  have hcnt0 : cnt = 0 := (Nat.mul_eq_zero.mp hcnt.symm).resolve_right h.fat_pos.ne'
  obtain ⟨hfirst, hlast⟩ := h.range_eq hlo hcnt
  intro buffer img _
  have hrun : x.eraseRange x.eraseSectorFit startAddress 0 buffer img = ⟨.error .invalidSize, buffer, []⟩ := by
    unfold eraseRange
    rw [if_pos (Or.inr rfl)]
    rfl
  dsimp only
  unfold Prog.flash
  rw [hrun, hfirst, hlast, hcnt0]
  refine ⟨rfl, ?_, fun a => (if_neg ?_).symm⟩
  · unfold rangeOps touched
    rw [if_neg (by omega)]
    rfl
  · rw [show (0 : UInt32).toNat = 0 from rfl]
    omega

/-- A range that is part of the flash is erased. -/
theorem Sized.exact_of_le (hne : size ≠ 0) (hle : startAddress.toNat + size.toNat ≤ x.size.toNat) :
    x.ErasesExactly startAddress size := by
  have hcntpos := count_pos hcnt hne
  have hfat := h.fat_pos
  have hF := h.factor_pos
  obtain ⟨hfirst, hlast⟩ := h.range_eq hlo hcnt
  rw [hlo, hcnt, ← Nat.add_mul] at hle
  intro buffer img hlen
  obtain ⟨buffer', hrun⟩ := h.eraseRange_run hlo hcnt hcntpos hle hlen img
  have htouched : lo / x.flashFatSectorSizeFactor.toNat + x.touched lo (lo + cnt) =
      (lo + cnt - 1) / x.flashFatSectorSizeFactor.toNat + 1 := by
    have hdiv : lo / x.flashFatSectorSizeFactor.toNat ≤ (lo + cnt - 1) / x.flashFatSectorSizeFactor.toNat :=
      Nat.div_le_div_right (by omega)
    unfold touched
    rw [if_pos (by omega)]
    omega
  have hcleared := h.rangeOps_cleared (show lo < lo + cnt by omega) hle img (le_of_eq htouched)
  have hend : min (lo + cnt) ((lo / x.flashFatSectorSizeFactor.toNat + x.touched lo (lo + cnt)) *
      x.flashFatSectorSizeFactor.toNat) = lo + cnt := by
    have hdm := Nat.div_add_mod' (lo + cnt - 1) x.flashFatSectorSizeFactor.toNat
    have hmod := Nat.mod_lt (lo + cnt - 1) hF
    rw [htouched, Nat.succ_mul]
    omega
  rw [hend] at hcleared
  dsimp only
  unfold Prog.flash
  rw [hrun, if_neg hne, hfirst, hlast]
  refine ⟨rfl, rfl, fun a => ?_⟩
  have hbytes : (lo ≤ a / x.fatSectorSize.toNat ∧ a / x.fatSectorSize.toNat < lo + cnt) ↔
      startAddress.toNat ≤ a ∧ a < startAddress.toNat + size.toNat := by
    rw [hlo, hcnt, ← Nat.add_mul, Nat.le_div_iff_mul_le hfat, Nat.div_lt_iff_lt_mul hfat]
  change applyAll (x.rangeOps lo (lo + cnt) img) img a = _
  unfold rangeOps
  rw [hcleared]
  unfold cleared
  simp only [hbytes]

/-- The last flash sector of a range that leaves the flash is not on the flash, where all operations are. -/
theorem Sized.le_of_exact (hne : size ≠ 0) (hexact : x.ErasesExactly startAddress size) :
    startAddress.toNat + size.toNat ≤ x.size.toNat := by
  have hcntpos := count_pos hcnt hne
  obtain ⟨hfirst, hlast⟩ := h.range_eq hlo hcnt
  obtain ⟨n, hn⟩ := h.size_dvd
  by_contra hgt
  have hpast : n ≤ (lo + cnt - 1) / x.flashFatSectorSizeFactor.toNat := by
    rw [Nat.le_div_iff_mul_le h.factor_pos]
    have hmul : n * x.flashFatSectorSizeFactor.toNat * x.fatSectorSize.toNat < (lo + cnt) * x.fatSectorSize.toNat := by
      rw [Nat.mul_assoc, h.factor_mul, Nat.mul_comm n, ← hn, Nat.add_mul, ← hlo, ← hcnt]
      omega
    have hlt := Nat.lt_of_mul_lt_mul_right hmul
    omega
  have hmem : .erase ((lo + cnt - 1) / x.flashFatSectorSizeFactor.toNat * x.flashSectorSize.toNat)
      x.flashSectorSize.toNat ∈ x.rangeOps lo (lo + cnt) fun _ => 0 := by
    have hdiv : lo / x.flashFatSectorSizeFactor.toNat ≤ (lo + cnt - 1) / x.flashFatSectorSizeFactor.toNat :=
      Nat.div_le_div_right (by omega)
    refine List.mem_flatMap.mpr ⟨_, List.mem_range'_1.mpr ⟨hdiv, ?_⟩, List.mem_cons_self⟩
    unfold touched
    rw [if_pos (by omega)]
    omega
  obtain ⟨-, hops, -⟩ := hexact (List.replicate x.flashSectorSize.toNat 0) (fun _ => 0) List.length_replicate
  rw [hfirst, hlast] at hops
  rw [← hops] at hmem
  have hlt : (lo + cnt - 1) / x.flashFatSectorSizeFactor.toNat * x.flashSectorSize.toNat < x.size.toNat :=
    h.eraseRange_issues startAddress size _ _ _ hmem
  have hge := Nat.mul_le_mul_right x.flashSectorSize.toNat hpast
  rw [Nat.mul_comm n, ← hn] at hge
  omega

end Exact

/-- The call erases exactly its range if and only if the range is empty or part of the flash. -/
theorem eraseRange_exact_iff {x : ExtPerf} (h : x.Sized) {startAddress size : UInt32}
    (hstart : x.fatSectorSize.toNat ∣ startAddress.toNat) (hsize : x.fatSectorSize.toNat ∣ size.toNat) :
    x.ErasesExactly startAddress size ↔ size = 0 ∨ startAddress.toNat + size.toNat ≤ x.size.toNat := by
  obtain ⟨lo, hlo⟩ := hstart
  obtain ⟨cnt, hcnt⟩ := hsize
  rw [Nat.mul_comm] at hlo hcnt
  constructor
  · intro hexact
    by_cases hzero : size = 0
    · exact .inl hzero
    · exact .inr (h.le_of_exact hlo hcnt hzero hexact)
  · intro hcond
    by_cases hzero : size = 0
    · exact h.exact_of_empty hlo hcnt hzero
    · exact h.exact_of_le hlo hcnt hzero (hcond.resolve_left hzero)

/-- Two flash sectors of eight FAT sectors each. -/
def twoSectors : ExtPerf := ⟨8192, 0, 4096, 512⟩

theorem sized_twoSectors : twoSectors.Sized where
  fat_pos := by decide
  word_dvd_fat := by decide
  fat_dvd := by decide
  size_dvd := by decide
  rotation_lt := by decide
  size_lt := by decide

/-- Twelve FAT sectors, four of them in the second flash sector. -/
theorem eraseRange_exact_iff_twoSectors : twoSectors.ErasesExactly 0 6144 :=
  (eraseRange_exact_iff sized_twoSectors (by decide) (by decide)).mpr (.inr (by decide))

def zeroBuffer : List UInt8 := List.replicate 4096 0

/-- Two flash sectors are erased from the second one on: the call succeeds, and the first byte of the flash is erased. -/
theorem eraseRange_past_end : ¬twoSectors.ErasesExactly 4096 8192 ∧
    (twoSectors.eraseRange twoSectors.eraseSectorFit 4096 8192 zeroBuffer fun _ => 0).result = .ok () ∧
    (twoSectors.eraseRange twoSectors.eraseSectorFit 4096 8192).flash zeroBuffer (fun _ => 0) 0 = 0xFF := by
  have hbyte : (twoSectors.eraseRange twoSectors.eraseSectorFit 4096 8192).flash zeroBuffer (fun _ => 0) 0 = 0xFF := rfl
  refine ⟨fun hexact => ?_, rfl, hbyte⟩
  obtain ⟨-, -, hbytes⟩ := hexact zeroBuffer (fun _ => 0) List.length_replicate
  rw [hbytes 0] at hbyte
  exact absurd hbyte (by decide)

end ExtPerf

end EspIdf.WearLevelling
