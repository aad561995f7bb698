import EspIdf.WearLevelling.Access

/-!
# FAT sectors smaller than a flash sector: `WL_Ext_Perf`

The layer runs on a mounted `WL_Flash`, taken for the plain flash it behaves as.

* `ExtPerf.wrap` : the byte of that flash an address stands for, also one beyond its end;
* `ExtPerf.eraseSectorFit`, `ExtPerf.eraseRange` : erasing some of the FAT sectors of a flash sector, and any range of
  FAT sectors;
* `stash_run`, `restore_run` : what the two loops of `erase_sector_fit` do (`restore_erased`);
* `Fits` : sizes that divide one another, with the word arithmetic that follows (`place_le`, `wrap_fatAddr`).
-/

namespace EspIdf.WearLevelling

open Word32 NorFlash

/-- The layer, over a flash of `size` bytes whose mapping is rotated by `rotation` bytes. -/
structure ExtPerf where
  size : UInt32
  rotation : UInt32
  flashSectorSize : UInt32
  fatSectorSize : UInt32
  deriving DecidableEq, Repr

/-- The RAM of the layer is `sector_buffer`. -/
abbrev ExtProg := Prog (List UInt8) EspErr

namespace ExtPerf

/-- The byte `WL_Flash` takes an address for: `calcAddr` computes modulo the size. -/
def wrap (x : ExtPerf) (addr : UInt32) : Nat :=
  (((x.size - x.rotation + addr) % x.size).toNat + x.rotation.toNat) % x.size.toNat

def flashFatSectorSizeFactor (x : ExtPerf) : UInt32 := x.flashSectorSize / x.fatSectorSize

def read (x : ExtPerf) (srcAddr size : UInt32) : ExtProg (List UInt8) := Prog.readFlash (x.wrap srcAddr) size.toNat

def write (x : ExtPerf) (destAddr : UInt32) (src : List UInt8) : ExtProg Unit := Prog.issue (.write (x.wrap destAddr) src)

/-- The start of the sector around byte `a`. -/
def sectorStart (x : ExtPerf) (a : Nat) : Nat := a / x.flashSectorSize.toNat * x.flashSectorSize.toNat

def eraseSector (x : ExtPerf) (sector : UInt32) : ExtProg Unit :=
  Prog.issue (.erase (x.sectorStart (x.wrap (sector * x.flashSectorSize))) x.flashSectorSize.toNat)

/-- FAT sector `i` of a flash sector is not among the `count` ones from `preCheckStart` on. -/
def Kept (preCheckStart count : UInt32) (i : Nat) : Prop :=
  .ofNat i < preCheckStart ∨ count + preCheckStart ≤ .ofNat i

instance (preCheckStart count : UInt32) (i : Nat) : Decidable (Kept preCheckStart count i) :=
  inferInstanceAs (Decidable (_ ∨ _))

/-- The address of FAT sector `i` of flash sector `base`. -/
def fatAddr (x : ExtPerf) (base : UInt32) (i : Nat) : UInt32 := base * x.flashSectorSize + .ofNat i * x.fatSectorSize

/-- The offset of `sector_buffer[i * fat_sector_size / sizeof(uint32_t)]`. -/
def bufferOffset (x : ExtPerf) (i : Nat) : Nat := ((.ofNat i * x.fatSectorSize) / 4 : UInt32).toNat * 4

/-- Store `bytes` in the buffer. -/
def store (offset : Nat) (bytes buffer : List UInt8) : List UInt8 :=
  buffer.take offset ++ bytes ++ buffer.drop (offset + bytes.length)

/-- Read FAT sector `i` into the buffer if it is to be kept. -/
def stashOne (x : ExtPerf) (base preCheckStart count : UInt32) (i : Nat) : ExtProg Unit := do
  if Kept preCheckStart count i then do
    let bytes ← x.read (x.fatAddr base i) x.fatSectorSize
    Prog.modifyRam (store (x.bufferOffset i) bytes)
  else pure ()

/-- Read the FAT sectors to keep into the buffer. -/
def stash (x : ExtPerf) (base preCheckStart count : UInt32) : ExtProg Unit :=
  Prog.loop x.flashFatSectorSizeFactor.toNat (x.stashOne base preCheckStart count)

/-- Write the FAT sectors to keep back from the buffer. -/
def restore (x : ExtPerf) (base preCheckStart count : UInt32) : ExtProg Unit :=
  Prog.loop x.flashFatSectorSizeFactor.toNat fun i => do
    if Kept preCheckStart count i then do
      let buffer ← Prog.getRam
      x.write (x.fatAddr base i) ((buffer.drop (x.bufferOffset i)).take x.fatSectorSize.toNat)
    else pure ()

/-- `WL_Ext_Perf::erase_sector_fit`. -/
def eraseSectorFit (x : ExtPerf) (firstEraseSector count : UInt32) : ExtProg Unit := do
  let base := firstEraseSector / x.flashFatSectorSizeFactor
  let preCheckStart := firstEraseSector % x.flashFatSectorSizeFactor
  x.stash base preCheckStart count
  x.eraseSector base
  x.restore base preCheckStart count

/-- `WL_Ext_Perf::erase_range`, with the `erase_sector_fit` of the class. -/
def eraseRange (x : ExtPerf) (fit : UInt32 → UInt32 → ExtProg Unit) (startAddress size : UInt32) : ExtProg Unit :=
  if size % x.fatSectorSize ≠ 0 ∨ size = 0 then Prog.fail .invalidSize
  else if startAddress % x.fatSectorSize ≠ 0 then Prog.fail .invalidArg
  else do
    let factor := x.flashFatSectorSizeFactor
    let sectorsCount := size / x.fatSectorSize
    let preCheckStart := startAddress / x.fatSectorSize % factor
    let preCheckCount := if sectorsCount < factor - preCheckStart then sectorsCount else factor - preCheckStart
    let postCheckCount := (sectorsCount - preCheckCount) % factor
    let postCheckStart := (startAddress + size - postCheckCount * x.fatSectorSize) / x.fatSectorSize
    let restCheckCount := sectorsCount - preCheckCount - postCheckCount
    -- a whole flash sector counts among the rest
    let whole : Bool := preCheckCount = factor ∧ preCheckStart = 0
    let restCheckCount := if whole then restCheckCount + factor else restCheckCount
    let preCheckCount := if whole then 0 else preCheckCount
    let restCheckStart := startAddress + preCheckCount * x.fatSectorSize
    if preCheckCount ≠ 0 then fit (startAddress / x.fatSectorSize) preCheckCount else pure ()
    Prog.loop (restCheckCount / factor).toNat fun i =>
      x.eraseSector (restCheckStart / x.flashSectorSize + .ofNat i)
    if postCheckCount ≠ 0 then fit postCheckStart postCheckCount else pure ()

end ExtPerf

/-! ## The flash below -/

theorem ExtPerf.wrap_lt {x : ExtPerf} (h : 0 < x.size.toNat) (addr : UInt32) : x.wrap addr < x.size.toNat :=
  Nat.mod_lt _ h

/-- An address inside the flash stands for itself. -/
theorem ExtPerf.wrap_of_lt {x : ExtPerf} (hlt : x.size.toNat < 2 ^ 31) (hrot : x.rotation.toNat ≤ x.size.toNat)
    {addr : UInt32} (ha : addr.toNat < x.size.toNat) : x.wrap addr = addr.toNat := by
  have hsub : (x.size - x.rotation).toNat = x.size.toNat - x.rotation.toNat := toNat_sub_of_le hrot
  unfold wrap
  rw [UInt32.toNat_mod, toNat_add_of_lt (by rw [hsub]; omega), hsub, Nat.mod_add_mod,
    show x.size.toNat - x.rotation.toNat + addr.toNat + x.rotation.toNat = addr.toNat + x.size.toNat by omega,
    Nat.add_mod_right, Nat.mod_eq_of_lt ha]

/-! ## Whole sectors -/

namespace ExtPerf

/-- The first byte of flash sector `base`. -/
def place (x : ExtPerf) (base : UInt32) : Nat := x.wrap (base * x.flashSectorSize)

/-- Flash sectors are whole FAT sectors, these whole words. -/
structure FatSized (x : ExtPerf) : Prop where
  fat_pos : 0 < x.fatSectorSize.toNat
  word_dvd_fat : 4 ∣ x.fatSectorSize.toNat
  fat_dvd : x.fatSectorSize.toNat ∣ x.flashSectorSize.toNat

/-- The FAT sectors of a flash sector follow one another. -/
structure Laid (x : ExtPerf) (base : UInt32) : Prop extends x.FatSized where
  wrap_fatAddr : ∀ i < x.flashFatSectorSizeFactor.toNat,
    x.wrap (x.fatAddr base i) = x.place base + i * x.fatSectorSize.toNat

theorem factor_toNat (x : ExtPerf) :
    x.flashFatSectorSizeFactor.toNat = x.flashSectorSize.toNat / x.fatSectorSize.toNat :=
  UInt32.toNat_div _ _

namespace FatSized

variable {x : ExtPerf} (h : x.FatSized)
include h

theorem factor_mul : x.flashFatSectorSizeFactor.toNat * x.fatSectorSize.toNat = x.flashSectorSize.toNat := by
  rw [factor_toNat, Nat.div_mul_cancel h.fat_dvd]

theorem index_lt {i : Nat} (hi : i < x.flashFatSectorSizeFactor.toNat) :
    i * x.fatSectorSize.toNat + x.fatSectorSize.toNat ≤ x.flashSectorSize.toNat := by
  rw [← h.factor_mul, ← Nat.succ_mul]
  exact Nat.mul_le_mul_right _ hi

/-- The word `i * fat_sector_size`. -/
theorem index_toNat {i : Nat} (hi : i < x.flashFatSectorSizeFactor.toNat) :
    (UInt32.ofNat i * x.fatSectorSize).toNat = i * x.fatSectorSize.toNat := by
  have hle := h.index_lt hi
  have hS := x.flashSectorSize.toNat_lt
  have hfat := h.fat_pos
  have hi32 : (UInt32.ofNat i).toNat = i := toNat_ofNat_of_lt (lt_trans hi (UInt32.toNat_lt _))
  rw [toNat_mul_of_lt (by rw [hi32]; omega), hi32]

theorem bufferOffset_eq {i : Nat} (hi : i < x.flashFatSectorSizeFactor.toNat) :
    x.bufferOffset i = i * x.fatSectorSize.toNat := by
  unfold bufferOffset
  rw [UInt32.toNat_div, h.index_toNat hi]
  exact Nat.div_mul_cancel (Dvd.dvd.mul_left h.word_dvd_fat i)
end FatSized

/-- The sizes of a layer whose sectors are whole FAT sectors and whole erase units. -/
structure Fits (x : ExtPerf) : Prop where
  fat_pos : 0 < x.fatSectorSize.toNat
  word_dvd_fat : 4 ∣ x.fatSectorSize.toNat
  fat_dvd : x.fatSectorSize.toNat ∣ x.flashSectorSize.toNat
  sector_dvd_word : x.flashSectorSize.toNat ∣ 2 ^ 32
  size_dvd : x.flashSectorSize.toNat ∣ x.size.toNat
  rotation_dvd : x.flashSectorSize.toNat ∣ x.rotation.toNat
  rotation_lt : x.rotation.toNat < x.size.toNat
  size_lt : x.size.toNat < 2 ^ 31

namespace Fits

variable {x : ExtPerf} (h : x.Fits)
include h

theorem size_pos : 0 < x.size.toNat := lt_of_le_of_lt (Nat.zero_le _) h.rotation_lt

theorem sector_pos : 0 < x.flashSectorSize.toNat := Nat.pos_of_dvd_of_pos h.size_dvd h.size_pos

theorem fatSized : x.FatSized := ⟨h.fat_pos, h.word_dvd_fat, h.fat_dvd⟩

theorem sub_rotation : (x.size - x.rotation).toNat = x.size.toNat - x.rotation.toNat :=
  toNat_sub_of_le (le_of_lt h.rotation_lt)

theorem wrap_of_lt {addr : UInt32} (ha : addr.toNat < x.size.toNat) : x.wrap addr = addr.toNat :=
  ExtPerf.wrap_of_lt h.size_lt (le_of_lt h.rotation_lt) ha

/-- The start of a sector stands for the start of a sector, and the bytes behind it follow. -/
theorem wrap_add {addr : UInt32} (ha : x.flashSectorSize.toNat ∣ addr.toNat) {j : Nat}
    (hj : j < x.flashSectorSize.toNat) : x.wrap (addr + .ofNat j) = x.wrap addr + j ∧
      x.flashSectorSize.toNat ∣ x.wrap addr := by
  have hS := h.sector_pos
  obtain ⟨q, hq⟩ := h.sector_dvd_word
  obtain ⟨n, hn⟩ := h.size_dvd
  obtain ⟨r, hr⟩ := h.rotation_dvd
  obtain ⟨b, hb⟩ := ha
  have hlt := h.size_lt
  have hrot := h.rotation_lt
  have hjlt : j < 2 ^ 32 := lt_of_lt_of_le hj (Nat.le_of_dvd (by norm_num) h.sector_dvd_word)
  have hsub := h.sub_rotation
  have hq0 : 0 < q := by
    rcases Nat.eq_zero_or_pos q with rfl | hq0
    · omega
    · exact hq0
  have hn0 : 0 < n := by
    rcases Nat.eq_zero_or_pos n with rfl | hn0
    · omega
    · exact hn0
  unfold wrap
  simp only [UInt32.toNat_mod, UInt32.toNat_add, hsub, toNat_ofNat_of_lt hjlt]
  rw [hn] at hrot ⊢
  rw [hr] at hrot ⊢
  rw [hb, hq]
  generalize x.flashSectorSize.toNat = S at *
  have hrn : r < n := Nat.lt_of_mul_lt_mul_left hrot
  have key : ∀ i < S, ((S * n - S * r + (S * b + i) % (S * q)) % (S * q) % (S * n) + S * r) % (S * n) =
      ((n - r + b) % q % n + r) % n * S + i := by
    intro i hi
    rw [Nat.add_mod_mod, ← Nat.mul_sub,
      show S * (n - r) + (S * b + i) = (n - r + b) * S + i by rw [Nat.add_mul, Nat.mul_comm S, Nat.mul_comm S]; omega,
      Nat.mul_comm S q, mul_add_mod_mul hi hq0, Nat.mul_comm S n, mul_add_mod_mul hi hn0,
      show (n - r + b) % q % n * S + i + S * r = ((n - r + b) % q % n + r) * S + i by
        rw [Nat.add_mul, Nat.mul_comm S r]; omega, mul_add_mod_mul hi hn0]
  have key0 := key 0 hS
  rw [Nat.add_zero, Nat.add_zero, Nat.add_mod_mod] at key0
  rw [key j hj, key0]
  exact ⟨rfl, Nat.dvd_mul_left _ _⟩

theorem base_dvd (base : UInt32) : x.flashSectorSize.toNat ∣ (base * x.flashSectorSize).toNat := by
  rw [UInt32.toNat_mul]
  exact (Nat.dvd_mod_iff h.sector_dvd_word).mpr (Nat.dvd_mul_left _ _)

theorem place_dvd (base : UInt32) : x.flashSectorSize.toNat ∣ x.place base := by
  have hadd := h.wrap_add (h.base_dvd base) h.sector_pos
  exact hadd.2

/-- A sector lies inside the flash. -/
theorem place_le (base : UInt32) : x.place base + x.flashSectorSize.toNat ≤ x.size.toNat := by
  have hlt := ExtPerf.wrap_lt h.size_pos (base * x.flashSectorSize)
  obtain ⟨n, hn⟩ := h.size_dvd
  obtain ⟨b, hb⟩ := h.place_dvd base
  change x.place base < _ at hlt
  rw [hn, hb] at hlt ⊢
  have hbn : b + 1 ≤ n := Nat.lt_of_mul_lt_mul_left hlt
  calc x.flashSectorSize.toNat * b + x.flashSectorSize.toNat
      = x.flashSectorSize.toNat * (b + 1) := (Nat.mul_succ _ _).symm
    _ ≤ x.flashSectorSize.toNat * n := Nat.mul_le_mul_left _ hbn

/-- The sector of an aligned address. -/
theorem place_div {addr : UInt32} (ha : x.flashSectorSize.toNat ∣ addr.toNat) (hlt : addr.toNat < x.size.toNat) :
    x.place (addr / x.flashSectorSize) = addr.toNat := by
  have e : addr / x.flashSectorSize * x.flashSectorSize = addr := by
    apply UInt32.toNat_inj.mp
    rw [toNat_mul_of_lt (by rw [UInt32.toNat_div, Nat.div_mul_cancel ha]; exact addr.toNat_lt), UInt32.toNat_div,
      Nat.div_mul_cancel ha]
  unfold place
  rw [e, h.wrap_of_lt hlt]

theorem sectorStart_place (base : UInt32) : x.sectorStart (x.place base) = x.place base :=
  Nat.div_mul_cancel (h.place_dvd base)

theorem laid (base : UInt32) : x.Laid base where
  toFatSized := h.fatSized
  wrap_fatAddr := by
    intro i hi
    have hle := h.fatSized.index_lt hi
    have hfat := h.fat_pos
    have e : UInt32.ofNat i * x.fatSectorSize = .ofNat (i * x.fatSectorSize.toNat) := by
      apply UInt32.toNat_inj.mp
      rw [h.fatSized.index_toNat hi, toNat_ofNat_of_lt (by have := x.flashSectorSize.toNat_lt; omega)]
    unfold fatAddr
    rw [e]
    exact (h.wrap_add (h.base_dvd base) (by omega)).1

end Fits

/-! ## The two loops -/

theorem store_length {offset : Nat} {bytes buffer : List UInt8} (h : offset + bytes.length ≤ buffer.length) :
    (store offset bytes buffer).length = buffer.length := by
  unfold store
  simp only [List.length_append, List.length_take, List.length_drop]
  omega

theorem store_getD {offset : Nat} {bytes buffer : List UInt8} (h : offset + bytes.length ≤ buffer.length) (p : Nat)
    (b : UInt8) : (store offset bytes buffer).getD p b =
      if offset ≤ p ∧ p < offset + bytes.length then bytes.getD (p - offset) b else buffer.getD p b := by
  have htake : (buffer.take offset).length = offset := by
    rw [List.length_take]
    omega
  unfold store
  rw [List.append_assoc]
  by_cases hlo : p < offset
  · rw [if_neg (by omega), List.getD_append _ _ _ _ (by omega)]
    simp only [List.getD_eq_getElem?_getD, List.getElem?_take, if_pos hlo]
  · rw [List.getD_append_right _ _ _ _ (by omega), htake]
    by_cases hhi : p < offset + bytes.length
    · rw [if_pos (by omega), List.getD_append _ _ _ _ (by omega)]
    · rw [if_neg (by omega), List.getD_append_right _ _ _ _ (by omega)]
      simp only [List.getD_eq_getElem?_getD, List.getElem?_drop]
      rw [show offset + bytes.length + (p - offset - bytes.length) = p by omega]

section Loops

variable {x : ExtPerf} {base : UInt32} (h : x.Laid base) (preCheckStart count : UInt32)
include h

omit h in
/-- After `n` rounds of the first loop the bytes kept in them are in the buffer. -/
def Stashed (x : ExtPerf) (base preCheckStart count : UInt32) (img : Image) (buffer : List UInt8) (n : Nat)
    (b : List UInt8) : Prop :=
  b.length = x.flashSectorSize.toNat ∧ ∀ p, b.getD p 0xFF =
    if p < n * x.fatSectorSize.toNat ∧ Kept preCheckStart count (p / x.fatSectorSize.toNat) then
      img (x.place base + p)
    else buffer.getD p 0xFF

theorem stashOne_run {buffer : List UInt8} {img : Image} (i : Nat) (b : List UInt8)
    (hi : i < x.flashFatSectorSizeFactor.toNat) (hs : x.Stashed base preCheckStart count img buffer i b) :
    ∃ b', x.stashOne base preCheckStart count i b img = ⟨.ok (), b', []⟩ ∧
      x.Stashed base preCheckStart count img buffer (i + 1) b' := by
  have hfat := h.fat_pos
  obtain ⟨hb, hold⟩ := hs
  have hle := h.index_lt hi
  have hsucc : (i + 1) * x.fatSectorSize.toNat = i * x.fatSectorSize.toNat + x.fatSectorSize.toNat :=
    Nat.succ_mul _ _
  have hdiv : ∀ p, i * x.fatSectorSize.toNat ≤ p → p < (i + 1) * x.fatSectorSize.toNat →
      p / x.fatSectorSize.toNat = i := fun p h1 h2 =>
    Nat.div_eq_of_lt_le h1 h2
  -- outside FAT sector `i` nothing changes in this round
  have hother : ∀ p, ¬(i * x.fatSectorSize.toNat ≤ p ∧ p < (i + 1) * x.fatSectorSize.toNat) →
      (p < i * x.fatSectorSize.toNat ↔ p < (i + 1) * x.fatSectorSize.toNat) := by
    intro p hp
    omega
  by_cases hk : Kept preCheckStart count i
  · have hfit : x.bufferOffset i + (readBytes img (x.wrap (x.fatAddr base i)) x.fatSectorSize.toNat).length ≤
        b.length := by
      rw [h.bufferOffset_eq hi, readBytes_length, hb]
      exact hle
    refine ⟨store (x.bufferOffset i) (readBytes img (x.wrap (x.fatAddr base i)) x.fatSectorSize.toNat) b,
      ?_, by rw [store_length hfit, hb], ?_⟩
    · unfold stashOne
      rw [if_pos hk]
      rfl
    · intro p
      rw [store_getD hfit, h.bufferOffset_eq hi, readBytes_length, ← hsucc]
      by_cases hin : i * x.fatSectorSize.toNat ≤ p ∧ p < (i + 1) * x.fatSectorSize.toNat
      · rw [if_pos hin, if_pos ⟨hin.2, by rw [hdiv p hin.1 hin.2]; exact hk⟩, readBytes_getD (by omega),
          h.wrap_fatAddr i hi]
        congr 1
        omega
      · rw [if_neg hin, hold p]
        simp only [hother p hin]
  · refine ⟨b, ?_, hb, ?_⟩
    · unfold stashOne
      rw [if_neg hk]
      rfl
    · intro p
      rw [hold p]
      by_cases hin : i * x.fatSectorSize.toNat ≤ p ∧ p < (i + 1) * x.fatSectorSize.toNat
      · rw [if_neg (by omega), if_neg (by rw [hdiv p hin.1 hin.2]; exact fun hc => hk hc.2)]
      · simp only [hother p hin]

/-- The first loop issues nothing and puts the bytes to keep into the buffer. -/
theorem stash_run {buffer : List UInt8} (hlen : buffer.length = x.flashSectorSize.toNat) (img : Image) :
    ∃ buffer', x.stash base preCheckStart count buffer img = ⟨.ok (), buffer', []⟩ ∧
      buffer'.length = x.flashSectorSize.toNat ∧
      ∀ p < x.flashSectorSize.toNat, buffer'.getD p 0xFF =
        if Kept preCheckStart count (p / x.fatSectorSize.toNat) then img (x.place base + p)
        else buffer.getD p 0xFF := by
  obtain ⟨buffer', hrun, hlen', hkept⟩ := loopFrom_quiet (x.Stashed base preCheckStart count img buffer)
    (stashOne_run h preCheckStart count) (Nat.zero_add _) ⟨hlen, fun p => by rw [if_neg (by omega)]⟩
  refine ⟨buffer', hrun, hlen', ?_⟩
  intro p hp
  rw [hkept p, h.factor_mul]
  simp only [hp, true_and]

omit h in
/-- What the second loop issues for FAT sector `i`. -/
def restoreOps (x : ExtPerf) (base preCheckStart count : UInt32) (buffer : List UInt8) (i : Nat) : List Op :=
  if Kept preCheckStart count i then
    [.write (x.wrap (x.fatAddr base i)) ((buffer.drop (x.bufferOffset i)).take x.fatSectorSize.toNat)]
  else []

omit h in
theorem restore_run (buffer : List UInt8) (img : Image) : x.restore base preCheckStart count buffer img =
    ⟨.ok (), buffer, (List.range' 0 x.flashFatSectorSizeFactor.toNat).flatMap
      (x.restoreOps base preCheckStart count buffer)⟩ := by
  unfold restore Prog.loop
  apply loopFrom_ops
  intro i img'
  unfold restoreOps
  by_cases hk : Kept preCheckStart count i
  · rw [if_pos hk, if_pos hk]
    rfl
  · rw [if_neg hk, if_neg hk]
    rfl

/-- The bytes the second loop writes for FAT sector `i`. -/
theorem restoreOp_bytes {buffer : List UInt8} (hlen : buffer.length = x.flashSectorSize.toNat) {i : Nat}
    (hi : i < x.flashFatSectorSizeFactor.toNat) :
    ((buffer.drop (x.bufferOffset i)).take x.fatSectorSize.toNat).length = x.fatSectorSize.toNat := by
  have hle := h.index_lt hi
  rw [List.length_take, List.length_drop, h.bufferOffset_eq hi, hlen]
  omega

/-- The second loop stays inside the sector. -/
theorem restore_within {buffer : List UInt8} (hlen : buffer.length = x.flashSectorSize.toNat) :
    ∀ op ∈ (List.range' 0 x.flashFatSectorSizeFactor.toNat).flatMap (x.restoreOps base preCheckStart count buffer),
      op.Within (x.place base) x.flashSectorSize.toNat := by
  intro op hop
  obtain ⟨i, hi, hop⟩ := List.mem_flatMap.mp hop
  rw [List.mem_range'_1, Nat.zero_add] at hi
  have hle := h.index_lt hi.2
  unfold restoreOps at hop
  split_ifs at hop
  · rw [List.mem_singleton] at hop
    subst hop
    refine ⟨?_, ?_⟩
    · rw [h.wrap_fatAddr i hi.2]
      omega
    · rw [h.wrap_fatAddr i hi.2, restoreOp_bytes h hlen hi.2]
      omega
  · exact absurd hop List.not_mem_nil

/-- After `n` rounds of the second loop the bytes kept in them are programmed. -/
theorem restore_upto {buffer : List UInt8} (hlen : buffer.length = x.flashSectorSize.toNat) (img : Image) {p : Nat}
    {n : Nat} (hn : n ≤ x.flashFatSectorSizeFactor.toNat) :
    applyAll ((List.range' 0 n).flatMap (x.restoreOps base preCheckStart count buffer)) img (x.place base + p) =
      if p < n * x.fatSectorSize.toNat ∧ Kept preCheckStart count (p / x.fatSectorSize.toNat) then
        img (x.place base + p) &&& buffer.getD p 0xFF
      else img (x.place base + p) := by
  have hfat := h.fat_pos
  induction n with
  | zero =>
      rw [if_neg (by omega)]
      rfl
  | succ n ih =>
      have hle := h.index_lt hn
      have hdiv : n * x.fatSectorSize.toNat ≤ p → p < (n + 1) * x.fatSectorSize.toNat →
          p / x.fatSectorSize.toNat = n := fun h1 h2 => Nat.div_eq_of_lt_le h1 h2
      have hprev := ih (by omega)
      rw [List.range'_concat, List.flatMap_append, applyAll_append]
      simp only [Nat.zero_add, Nat.one_mul, List.flatMap_cons, List.flatMap_nil, List.append_nil]
      generalize applyAll _ img = img' at hprev ⊢
      unfold restoreOps
      have hsucc : (n + 1) * x.fatSectorSize.toNat = n * x.fatSectorSize.toNat + x.fatSectorSize.toNat :=
        Nat.succ_mul _ _
      by_cases hk : Kept preCheckStart count n
      · rw [if_pos hk]
        change program img' _ _ _ = _
        have hbytes := restoreOp_bytes h hlen hn
        by_cases hin : n * x.fatSectorSize.toNat ≤ p ∧ p < (n + 1) * x.fatSectorSize.toNat
        · rw [program_in (by rw [h.wrap_fatAddr n hn]; omega) (by rw [h.wrap_fatAddr n hn, hbytes]; omega),
            hprev, if_neg (by omega), hdiv hin.1 hin.2, if_pos ⟨hin.2, hk⟩, h.wrap_fatAddr n hn,
            h.bufferOffset_eq hn]
          simp only [List.getD_eq_getElem?_getD, List.getElem?_take, List.getElem?_drop]
          rw [if_pos (by omega),
            show n * x.fatSectorSize.toNat + (x.place base + p - (x.place base + n * x.fatSectorSize.toNat)) = p by omega]
        · rw [program_out (by rw [h.wrap_fatAddr n hn, hbytes]; omega), hprev]
          by_cases hlow : p < n * x.fatSectorSize.toNat
          · simp only [hlow, show p < (n + 1) * x.fatSectorSize.toNat by omega]
          · rw [if_neg (by omega), if_neg (by omega)]
      · rw [if_neg hk]
        change img' _ = _
        rw [hprev]
        by_cases hin : n * x.fatSectorSize.toNat ≤ p ∧ p < (n + 1) * x.fatSectorSize.toNat
        · rw [if_neg (by omega), if_neg (by rw [hdiv hin.1 hin.2]; exact fun hc => hk hc.2)]
        · by_cases hlow : p < n * x.fatSectorSize.toNat
          · simp only [hlow, show p < (n + 1) * x.fatSectorSize.toNat by omega]
          · rw [if_neg (by omega), if_neg (by omega)]

/-- The second loop on an erased sector: the FAT sectors kept come from the buffer, the others stay erased. -/
theorem restore_erased {buffer : List UInt8} (hlen : buffer.length = x.flashSectorSize.toNat) {img : Image}
    (herased : ∀ p < x.flashSectorSize.toNat, img (x.place base + p) = 0xFF) {p : Nat}
    (hp : p < x.flashSectorSize.toNat) :
    applyAll ((List.range' 0 x.flashFatSectorSizeFactor.toNat).flatMap
        (x.restoreOps base preCheckStart count buffer)) img (x.place base + p) =
      if Kept preCheckStart count (p / x.fatSectorSize.toNat) then buffer.getD p 0xFF else 0xFF := by
  rw [restore_upto h preCheckStart count hlen img le_rfl, herased p hp, h.factor_mul, and_allOnes]
  simp only [hp, true_and]

end Loops

/-! ## Erasing -/

namespace Fits

variable {x : ExtPerf} (h : x.Fits)
include h

theorem eraseSector_run (base : UInt32) (buffer : List UInt8) (img : Image) :
    x.eraseSector base buffer img = ⟨.ok (), buffer, [.erase (x.place base) x.flashSectorSize.toNat]⟩ := by
  unfold eraseSector
  change (⟨.ok (), buffer, [.erase (x.sectorStart (x.place base)) _]⟩ : Outcome _ _ _) = _
  rw [h.sectorStart_place]

/-- Erasing the range of one flash sector erases that sector. -/
theorem eraseRange_sector (fit : UInt32 → UInt32 → ExtProg Unit) {addr : UInt32}
    (ha : x.flashSectorSize.toNat ∣ addr.toNat) (buffer : List UInt8) (img : Image) :
    x.eraseRange fit addr x.flashSectorSize buffer img =
      x.eraseSector (addr / x.flashSectorSize) buffer img := by
  have hS := h.sector_pos
  have hfat := h.fat_pos
  have hfac : x.flashSectorSize / x.fatSectorSize = x.flashFatSectorSizeFactor := rfl
  have hfacpos : 0 < x.flashFatSectorSizeFactor.toNat := by
    rw [factor_toNat]
    exact Nat.div_pos (Nat.le_of_dvd hS h.fat_dvd) hfat
  have h1 : x.flashSectorSize % x.fatSectorSize = 0 := by
    apply UInt32.toNat_inj.mp
    rw [UInt32.toNat_mod]
    exact Nat.mod_eq_zero_of_dvd h.fat_dvd
  have h2 : x.flashSectorSize ≠ 0 := fun e => by
    rw [e] at hS
    exact absurd hS (lt_irrefl 0)
  have h3 : addr % x.fatSectorSize = 0 := by
    apply UInt32.toNat_inj.mp
    rw [UInt32.toNat_mod]
    exact Nat.mod_eq_zero_of_dvd (dvd_trans h.fat_dvd ha)
  have hpre : addr / x.fatSectorSize % x.flashFatSectorSizeFactor = 0 := by
    apply UInt32.toNat_inj.mp
    rw [UInt32.toNat_mod, UInt32.toNat_div]
    apply Nat.mod_eq_zero_of_dvd
    obtain ⟨b, hb⟩ := ha
    refine ⟨b, ?_⟩
    rw [hb, ← h.fatSized.factor_mul, Nat.mul_right_comm, Nat.mul_div_cancel _ hfat]
  have hself : x.flashFatSectorSizeFactor / x.flashFatSectorSizeFactor = 1 := by
    apply UInt32.toNat_inj.mp
    rw [UInt32.toNat_div]
    exact Nat.div_self hfacpos
  have hzero : (0 : UInt32) % x.flashFatSectorSizeFactor = 0 := by
    apply UInt32.toNat_inj.mp
    rw [UInt32.toNat_mod]
    exact Nat.zero_mod _
  unfold eraseRange
  rw [if_neg (not_or.mpr ⟨not_not.mpr h1, h2⟩), if_neg (not_not.mpr h3)]
  dsimp only
  rw [hfac, hpre, UInt32.sub_zero, if_neg (UInt32.lt_irrefl _), UInt32.sub_self, hzero]
  simp only [and_self, decide_true, if_true, ne_eq, not_true_eq_false, if_false]
  rw [UInt32.sub_zero, UInt32.zero_add, hself, UInt32.zero_mul, UInt32.add_zero]
  have hone : ((addr / x.flashSectorSize) + UInt32.ofNat 0) = addr / x.flashSectorSize := UInt32.add_zero _
  have hrun := h.eraseSector_run (addr / x.flashSectorSize) buffer img
  change ((x.eraseSector (addr / x.flashSectorSize + UInt32.ofNat 0) >>= fun _ => pure ()) >>= fun _ => pure ())
    buffer img = _
  rw [hone, bind_run (bind_run hrun rfl) rfl, hrun]
  rfl

end Fits

end ExtPerf

end EspIdf.WearLevelling
