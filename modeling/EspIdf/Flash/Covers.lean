import EspIdf.Flash.Quiet

/-!
# The range that is accessed

* `Covers` : the accesses stay on the chip, there is none exactly where the request is refused, and they tile the
  range;
* `ReadWraps`, `read_covers_iff` : the sum in the check of a read wraps;
* `write_covers` : a write covers its range;
* `Region.Hidden`, `Region.Ghost`, `erase_covers_iff` : the regions that an erase misses or finds by mistake;
* `access_covers_iff` : the requests that are covered exactly.
-/

namespace EspIdf.Flash

open Calls Pieces

/-! ## The requests -/

theorem invalidArg_ne : ESP_ERR_INVALID_ARG ≠ ESP_OK := by decide

theorem toNat_ne_zero {n : UInt32} (h : n ≠ 0) : n.toNat ≠ 0 := fun hn => h (UInt32.toNat_inj.mp hn)

/-- The driver accesses the chip only, a request is refused before any access exactly if it is not `admitted`, and on
success the accesses make up the range. -/
structure Covers (chip : Chip) (address length : UInt32) (admitted : Prop) (err : EspErr) (calls : List Call) : Prop where
  inside : ∀ c ∈ calls, (c.range chip).1 + (c.range chip).2 ≤ chip.size.toNat
  refused : err ≠ ESP_OK ∧ calls = [] ↔ ¬admitted
  tiles : err = ESP_OK → Tiles (calls.map (Call.range chip)) address.toNat length.toNat

def Fits (chip : Chip) (address length : UInt32) : Prop := address.toNat + length.toNat ≤ chip.size.toNat

/-- Also, the caller's buffer gets the octets of the range. -/
def ReadCovers (flash : Mem) (cfg : Config) (chip : Chip) (place : Place) (mem : Mem) (address length : UInt32) : Prop :=
  let run := espFlashRead flash cfg chip place (some mem) address length
  Covers chip address length (Fits chip address length) (run.result quiet 0).1 (accesses (run.trace quiet 0)) ∧
  ((run.result quiet 0).1 = ESP_OK →
    (run.result quiet 0).2 = some (store mem 0 length.toNat fun i => flash (address.toNat + i)))

/-- Also, each write is given its part of the caller's buffer. -/
def WriteCovers (cfg : Config) (chip : Chip) (direct : Bool) (mem : Mem) (address length : UInt32) : Prop :=
  let run := espFlashWrite cfg chip direct (some mem) address length
  Covers chip address length (Fits chip address length) (run.result quiet 0) (accesses (run.trace quiet 0)) ∧
  ∀ c ∈ accesses (run.trace quiet 0), ∃ start n, c = .write start (octets mem (start - address.toNat) n)

theorem covers_refused {chip : Chip} {address length : UInt32} {admitted : Prop} {err : EspErr} (herr : err ≠ ESP_OK)
    (hnot : ¬admitted) : Covers chip address length admitted err [] :=
  ⟨fun c hc => absurd hc (by simp), ⟨fun _ => hnot, fun _ => ⟨herr, rfl⟩⟩, fun hok => absurd hok herr⟩

/-- Accesses that tile a range on the chip cover it. -/
theorem covers_tiles {chip : Chip} {address length : UInt32} {admitted : Prop} {calls : List Call}
    (hadmitted : admitted) (hfit : Fits chip address length)
    (htiles : Tiles (calls.map (Call.range chip)) address.toNat length.toNat) :
    Covers chip address length admitted ESP_OK calls := by
  refine ⟨fun c hc => ?_, ⟨fun h => absurd rfl h.1, fun h => absurd hadmitted h⟩, fun _ => htiles⟩
  have := htiles.within (List.mem_map_of_mem hc)
  unfold Fits at hfit
  omega

section read
variable {flash : Mem} {cfg : Config} {chip : Chip} {place : Place} {mem : Mem} {address length : UInt32}

/-- The sum in the check of a read wraps, and comes out small. -/
def ReadWraps (chip : Chip) (address length : UInt32) : Prop :=
  address.toNat ≤ chip.size.toNat ∧ 2 ^ 32 ≤ address.toNat + length.toNat ∧
    address.toNat + length.toNat - 2 ^ 32 ≤ chip.size.toNat

theorem read_refused_iff :
    (address > chip.size ∨ address + length > chip.size) ↔
      ¬Fits chip address length ∧ ¬ReadWraps chip address length := by
  have hsize := chip.size.toNat_lt
  have haddress := address.toNat_lt
  have hlength := length.toNat_lt
  unfold Fits ReadWraps
  rw [gt_iff_lt, gt_iff_lt, UInt32.lt_iff_toNat_lt, UInt32.lt_iff_toNat_lt, UInt32.toNat_add]
  omega

/-- The size of the pieces of a read that is begun. -/
def Place.chunk (cfg : Config) (length : Nat) : Place → Nat
  | .direct => min cfg.maxReadChunk length
  | .bounce (some temp) => temp.actualLen
  | .bounce none => 0

/-- A read that passes the checks. -/
theorem espFlashRead_begun (hplace : place ≠ .bounce none) (hcheck : ¬(address > chip.size ∨ address + length > chip.size))
    (hlen : length ≠ 0) :
    0 < place.chunk cfg length.toNat ∧ espFlashRead flash cfg chip place (some mem) address length = do
      let out ← readLoop flash (place.chunk cfg length.toNat) length.toNat address.toNat length.toNat 0 mem
      return (out.1, some out.2) := by
  unfold espFlashRead
  simp only [if_neg hcheck, if_neg hlen]
  have hpos : 0 < length.toNat := Nat.pos_of_ne_zero (toNat_ne_zero hlen)
  cases place with
  | direct => exact ⟨Nat.lt_min.mpr ⟨cfg.readChunk_pos, hpos⟩, rfl⟩
  | bounce temp =>
    cases temp with
    | none => exact absurd rfl hplace
    | some temp => exact ⟨temp.pos, rfl⟩

theorem not_fits_of_wraps (h : ReadWraps chip address length) : ¬Fits chip address length := by
  have hsize := chip.size.toNat_lt
  unfold Fits
  unfold ReadWraps at h
  omega

theorem read_covers_refused (hcheck : address > chip.size ∨ address + length > chip.size) :
    ReadCovers flash cfg chip place mem address length := by
  have hrun : espFlashRead flash cfg chip place (some mem) address length =
      pure (ESP_ERR_INVALID_ARG, some mem) := by
    unfold espFlashRead
    simp only [if_pos hcheck]
  unfold ReadCovers
  rw [hrun]
  exact ⟨covers_refused invalidArg_ne (read_refused_iff.mp hcheck).1, fun hok => absurd hok invalidArg_ne⟩

theorem read_covers_empty (hcheck : ¬(address > chip.size ∨ address + 0 > chip.size)) (hfit : Fits chip address 0) :
    ReadCovers flash cfg chip place mem address 0 := by
  have hrun : espFlashRead flash cfg chip place (some mem) address 0 = pure (ESP_OK, some mem) := by
    unfold espFlashRead
    simp only [if_neg hcheck, if_true]
  unfold ReadCovers
  rw [hrun]
  refine ⟨covers_tiles hfit hfit rfl, fun _ => congrArg some (funext fun i => ?_)⟩
  have hnone : ¬(0 ≤ i ∧ i < 0 + (0 : UInt32).toNat) := by
    rintro ⟨_, hi⟩
    exact absurd hi (Nat.not_lt_zero i)
  exact (if_neg hnone).symm

/-- A read that is begun beyond the chip accesses something, where it should be refused. -/
theorem not_read_covers (hplace : place ≠ .bounce none)
    (hcheck : ¬(address > chip.size ∨ address + length > chip.size)) (hlen : length ≠ 0)
    (hfit : ¬Fits chip address length) : ¬ReadCovers flash cfg chip place mem address length := by
  intro h
  have hnone := (h.1.refused.mpr hfit).2
  rw [(espFlashRead_begun hplace hcheck hlen).2] at hnone
  obtain ⟨fuel, hfuel⟩ := Nat.exists_eq_succ_of_ne_zero (toNat_ne_zero hlen)
  simp only [trace_bind, trace_pure, List.append_nil] at hnone
  rw [hfuel] at hnone
  exact readLoop_accesses flash _ fuel _ _ _ mem 0 hnone

theorem read_covers_begun (hplace : place ≠ .bounce none)
    (hcheck : ¬(address > chip.size ∨ address + length > chip.size)) (hlen : length ≠ 0)
    (hfit : Fits chip address length) : ReadCovers flash cfg chip place mem address length := by
  obtain ⟨hchunk, hrun⟩ := @espFlashRead_begun flash cfg chip place mem address length hplace hcheck hlen
  have hlt : address.toNat + length.toNat < 2 ^ 32 := Nat.lt_of_le_of_lt hfit chip.size.toNat_lt
  obtain ⟨hresult, htrace⟩ := @readLoop_quiet flash (place.chunk cfg length.toNat) length.toNat address.toNat
    length.toNat 0 mem 0 hchunk (Nat.pos_of_ne_zero (toNat_ne_zero hlen)) (Nat.le_refl _) hlt
  unfold ReadCovers
  rw [hrun]
  refine ⟨?_, fun _ => ?_⟩
  · simp only [result_bind, result_pure, trace_bind, trace_pure, List.append_nil, hresult, htrace]
    refine covers_tiles hfit hfit ?_
    rw [List.map_map]
    exact (List.map_id _).symm ▸ pieces_tiles (min_cuts hchunk) trivial (Nat.le_refl length.toNat)
  · simp only [result_bind, result_pure, hresult]

theorem read_covers_iff (hplace : place ≠ .bounce none) :
    ReadCovers flash cfg chip place mem address length ↔ ¬ReadWraps chip address length := by
  by_cases hcheck : address > chip.size ∨ address + length > chip.size
  · exact iff_of_true (read_covers_refused hcheck) (read_refused_iff.mp hcheck).2
  · by_cases hfit : Fits chip address length
    · refine iff_of_true ?_ fun hwrap => not_fits_of_wraps hwrap hfit
      by_cases hlen : length = 0
      · subst hlen
        exact read_covers_empty hcheck hfit
      · exact read_covers_begun hplace hcheck hlen hfit
    · have hwrap : ReadWraps chip address length := by
        by_contra hnot
        exact hcheck (read_refused_iff.mpr ⟨hfit, hnot⟩)
      have hlen : length ≠ 0 := by
        rintro rfl
        exact absurd hwrap.2.1 (Nat.not_le.mpr address.toNat_lt)
      exact iff_of_false (not_read_covers hplace hcheck hlen hfit) (not_not.mpr hwrap)

end read

section write
variable {cfg : Config} {chip : Chip} {direct : Bool} {mem : Mem} {address length : UInt32}

theorem fits_iff : Fits chip address length ↔ ¬(address > chip.size ∨ length > chip.size - address) := by
  unfold Fits
  rw [gt_iff_lt, gt_iff_lt, UInt32.lt_iff_toNat_lt, UInt32.lt_iff_toNat_lt]
  by_cases hle : address.toNat ≤ chip.size.toNat
  · rw [UInt32.toNat_sub_of_le _ _ (UInt32.le_iff_toNat_le.mpr hle)]
    omega
  · omega

theorem write_covers (hallowed : checkWriteAddress chip address length = none) :
    WriteCovers cfg chip direct mem address length := by
  unfold WriteCovers espFlashWrite writeRange
  simp only [hallowed]
  by_cases hfit : Fits chip address length
  · rw [if_neg (fits_iff.mp hfit)]
    by_cases hlen : length = 0
    · subst hlen
      exact ⟨covers_tiles hfit hfit rfl, fun c hc => absurd hc (by simp)⟩
    · rw [if_neg hlen]
      have hlt : address.toNat + length.toNat < 2 ^ 32 := Nat.lt_of_le_of_lt hfit chip.size.toNat_lt
      obtain ⟨hresult, htrace, hcalls⟩ := @pieceLoop_quiet chip (writePiece cfg direct mem) length.toNat address.toNat 0
        length.toNat 0 _ _ (writePiece_follows cfg chip direct mem) trivial
        (Nat.pos_of_ne_zero (toNat_ne_zero hlen)) (Nat.le_refl _) hlt
      simp only [result_bind, trace_bind, hresult, accesses_append, flashEndFlushCache_accesses, trace_pure,
        List.append_nil]
      refine ⟨?_, fun c hc => ?_⟩
      · simp only [result_pure, if_true, flashEndFlushCache_quiet]
        refine covers_tiles hfit hfit ?_
        rw [htrace]
        exact pieces_tiles (writePiece_follows cfg chip direct mem).cuts trivial (Nat.le_refl _)
      · obtain ⟨start, left, _, rfl⟩ := hcalls c hc
        exact ⟨start, _, by rw [Nat.zero_add]; rfl⟩
  · rw [if_pos (not_not.mp (fits_iff.not.mp hfit))]
    exact ⟨covers_refused invalidArg_ne hfit, fun c hc => absurd hc (by simp)⟩

end write

/-! ## Erases -/

/-- The regions that are protected. -/
def protectedRegions (chip : Chip) : List Region :=
  if chip.readsProtection then
    (chip.protectableRegions.zipIdx.filter fun r => chip.protectedMask.testBit r.2).map Prod.fst
  else []

namespace Region

/-- The region and the range have an octet in common. -/
def Meets (r : Region) (start len : Nat) : Prop :=
  ∃ a, start ≤ a ∧ a < start + len ∧ r.offset.toNat ≤ a ∧ a < r.offset.toNat + r.size.toNat

/-- The end of the region wraps to or before the start of the range. -/
def Hidden (r : Region) (start len : Nat) : Prop :=
  2 ^ 32 ≤ r.offset.toNat + r.size.toNat ∧ r.offset.toNat + r.size.toNat - 2 ^ 32 ≤ start ∧
    r.offset.toNat < start + len

/-- The region is empty, and lies within the range. -/
def Ghost (r : Region) (start len : Nat) : Prop :=
  r.size.toNat = 0 ∧ start < r.offset.toNat ∧ r.offset.toNat < start + len

theorem meets_iff {r : Region} {start len : Nat} (hlen : 0 < len) :
    r.Meets start len ↔
      0 < r.size.toNat ∧ r.offset.toNat < start + len ∧ start < r.offset.toNat + r.size.toNat := by
  constructor
  · rintro ⟨a, _, _, _, _⟩
    omega
  · intro h
    exact ⟨max start r.offset.toNat, by omega, by omega, by omega, by omega⟩

end Region

section erase
variable {cfg : Config} {chip : Chip} {start len : UInt32}

theorem regionsOverlap_iff (hfit : Fits chip start len) (hlen : len ≠ 0) (r : Region) :
    regionsOverlap start len r.offset r.size = true ↔
      r.Meets start.toNat len.toNat ∧ ¬r.Hidden start.toNat len.toNat ∨ r.Ghost start.toNat len.toNat := by
  have hsize := chip.size.toNat_lt
  have hoffset := r.offset.toNat_lt
  have hregion := r.size.toNat_lt
  have hpos := Nat.pos_of_ne_zero (toNat_ne_zero hlen)
  unfold Fits at hfit
  rw [Region.meets_iff hpos]
  unfold regionsOverlap Region.Hidden Region.Ghost
  rw [Bool.and_eq_true, decide_eq_true_iff, decide_eq_true_iff, gt_iff_lt, gt_iff_lt, UInt32.lt_iff_toNat_lt,
    UInt32.lt_iff_toNat_lt, UInt32.toNat_add, UInt32.toNat_add]
  omega

/-- What the erase finds protected. -/
def ProtectedFound (chip : Chip) (start len : UInt32) : Prop :=
  ∃ r ∈ protectedRegions chip, regionsOverlap start len r.offset r.size = true

theorem protectedFound_iff :
    ProtectedFound chip start len ↔ chip.readsProtection = true ∧ meetsProtected chip start len = true := by
  unfold ProtectedFound protectedRegions meetsProtected
  by_cases hreads : chip.readsProtection = true
  · rw [if_pos hreads]
    simp only [List.mem_map, List.mem_filter, List.any_eq_true, Bool.and_eq_true, hreads, true_and]
    constructor
    · rintro ⟨_, ⟨r, ⟨hr, hbit⟩, rfl⟩, hover⟩
      exact ⟨r, hr, hbit, hover⟩
    · rintro ⟨r, hr, hbit, hover⟩
      exact ⟨r.1, ⟨r, ⟨hr, hbit⟩, rfl⟩, hover⟩
  · rw [if_neg hreads]
    simp [hreads]

theorem checkProtected_quiet (n : Nat) :
    ((checkProtected chip start len).result quiet n = ESP_OK ↔ ¬ProtectedFound chip start len) ∧
    accesses ((checkProtected chip start len).trace quiet n) = [] := by
  rw [protectedFound_iff]
  unfold checkProtected
  by_cases hreads : chip.readsProtection = true ∧ chip.protectableRegions.length > 0
  · rw [if_pos hreads]
    by_cases hmeets : meetsProtected chip start len = true
    · simp [hreads.1, hmeets, spiflashEnd, ESP_OK, ESP_ERR_FLASH_PROTECTED]
    · simp [hmeets, spiflashEnd]
  · rw [if_neg hreads]
    refine ⟨iff_of_true rfl fun h => hreads ⟨h.1, ?_⟩, rfl⟩
    obtain ⟨r, hr, _⟩ := List.any_eq_true.mp h.2
    rw [gt_iff_lt, List.length_pos_iff]
    intro hnil
    rw [hnil] at hr
    exact absurd hr (by simp)

/-- The range fits in the chip, is sector aligned, and meets no protected region. -/
def Erasable (chip : Chip) (start len : UInt32) : Prop :=
  Fits chip start len ∧ start.toNat % chip.sectorSize.toNat = 0 ∧ len.toNat % chip.sectorSize.toNat = 0 ∧
    ¬∃ r ∈ protectedRegions chip, r.Meets start.toNat len.toNat

def EraseCovers (cfg : Config) (chip : Chip) (start len : UInt32) : Prop :=
  let run := espFlashEraseRegion cfg chip start len
  Covers chip start len (Erasable chip start len) (run.result quiet 0) (accesses (run.trace quiet 0))

/-- For a range that is not empty, fits and is aligned: the check for protected regions comes out right. -/
def EraseSees (chip : Chip) (start len : UInt32) : Prop :=
  Fits chip start len → start.toNat % chip.sectorSize.toNat = 0 → len.toNat % chip.sectorSize.toNat = 0 → len ≠ 0 →
    (∃ r ∈ protectedRegions chip, r.Meets start.toNat len.toNat ∧ ¬r.Hidden start.toNat len.toNat) ∨
    ((∃ r ∈ protectedRegions chip, r.Ghost start.toNat len.toNat) ↔
      ∃ r ∈ protectedRegions chip, r.Hidden start.toNat len.toNat)

theorem or_iff_or {a b c : Prop} : (a ∨ b ↔ a ∨ c) ↔ a ∨ (b ↔ c) := by
  by_cases ha : a
  · simp [ha]
  · simp [ha]

theorem hidden_meets (hlen : len ≠ 0) {r : Region} (h : r.Hidden start.toNat len.toNat) :
    r.Meets start.toNat len.toNat := by
  have hstart := start.toNat_lt
  have hoffset := r.offset.toNat_lt
  rw [Region.meets_iff (Nat.pos_of_ne_zero (toNat_ne_zero hlen))]
  unfold Region.Hidden at h
  omega

/-- The check comes out right where what it misses and what it finds besides balance out. -/
theorem found_iff (hfit : Fits chip start len) (hlen : len ≠ 0) :
    (ProtectedFound chip start len ↔ ∃ r ∈ protectedRegions chip, r.Meets start.toNat len.toNat) ↔
      (∃ r ∈ protectedRegions chip, r.Meets start.toNat len.toNat ∧ ¬r.Hidden start.toNat len.toNat) ∨
      ((∃ r ∈ protectedRegions chip, r.Ghost start.toNat len.toNat) ↔
        ∃ r ∈ protectedRegions chip, r.Hidden start.toNat len.toNat) := by
  have hfound : ProtectedFound chip start len ↔
      (∃ r ∈ protectedRegions chip, r.Meets start.toNat len.toNat ∧ ¬r.Hidden start.toNat len.toNat) ∨
        ∃ r ∈ protectedRegions chip, r.Ghost start.toNat len.toNat := by
    unfold ProtectedFound
    simp only [regionsOverlap_iff hfit hlen, and_or_left, exists_or]
  have hmeets : (∃ r ∈ protectedRegions chip, r.Meets start.toNat len.toNat) ↔
      (∃ r ∈ protectedRegions chip, r.Meets start.toNat len.toNat ∧ ¬r.Hidden start.toNat len.toNat) ∨
        ∃ r ∈ protectedRegions chip, r.Hidden start.toNat len.toNat := by
    constructor
    · rintro ⟨r, hr, hmeet⟩
      by_cases hhidden : r.Hidden start.toNat len.toNat
      · exact .inr ⟨r, hr, hhidden⟩
      · exact .inl ⟨r, hr, hmeet, hhidden⟩
    · rintro (⟨r, hr, hmeet, _⟩ | ⟨r, hr, hhidden⟩)
      · exact ⟨r, hr, hmeet⟩
      · exact ⟨r, hr, hidden_meets hlen hhidden⟩
  rw [hfound, hmeets, or_iff_or]

section admitted
variable (hsector : chip.sectorSize ≠ 0) (hblock : chip.blockEraseSize % chip.sectorSize = 0)
  (hallowed : checkWriteAddress chip start len = none)
include hsector hblock hallowed

/-- An erase that passes the checks of its range. -/
theorem espFlashEraseRegion_passed (hfit : Fits chip start len) (hstart : start.toNat % chip.sectorSize.toNat = 0)
    (haligned : len.toNat % chip.sectorSize.toNat = 0) :
    espFlashEraseRegion cfg chip start len =
      if len = 0 then pure ESP_OK
      else checkProtected chip start len >>= fun err =>
        if err ≠ ESP_OK then pure err else eraseRange cfg chip start.toNat len.toNat := by
  have hsize : ¬(chip.sectorSize = 0 ∨ chip.blockEraseSize % chip.sectorSize ≠ 0) := by
    simp [hsector, hblock]
  have hmod : ¬(start % chip.sectorSize ≠ 0 ∨ len % chip.sectorSize ≠ 0) := by
    rintro (h | h)
    · exact toNat_ne_zero h (by rw [UInt32.toNat_mod, hstart])
    · exact toNat_ne_zero h (by rw [UInt32.toNat_mod, haligned])
  unfold espFlashEraseRegion
  simp only [hallowed]
  rw [if_neg hsize, if_neg (fits_iff.mp hfit), if_neg hmod]

theorem erase_covers_refused
    (hnot : ¬(Fits chip start len ∧ start.toNat % chip.sectorSize.toNat = 0 ∧ len.toNat % chip.sectorSize.toNat = 0)) :
    EraseCovers cfg chip start len := by
  have hrun : espFlashEraseRegion cfg chip start len = pure ESP_ERR_INVALID_ARG := by
    have hsize : ¬(chip.sectorSize = 0 ∨ chip.blockEraseSize % chip.sectorSize ≠ 0) := by
      simp [hsector, hblock]
    unfold espFlashEraseRegion
    simp only [hallowed]
    rw [if_neg hsize]
    by_cases hfit : Fits chip start len
    · have hmod : start % chip.sectorSize ≠ 0 ∨ len % chip.sectorSize ≠ 0 := by
        by_contra hboth
        rw [not_or, not_ne_iff, not_ne_iff] at hboth
        refine hnot ⟨hfit, ?_, ?_⟩
        · rw [← UInt32.toNat_mod, hboth.1, UInt32.toNat_zero]
        · rw [← UInt32.toNat_mod, hboth.2, UInt32.toNat_zero]
      rw [if_neg (fits_iff.mp hfit), if_pos hmod]
    · rw [if_pos (not_not.mp (fits_iff.not.mp hfit))]
  unfold EraseCovers
  rw [hrun]
  exact covers_refused invalidArg_ne fun h => hnot ⟨h.1, h.2.1, h.2.2.1⟩

theorem erase_covers_empty (hfit : Fits chip start len) (hstart : start.toNat % chip.sectorSize.toNat = 0)
    (haligned : len.toNat % chip.sectorSize.toNat = 0) (hlen : len = 0) : EraseCovers cfg chip start len := by
  unfold EraseCovers
  rw [espFlashEraseRegion_passed hsector hblock hallowed hfit hstart haligned, if_pos hlen]
  have hnone : ¬∃ r ∈ protectedRegions chip, r.Meets start.toNat len.toNat := by
    rintro ⟨r, _, a, hle, hlt, _, _⟩
    rw [hlen, UInt32.toNat_zero] at hlt
    omega
  refine covers_tiles ⟨hfit, hstart, haligned, hnone⟩ hfit ?_
  rw [hlen]
  rfl

omit hallowed in
theorem eraseRange_quiet (hfit : Fits chip start len) (haligned : len.toNat % chip.sectorSize.toNat = 0)
    (hlen : len ≠ 0) (n : Nat) :
    (eraseRange cfg chip start.toNat len.toNat).result quiet n = ESP_OK ∧
    Tiles ((accesses ((eraseRange cfg chip start.toNat len.toNat).trace quiet n)).map (Call.range chip)) start.toNat
      len.toNat := by
  have hmod : chip.blockEraseSize.toNat % chip.sectorSize.toNat = 0 := by
    rw [← UInt32.toNat_mod, hblock, UInt32.toNat_zero]
  have hfollows := erasePiece_follows cfg chip (Nat.pos_of_ne_zero (toNat_ne_zero hsector)) hmod
  have hlt : start.toNat + len.toNat < 2 ^ 32 := Nat.lt_of_le_of_lt hfit chip.size.toNat_lt
  obtain ⟨hresult, htrace, _⟩ := @pieceLoop_quiet chip (erasePiece cfg chip) len.toNat start.toNat 0
    len.toNat n _ _ hfollows haligned (Nat.pos_of_ne_zero (toNat_ne_zero hlen)) (Nat.le_refl _) hlt
  unfold eraseRange
  simp only [result_bind, trace_bind, hresult, accesses_append, flashEndFlushCache_accesses, List.append_nil, htrace,
    flashEndFlushCache_quiet, true_and]
  exact pieces_tiles hfollows.cuts haligned (Nat.le_refl _)

/-- A range that fits, is aligned and is not empty is covered exactly if the check comes out right. -/
theorem erase_covers_checked (hfit : Fits chip start len) (hstart : start.toNat % chip.sectorSize.toNat = 0)
    (haligned : len.toNat % chip.sectorSize.toNat = 0) (hlen : len ≠ 0) :
    EraseCovers cfg chip start len ↔
      (ProtectedFound chip start len ↔ ∃ r ∈ protectedRegions chip, r.Meets start.toNat len.toNat) := by
  obtain ⟨hcheck, hnone⟩ := @checkProtected_quiet chip start len 0
  unfold EraseCovers
  rw [espFlashEraseRegion_passed hsector hblock hallowed hfit hstart haligned, if_neg hlen]
  simp only [result_bind, trace_bind, accesses_append, hnone, List.nil_append]
  by_cases hfound : ProtectedFound chip start len
  · have herr := hcheck.not.mpr (not_not.mpr hfound)
    rw [if_pos herr]
    simp only [hfound, true_iff]
    constructor
    · intro h
      by_contra hmeets
      exact h.refused.mp ⟨herr, rfl⟩ ⟨hfit, hstart, haligned, hmeets⟩
    · intro hmeets
      exact covers_refused herr fun h => h.2.2.2 hmeets
  · have hok := hcheck.mpr hfound
    have hrange := @eraseRange_quiet cfg chip start len hsector hblock hfit haligned hlen
    rw [if_neg (not_not.mpr hok)]
    simp only [hfound, false_iff]
    constructor
    · intro h hmeets
      exact (h.refused.mpr fun hadmitted => hadmitted.2.2.2 hmeets).1 (hrange _).1
    · intro hmeets
      rw [(hrange _).1]
      exact covers_tiles ⟨hfit, hstart, haligned, hmeets⟩ hfit (hrange _).2

theorem erase_covers_iff : EraseCovers cfg chip start len ↔ EraseSees chip start len := by
  by_cases hpassed :
      Fits chip start len ∧ start.toNat % chip.sectorSize.toNat = 0 ∧ len.toNat % chip.sectorSize.toNat = 0
  · obtain ⟨hfit, hstart, haligned⟩ := hpassed
    by_cases hlen : len = 0
    · exact iff_of_true (erase_covers_empty hsector hblock hallowed hfit hstart haligned hlen)
        fun _ _ _ hne => absurd hlen hne
    · rw [erase_covers_checked hsector hblock hallowed hfit hstart haligned hlen, found_iff hfit hlen]
      exact ⟨fun h _ _ _ _ => h, fun h => h hfit hstart haligned hlen⟩
  · exact iff_of_true (erase_covers_refused hsector hblock hallowed hpassed)
      fun hfit hstart haligned _ => absurd ⟨hfit, hstart, haligned⟩ hpassed

end admitted
end erase

/-! ## Which requests are covered exactly -/

/-- A write always is; a read is unless its check wraps; an erase is where its check for protected regions comes out
right. -/
theorem access_covers_iff (cfg : Config) (chip : Chip) (hsector : chip.sectorSize ≠ 0)
    (hblock : chip.blockEraseSize % chip.sectorSize = 0) (address length : UInt32)
    (hallowed : checkWriteAddress chip address length = none) (mem : Mem) :
    (∀ flash place, place ≠ .bounce none →
      (ReadCovers flash cfg chip place mem address length ↔ ¬ReadWraps chip address length)) ∧
    (∀ direct, WriteCovers cfg chip direct mem address length) ∧
    (EraseCovers cfg chip address length ↔ EraseSees chip address length) :=
  ⟨fun _ _ hplace => read_covers_iff hplace, fun _ => write_covers hallowed,
    erase_covers_iff hsector hblock hallowed⟩

/-- A chip of 4 MiB with sectors of 4 KiB and blocks of 64 KiB; its last sector can be protected, and is. -/
def chip4M : Chip where
  size := 0x400000
  sectorSize := 0x1000
  blockEraseSize := 0x10000
  yields := true
  regionProtected := none
  readsProtection := true
  protectableRegions := [⟨0x3FF000, 0x1000⟩]
  fewRegions := by decide
  protectedMask := 1
  isDefault := true

theorem access_covers_chip4M :
    ¬ReadWraps chip4M 0x1000 0x20000 ∧ ReadCovers (fun _ => 0) .default chip4M .direct (fun _ => 0) 0x1000 0x20000 ∧
    WriteCovers .default chip4M false (fun _ => 0) 0x1000 0x20000 := by
  have hwraps : ¬ReadWraps chip4M 0x1000 0x20000 := by
    unfold ReadWraps
    decide
  obtain ⟨hread, hwrite, _⟩ := access_covers_iff .default chip4M (by decide) (by decide) 0x1000 0x20000 rfl fun _ => 0
  exact ⟨hwraps, (hread (fun _ => 0) .direct (by simp)).mpr hwraps, hwrite false⟩

/-- A read of everything behind the chip's end is not refused. -/
theorem read_past_end_begun :
    ¬ ∀ (cfg : Config) (chip : Chip) (flash : Mem) (place : Place) (mem : Mem) (address length : UInt32),
      place ≠ .bounce none → ReadCovers flash cfg chip place mem address length := by
  intro h
  have hread := h .default chip4M (fun _ => 0) .direct (fun _ => 0) 0x400000 0xFFC00000 (by simp)
  have hwraps : ReadWraps chip4M 0x400000 0xFFC00000 := by
    unfold ReadWraps
    decide
  exact (read_covers_iff (by simp)).mp hread hwraps

end EspIdf.Flash
