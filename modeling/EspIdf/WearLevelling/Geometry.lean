import EspIdf.Lib.RotatingGap
import EspIdf.WearLevelling.WlFlash
import Mathlib.Tactic.Ring

/-!
# The geometry of a configured device

* `Aligned cfg p` : what a configuration must meet besides `config`'s own checks: erase alignment, room, no wrap;
* `Roomy cfg p` : the part of it about room; `Areas d` : where the areas of the device then are (`config_areas`);
* `Geometry d` : the resulting facts about an aligned device, in natural numbers (`config_geometry`);
* `calcAddr_toNat` : `calcAddr` is the slot of the logical page in the rotating gap layout.
-/

namespace EspIdf.WearLevelling

open Word32 NorFlash

/-- `n` bytes rounded up to whole sectors. -/
def roundUp (sector n : Nat) : Nat := (n + sector - 1) / sector * sector

/-- The room one copy of the state takes: its header and a position record for each sector. -/
def WlConfig.stateBytes (cfg : WlConfig) : Nat :=
  roundUp cfg.flashSectorSize.toNat (max cfg.flashSectorSize.toNat (64 +
    cfg.wlPartitionSize.toNat / cfg.flashSectorSize.toNat * cfg.wlPosUpdateRecordSize.toNat))

def WlConfig.cfgBytes (cfg : WlConfig) : Nat := roundUp cfg.flashSectorSize.toNat 48

/-- A configuration whose areas are whole erase units inside the partition. -/
structure Aligned (cfg : WlConfig) (p : Partition) : Prop where
  sector_pos : 0 < cfg.flashSectorSize.toNat
  eraseSize : p.eraseSize = cfg.flashSectorSize
  start_dvd : cfg.flashSectorSize.toNat ∣ cfg.wlPartitionStartAddr.toNat
  size_dvd : cfg.flashSectorSize.toNat ∣ cfg.wlPartitionSize.toNat
  page_dvd : cfg.flashSectorSize.toNat ∣ cfg.wlPageSize.toNat
  in_partition : cfg.wlPartitionStartAddr.toNat + cfg.wlPartitionSize.toNat ≤ p.size.toNat
  buffer : 16 ≤ max cfg.wlTempBuffSize.toNat cfg.wlPosUpdateRecordSize.toNat
  fits : 2 * cfg.stateBytes + cfg.cfgBytes + cfg.wlPageSize.toNat ≤ cfg.wlPartitionSize.toNat

/-- A configuration whose areas fit into the region, and the region into the partition: no word wraps. -/
structure Roomy (cfg : WlConfig) (p : Partition) : Prop where
  sector_pos : 0 < cfg.flashSectorSize.toNat
  in_partition : cfg.wlPartitionStartAddr.toNat + cfg.wlPartitionSize.toNat ≤ p.size.toNat
  fits : 2 * cfg.stateBytes + cfg.cfgBytes + cfg.wlPageSize.toNat ≤ cfg.wlPartitionSize.toNat

theorem Aligned.roomy {cfg : WlConfig} {p : Partition} (ha : Aligned cfg p) : Roomy cfg p :=
  ⟨ha.sector_pos, ha.in_partition, ha.fits⟩

namespace WlDevice

def sector (d : WlDevice) : Nat := d.cfg.flashSectorSize.toNat

def page (d : WlDevice) : Nat := d.cfg.wlPageSize.toNat

def start (d : WlDevice) : Nat := d.cfg.wlPartitionStartAddr.toNat

def temp (d : WlDevice) : Nat := d.cfg.wlTempBuffSize.toNat

def record (d : WlDevice) : Nat := d.cfg.wlPosUpdateRecordSize.toNat

/-- The number of logical pages. -/
def pages (d : WlDevice) : Nat := d.flashSize.toNat / d.page

end WlDevice

/-- The areas lie one behind the other up to the end of the region, and the records fit. -/
structure Areas (d : WlDevice) : Prop where
  sector_pos : 0 < d.sector
  record_le : d.record ≤ d.temp
  page_ge : d.sector ≤ d.page
  pages_pos : 0 < d.pages
  flashSize : d.flashSize.toNat = d.pages * d.page
  flashSize_lt : d.flashSize.toNat < 2 ^ 31
  data_le : d.start + (d.pages + 1) * d.page ≤ d.addrState1.toNat
  state2_eq : d.addrState2.toNat = d.addrState1.toNat + d.stateSize.toNat
  cfg_eq : d.addrCfg.toNat = d.addrState2.toNat + d.stateSize.toNat
  cfgSize_ge : 48 ≤ d.cfgSize.toNat
  end_eq : d.addrCfg.toNat + d.cfgSize.toNat = d.start + d.cfg.wlPartitionSize.toNat
  end_le : d.addrCfg.toNat + d.cfgSize.toNat ≤ d.partition.size.toNat
  records_fit : 64 + d.recordCount.toNat * d.record ≤ d.stateSize.toNat
  pages_le : d.pages + 1 ≤ d.recordCount.toNat

/-- The facts about a device on which the driver's correctness rests. -/
structure Geometry (d : WlDevice) : Prop where
  sector_pos : 0 < d.sector
  eraseSize : d.partition.eraseSize = d.cfg.flashSectorSize
  temp_ge : 16 ≤ d.temp
  temp_dvd : d.temp ∣ d.sector
  record_le : d.record ≤ d.temp
  start_dvd : d.sector ∣ d.start
  page_dvd : d.sector ∣ d.page
  page_ge : d.sector ≤ d.page
  pages_pos : 0 < d.pages
  flashSize : d.flashSize.toNat = d.pages * d.page
  flashSize_lt : d.flashSize.toNat < 2 ^ 31
  data_le : d.start + (d.pages + 1) * d.page ≤ d.addrState1.toNat
  state1_dvd : d.sector ∣ d.addrState1.toNat
  stateSize_dvd : d.sector ∣ d.stateSize.toNat
  state2_eq : d.addrState2.toNat = d.addrState1.toNat + d.stateSize.toNat
  cfg_eq : d.addrCfg.toNat = d.addrState2.toNat + d.stateSize.toNat
  cfgSize_dvd : d.sector ∣ d.cfgSize.toNat
  cfgSize_ge : 48 ≤ d.cfgSize.toNat
  end_le : d.addrCfg.toNat + d.cfgSize.toNat ≤ d.partition.size.toNat
  records_fit : 64 + d.recordCount.toNat * d.record ≤ d.stateSize.toNat
  pages_le : d.pages + 1 ≤ d.recordCount.toNat

/-! ## From a configuration to its geometry -/

theorem roundUp_ge {sector n : Nat} (hs : 0 < sector) : n ≤ roundUp sector n := by
  unfold roundUp
  have h := Nat.div_add_mod (n + sector - 1) sector
  have h' := Nat.mod_lt (n + sector - 1) hs
  rw [Nat.mul_comm] at h
  omega

theorem roundUp_self {sector : Nat} (hs : 0 < sector) : roundUp sector sector = sector := by
  unfold roundUp
  rw [show sector + sector - 1 = sector - 1 + sector by omega, Nat.add_div_right _ hs,
    Nat.div_eq_of_lt (by omega), Nat.one_mul]

theorem dvd_roundUp (sector n : Nat) : sector ∣ roundUp sector n := Nat.dvd_mul_left _ _

/-- The driver's rounding on words. -/
theorem roundUp_toNat {w sector : UInt32} (hs : 0 < sector.toNat) (h : w.toNat + sector.toNat < 2 ^ 32) :
    ((w + sector - 1) / sector * sector).toNat = roundUp sector.toNat w.toNat := by
  have hadd : (w + sector).toNat = w.toNat + sector.toNat := toNat_add_of_lt h
  have hsub : (w + sector - 1).toNat = w.toNat + sector.toNat - 1 := by
    rw [toNat_sub_of_le (by rw [hadd]; change 1 ≤ _; omega), hadd]
    rfl
  have hle : (w.toNat + sector.toNat - 1) / sector.toNat * sector.toNat ≤ w.toNat + sector.toNat - 1 :=
    Nat.div_mul_le_self _ _
  rw [toNat_mul_of_lt (by rw [UInt32.toNat_div, hsub]; omega), UInt32.toNat_div, hsub]
  rfl

/-- The number of pages a region holds besides the dummy page. -/
theorem flashSize_toNat {region page : UInt32} (hp : 0 < page.toNat) (hfit : page.toNat ≤ region.toNat) :
    ((region / page - 1) * page).toNat = (region.toNat / page.toNat - 1) * page.toNat := by
  have hdiv : 1 ≤ region.toNat / page.toNat := Nat.div_pos hfit hp
  have hle : (region.toNat / page.toNat - 1) * page.toNat ≤ region.toNat :=
    le_trans (Nat.mul_le_mul_right _ (Nat.sub_le _ _)) (Nat.div_mul_le_self _ _)
  have hsub : (region / page - 1).toNat = region.toNat / page.toNat - 1 := by
    rw [toNat_sub_of_le (by rw [UInt32.toNat_div]; exact hdiv), UInt32.toNat_div]
    rfl
  rw [toNat_mul_of_lt (by rw [hsub]; have := region.toNat_lt; omega), hsub]

/-- What `config` returns when it accepts. -/
theorem config_ok {cfg : WlConfig} {p : Partition} {mallocOk : Bool} {d : WlDevice} {r : WlRam}
    (h : config cfg p mallocOk = .ok (d, r)) :
    d = cfg.adopt.layout p ∧ r.tempBuff.length = cfg.adopt.wlTempBuffSize.toNat ∧ r.initialized = false ∧
      cfg.flashSectorSize % cfg.adopt.wlTempBuffSize = 0 ∧ ¬cfg.wlPageSize < cfg.flashSectorSize ∧
      ¬(d.flashSize = 0 ∨ 0x80000000 ≤ d.flashSize) := by
  unfold config at h
  dsimp only at h
  split_ifs at h with h1 h2 h3 h4
  cases h
  exact ⟨rfl, List.length_replicate, rfl, not_not.mp h1, h2, h3⟩

theorem adopt_temp (cfg : WlConfig) : cfg.adopt.wlTempBuffSize.toNat =
    max cfg.wlTempBuffSize.toNat cfg.wlPosUpdateRecordSize.toNat := by
  unfold WlConfig.adopt
  dsimp only
  split_ifs with h
  · rw [UInt32.lt_iff_toNat_lt] at h
    omega
  · rw [UInt32.lt_iff_toNat_lt] at h
    omega

section Layout
variable {cfg : WlConfig} {p : Partition}

theorem Roomy.need_toNat (ha : Roomy cfg p) :
    (stateHeader + cfg.wlPartitionSize / cfg.flashSectorSize * cfg.wlPosUpdateRecordSize).toNat =
      64 + cfg.wlPartitionSize.toNat / cfg.flashSectorSize.toNat * cfg.wlPosUpdateRecordSize.toNat := by
  have hfit := ha.fits
  have hsize := cfg.wlPartitionSize.toNat_lt
  have hround : max cfg.flashSectorSize.toNat (64 +
      cfg.wlPartitionSize.toNat / cfg.flashSectorSize.toNat * cfg.wlPosUpdateRecordSize.toNat) ≤ cfg.stateBytes :=
    roundUp_ge ha.sector_pos
  have hmul : (cfg.wlPartitionSize / cfg.flashSectorSize * cfg.wlPosUpdateRecordSize).toNat =
      cfg.wlPartitionSize.toNat / cfg.flashSectorSize.toNat * cfg.wlPosUpdateRecordSize.toNat := by
    rw [toNat_mul_of_lt (by rw [UInt32.toNat_div]; omega), UInt32.toNat_div]
  have h64 : stateHeader.toNat = 64 := rfl
  rw [toNat_add_of_lt (by rw [hmul, h64]; omega), hmul, h64]

theorem Roomy.layout_stateSize (ha : Roomy cfg p) : (cfg.layout p).stateSize.toNat = cfg.stateBytes := by
  have hneed := ha.need_toNat
  have hfit := ha.fits
  have hsize := cfg.wlPartitionSize.toNat_lt
  have hround : max cfg.flashSectorSize.toNat (64 +
      cfg.wlPartitionSize.toNat / cfg.flashSectorSize.toNat * cfg.wlPosUpdateRecordSize.toNat) ≤ cfg.stateBytes :=
    roundUp_ge ha.sector_pos
  unfold WlConfig.layout
  dsimp only
  split_ifs with h
  · rw [UInt32.lt_iff_toNat_lt, hneed] at h
    rw [roundUp_toNat ha.sector_pos (by omega), hneed]
    unfold WlConfig.stateBytes
    rw [max_eq_right (le_of_lt h)]
  · rw [UInt32.lt_iff_toNat_lt, hneed] at h
    unfold WlConfig.stateBytes
    rw [max_eq_left (by omega), roundUp_self ha.sector_pos]

theorem Roomy.layout_cfgSize (ha : Roomy cfg p) : (cfg.layout p).cfgSize.toNat = cfg.cfgBytes := by
  have hfit := ha.fits
  have hsize := cfg.wlPartitionSize.toNat_lt
  have hround : max cfg.flashSectorSize.toNat (64 +
      cfg.wlPartitionSize.toNat / cfg.flashSectorSize.toNat * cfg.wlPosUpdateRecordSize.toNat) ≤ cfg.stateBytes :=
    roundUp_ge ha.sector_pos
  have h48 : (48 : UInt32).toNat = 48 := rfl
  unfold WlConfig.layout WlConfig.cfgBytes
  dsimp only
  rw [roundUp_toNat ha.sector_pos (by omega), h48]

theorem Roomy.layout_stateSize_mul (ha : Roomy cfg p) :
    ((cfg.layout p).stateSize * 2).toNat = 2 * cfg.stateBytes := by
  have hfit := ha.fits
  have hsize := cfg.wlPartitionSize.toNat_lt
  have h2 : (2 : UInt32).toNat = 2 := rfl
  rw [toNat_mul_of_lt (by rw [ha.layout_stateSize, h2]; omega), ha.layout_stateSize, h2, Nat.mul_comm]

theorem Roomy.layout_region (ha : Roomy cfg p) :
    (cfg.wlPartitionSize - (cfg.layout p).stateSize * 2 - (cfg.layout p).cfgSize).toNat =
      cfg.wlPartitionSize.toNat - 2 * cfg.stateBytes - cfg.cfgBytes := by
  have hfit := ha.fits
  have hstate : (cfg.wlPartitionSize - (cfg.layout p).stateSize * 2).toNat =
      cfg.wlPartitionSize.toNat - 2 * cfg.stateBytes := by
    rw [toNat_sub_of_le (by rw [ha.layout_stateSize_mul]; omega), ha.layout_stateSize_mul]
  rw [toNat_sub_of_le (by rw [hstate, ha.layout_cfgSize]; omega), hstate, ha.layout_cfgSize]

/-- An area that ends `back` bytes before the end of the partition. -/
theorem Roomy.end_toNat (ha : Roomy cfg p) :
    (cfg.wlPartitionStartAddr + cfg.wlPartitionSize).toNat =
      cfg.wlPartitionStartAddr.toNat + cfg.wlPartitionSize.toNat := by
  have hin := ha.in_partition
  have hsize := p.size.toNat_lt
  exact toNat_add_of_lt (by omega)

theorem Roomy.layout_addrCfg (ha : Roomy cfg p) : (cfg.layout p).addrCfg.toNat =
    cfg.wlPartitionStartAddr.toNat + cfg.wlPartitionSize.toNat - cfg.cfgBytes := by
  have hfit := ha.fits
  change (cfg.wlPartitionStartAddr + cfg.wlPartitionSize - (cfg.layout p).cfgSize).toNat = _
  rw [toNat_sub_of_le (by rw [ha.end_toNat, ha.layout_cfgSize]; omega), ha.end_toNat, ha.layout_cfgSize]

theorem Roomy.layout_addrState1 (ha : Roomy cfg p) : (cfg.layout p).addrState1.toNat =
    cfg.wlPartitionStartAddr.toNat + cfg.wlPartitionSize.toNat - 2 * cfg.stateBytes - cfg.cfgBytes := by
  have hfit := ha.fits
  change (cfg.wlPartitionStartAddr + cfg.wlPartitionSize - (cfg.layout p).stateSize * 2 -
    (cfg.layout p).cfgSize).toNat = _
  have hstate : (cfg.wlPartitionStartAddr + cfg.wlPartitionSize - (cfg.layout p).stateSize * 2).toNat =
      cfg.wlPartitionStartAddr.toNat + cfg.wlPartitionSize.toNat - 2 * cfg.stateBytes := by
    rw [toNat_sub_of_le (by rw [ha.end_toNat, ha.layout_stateSize_mul]; omega), ha.end_toNat,
      ha.layout_stateSize_mul]
  rw [toNat_sub_of_le (by rw [hstate, ha.layout_cfgSize]; omega), hstate, ha.layout_cfgSize]

theorem Roomy.layout_addrState2 (ha : Roomy cfg p) : (cfg.layout p).addrState2.toNat =
    cfg.wlPartitionStartAddr.toNat + cfg.wlPartitionSize.toNat - cfg.stateBytes - cfg.cfgBytes := by
  have hfit := ha.fits
  change (cfg.wlPartitionStartAddr + cfg.wlPartitionSize - (cfg.layout p).stateSize * 1 -
    (cfg.layout p).cfgSize).toNat = _
  rw [UInt32.mul_one]
  have hstate : (cfg.wlPartitionStartAddr + cfg.wlPartitionSize - (cfg.layout p).stateSize).toNat =
      cfg.wlPartitionStartAddr.toNat + cfg.wlPartitionSize.toNat - cfg.stateBytes := by
    rw [toNat_sub_of_le (by rw [ha.end_toNat, ha.layout_stateSize]; omega), ha.end_toNat, ha.layout_stateSize]
  rw [toNat_sub_of_le (by rw [hstate, ha.layout_cfgSize]; omega), hstate, ha.layout_cfgSize]

theorem Roomy.layout_flashSize (ha : Roomy cfg p) (hp : 0 < cfg.wlPageSize.toNat) :
    (cfg.layout p).flashSize.toNat =
      ((cfg.wlPartitionSize.toNat - 2 * cfg.stateBytes - cfg.cfgBytes) / cfg.wlPageSize.toNat - 1) *
        cfg.wlPageSize.toNat := by
  have hfit := ha.fits
  have hregion := ha.layout_region
  change (((cfg.wlPartitionSize - (cfg.layout p).stateSize * 2 - (cfg.layout p).cfgSize) / cfg.wlPageSize - 1) *
    cfg.wlPageSize).toNat = _
  rw [flashSize_toNat hp (by rw [hregion]; omega), hregion]

/-- `config` keeps the fields on which the layout depends. -/
theorem Aligned.adopt (ha : Aligned cfg p) : Aligned cfg.adopt p where
  sector_pos := ha.sector_pos
  eraseSize := ha.eraseSize
  start_dvd := ha.start_dvd
  size_dvd := ha.size_dvd
  page_dvd := ha.page_dvd
  in_partition := ha.in_partition
  buffer := by
    have h := ha.buffer
    rw [adopt_temp]
    change 16 ≤ max _ cfg.wlPosUpdateRecordSize.toNat
    omega
  fits := ha.fits

theorem Roomy.adopt (ha : Roomy cfg p) : Roomy cfg.adopt p := ⟨ha.sector_pos, ha.in_partition, ha.fits⟩

end Layout

theorem adopt_record_le (cfg : WlConfig) :
    cfg.adopt.wlPosUpdateRecordSize.toNat ≤ cfg.adopt.wlTempBuffSize.toNat := by
  rw [adopt_temp]
  exact le_max_right _ _

/-- An accepted configuration with enough room yields a device whose areas fit. -/
theorem config_areas {cfg : WlConfig} {p : Partition} {mallocOk : Bool} {d : WlDevice} {r : WlRam}
    (ha : Roomy cfg p) (h : config cfg p mallocOk = .ok (d, r)) : Areas d := by
  obtain ⟨rfl, -, -, -, hpage, hflash⟩ := config_ok h
  replace ha := ha.adopt
  have hrec := adopt_record_le cfg
  change ¬cfg.adopt.wlPageSize < cfg.adopt.flashSectorSize at hpage
  generalize cfg.adopt = c at *
  have hsec := ha.sector_pos
  have hfit := ha.fits
  have hin := ha.in_partition
  rw [UInt32.lt_iff_toNat_lt] at hpage
  have hpos : 0 < c.wlPageSize.toNat := by omega
  have hflashSize := ha.layout_flashSize hpos
  have hstateGe : max c.flashSectorSize.toNat (64 +
      c.wlPartitionSize.toNat / c.flashSectorSize.toNat * c.wlPosUpdateRecordSize.toNat) ≤ c.stateBytes :=
    roundUp_ge hsec
  have hcfgGe : 48 ≤ c.cfgBytes := roundUp_ge hsec
  rw [not_or, UInt32.le_iff_toNat_le] at hflash
  -- the number of pages, and the bytes they take with the dummy page
  obtain ⟨n, hn⟩ : ∃ n, n = (c.wlPartitionSize.toNat - 2 * c.stateBytes - c.cfgBytes) / c.wlPageSize.toNat - 1 :=
    ⟨_, rfl⟩
  rw [← hn] at hflashSize
  have hn1 : 1 ≤ (c.wlPartitionSize.toNat - 2 * c.stateBytes - c.cfgBytes) / c.wlPageSize.toNat :=
    Nat.div_pos (by omega) hpos
  have hroom : (n + 1) * c.wlPageSize.toNat ≤ c.wlPartitionSize.toNat - 2 * c.stateBytes - c.cfgBytes := by
    rw [show n + 1 = (c.wlPartitionSize.toNat - 2 * c.stateBytes - c.cfgBytes) / c.wlPageSize.toNat by omega]
    exact Nat.div_mul_le_self _ _
  have hpages : (c.layout p).pages = n := by
    unfold WlDevice.pages WlDevice.page
    rw [hflashSize]
    exact Nat.mul_div_cancel n hpos
  have hflash0 : (c.layout p).flashSize.toNat ≠ 0 := fun e => hflash.1 (UInt32.toNat_inj.mp e)
  have hnpos : 0 < n := by
    rcases Nat.eq_zero_or_pos n with rfl | hn
    · rw [Nat.zero_mul] at hflashSize
      exact absurd hflashSize hflash0
    · exact hn
  have hstart : (c.layout p).start = c.wlPartitionStartAddr.toNat := rfl
  have hpage' : (c.layout p).page = c.wlPageSize.toNat := rfl
  have hcount : (c.layout p).recordCount.toNat = c.wlPartitionSize.toNat / c.flashSectorSize.toNat :=
    UInt32.toNat_div _ _
  have hrecords : (n + 1) * c.flashSectorSize.toNat ≤ c.wlPartitionSize.toNat :=
    le_trans (Nat.mul_le_mul_left _ (by omega)) (le_trans hroom (by omega))
  refine
    { sector_pos := hsec
      record_le := hrec
      page_ge := by change c.flashSectorSize.toNat ≤ c.wlPageSize.toNat; omega
      pages_pos := by rw [hpages]; exact hnpos
      flashSize := by rw [hpages, hflashSize, hpage']
      flashSize_lt := by
        have e : (0x80000000 : UInt32).toNat = 2 ^ 31 := rfl
        rw [e] at hflash
        omega
      data_le := by rw [hpages, hstart, hpage', ha.layout_addrState1]; omega
      state2_eq := by rw [ha.layout_addrState1, ha.layout_addrState2, ha.layout_stateSize]; omega
      cfg_eq := by rw [ha.layout_addrCfg, ha.layout_addrState2, ha.layout_stateSize]; omega
      cfgSize_ge := by rw [ha.layout_cfgSize]; exact hcfgGe
      end_eq := by
        rw [ha.layout_addrCfg, ha.layout_cfgSize, hstart]
        change _ = _ + c.wlPartitionSize.toNat
        omega
      end_le := by
        rw [ha.layout_addrCfg, ha.layout_cfgSize]
        change _ ≤ p.size.toNat
        omega
      records_fit := by
        rw [ha.layout_stateSize, hcount]
        change 64 + _ * c.wlPosUpdateRecordSize.toNat ≤ _
        omega
      pages_le := by
        rw [hpages, hcount]
        exact (Nat.le_div_iff_mul_le hsec).mpr hrecords }

/-- An accepted, aligned configuration yields a device with sound geometry. -/
theorem config_geometry {cfg : WlConfig} {p : Partition} {mallocOk : Bool} {d : WlDevice} {r : WlRam}
    (ha : Aligned cfg p) (h : config cfg p mallocOk = .ok (d, r)) : Geometry d := by
  have areas := config_areas ha.roomy h
  obtain ⟨rfl, -, -, htemp, -, -⟩ := config_ok h
  replace ha := ha.adopt
  change cfg.adopt.flashSectorSize % cfg.adopt.wlTempBuffSize = 0 at htemp
  generalize cfg.adopt = c at *
  have hstateDvd : c.flashSectorSize.toNat ∣ c.stateBytes := dvd_roundUp _ _
  have hcfgDvd : c.flashSectorSize.toNat ∣ c.cfgBytes := dvd_roundUp _ _
  have hdvd : c.flashSectorSize.toNat ∣ c.wlPartitionStartAddr.toNat + c.wlPartitionSize.toNat :=
    Nat.dvd_add ha.start_dvd ha.size_dvd
  refine
    { areas with
      eraseSize := ha.eraseSize
      temp_ge := by
        have hb := ha.buffer
        have hrec : c.wlPosUpdateRecordSize.toNat ≤ c.wlTempBuffSize.toNat := areas.record_le
        change 16 ≤ c.wlTempBuffSize.toNat
        omega
      temp_dvd := by
        have e := congrArg UInt32.toNat htemp
        rw [UInt32.toNat_mod] at e
        exact Nat.dvd_of_mod_eq_zero e
      start_dvd := ha.start_dvd
      page_dvd := ha.page_dvd
      state1_dvd := by
        rw [ha.roomy.layout_addrState1, Nat.sub_sub]
        exact Nat.dvd_sub hdvd (Nat.dvd_add (Dvd.dvd.mul_left hstateDvd 2) hcfgDvd)
      stateSize_dvd := by rw [ha.roomy.layout_stateSize]; exact hstateDvd
      cfgSize_dvd := by rw [ha.roomy.layout_cfgSize]; exact hcfgDvd }

/-! ## Addresses -/

/-- A position and a move count the device can be in. -/
structure WlState.InRange (s : WlState) (d : WlDevice) : Prop where
  maxPos : s.wlPartMaxSecPos.toNat = d.pages + 1
  pos_le : s.wlDummySecPos.toNat ≤ d.pages
  moveCount_lt : s.wlDummySecMoveCount.toNat < d.pages

/-- The physical page of a logical one. -/
def WlDevice.slot (d : WlDevice) (s : WlState) (l : Nat) : Nat :=
  RotatingGap.slot d.pages s.wlDummySecPos.toNat s.wlDummySecMoveCount.toNat l

theorem mul_add_mod_mul {n P x r : Nat} (hr : r < P) (hn : 0 < n) : (x * P + r) % (n * P) = x % n * P + r := by
  have hx := Nat.div_add_mod x n
  have hlt := Nat.mod_lt x hn
  have e : x * P + r = n * P * (x / n) + (x % n * P + r) := by
    conv_lhs => rw [← hx]
    ring
  have hle : (x % n + 1) * P ≤ n * P := Nat.mul_le_mul_right _ hlt
  rw [e, Nat.mul_add_mod, Nat.mod_eq_of_lt]
  rw [Nat.add_mul] at hle
  omega

namespace Geometry
variable {d : WlDevice} (g : Geometry d)
include g

theorem page_pos : 0 < d.page := lt_of_lt_of_le g.sector_pos g.page_ge

theorem page_div_lt {a : Nat} (ha : a < d.flashSize.toNat) : a / d.page < d.pages := by
  rw [g.flashSize] at ha
  exact Nat.div_lt_of_lt_mul (by rwa [Nat.mul_comm])

theorem data_lt : (d.pages + 1) * d.page < 2 ^ 32 := by
  have h := g.data_le
  have h' := d.addrState1.toNat_lt
  omega

/-- `calcAddr` keeps the offset in a page and sends the page to its slot. -/
theorem calcAddr_toNat {s : WlState} (hs : s.InRange d) {a : UInt32} (ha : a.toNat < d.flashSize.toNat) :
    (d.calcAddr s a).toNat = d.slot s (a.toNat / d.page) * d.page + a.toNat % d.page := by
  have hP := g.page_pos
  have hlt := g.flashSize_lt
  have hflash := g.flashSize
  have hdata := g.data_lt
  have hmod := Nat.mod_lt a.toNat hP
  have hsplit := Nat.div_add_mod a.toNat d.page
  have hslot : d.slot s (a.toNat / d.page) ≤ d.pages := RotatingGap.slot_le g.pages_pos
  have hmc : s.wlDummySecMoveCount.toNat * d.page ≤ d.pages * d.page :=
    Nat.mul_le_mul_right _ (le_of_lt hs.moveCount_lt)
  have hpos : s.wlDummySecPos.toNat * d.page ≤ d.pages * d.page := Nat.mul_le_mul_right _ hs.pos_le
  rw [Nat.add_mul] at hdata
  have hmul : (s.wlDummySecMoveCount * d.cfg.wlPageSize).toNat = s.wlDummySecMoveCount.toNat * d.page :=
    toNat_mul_of_lt (by change _ * d.page < _; omega)
  have hdummy : (s.wlDummySecPos * d.cfg.wlPageSize).toNat = s.wlDummySecPos.toNat * d.page :=
    toNat_mul_of_lt (by change _ * d.page < _; omega)
  have hsub : (d.flashSize - s.wlDummySecMoveCount * d.cfg.wlPageSize).toNat =
      (d.pages - s.wlDummySecMoveCount.toNat) * d.page := by
    rw [toNat_sub_of_le (by rw [hmul]; omega), hmul, hflash, Nat.sub_mul]
  have hle : (d.pages - s.wlDummySecMoveCount.toNat) * d.page ≤ d.pages * d.page :=
    Nat.mul_le_mul_right _ (Nat.sub_le _ _)
  have hrot : ((d.flashSize - s.wlDummySecMoveCount * d.cfg.wlPageSize + a) % d.flashSize).toNat =
      (d.pages - s.wlDummySecMoveCount.toNat + a.toNat / d.page) % d.pages * d.page + a.toNat % d.page := by
    rw [UInt32.toNat_mod, toNat_add_of_lt (by rw [hsub]; omega), hsub, hflash]
    conv_lhs => rw [← hsplit, Nat.mul_comm d.page, ← Nat.add_assoc, ← Nat.add_mul]
    exact mul_add_mod_mul hmod g.pages_pos
  unfold WlDevice.calcAddr
  dsimp only
  unfold WlDevice.slot RotatingGap.slot at hslot ⊢
  generalize (d.pages - s.wlDummySecMoveCount.toNat + a.toNat / d.page) % d.pages = k at *
  have hiff : k * d.page + a.toNat % d.page < s.wlDummySecPos.toNat * d.page ↔ k < s.wlDummySecPos.toNat := by
    constructor
    · intro h
      by_contra hge
      have := Nat.mul_le_mul_right d.page (not_lt.mp hge)
      omega
    · intro h
      have := Nat.mul_le_mul_right d.page (Nat.succ_le_of_lt h)
      rw [Nat.succ_mul] at this
      omega
  by_cases hk : k < s.wlDummySecPos.toNat
  · rw [if_pos (UInt32.lt_iff_toNat_lt.mpr (by rw [hrot, hdummy]; exact hiff.mpr hk)), if_pos hk, hrot]
  · rw [if_neg hk] at hslot
    have hmax := Nat.mul_le_mul_right d.page hslot
    rw [Nat.add_mul, Nat.one_mul] at hmax
    rw [if_neg (fun h => hk (hiff.mp (by rw [← hrot, ← hdummy]; exact UInt32.lt_iff_toNat_lt.mp h))), if_neg hk,
      toNat_add_of_lt (by rw [hrot]; change _ + d.page < _; omega), hrot]
    change _ + d.page = _
    rw [Nat.add_mul]
    omega

end Geometry

end EspIdf.WearLevelling
