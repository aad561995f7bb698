import EspIdf.WearLevelling.Recovery

/-!
# Where a configured device reads and writes

* `LaidOut d` : the four areas are apart and inside the region and the partition, and the records fit;
* `laidOut_iff` : an accepted configuration is laid out so exactly when it is `Roomy`;
* `InOwnArea d op` : the operation writes a header, a record, the configuration or a page inside its own area;
* `Own d img` : the headers on the flash that `init` would take are of this layout;
* `Reached d` : the states after `init` on such a flash and any operations;
* `footprint_iff` : the layout, and the writes and addresses of every reached state.
-/

namespace EspIdf.WearLevelling

open Word32 Crc32 NorFlash

/-! ## The areas -/

/-- Two ranges have no byte in common. -/
def Separate (a b : Nat × Nat) : Prop := a.1 + a.2 ≤ b.1 ∨ b.1 + b.2 ≤ a.1

namespace WlDevice

/-- The number of positions of the dummy page. -/
def positions (d : WlDevice) : Nat := 1 + d.flashSize.toNat / d.page

/-- The first byte and the size of the data area with its dummy page, of both state areas and of the configuration's. -/
def areas (d : WlDevice) : List (Nat × Nat) :=
  [(d.start, d.flashSize.toNat + d.page), (d.addrState1.toNat, d.stateSize.toNat),
    (d.addrState2.toNat, d.stateSize.toNat), (d.addrCfg.toNat, d.cfgSize.toNat)]

/-- A range inside the configured region and the partition. -/
def Inside (d : WlDevice) (a : Nat × Nat) : Prop :=
  d.start ≤ a.1 ∧ a.1 + a.2 ≤ d.start + d.cfg.wlPartitionSize.toNat ∧ a.1 + a.2 ≤ d.partition.size.toNat

end WlDevice

/-- The areas are apart and in place, and a state area holds its header and a record for each position. -/
structure LaidOut (d : WlDevice) : Prop where
  apart : d.areas.Pairwise Separate
  inside : ∀ a ∈ d.areas, d.Inside a
  records : 64 + d.positions * d.record ≤ d.stateSize.toNat

theorem WlDevice.positions_eq (d : WlDevice) : d.positions = d.pages + 1 := Nat.add_comm _ _

theorem Areas.page_pos {d : WlDevice} (h : Areas d) : 0 < d.page := lt_of_lt_of_le h.sector_pos h.page_ge

theorem Areas.dataBytes {d : WlDevice} (h : Areas d) : d.flashSize.toNat + d.page = (d.pages + 1) * d.page := by
  rw [h.flashSize, Nat.add_mul, Nat.one_mul]

theorem Areas.laidOut {d : WlDevice} (h : Areas d) : LaidOut d := by
  have hdata := h.data_le
  have hstate := h.state2_eq
  have hcfg := h.cfg_eq
  have hend := h.end_eq
  have hle := h.end_le
  rw [← h.dataBytes] at hdata
  refine ⟨?_, ?_, ?_⟩
  · simp only [WlDevice.areas, List.pairwise_cons, List.forall_mem_cons, Separate, List.not_mem_nil, false_implies,
      implies_true, and_true, List.Pairwise.nil]
    omega
  · simp only [WlDevice.areas, List.forall_mem_cons, WlDevice.Inside, List.not_mem_nil, false_implies, implies_true,
      and_true]
    omega
  · rw [d.positions_eq]
    have hmul : (d.pages + 1) * d.record ≤ d.recordCount.toNat * d.record := Nat.mul_le_mul_right _ h.pages_le
    have hfit := h.records_fit
    omega

/-! ## A layout leaves no word to wrap -/

section Words
variable {cfg : WlConfig} {p : Partition}

/-- The pieces of four ranges that are apart and in one region do not add up to more than it. -/
theorem sum_le_of_separate {lo n a b c e x y z w : Nat}
    (h : [(a, x), (b, y), (c, z), (e, w)].Pairwise Separate)
    (hin : ∀ r ∈ [(a, x), (b, y), (c, z), (e, w)], lo ≤ r.1 ∧ r.1 + r.2 ≤ lo + n) : x + y + z + w ≤ n := by
  simp only [List.pairwise_cons, List.forall_mem_cons, Separate, List.not_mem_nil, false_implies, implies_true,
    and_true, List.Pairwise.nil] at h hin
  omega

/-- The size of the data area counts at least one page, or its negative number of pages is larger than the region. -/
theorem flashSize_ge {region page : UInt32} (hpage : 0 < page.toNat) (hpos : ((region / page - 1) * page).toNat ≠ 0)
    (hle : ((region / page - 1) * page).toNat + page.toNat < 2 ^ 32) :
    page.toNat ≤ ((region / page - 1) * page).toNat ∧ 2 * page.toNat ≤ region.toNat := by
  have hdiv : (region / page).toNat = region.toNat / page.toNat := UInt32.toNat_div _ _
  have hmul : region.toNat / page.toNat * page.toNat ≤ region.toNat := Nat.div_mul_le_self _ _
  rcases Nat.lt_trichotomy (region.toNat / page.toNat) 1 with hzero | hone | hmore
  · have hw : region / page = 0 := UInt32.toNat_inj.mp (by rw [hdiv]; change _ = 0; omega)
    have hneg : ((region / page - 1) * page).toNat = 2 ^ 32 - page.toNat := by
      rw [hw, UInt32.toNat_mul]
      have hminus : ((0 : UInt32) - 1).toNat = 2 ^ 32 - 1 := rfl
      have hlt := page.toNat_lt
      rw [hminus, show (2 ^ 32 - 1) * page.toNat = 2 ^ 32 * (page.toNat - 1) + (2 ^ 32 - page.toNat) by omega,
        Nat.mul_add_mod, Nat.mod_eq_of_lt (by omega)]
    omega
  · have hw : region / page = 1 := UInt32.toNat_inj.mp (by rw [hdiv]; change _ = 1; omega)
    rw [hw] at hpos
    exact absurd (by simp) hpos
  · have hregion : 2 * page.toNat ≤ region.toNat := le_trans (Nat.mul_le_mul_right _ hmore) hmul
    rw [flashSize_toNat hpage (by omega)]
    refine ⟨?_, hregion⟩
    calc page.toNat = 1 * page.toNat := (Nat.one_mul _).symm
      _ ≤ (region.toNat / page.toNat - 1) * page.toNat := Nat.mul_le_mul_right _ (by omega)

/-- The driver's rounding wraps to nothing or does not wrap. -/
theorem roundUp_cases {w sector : UInt32} (hs : 0 < sector.toNat) (hw : 0 < w.toNat) :
    ((w + sector - 1) / sector * sector).toNat = 0 ∨
      ((w + sector - 1) / sector * sector).toNat = roundUp sector.toNat w.toNat := by
  have hlt := w.toNat_lt
  have hslt := sector.toNat_lt
  by_cases h : w.toNat + sector.toNat < 2 ^ 32
  · exact .inr (roundUp_toNat hs h)
  · have hone : (1 : UInt32).toNat = 1 := rfl
    by_cases hexact : w.toNat + sector.toNat = 2 ^ 32
    · have hadd : w + sector = 0 := UInt32.toNat_inj.mp (by rw [UInt32.toNat_add, hexact]; rfl)
      have hminus : ((0 : UInt32) - 1).toNat = 2 ^ 32 - 1 := rfl
      have hle : (2 ^ 32 - 1) / sector.toNat * sector.toNat ≤ 2 ^ 32 - 1 := Nat.div_mul_le_self _ _
      refine .inr ?_
      rw [hadd, toNat_mul_of_lt (by rw [UInt32.toNat_div, hminus]; omega), UInt32.toNat_div, hminus]
      unfold roundUp
      rw [hexact]
    · have hadd : (w + sector).toNat = w.toNat + sector.toNat - 2 ^ 32 := by
        rw [UInt32.toNat_add]
        omega
      have hsub : (w + sector - 1).toNat = w.toNat + sector.toNat - 2 ^ 32 - 1 := by
        rw [toNat_sub_of_le (by rw [hadd, hone]; omega), hadd, hone]
      refine .inl ?_
      rw [UInt32.toNat_mul, UInt32.toNat_div, hsub, Nat.div_eq_of_lt (by omega), Nat.zero_mul, Nat.zero_mod]

/-- Where the records fit, the room for them was computed without a wrap. -/
theorem stateSize_of_records {c : WlConfig} (hsec : 0 < c.flashSectorSize.toNat)
    (hrec : c.wlPosUpdateRecordSize.toNat ≤ c.flashSectorSize.toNat) {n : Nat} (hn : 2 ≤ n)
    (hfit : 64 + n * c.wlPosUpdateRecordSize.toNat ≤ (c.layout p).stateSize.toNat) :
    (c.layout p).stateSize.toNat = c.stateBytes := by
  have hsize := c.wlPartitionSize.toNat_lt
  have hslt := c.flashSectorSize.toNat_lt
  -- the records of all sectors, which take no more than the sectors
  obtain ⟨k, hk⟩ : ∃ k, k = c.wlPartitionSize.toNat / c.flashSectorSize.toNat * c.wlPosUpdateRecordSize.toNat := ⟨_, rfl⟩
  have hkle : k ≤ c.wlPartitionSize.toNat := by
    rw [hk]
    exact le_trans (Nat.mul_le_mul_left _ hrec) (Nat.div_mul_le_self _ _)
  have htwo : 2 * c.wlPosUpdateRecordSize.toNat ≤ n * c.wlPosUpdateRecordSize.toNat := Nat.mul_le_mul_right _ hn
  have h64 : stateHeader.toNat = 64 := rfl
  have hmul : (c.wlPartitionSize / c.flashSectorSize * c.wlPosUpdateRecordSize).toNat = k := by
    rw [toNat_mul_of_lt (by rw [UInt32.toNat_div]; omega), UInt32.toNat_div, hk]
  obtain ⟨need, hneed⟩ : ∃ need, need = stateHeader + c.wlPartitionSize / c.flashSectorSize * c.wlPosUpdateRecordSize :=
    ⟨_, rfl⟩
  have hstate : (c.layout p).stateSize = if c.flashSectorSize < need then
      (need + c.flashSectorSize - 1) / c.flashSectorSize * c.flashSectorSize else c.flashSectorSize := by
    rw [hneed]
    rfl
  have hneedNat : need.toNat = (64 + k) % 2 ^ 32 := by rw [hneed, UInt32.toNat_add, hmul, h64]
  by_cases hwrap : 64 + k < 2 ^ 32
  · rw [Nat.mod_eq_of_lt hwrap] at hneedNat
    unfold WlConfig.stateBytes
    rw [← hk, ← hneedNat]
    rw [hstate] at hfit ⊢
    split_ifs at hfit ⊢ with h
    · rw [UInt32.lt_iff_toNat_lt] at h
      rw [max_eq_right (le_of_lt h)]
      exact (roundUp_cases hsec (by omega)).resolve_left (by omega)
    · rw [UInt32.lt_iff_toNat_lt] at h
      rw [max_eq_left (by omega), roundUp_self hsec]
  · exfalso
    -- a size that has wrapped is less than a header and a sector
    have hsmall : need.toNat < 64 := by rw [hneedNat]; omega
    have hstateLt : (c.layout p).stateSize.toNat ≤ 63 + c.flashSectorSize.toNat := by
      rw [hstate]
      split_ifs with h
      · rw [UInt32.lt_iff_toNat_lt] at h
        have hround : roundUp c.flashSectorSize.toNat need.toNat ≤ need.toNat + c.flashSectorSize.toNat - 1 :=
          Nat.div_mul_le_self _ _
        rcases roundUp_cases hsec (show 0 < need.toNat by omega) with hzero | heq
        · omega
        · omega
      · omega
    have hhalf : 2 * k ≤ c.wlPartitionSize.toNat := by
      calc 2 * k = c.wlPartitionSize.toNat / c.flashSectorSize.toNat * (2 * c.wlPosUpdateRecordSize.toNat) := by
            rw [hk]
            ring
        _ ≤ c.wlPartitionSize.toNat / c.flashSectorSize.toNat * c.flashSectorSize.toNat :=
            Nat.mul_le_mul_left _ (by omega)
        _ ≤ c.wlPartitionSize.toNat := Nat.div_mul_le_self _ _
    omega

end Words

/-- A layout with the records in their area and the areas apart is one of a roomy configuration. -/
theorem LaidOut.roomy {cfg : WlConfig} {p : Partition} {mallocOk : Bool} {d : WlDevice} {r : WlRam}
    (h : config cfg p mallocOk = .ok (d, r)) (hl : LaidOut d) : Roomy cfg p := by
  obtain ⟨rfl, -, -, htemp, hpage, hflash⟩ := config_ok h
  suffices hroomy : Roomy cfg.adopt p from ⟨hroomy.sector_pos, hroomy.in_partition, hroomy.fits⟩
  have hrec := adopt_record_le cfg
  change cfg.adopt.flashSectorSize % cfg.adopt.wlTempBuffSize = 0 at htemp
  change ¬cfg.adopt.wlPageSize < cfg.adopt.flashSectorSize at hpage
  generalize cfg.adopt = c at *
  rw [UInt32.lt_iff_toNat_lt] at hpage
  rw [not_or, UInt32.le_iff_toNat_le] at hflash
  have hhalf : (0x80000000 : UInt32).toNat = 2 ^ 31 := rfl
  rw [hhalf] at hflash
  have hflash0 : (c.layout p).flashSize.toNat ≠ 0 := fun e => hflash.1 (UInt32.toNat_inj.mp e)
  have hsize := c.wlPartitionSize.toNat_lt
  have hstart := c.wlPartitionStartAddr.toNat_lt
  obtain ⟨hapart, hinside, hrecords⟩ := hl
  have hpageEq : (c.layout p).page = c.wlPageSize.toNat := rfl
  have hstartEq : (c.layout p).start = c.wlPartitionStartAddr.toNat := rfl
  have hsizeEq : (c.layout p).cfg.wlPartitionSize.toNat = c.wlPartitionSize.toNat := rfl
  have hpartEq : (c.layout p).partition.size.toNat = p.size.toNat := rfl
  have hin := hinside
  simp only [WlDevice.areas, List.forall_mem_cons, WlDevice.Inside, List.not_mem_nil, false_implies, implies_true,
    and_true, hstartEq, hpageEq, hsizeEq, hpartEq] at hin
  obtain ⟨hinData, hinState1, hinState2, hinCfg⟩ := hin
  have hsec : 0 < c.flashSectorSize.toNat := by
    rcases Nat.eq_zero_or_pos c.flashSectorSize.toNat with hzero | hpos
    · have hsector : c.flashSectorSize = 0 := UInt32.toNat_inj.mp hzero
      have hstate : (c.layout p).stateSize = 0 := by
        unfold WlConfig.layout
        dsimp only
        rw [hsector]
        split_ifs
        · exact UInt32.mul_zero
        · rfl
      rw [hstate] at hrecords
      exact absurd hrecords (Nat.not_le_of_lt (Nat.lt_of_lt_of_le (by decide : 0 < 64) (Nat.le_add_right _ _)))
    · exact hpos
  have htempLe : c.wlTempBuffSize.toNat ≤ c.flashSectorSize.toNat := by
    have e := congrArg UInt32.toNat htemp
    rw [UInt32.toNat_mod] at e
    exact Nat.le_of_dvd hsec (Nat.dvd_of_mod_eq_zero e)
  have hpos : 0 < c.wlPageSize.toNat := by omega
  -- at least one page besides the dummy page
  obtain ⟨hone, hregion⟩ := flashSize_ge
    hpos hflash0 (by
      change (c.layout p).flashSize.toNat + _ < _
      omega)
  change c.wlPageSize.toNat ≤ (c.layout p).flashSize.toNat at hone
  have htwo : 2 ≤ (c.layout p).positions := by
    unfold WlDevice.positions
    have hdiv : 0 < (c.layout p).flashSize.toNat / (c.layout p).page := Nat.div_pos hone hpos
    omega
  have hstate := stateSize_of_records hsec (le_trans hrec htempLe) htwo hrecords
  have hcfg : (c.layout p).cfgSize.toNat = c.cfgBytes := by
    have h48 : (48 : UInt32).toNat = 48 := rfl
    unfold WlConfig.layout WlConfig.cfgBytes
    dsimp only
    rw [roundUp_toNat hsec (by omega), h48]
  have hcfgGe : 48 ≤ c.cfgBytes := roundUp_ge hsec
  have hsum := sum_le_of_separate hapart fun a ha => ⟨(hinside a ha).1, (hinside a ha).2.1⟩
  rw [hstate, hcfg, hpageEq, hsizeEq] at hsum
  refine ⟨hsec, ?_, by omega⟩
  -- the configuration area ends where the region ends
  have haddr : (c.layout p).addrCfg = c.wlPartitionStartAddr + c.wlPartitionSize - (c.layout p).cfgSize := rfl
  rw [hcfg] at hinCfg
  have hcfgNat : (c.layout p).addrCfg.toNat =
      (2 ^ 32 - c.cfgBytes + (c.wlPartitionStartAddr.toNat + c.wlPartitionSize.toNat) % 2 ^ 32) % 2 ^ 32 := by
    rw [haddr, UInt32.toNat_sub, UInt32.toNat_add, hcfg]
  omega

/-- An accepted configuration is laid out as it should be exactly when it is roomy. -/
theorem laidOut_iff {cfg : WlConfig} {p : Partition} {mallocOk : Bool} {d : WlDevice} {r : WlRam}
    (h : config cfg p mallocOk = .ok (d, r)) : LaidOut d ↔ Roomy cfg p :=
  ⟨LaidOut.roomy h, fun hr => (config_areas hr h).laidOut⟩

/-! ## What the driver writes -/

/-- An operation on a state area, the configuration area or the pages that stays inside the area it is meant for. -/
inductive InOwnArea (d : WlDevice) : Op → Prop
  | eraseState {addr : UInt32} (copy : addr = d.addrState1 ∨ addr = d.addrState2) :
      InOwnArea d (.erase addr.toNat d.stateSize.toNat)
  | header {addr : UInt32} (copy : addr = d.addrState1 ∨ addr = d.addrState2) {bytes : List UInt8}
      (whole : bytes.length = 64) (fits : 64 ≤ d.stateSize.toNat) : InOwnArea d (.write addr.toNat bytes)
  | record {addr : UInt32} (copy : addr = d.addrState1 ∨ addr = d.addrState2) (i : Nat) {bytes : List UInt8}
      (length_le : bytes.length ≤ d.record) (fits : 64 + (i + 1) * d.record ≤ d.stateSize.toNat) :
      InOwnArea d (.write (addr.toNat + 64 + i * d.record) bytes)
  | eraseCfg : InOwnArea d (.erase d.addrCfg.toNat d.cfgSize.toNat)
  | cfg {bytes : List UInt8} (fits : bytes.length ≤ d.cfgSize.toNat) : InOwnArea d (.write d.addrCfg.toNat bytes)
  | page {op : Op} (within : op.Within d.start (d.flashSize.toNat + d.page)) : InOwnArea d op

section Partition
variable {P : Op → Prop} {p : Partition} {offset size : UInt32} {bytes : List UInt8} {r : WlRam} {img : Image}
  {E : WlRam → Image → Prop}

theorem safe_inBounds {Q : Unit → WlRam → Image → Prop} (hQ : Q () r img) (hE : E r img) :
    Safe P (p.inBounds offset size) Q E r img := by
  unfold Partition.inBounds
  split_ifs
  · exact safe_fail hE
  · exact safe_fail hE
  · exact safe_pure hQ

theorem safe_partitionRead {Q : List UInt8 → WlRam → Image → Prop} (hQ : Q (readBytes img offset.toNat size.toNat) r img)
    (hE : E r img) : Safe P (p.read offset size) Q E r img := by
  unfold Partition.read
  apply safe_bind
  exact safe_inBounds (safe_readFlash hQ) hE

theorem safe_partitionWrite {Q : Unit → WlRam → Image → Prop} (hP : P (.write offset.toNat bytes))
    (hQ : Q () r (program img offset.toNat bytes)) (hE : E r img) : Safe P (p.write offset bytes) Q E r img := by
  unfold Partition.write
  apply safe_bind
  exact safe_inBounds (safe_issue hP hQ) hE

theorem safe_eraseRange {Q : Unit → WlRam → Image → Prop} (hP : P (.erase offset.toNat size.toNat))
    (hQ : Q () r (eraseRange img offset.toNat size.toNat)) (hE : E r img) : Safe P (p.eraseRange offset size) Q E r img := by
  unfold Partition.eraseRange
  apply safe_bind
  refine safe_inBounds ?_ hE
  split_ifs
  · exact safe_fail hE
  · exact safe_fail hE
  · exact safe_issue hP hQ

end Partition

/-- The positions are those of the layout, and the dummy page is at one of them. -/
structure WlState.Placed (s : WlState) (d : WlDevice) : Prop where
  maxPos : s.wlPartMaxSecPos.toNat = d.pages + 1
  pos_le : s.wlDummySecPos.toNat ≤ d.pages

section Moves
variable {d : WlDevice} {r : WlRam} {img : Image} {P : Op → Prop} {E : WlRam → Image → Prop}

theorem safe_readTemp {addr size : UInt32} {Q : Unit → WlRam → Image → Prop}
    (hQ : ∀ r', r'.state = r.state → Q () r' img) (hE : E r img) : Safe P (d.readTemp addr size) Q E r img := by
  unfold WlDevice.readTemp
  apply safe_bind
  refine safe_partitionRead ?_ hE
  exact safe_modifyRam (hQ _ rfl)

theorem safe_writeTemp {addr size : UInt32} {Q : Unit → WlRam → Image → Prop}
    (hP : ∀ bytes : List UInt8, bytes.length ≤ size.toNat → P (.write addr.toNat bytes))
    (hQ : ∀ bytes, Q () r (program img addr.toNat bytes)) (hE : E r img) : Safe P (d.writeTemp addr size) Q E r img := by
  unfold WlDevice.writeTemp
  apply safe_bind
  apply safe_getRam
  refine safe_partitionWrite (hP _ ?_) (hQ _) hE
  rw [List.length_take]
  exact Nat.min_le_left _ _

namespace Areas

theorem header_le (h : Areas d) : 64 ≤ d.stateSize.toNat := le_trans (Nat.le_add_right _ _) h.records_fit

theorem copy_end (h : Areas d) {addr : UInt32} (copy : addr = d.addrState1 ∨ addr = d.addrState2) :
    addr.toNat + d.stateSize.toNat ≤ d.partition.size.toNat := by
  have hstate := h.state2_eq
  have hcfg := h.cfg_eq
  have hend := h.end_le
  rcases copy with rfl | rfl
  · omega
  · omega

/-- A record lies in its copy. -/
theorem record_fits (h : Areas d) {i : Nat} (hi : i < d.recordCount.toNat) : 64 + (i + 1) * d.record ≤ d.stateSize.toNat :=
  le_trans (Nat.add_le_add_left (Nat.mul_le_mul_right _ hi) _) h.records_fit

theorem recordAddr_toNat (h : Areas d) {addr : UInt32} (copy : addr = d.addrState1 ∨ addr = d.addrState2) {i : UInt32}
    (hi : i.toNat < d.recordCount.toNat) : (d.recordAddr addr i).toNat = addr.toNat + 64 + i.toNat * d.record := by
  have hend := h.copy_end copy
  have hfit := h.record_fits hi
  have hsize := d.partition.size.toNat_lt
  rw [Nat.add_mul, Nat.one_mul] at hfit
  have h64 : stateHeader.toNat = 64 := rfl
  have hmul : (i * d.cfg.wlPosUpdateRecordSize).toNat = i.toNat * d.record :=
    toNat_mul_of_lt (by change i.toNat * d.record < _; omega)
  have hadd : (addr + stateHeader).toNat = addr.toNat + 64 := by rw [toNat_add_of_lt (by rw [h64]; omega), h64]
  unfold WlDevice.recordAddr
  rw [toNat_add_of_lt (by rw [hadd, hmul]; omega), hadd, hmul]

theorem record_inOwnArea (h : Areas d) {addr : UInt32} (copy : addr = d.addrState1 ∨ addr = d.addrState2) {i : UInt32}
    (hi : i.toNat < d.recordCount.toNat) {bytes : List UInt8} (hlen : bytes.length ≤ d.record) :
    InOwnArea d (.write (d.recordAddr addr i).toNat bytes) := by
  rw [h.recordAddr_toNat copy hi]
  exact .record copy i.toNat hlen (h.record_fits hi)

end Areas

theorem safe_retryMove (h : r.state.Placed d) :
    Safe P retryMove (fun _ r' _ => r'.state.Placed d) (fun r' _ => r'.state.Placed d) r img :=
  safe_modifyRam ⟨h.maxPos, h.pos_le⟩

/-- A record is marked inside its copy. -/
theorem Areas.safe_markPos (h : Areas d) {addr : UInt32} (copy : addr = d.addrState1 ∨ addr = d.addrState2) {pos : UInt32}
    (hpos : pos.toNat ≤ d.pages) (hr : r.state.Placed d) : Safe (InOwnArea d) (d.markPos addr pos)
      (fun _ r' _ => r'.state.Placed d) (fun r' _ => r'.state.Placed d) r img := by
  have hlt : pos.toNat < d.recordCount.toNat := Nat.lt_of_lt_of_le (Nat.lt_succ_of_le hpos) h.pages_le
  unfold WlDevice.markPos
  apply safe_bind
  apply safe_modifyRam
  exact safe_writeTemp (fun bytes hlen => h.record_inOwnArea copy hlt hlen) (fun _ => hr) hr

/-- The dummy page is erased and written inside the data area. -/
theorem Areas.safe_moveBlock (h : Areas d) {dataAddr pos : UInt32} (hpos : pos.toNat ≤ d.pages) (hr : r.state.Placed d) :
    Safe (InOwnArea d) (d.moveBlock dataAddr (d.cfg.wlPartitionStartAddr + pos * d.cfg.wlPageSize))
      (fun _ r' _ => r'.state.Placed d) (fun r' _ => r'.state.Placed d) r img := by
  have hdata := h.data_le
  have hstate := d.addrState1.toNat_lt
  have hbytes := h.dataBytes
  have hpage : (pos.toNat + 1) * d.page ≤ (d.pages + 1) * d.page := Nat.mul_le_mul_right _ (Nat.succ_le_succ hpos)
  rw [Nat.add_mul, Nat.one_mul] at hpage
  have hmul : (pos * d.cfg.wlPageSize).toNat = pos.toNat * d.page :=
    toNat_mul_of_lt (by change pos.toNat * d.page < _; omega)
  have haddr : (d.cfg.wlPartitionStartAddr + pos * d.cfg.wlPageSize).toNat = d.start + pos.toNat * d.page := by
    rw [toNat_add_of_lt (by rw [hmul]; change d.start + _ < _; omega), hmul]
    rfl
  have hpage32 : d.cfg.wlPageSize.toNat = d.page := rfl
  generalize d.cfg.wlPartitionStartAddr + pos * d.cfg.wlPageSize = dummy at haddr ⊢
  unfold WlDevice.moveBlock
  apply safe_bind
  refine safe_eraseRange ?_ ?_ hr
  · refine .page ⟨by rw [haddr]; omega, ?_⟩
    rw [haddr, hpage32]
    omega
  · refine safe_loop (fun _ (r' : WlRam) _ => r'.state.Placed d) ?_ hr
    intro i r' img' hi hr'
    have hpieces : (d.cfg.wlPageSize / d.cfg.wlTempBuffSize).toNat = d.page / d.temp := UInt32.toNat_div _ _
    have hpiece : (i + 1) * d.temp ≤ d.page := by
      rw [hpieces] at hi
      exact le_trans (Nat.mul_le_mul_right _ hi) (Nat.div_mul_le_self _ _)
    rw [Nat.add_mul, Nat.one_mul] at hpiece
    have hi32 : (UInt32.ofNat i).toNat = i := by
      refine toNat_ofNat_of_lt (Nat.lt_of_lt_of_le hi ?_)
      exact Nat.le_of_lt (UInt32.toNat_lt _)
    have hoff : (UInt32.ofNat i * d.cfg.wlTempBuffSize).toNat = i * d.temp := by
      rw [toNat_mul_of_lt (by rw [hi32]; change i * d.temp < _; omega), hi32]
      rfl
    have hdst : (dummy + UInt32.ofNat i * d.cfg.wlTempBuffSize).toNat = d.start + pos.toNat * d.page + i * d.temp := by
      rw [toNat_add_of_lt (by rw [hoff, haddr]; omega), hoff, haddr]
    have htemp32 : d.cfg.wlTempBuffSize.toNat = d.temp := rfl
    unfold WlDevice.movePiece
    apply safe_bind
    refine safe_readTemp ?_ hr'
    intro r'' hsame
    rw [← hsame] at hr'
    refine safe_writeTemp ?_ (fun _ => hr') hr'
    intro bytes hlen
    rw [htemp32] at hlen
    refine .page ⟨by rw [hdst]; omega, ?_⟩
    rw [hdst]
    omega

theorem Areas.safe_writeHeaders (h : Areas d) (hr : r.state.Placed d) : Safe (InOwnArea d) d.writeHeaders
    (fun _ r' _ => r'.state.Placed d) (fun r' _ => r'.state.Placed d) r img := by
  have hlen := r.state.bytes_length
  unfold WlDevice.writeHeaders
  apply safe_bind
  apply safe_getRam
  apply safe_bind
  refine safe_eraseRange (.eraseState (.inl rfl)) ?_ hr
  apply safe_bind
  refine safe_partitionWrite (.header (.inl rfl) hlen h.header_le) ?_ hr
  apply safe_bind
  refine safe_eraseRange (.eraseState (.inr rfl)) ?_ hr
  exact safe_partitionWrite (.header (.inr rfl) hlen h.header_le) hr hr

theorem Areas.safe_moveDummy (h : Areas d) (hr : r.state.Placed d) : Safe (InOwnArea d) (d.moveDummy r.state)
    (fun _ r' _ => r'.state.Placed d) (fun r' _ => r'.state.Placed d) r img := by
  have hpos := hr.pos_le
  generalize hs : r.state = s at hpos ⊢
  unfold WlDevice.moveDummy
  apply safe_bind
  apply safe_modifyRam
  have hr' : ({ r with dummyAddr := d.cfg.wlPartitionStartAddr + s.wlDummySecPos * d.cfg.wlPageSize } :
      WlRam).state.Placed d := hr
  apply safe_bind
  refine safe_onError (safe_mono (h.safe_moveBlock hpos hr') (fun _ hop => hop) ?_ ?_)
  · intro _ r₁ img₁ hr₁
    apply safe_bind
    refine safe_onError (safe_mono (h.safe_markPos (.inl rfl) hpos hr₁) (fun _ hop => hop) ?_ ?_)
    · intro _ r₂ img₂ hr₂
      exact safe_onError (safe_mono (h.safe_markPos (.inr rfl) hpos hr₂) (fun _ hop => hop) (fun _ _ _ hr₃ => hr₃)
        fun _ _ hr₃ => safe_retryMove hr₃)
    · exact fun _ _ hr₂ => safe_retryMove hr₂
  · exact fun _ _ hr₁ => safe_retryMove hr₁

theorem Areas.safe_stepPos (h : Areas d) (hr : r.state.Placed d) : Safe (InOwnArea d) d.stepPos
    (fun _ r' _ => r'.state.Placed d) (fun r' _ => r'.state.Placed d) r img := by
  have hmax := hr.maxPos
  have hpos := hr.pos_le
  have hdata := h.data_le
  have hpage := h.page_pos
  have hstate := d.addrState1.toNat_lt
  have hone : (1 : UInt32).toNat = 1 := rfl
  have hlt : d.pages < (d.pages + 1) * d.page := Nat.lt_of_lt_of_le (Nat.lt_succ_self _) (Nat.le_mul_of_pos_right _ hpage)
  have hnext : (r.state.wlDummySecPos + 1).toNat = r.state.wlDummySecPos.toNat + 1 := by
    rw [toNat_add_of_lt (by rw [hone]; omega), hone]
  unfold WlDevice.stepPos
  apply safe_bind
  apply safe_modifyRam
  apply safe_bind
  apply safe_getRam
  split_ifs with hend
  · apply safe_bind
    apply safe_modifyRam
    exact h.safe_writeHeaders ⟨hmax, Nat.zero_le _⟩
  · rw [UInt32.le_iff_toNat_le] at hend
    refine safe_pure ⟨hmax, ?_⟩
    change (r.state.wlDummySecPos + 1).toNat ≤ d.pages
    change ¬r.state.wlPartMaxSecPos.toNat ≤ (r.state.wlDummySecPos + 1).toNat at hend
    omega

/-- `updateWL` writes inside the areas and leaves the dummy page at a position of the layout. -/
theorem Areas.safe_updateWL (h : Areas d) (hr : r.state.Placed d) : Safe (InOwnArea d) d.updateWL
    (fun _ r' _ => r'.state.Placed d) (fun r' _ => r'.state.Placed d) r img := by
  unfold WlDevice.updateWL
  apply safe_bind
  apply safe_modifyRam
  apply safe_bind
  apply safe_getRam
  split_ifs
  · exact safe_pure ⟨hr.maxPos, hr.pos_le⟩
  · unfold WlDevice.advance
    apply safe_bind
    apply safe_modifyRam
    apply safe_bind
    apply safe_getRam
    apply safe_bind
    refine safe_post (h.safe_moveDummy ⟨hr.maxPos, hr.pos_le⟩) ?_
    intro _ r' img' hr'
    exact h.safe_stepPos hr'

end Moves

/-! ## Start-up -/

/-- The header passes as one of version 1. -/
def WlState.V1Ok (s : WlState) : Prop := s.crcV1 = s.wlDeviceId ∧ s.version = 1

/-- The headers on the flash that `init` takes for valid are of this layout. -/
structure Own (d : WlDevice) (img : Image) : Prop where
  v2 : ∀ addr, addr = d.addrState1 ∨ addr = d.addrState2 → (stateAt addr img).CrcOk → (stateAt addr img).Placed d
  v1 : (stateAt d.addrState1 img).V1Ok → (stateAt d.addrState1 img).wlPartMaxSecPos.toNat = d.pages + 1

section Init
variable {d : WlDevice} {r : WlRam} {img : Image} {E : WlRam → Image → Prop}

theorem Areas.readState_eq (h : Areas d) {addr : UInt32} (copy : addr = d.addrState1 ∨ addr = d.addrState2) :
    d.readState addr r img = ⟨.ok (stateAt addr img), r, []⟩ := by
  have hend := h.copy_end copy
  have hhead := h.header_le
  have h64 : stateHeader.toNat = 64 := rfl
  unfold WlDevice.readState
  rw [bind_quiet (partition_read_eq (by rw [h64]; omega))]
  rfl

theorem Areas.safe_readState (h : Areas d) {P : Op → Prop} {addr : UInt32}
    (copy : addr = d.addrState1 ∨ addr = d.addrState2) {Q : WlState → WlRam → Image → Prop}
    (hQ : Q (stateAt addr img) r img) : Safe P (d.readState addr) Q E r img :=
  safe_of_eq (h.readState_eq copy) (safe_pure hQ)

/-- The position found is one of those looked at. -/
theorem safe_recoverPosFrom {P : Op → Prop} {bound : Nat} (n i position : Nat) (hposition : position ≤ bound)
    (hi : i + n ≤ bound + 1) : Safe P (d.recoverPosFrom i position n)
      (fun found r' _ => found ≤ bound ∧ r'.state = r.state) (fun _ _ => True) r img := by
  induction n generalizing i position r with
  | zero => exact safe_pure ⟨hposition, rfl⟩
  | succ n ih =>
      unfold WlDevice.recoverPosFrom
      apply safe_bind
      refine safe_readTemp ?_ trivial
      intro r' hsame
      apply safe_bind
      apply safe_getRam
      split_ifs
      · rw [← hsame]
        exact ih (i + 1) i (by omega) (by omega)
      · exact safe_pure ⟨by omega, hsame⟩

theorem Areas.pages_lt (h : Areas d) : d.pages + 1 < 2 ^ 32 := by
  have hdata := h.data_le
  have hstate := d.addrState1.toNat_lt
  have hle : d.pages + 1 ≤ (d.pages + 1) * d.page := Nat.le_mul_of_pos_right _ h.page_pos
  omega

theorem Areas.safe_recoverPos (h : Areas d) {P : Op → Prop} (hmax : r.state.wlPartMaxSecPos.toNat = d.pages + 1) :
    Safe P d.recoverPos (fun _ r' _ => r'.state.Placed d) (fun _ _ => True) r img := by
  have hlt := h.pages_lt
  unfold WlDevice.recoverPos
  apply safe_bind
  apply safe_getRam
  apply safe_bind
  rw [hmax]
  refine safe_post (safe_recoverPosFrom (d.pages + 1) 0 0 (Nat.zero_le d.pages) (by omega)) ?_
  rintro found r' img' ⟨hfound, hsame⟩
  have hnat : (UInt32.ofNat found).toNat = found := toNat_ofNat_of_lt (by omega)
  apply safe_bind
  apply safe_modifyRam
  apply safe_modifyRam
  have hne : ¬(UInt32.ofNat found = r'.state.wlPartMaxSecPos ∧ UInt32.ofNat found ≠ 0) := by
    rintro ⟨heq, -⟩
    have e := congrArg UInt32.toNat heq
    rw [hnat, hsame, hmax] at e
    omega
  dsimp only
  rw [if_neg hne]
  refine ⟨by rw [hsame]; exact hmax, ?_⟩
  change (UInt32.ofNat found).toNat ≤ d.pages
  rw [hnat]
  exact hfound

theorem Areas.freshState_placed (h : Areas d) (rand : UInt32) (s : WlState) : (d.freshState rand s).Placed d := by
  have hlt := h.pages_lt
  have hone : (1 : UInt32).toNat = 1 := rfl
  have hdiv : (d.flashSize / d.cfg.wlPageSize).toNat = d.pages := UInt32.toNat_div _ _
  refine ⟨?_, Nat.zero_le _⟩
  change (1 + d.flashSize / d.cfg.wlPageSize).toNat = _
  rw [toNat_add_of_lt (by rw [hone, hdiv]; omega), hone, hdiv, Nat.add_comm]

theorem Areas.safe_initSections (h : Areas d) (rand : UInt32) : Safe (InOwnArea d) (d.initSections rand)
    (fun _ r' _ => r'.state.Placed d) (fun _ _ => True) r img := by
  have hplaced := h.freshState_placed rand r.state
  unfold WlDevice.initSections
  apply safe_bind
  apply safe_modifyRam
  apply safe_bind
  apply safe_getRam
  have hlen := (d.freshState rand r.state).bytes_length
  apply safe_bind
  refine safe_eraseRange (.eraseState (.inl rfl)) ?_ trivial
  apply safe_bind
  refine safe_partitionWrite (.header (.inl rfl) hlen h.header_le) ?_ trivial
  apply safe_bind
  refine safe_eraseRange (.eraseState (.inr rfl)) ?_ trivial
  apply safe_bind
  refine safe_partitionWrite (.header (.inr rfl) hlen h.header_le) ?_ trivial
  apply safe_bind
  refine safe_eraseRange .eraseCfg ?_ trivial
  refine safe_partitionWrite (.cfg ?_) hplaced trivial
  rw [d.cfg.bytes_length]
  exact h.cfgSize_ge

/-- A write behind the header leaves the header. -/
theorem stateAt_program {addr : UInt32} {a : Nat} {bytes : List UInt8} (h : addr.toNat + 64 ≤ a) :
    stateAt addr (program img a bytes) = stateAt addr img := by
  unfold stateAt
  congr 1
  exact readBytes_congr fun x _ hx => program_out (.inl (by omega))

theorem stateAt_written {addr : UInt32} {len : Nat} (hlen : 64 ≤ len) (s : WlState) :
    stateAt addr (program (eraseRange img addr.toNat len) addr.toNat s.bytes) = s := by
  have hbytes := s.bytes_length
  unfold stateAt
  have hread : readBytes (program (eraseRange img addr.toNat len) addr.toNat s.bytes) addr.toNat s.bytes.length = s.bytes :=
    readBytes_program_erased fun a ha ha' => eraseRange_in ha (by omega)
  rw [hbytes] at hread
  rw [hread, ofBytes_bytes]

/-- The copy is written inside its area, and has the header that was given. -/
theorem Areas.safe_rebuild (h : Areas d) {src dst : UInt32} (copy : dst = d.addrState1 ∨ dst = d.addrState2) (s : WlState) :
    Safe (InOwnArea d) (d.rebuild src dst s) (fun _ r' img' => r'.state = r.state ∧ stateAt dst img' = s)
      (fun _ _ => True) r img := by
  unfold WlDevice.rebuild
  apply safe_bind
  refine safe_eraseRange (.eraseState copy) ?_ trivial
  apply safe_bind
  refine safe_partitionWrite (.header copy s.bytes_length h.header_le) ?_ trivial
  refine safe_loop (fun _ (r' : WlRam) img' => r'.state = r.state ∧ stateAt dst img' = s) ?_
    ⟨rfl, stateAt_written h.header_le s⟩
  rintro i r' img' hi ⟨hstate, hheader⟩
  have hi32 : (UInt32.ofNat i).toNat = i := toNat_ofNat_of_lt (Nat.lt_trans hi (UInt32.toNat_lt _))
  have hlt : (UInt32.ofNat i).toNat < d.recordCount.toNat := by rw [hi32]; exact hi
  apply safe_bind
  refine safe_readTemp ?_ trivial
  intro r'' hsame
  apply safe_bind
  apply safe_getRam
  split_ifs
  · refine safe_writeTemp (fun bytes hlen => h.record_inOwnArea copy hlt hlen) ?_ trivial
    intro bytes
    refine ⟨hsame.trans hstate, ?_⟩
    rw [stateAt_program (by rw [h.recordAddr_toNat copy hlt]; omega)]
    exact hheader
  · exact safe_pure ⟨hsame.trans hstate, hheader⟩

/-- The records up to a position of the layout are written inside their copy. -/
theorem Areas.safe_writeRecords (h : Areas d) {addr : UInt32} (copy : addr = d.addrState1 ∨ addr = d.addrState2) {pos : Nat}
    (hpos : pos ≤ d.pages) (hr : r.state.Placed d) : Safe (InOwnArea d) (d.writeRecords addr pos)
      (fun _ r' _ => r'.state.Placed d) (fun r' _ => r'.state.Placed d) r img := by
  have hpages := h.pages_lt
  have hle := h.pages_le
  unfold WlDevice.writeRecords
  apply safe_bind
  apply safe_modifyRam
  refine safe_loop (fun _ (r' : WlRam) _ => r'.state.Placed d) ?_ hr
  intro i r' img' hi hr'
  have hi32 : (UInt32.ofNat i).toNat = i := toNat_ofNat_of_lt (by omega)
  apply safe_bind
  apply safe_modifyRam
  exact safe_writeTemp (fun bytes hlen => h.record_inOwnArea copy (by rw [hi32]; omega) hlen) (fun _ => hr') hr'

theorem safe_scanV1 {P : Op → Prop} {bound : Nat} (n i pos : Nat) (hpos : pos ≤ bound) (hi : i + n ≤ bound + 1)
    (hE : E r img) : Safe P (d.scanV1 i pos n) (fun found r' img' => found ≤ bound ∧ r' = r ∧ img' = img) E r img := by
  induction n generalizing i pos with
  | zero => exact safe_pure ⟨hpos, rfl, rfl⟩
  | succ n ih =>
      unfold WlDevice.scanV1
      apply safe_bind
      refine safe_partitionRead ?_ hE
      split_ifs
      · exact safe_pure ⟨by omega, rfl, rfl⟩
      · exact ih (i + 1) i (by omega) (by omega)

/-- The version update of a flash of this layout. -/
theorem Areas.safe_updateV1_V2 (h : Areas d) (rand : UInt32) (hmax : r.state.V1Ok → r.state.wlPartMaxSecPos.toNat = d.pages + 1) :
    Safe (InOwnArea d) (d.updateV1_V2 rand) (fun _ r' _ => r'.state.Placed d)
      (fun r' _ => r.state.V1Ok → r'.state.wlPartMaxSecPos.toNat = d.pages + 1) r img := by
  have hpages := h.pages_lt
  unfold WlDevice.updateV1_V2
  apply safe_bind
  refine h.safe_readState (.inr rfl) ?_
  apply safe_bind
  apply safe_getRam
  split_ifs with hv1
  · have hmax' := hmax ⟨hv1.1, hv1.2.2.2.1⟩
    apply safe_bind
    refine safe_post (safe_scanV1 _ 0 0 (Nat.zero_le d.pages) (by omega) fun _ => hmax') ?_
    rintro found r₁ img₁ ⟨hfound, rfl, rfl⟩
    have hfound' : (if found = r₁.state.wlPartMaxSecPos.toNat ∧ found ≠ 0 then found - 1 else found) ≤ d.pages := by
      split_ifs <;> omega
    generalize (if found = r₁.state.wlPartMaxSecPos.toNat ∧ found ≠ 0 then found - 1 else found) = pos at hfound' ⊢
    apply safe_bind
    apply safe_modifyRam
    apply safe_bind
    apply safe_getRam
    apply safe_bind
    refine safe_eraseRange (.eraseState (.inl rfl)) ?_ fun _ => hmax'
    apply safe_bind
    refine safe_partitionWrite (.header (.inl rfl) (WlState.bytes_length _) h.header_le) ?_ fun _ => hmax'
    apply safe_bind
    refine safe_mono (h.safe_writeRecords (.inl rfl) hfound' ⟨hmax', Nat.zero_le _⟩) (fun _ hop => hop) ?_
      fun _ _ hplaced _ => hplaced.maxPos
    intro _ r₂ img₂ hr₂
    apply safe_bind
    refine safe_eraseRange (.eraseState (.inr rfl)) ?_ fun _ => hr₂.maxPos
    apply safe_bind
    refine safe_partitionWrite (.header (.inr rfl) (WlState.bytes_length _) h.header_le) ?_ fun _ => hr₂.maxPos
    apply safe_bind
    refine safe_mono (h.safe_writeRecords (.inr rfl) hfound' hr₂) (fun _ hop => hop) ?_
      fun _ _ hplaced _ => hplaced.maxPos
    intro _ r₃ img₃ hr₃
    refine safe_modifyRam ⟨hr₃.maxPos, ?_⟩
    change (UInt32.ofNat pos).toNat ≤ d.pages
    rw [toNat_ofNat_of_lt (by omega)]
    exact hfound'
  · exact safe_fail hmax

/-- The update declines a header that is not one of version 1. -/
theorem Areas.updateV1_V2_declines (h : Areas d) (rand : UInt32) (hv1 : ¬r.state.V1Ok) :
    (d.updateV1_V2 rand r img).result = .error .fail := by
  have hram : (Prog.getRam : WlProg WlRam) r img = ⟨.ok r, r, []⟩ := rfl
  unfold WlDevice.updateV1_V2
  rw [bind_quiet (h.readState_eq (.inr rfl)), bind_quiet hram, if_neg fun hc => hv1 ⟨hc.1, hc.2.2.2.1⟩]
  rfl

theorem Areas.safe_updateOrFormat (h : Areas d) (rand : UInt32)
    (hmax : r.state.V1Ok → r.state.wlPartMaxSecPos.toNat = d.pages + 1) :
    Safe (InOwnArea d) (d.updateOrFormat rand) (fun _ r' _ => r'.state.wlPartMaxSecPos.toNat = d.pages + 1)
      (fun _ _ => True) r img := by
  have hv1 := @Areas.safe_updateV1_V2 d r img h rand hmax
  by_cases hfail : (d.updateV1_V2 rand r img).result = .error .fail
  · have hrun : d.updateOrFormat rand r img = ((d.updateV1_V2 rand).attempt >>= fun _ => d.initSections rand) r img := by
      unfold WlDevice.updateOrFormat
      rw [hfail]
      rfl
    refine safe_of_eq hrun (safe_bind ?_)
    refine safe_attempt (safe_mono hv1 (fun _ hop => hop) (fun _ r' img' _ => ?_) fun r' img' _ => ?_)
    all_goals exact safe_post (h.safe_initSections rand) fun _ _ _ hplaced => hplaced.maxPos
  · have hrun : d.updateOrFormat rand r img = (d.updateV1_V2 rand).attempt r img := by
      unfold WlDevice.updateOrFormat
      cases hres : (d.updateV1_V2 rand r img).result with
      | ok a => rfl
      | error e =>
          cases e with
          | fail => exact absurd hres hfail
          | noMem => rfl
          | invalidArg => rfl
          | invalidState => rfl
          | invalidSize => rfl
    refine safe_of_eq hrun (safe_attempt (safe_mono hv1 (fun _ hop => hop) (fun _ _ _ hplaced => hplaced.maxPos) ?_))
    intro r' img' hlater
    exact hlater (by_contra fun hnot => hfail (h.updateV1_V2_declines rand hnot))

/-- `init` on a flash of this layout writes inside the areas and finds a position of the layout. -/
theorem Areas.safe_init (h : Areas d) (rand : UInt32) (hown : Own d img) : Safe (InOwnArea d) (d.init rand)
    (fun _ r' _ => r'.state.Placed d) (fun _ _ => True) r img := by
  unfold WlDevice.init
  apply safe_bind
  apply safe_modifyRam
  apply safe_bind
  apply safe_attempt
  apply safe_bind
  refine h.safe_readState (.inl rfl) ?_
  apply safe_modifyRam
  apply safe_bind
  refine h.safe_readState (.inr rfl) ?_
  apply safe_bind
  apply safe_getRam
  dsimp only
  -- what the first two branches end with
  have hrecover : ∀ (r' : WlRam) (img' : Image), r'.state.wlPartMaxSecPos.toNat = d.pages + 1 →
      Safe (InOwnArea d) (d.recoverPos >>= fun _ => Prog.modifyRam fun r => { r with initialized := true })
        (fun _ r'' _ => r''.state.Placed d) (fun _ _ => True) r' img' := by
    intro r' img' hmax
    apply safe_bind
    refine safe_post (h.safe_recoverPos hmax) ?_
    intro _ r'' img'' hplaced
    exact safe_modifyRam hplaced
  -- and the last one
  have hformat : ∀ (r' : WlRam) (img' : Image), r'.state.Placed d →
      Safe (InOwnArea d) (do
        let r ← Prog.getRam
        if r.state.version ≠ d.cfg.version then d.initSections rand else pure ()
        Prog.modifyRam fun r => { r with initialized := true })
        (fun _ r'' _ => r''.state.Placed d) (fun _ _ => True) r' img' := by
    intro r' img' hplaced
    apply safe_bind
    apply safe_getRam
    split_ifs
    · apply safe_bind
      refine safe_post (h.safe_initSections rand) ?_
      intro _ r'' img'' hplaced'
      exact safe_modifyRam hplaced'
    · exact safe_modifyRam hplaced
  by_cases hboth : (stateAt d.addrState1 img).CrcOk ∧ (stateAt d.addrState2 img).CrcOk
  · rw [if_pos hboth]
    have hmax := (hown.v2 _ (.inl rfl) hboth.1).maxPos
    split_ifs
    · apply safe_bind
      refine safe_post (h.safe_initSections rand) ?_
      intro _ r' img' hplaced
      exact hrecover r' img' hplaced.maxPos
    · apply safe_bind
      refine safe_post (h.safe_rebuild (.inr rfl) _) ?_
      rintro _ r' img' ⟨hsame, -⟩
      refine hrecover r' img' ?_
      rw [hsame]
      exact hmax
    · exact hrecover _ img hmax
  rw [if_neg hboth]
  by_cases hneither : ¬(stateAt d.addrState1 img).CrcOk ∧ ¬(stateAt d.addrState2 img).CrcOk
  · rw [if_pos hneither]
    apply safe_bind
    refine safe_post (h.safe_updateOrFormat rand hown.v1) ?_
    intro _ r' img' hmax
    exact hrecover r' img' hmax
  rw [if_neg hneither]
  split_ifs with hfirst
  · apply safe_bind
    refine safe_post (h.safe_rebuild (.inr rfl) _) ?_
    rintro _ r' img' ⟨-, hheader⟩
    apply safe_bind
    refine h.safe_readState (.inr rfl) ?_
    apply safe_bind
    apply safe_modifyRam
    refine hformat _ img' ?_
    change (stateAt d.addrState2 img').Placed d
    rw [hheader]
    exact hown.v2 _ (.inl rfl) hfirst
  · have hsecond : (stateAt d.addrState2 img).CrcOk := not_not.mp fun hnot => hneither ⟨hfirst, hnot⟩
    have hplaced := hown.v2 _ (.inr rfl) hsecond
    apply safe_bind
    refine safe_post (h.safe_rebuild (.inl rfl) _) ?_
    rintro _ r' img' ⟨-, hheader⟩
    apply safe_bind
    refine h.safe_readState (.inl rfl) ?_
    rw [hheader]
    apply safe_bind
    apply safe_modifyRam
    refine hformat _ img' ⟨hplaced.maxPos, ?_⟩
    have hone : (1 : UInt32).toNat = 1 := rfl
    have hmax := hplaced.maxPos
    change ((stateAt d.addrState2 img).wlPartMaxSecPos - 1).toNat ≤ d.pages
    rw [toNat_sub_of_le (by rw [hone]; omega), hone]
    omega

/-- A flash without headers. -/
theorem Fresh.own (h : Fresh d img) : Own d img where
  v2 := by
    rintro addr (rfl | rfl) hok
    · exact absurd hok h.copy1
    · exact absurd hok h.copy2
  v1 := fun hv1 => absurd hv1.1 h.notV1

/-- The flash of a device in use. -/
theorem InUse.own (h : InUse d r img) : Own d img := by
  have hplaced : (r.state.hdr r.state.wlDummySecMoveCount).Placed d := ⟨h.mounted.running.inRange.maxPos, Nat.zero_le _⟩
  refine ⟨?_, fun _ => ?_⟩
  · rintro addr (rfl | rfl) -
    · rw [h.steady.header1]
      exact hplaced
    · rw [h.steady.header2]
      exact hplaced
  · rw [h.steady.header1]
    exact hplaced.maxPos

end Init

/-! ## Reached states -/

/-- The states after a successful `init` on a flash of this layout and any operations, each of them successful or not. -/
inductive Reached (d : WlDevice) : WlRam → Image → Prop
  | init {r : WlRam} {img : Image} (own : Own d img) (rand : UInt32) (done : (d.init rand r img).result = .ok ()) :
      Reached d (d.init rand r img).ram ((d.init rand).flash r img)
  | exec {r : WlRam} {img : Image} (h : Reached d r img) (op : WlOp) :
      Reached d (op.exec d r img).ram ((op.exec d).flash r img)

/-- What `init` and `updateWL` write is in its own area, and `calcAddr` stays in the data area. -/
structure StaysInside (d : WlDevice) : Prop where
  init : ∀ rand r img, Own d img → ∀ op ∈ (d.init rand r img).ops, InOwnArea d op
  updateWL : ∀ r img, Reached d r img → ∀ op ∈ (d.updateWL r img).ops, InOwnArea d op
  calcAddr : ∀ r img, Reached d r img → ∀ addr, (d.calcAddr r.state addr).toNat < d.flashSize.toNat + d.page

section Reached
variable {d : WlDevice} {r : WlRam} {img : Image} {P : Op → Prop} {E : WlRam → Image → Prop}

theorem safe_ready {Q : WlState → WlRam → Image → Prop} (hQ : Q r.state r img) (hE : E r img) :
    Safe P ready Q E r img := by
  unfold ready
  apply safe_bind
  apply safe_getRam
  split_ifs
  · exact safe_fail hE
  · exact safe_pure hQ

theorem safe_readChunks {s : WlState} {srcAddr : UInt32} (n i : Nat) (hE : E r img) :
    Safe P (d.readChunks s srcAddr i n) (fun _ r' img' => r' = r ∧ img' = img) E r img := by
  induction n generalizing i with
  | zero => exact safe_pure ⟨rfl, rfl⟩
  | succ n ih =>
      unfold WlDevice.readChunks
      apply safe_bind
      refine safe_partitionRead ?_ hE
      apply safe_bind
      refine safe_post (ih (i + 1)) ?_
      rintro rest _ _ ⟨rfl, rfl⟩
      exact safe_pure ⟨rfl, rfl⟩

/-- An operation leaves the dummy page at a position of the layout, also when it fails. -/
theorem Areas.safe_exec (h : Areas d) (hr : r.state.Placed d) (op : WlOp) : Safe (fun _ => True) (op.exec d)
    (fun _ r' _ => r'.state.Placed d) (fun r' _ => r'.state.Placed d) r img := by
  have hupdate : ∀ (r' : WlRam) (img' : Image), r'.state.Placed d → Safe (fun _ => True) d.updateWL
      (fun _ r'' _ => r''.state.Placed d) (fun r'' _ => r''.state.Placed d) r' img' := fun r' img' hr' =>
    safe_mono (h.safe_updateWL hr') (fun _ _ => trivial) (fun _ _ _ hQ => hQ) fun _ _ hE => hE
  cases op with
  | eraseSector sector =>
      apply safe_bind
      unfold WlDevice.eraseSector
      apply safe_bind
      refine safe_ready ?_ hr
      apply safe_bind
      refine safe_post (hupdate r img hr) ?_
      intro _ r' img' hr'
      apply safe_bind
      apply safe_getRam
      exact safe_eraseRange trivial (safe_pure hr') hr'
  | write destAddr src =>
      apply safe_bind
      unfold WlDevice.write
      apply safe_bind
      refine safe_ready ?_ hr
      apply safe_bind
      refine safe_post (safe_loop (fun _ (r' : WlRam) _ => r'.state.Placed d) ?_ hr) ?_
      · exact fun i r' img' _ hr' => safe_partitionWrite trivial hr' hr'
      · intro _ r' img' hr'
        exact safe_partitionWrite trivial (safe_pure hr') hr'
  | read srcAddr size =>
      show Safe (fun _ => True) (d.read srcAddr size) _ _ r img
      unfold WlDevice.read
      apply safe_bind
      refine safe_ready ?_ hr
      apply safe_bind
      refine safe_post (safe_readChunks _ 0 hr) ?_
      rintro bytes r' img' ⟨rfl, rfl⟩
      apply safe_bind
      exact safe_partitionRead (safe_pure hr) hr
  | flush =>
      apply safe_bind
      unfold WlDevice.flush
      apply safe_bind
      refine safe_post (safe_retryMove hr) ?_
      intro _ r' img' hr'
      exact safe_post (hupdate r' img' hr') fun _ _ _ hr'' => safe_pure hr''

theorem Areas.reached_placed (h : Areas d) (hreached : Reached d r img) : r.state.Placed d := by
  induction hreached with
  | init own rand done => exact (h.safe_init rand own).2.1 () done
  | @exec r img _ op ih =>
      have hsafe := @Areas.safe_exec d r img h ih op
      cases hres : (op.exec d r img).result with
      | ok out => exact hsafe.2.1 out hres
      | error e => exact hsafe.2.2 e hres

/-- Whatever the position and the move count, `calcAddr` stays in the data area. -/
theorem Areas.calcAddr_lt (h : Areas d) (s : WlState) (addr : UInt32) :
    (d.calcAddr s addr).toNat < d.flashSize.toNat + d.page := by
  have hdata := h.data_le
  have hstate := d.addrState1.toNat_lt
  have hbytes := h.dataBytes
  have hpage := h.page_pos
  have hpos : 0 < d.flashSize.toNat := by
    rw [h.flashSize]
    exact Nat.mul_pos h.pages_pos hpage
  have hpage32 : d.cfg.wlPageSize.toNat = d.page := rfl
  have hmod : ((d.flashSize - s.wlDummySecMoveCount * d.cfg.wlPageSize + addr) % d.flashSize).toNat < d.flashSize.toNat := by
    rw [UInt32.toNat_mod]
    exact Nat.mod_lt _ hpos
  unfold WlDevice.calcAddr
  dsimp only
  split_ifs
  · omega
  · rw [toNat_add_of_lt (by omega)]
    omega

theorem Areas.staysInside (h : Areas d) : StaysInside d where
  init := fun rand _ _ hown => (h.safe_init rand hown).1
  updateWL := fun _ _ hreached => (h.safe_updateWL (h.reached_placed hreached)).1
  calcAddr := fun r _ _ addr => h.calcAddr_lt r.state addr

end Reached

/-- The areas of an accepted configuration are apart and in place, and what the driver does from any reached state stays
in them, exactly when the areas and a page fit into the region, and the region into the partition. -/
theorem footprint_iff {cfg : WlConfig} {p : Partition} {mallocOk : Bool} {d : WlDevice} {r : WlRam}
    (h : config cfg p mallocOk = .ok (d, r)) : LaidOut d ∧ StaysInside d ↔ Roomy cfg p :=
  ⟨fun hinside => hinside.1.roomy h, fun hr => ⟨(config_areas hr h).laidOut, (config_areas hr h).staysInside⟩⟩

theorem footprint_iff_mountConfig : ∃ d r, config mountConfig smallPartition true = .ok (d, r) ∧
    LaidOut d ∧ StaysInside d := by
  obtain ⟨d, r, hcfg⟩ : ∃ d r, config mountConfig smallPartition true = .ok (d, r) := ⟨_, _, rfl⟩
  exact ⟨d, r, hcfg, (footprint_iff hcfg).mpr aligned_mountConfig.roomy⟩

/-- The number of pages wraps: a partition of 64 KiB is taken for a flash of 1 GiB. -/
theorem layout_outside_partition : ∃ d r, config wrappedPage smallPartition true = .ok (d, r) ∧
    d.flashSize = 0x40000000 ∧ ¬(LaidOut d ∧ StaysInside d) := by
  refine ⟨_, _, rfl, by decide +kernel, fun h => ?_⟩
  exact absurd (@LaidOut.roomy wrappedPage smallPartition true _ _ rfl h.1).fits (by decide)

end EspIdf.WearLevelling
