import EspIdf.WearLevelling.Access

/-!
# Mounting a new flash

* `Fresh d img` : no header on the flash passes its CRC, and version 1 did not format it;
* `updateV1_V2_fresh` : the version update declines;
* `wp_initSections` : both copies of the state get the fresh header, and nothing below them changes;
* `wp_recoverPos` : the recovered position is one the device can be in;
* `wp_init_fresh` : mounting succeeds and leaves the device running.
-/

namespace EspIdf.WearLevelling

open Word32 Crc32 NorFlash

/-- A flash that `init` formats. -/
structure Fresh (d : WlDevice) (img : Image) : Prop where
  copy1 : ¬(stateAt d.addrState1 img).CrcOk
  copy2 : ¬(stateAt d.addrState2 img).CrcOk
  notV1 : (stateAt d.addrState1 img).crcV1 ≠ (stateAt d.addrState1 img).wlDeviceId

section Mount
variable {d : WlDevice} {r : WlRam} {img : Image} {C : Image → Prop}

theorem partition_read_eq {p : Partition} {offset size : UInt32} (h : offset.toNat + size.toNat ≤ p.size.toNat) :
    p.read offset size r img = ⟨.ok (readBytes img offset.toNat size.toNat), r, []⟩ := by
  have hoff : ¬p.size < offset := by
    rw [UInt32.lt_iff_toNat_lt]
    omega
  have hsize : ¬p.size - offset < size := by
    rw [UInt32.lt_iff_toNat_lt, toNat_sub_of_le (by omega)]
    omega
  unfold Partition.read Partition.inBounds
  rw [if_neg hoff, if_neg hsize]
  rfl

theorem Geometry.readState_eq (g : Geometry d) {addr : UInt32} (hc : StateCopy d addr) :
    d.readState addr r img = ⟨.ok (stateAt addr img), r, []⟩ := by
  have hle := hc.le
  have hhead := g.header_le
  have h64 : stateHeader.toNat = 64 := rfl
  unfold WlDevice.readState
  rw [bind_quiet (partition_read_eq (by rw [h64]; omega))]
  rfl

/-- On a fresh flash the version update declines with `ESP_FAIL`. -/
theorem Geometry.updateV1_V2_fresh (g : Geometry d) (rand : UInt32) (hr : r.state.crcV1 ≠ r.state.wlDeviceId) :
    d.updateV1_V2 rand r img = ⟨.error .fail, r, []⟩ := by
  have hram : (Prog.getRam : WlProg WlRam) r img = ⟨.ok r, r, []⟩ := rfl
  unfold WlDevice.updateV1_V2
  rw [bind_quiet (g.readState_eq g.copy2), bind_quiet hram, if_neg (fun h => hr h.1)]
  rfl

/-- The flash after a format. -/
def WlDevice.formatted (d : WlDevice) (s : WlState) (img : Image) : Image :=
  program (eraseRange (rewriteCopy d d.addrState2 s (rewriteCopy d d.addrState1 s img)) d.addrCfg.toNat
    d.cfgSize.toNat) d.addrCfg.toNat d.cfg.bytes

theorem WlConfig.bytes_length (c : WlConfig) : c.bytes.length = 48 := by
  unfold WlConfig.bytes
  rw [flatMap_leBytes_length]
  rfl

theorem Geometry.addrCfg_dvd (g : Geometry d) : d.sector ∣ d.addrCfg.toNat := by
  rw [g.cfg_eq]
  exact Nat.dvd_add g.copy2.dvd g.stateSize_dvd

theorem wp_initSections (g : Geometry d) (rand : UInt32) :
    Wp (fun _ => True) (d.initSections rand) (fun _ r' img' =>
      r' = { r with state := d.freshState rand r.state } ∧
        img' = d.formatted (d.freshState rand r.state) img) r img := by
  have hend := g.end_le
  have hcfg := g.cfgSize_ge
  unfold WlDevice.initSections
  apply wp_bind
  apply wp_setState trivial
  apply wp_bind
  apply wp_getRam trivial
  apply wp_rewriteCopy g g.copy1 fun _ _ => trivial
  apply wp_rewriteCopy g g.copy2 fun _ _ => trivial
  apply wp_bind
  apply wp_partitionErase hend (by rw [g.eraseSize]; exact g.addrCfg_dvd) (by rw [g.eraseSize]; exact g.cfgSize_dvd)
  · exact fun _ _ => trivial
  · apply wp_partitionWrite (by rw [WlConfig.bytes_length]; omega)
    · exact fun _ => trivial
    · exact ⟨rfl, rfl⟩

theorem freshState_inRange (g : Geometry d) (rand : UInt32) (s : WlState) : (d.freshState rand s).InRange d := by
  have hlt := g.pages_lt
  have hpos := g.pages_pos
  have hdiv : (d.flashSize / d.cfg.wlPageSize).toNat = d.pages := UInt32.toNat_div _ _
  have h1 : (1 : UInt32).toNat = 1 := rfl
  refine ⟨?_, Nat.zero_le _, hpos⟩
  change (1 + d.flashSize / d.cfg.wlPageSize).toNat = _
  rw [toNat_add_of_lt (by rw [hdiv, h1]; omega), hdiv, h1, Nat.add_comm]

/-- The scan for the position stops at `N` or before. -/
theorem wp_recoverPosFrom (g : Geometry d) (hC : C img) (N : Nat) (hN : N < d.recordCount.toNat) (n i position : Nat)
    (hpos : position ≤ N) (hi : i + n ≤ N + 1) (htemp : r.tempBuff.length = d.temp) :
    Wp C (d.recoverPosFrom i position n) (fun x r' img' =>
      x ≤ N ∧ (∃ t, t.length = d.temp ∧ r' = { r with tempBuff := t }) ∧ img' = img) r img := by
  induction n generalizing i position r with
  | zero => exact wp_pure hC ⟨hpos, ⟨_, htemp, rfl⟩, rfl⟩
  | succ n ih =>
      have haddr := g.recordAddr_toNat g.copy1 (show i < d.recordCount.toNat by omega)
      have hend := g.record_end (show i < d.recordCount.toNat by omega)
      have hle := g.copy1.le
      have hrec := g.record_le
      have hr : d.cfg.wlPosUpdateRecordSize.toNat = d.record := rfl
      unfold WlDevice.recoverPosFrom
      apply wp_bind
      apply wp_readTemp hC (by rw [haddr, hr]; omega)
      apply wp_bind
      apply wp_getRam hC
      have hlen : ∀ bytes : List UInt8, bytes.length = d.record → (intoTemp bytes r).tempBuff.length = d.temp := by
        intro bytes hb
        rw [intoTemp_length (by omega), htemp]
      split
      · refine wp_mono (ih (i + 1) i (by omega) (by omega) (hlen _ (readBytes_length _ _ _))) ?_
        rintro x _ _ ⟨hx, ⟨t, ht, rfl⟩, rfl⟩
        exact ⟨hx, ⟨t, ht, rfl⟩, rfl⟩
      · exact wp_pure hC ⟨by omega, ⟨_, hlen _ (readBytes_length _ _ _), rfl⟩, rfl⟩

/-- `recoverPos` finds a position the device can be in. -/
theorem wp_recoverPos (g : Geometry d) (hC : C img) (hr : Running d r) :
    Wp C d.recoverPos (fun _ r' img' => Running d r' ∧ img' = img) r img := by
  have hmax := hr.inRange.maxPos
  have hmc := hr.inRange.moveCount_lt
  have hlt := g.pages_lt
  have hcount := g.pages_le
  unfold WlDevice.recoverPos
  apply wp_bind
  apply wp_getRam hC
  apply wp_bind
  refine wp_mono (wp_recoverPosFrom g hC d.pages (by omega) _ 0 0 (by omega) (by omega) hr.tempLength) ?_
  rintro x _ _ ⟨hx, ⟨t, ht, rfl⟩, rfl⟩
  have hx32 : (UInt32.ofNat x).toNat = x := toNat_ofNat_of_lt (by omega)
  apply wp_bind
  apply wp_setState hC
  apply wp_setState hC
  refine ⟨⟨?_, ht⟩, rfl⟩
  rw [if_neg]
  · exact ⟨hmax, by rw [hx32]; exact hx, hmc⟩
  · rintro ⟨e, -⟩
    have e' : (UInt32.ofNat x).toNat = r.state.wlPartMaxSecPos.toNat := congrArg UInt32.toNat e
    omega

theorem updateOrFormat_fresh (g : Geometry d) (rand : UInt32) (hr : r.state.crcV1 ≠ r.state.wlDeviceId) :
    d.updateOrFormat rand r img = d.initSections rand r img := by
  have hv1 : d.updateV1_V2 rand r img = _ := g.updateV1_V2_fresh rand hr
  have hattempt : (d.updateV1_V2 rand).attempt r img = ⟨.ok (), r, []⟩ := by
    unfold Prog.attempt
    rw [hv1]
  unfold WlDevice.updateOrFormat
  rw [hv1]
  exact bind_quiet hattempt

/-- On a fresh flash `init` formats it and looks for the position. -/
theorem wp_init_format (g : Geometry d) (rand : UInt32) (hfresh : Fresh d img) {Q : Unit → WlRam → Image → Prop}
    (hQ : ∀ s : WlState, Wp (fun _ => True) d.recoverPos (fun _ r' img' => Q () { r' with initialized := true } img')
      { r with state := d.freshState rand s, initialized := false } (d.formatted (d.freshState rand s) img)) :
    Wp (fun _ => True) (d.init rand) Q r img := by
  have hle1 := g.copy1.le
  have hle2 := g.copy2.le
  have hhead := g.header_le
  have h64 : stateHeader.toNat = 64 := rfl
  unfold WlDevice.init
  apply wp_bind
  apply wp_modifyRam trivial
  apply wp_bind
  apply wp_attempt
  apply wp_bind
  apply wp_readState trivial (by omega)
  apply wp_setState trivial
  apply wp_bind
  apply wp_readState trivial (by omega)
  apply wp_bind
  apply wp_getRam trivial
  dsimp only
  rw [if_neg fun h => hfresh.copy1 h.1, if_pos ⟨hfresh.copy1, hfresh.copy2⟩]
  apply wp_bind
  refine wp_of_eq (updateOrFormat_fresh g rand (by exact hfresh.notV1)) ?_
  refine wp_mono (wp_initSections g rand) ?_
  rintro _ _ img' ⟨rfl, rfl⟩
  apply wp_bind
  refine wp_mono (hQ _) ?_
  intro _ r' img' h
  exact wp_modifyRam trivial h

/-- Mounting a fresh flash succeeds and leaves the device running. -/
theorem wp_init_fresh (g : Geometry d) (rand : UInt32) (hfresh : Fresh d img) (htemp : r.tempBuff.length = d.temp) :
    Wp (fun _ => True) (d.init rand) (fun _ r' _ => Running d r' ∧ r'.initialized = true) r img := by
  apply wp_init_format g rand hfresh
  intro s
  refine wp_mono (wp_recoverPos g trivial ⟨freshState_inRange g rand s, htemp⟩) ?_
  rintro _ r' _ ⟨hrun, rfl⟩
  exact ⟨⟨hrun.inRange, hrun.tempLength⟩, rfl⟩

end Mount

end EspIdf.WearLevelling
