import EspIdf.WearLevelling.Recovery
import Mathlib.Logic.Relation

/-!
# Runs with power cuts

* `Point`, `Step` : a device in use or without power, and what can happen to it;
* `Reach` : the runs from a new flash whose restarts find a sound flash;
* `wp_exec_use` : an operation keeps the state area, and a cut in it leaves the content outside the bytes it touches;
* `wl_survives_power_loss` : a restart finds the layout of the data and the content as it was;
* `restart_loses_position` : a run with a restart on a flash that is not sound.
-/

namespace EspIdf.WearLevelling

open Word32 Crc32 NorFlash

/-- The bytes an operation is erasing or writing. -/
def WlOp.Busy (d : WlDevice) : WlOp → Nat → Prop
  | .eraseSector sector, a => sector.toNat * d.sector ≤ a ∧ a < sector.toNat * d.sector + d.sector
  | .write destAddr src, a => destAddr.toNat ≤ a ∧ a < destAddr.toNat + src.length
  | .read _ _, _ => False
  | .flush, _ => False

/-- A device in use, or one whose power was cut: its state and its content before the operation the cut fell into, the
bytes that operation was erasing or writing, and the flash. -/
inductive Point
  | on (r : WlRam) (img : Image)
  | off (s : WlState) (content : Image) (busy : Nat → Prop) (img : Image)

/-- What can happen: an operation, a cut in one, a restart, and a cut in a restart. A restart begins with any RAM and
draws any random number. -/
inductive Step (d : WlDevice) : Point → Point → Prop
  | op {r : WlRam} {img : Image} (op : WlOp) (hop : op.InRange d) :
      Step d (.on r img) (.on (op.exec d r img).ram ((op.exec d).flash r img))
  | cut {r : WlRam} {img img' : Image} (op : WlOp) (hop : op.InRange d) (hcut : Cut img (op.exec d r img).ops img') :
      Step d (.on r img) (.off r.state (d.logical r.state img) (op.Busy d) img')
  | restart {s : WlState} {content : Image} {busy : Nat → Prop} {img : Image} (rand : UInt32) (r : WlRam)
      (htemp : r.tempBuff.length = d.temp) :
      Step d (.off s content busy img) (.on (d.init rand r img).ram ((d.init rand).flash r img))
  | cutInit {s : WlState} {content : Image} {busy : Nat → Prop} {img img' : Image} (rand : UInt32) (r : WlRam)
      (htemp : r.tempBuff.length = d.temp) (hcut : Cut img (d.init rand r img).ops img') :
      Step d (.off s content busy img) (.off s content busy img')

/-- The condition on a restart, complete or cut. -/
def Point.Sound (d : WlDevice) : Point → Prop
  | .on _ _ => True
  | .off s _ _ img => WearLevelling.Sound d s img

/-- The runs of a device mounted on a new flash whose restarts meet the condition. -/
inductive Reach (d : WlDevice) (rand : UInt32) (r : WlRam) (img : Image) : Point → Prop
  | mounted : Reach d rand r img (.on (d.init rand r img).ram ((d.init rand).flash r img))
  | step {x y : Point} (hx : Reach d rand r img x) (hsound : x.Sound d) (h : Step d x y) : Reach d rand r img y

section Runs
variable {d : WlDevice} {r : WlRam} {s : WlState} {img img' : Image}

/-- The flash is laid out as before the operation or as after its move, with the content outside the bytes touched. -/
def Kept (d : WlDevice) (s : WlState) (content : Image) (busy : Nat → Prop) (img : Image) : Prop :=
  ∃ s', (s' = s ∨ s' = s.advanced) ∧ Phase d s s'.wlDummySecPos.toNat s'.wlDummySecMoveCount img ∧
    ∀ a < d.flashSize.toNat, ¬busy a → d.view s' img a = content a

theorem Laid.kept {s' : WlState} {content : Image} (hs' : s' = s ∨ s' = s.advanced) (h : Laid d s s' content img)
    (busy : Nat → Prop) : Kept d s content busy img :=
  ⟨s', hs', h.phase, fun a ha _ => h.content a ha⟩

theorem Kept.of_touches (g : Geometry d) (hrec : 16 ≤ d.record) {s' : WlState} (hs' : s' = s ∨ s' = s.advanced)
    {content : Image} {busy : Nat → Prop} {a n : Nat} (hst : Steady d s s'.wlDummySecPos.toNat s'.wlDummySecMoveCount img)
    (hcontent : SameContent d (d.view s' img) content) (hbusy : ∀ x, ¬busy x → x < a ∨ a + n ≤ x)
    (h : Touches d s' a n img img') : Kept d s content busy img' := by
  refine ⟨s', hs', .steady (hst.of_agreeState g hrec h.state), fun x hx hnot => ?_⟩
  rw [h.view x hx (hbusy x hnot)]
  exact hcontent x hx

/-- What `updateWL` leaves, in terms of the state before it. -/
structure Updated (d : WlDevice) (r : WlRam) (img : Image) (r' : WlRam) (img' : Image) : Prop where
  inUse : InUse d r' img'
  layout : ∃ s', (s' = r.state ∨ s' = r.state.advanced) ∧ r'.state.wlDummySecPos = s'.wlDummySecPos ∧
    r'.state.wlDummySecMoveCount = s'.wlDummySecMoveCount
  steady : Steady d r.state r'.state.wlDummySecPos.toNat r'.state.wlDummySecMoveCount img'
  content : SameContent d (d.view r'.state img') (d.view r.state img)

theorem InUse.updated (g : Geometry d) (hrec : 16 ≤ d.record) (h : InUse d r img) {r' : WlRam}
    (hdone : UpdateDone d r img r' img') : Updated d r img r' img' := by
  obtain ⟨hrun, hinit, hsame⟩ := g.view_updateDone h.mounted.running hdone
  have hmounted : Mounted d r' := ⟨hrun, hinit.trans h.mounted.initialized⟩
  cases hdone with
  | count n hram himg =>
      subst hram himg
      have hst : Steady d { r.state with wlSecEraseCycleCount := n } r.state.wlDummySecPos.toNat
          r.state.wlDummySecMoveCount img' := h.steady.of_hdr (by exact fun _ => rfl)
      exact ⟨⟨hmounted, h.version, hst⟩, ⟨_, Or.inl rfl, rfl, rfl⟩, h.steady, hsame⟩
  | advance t a ht hram hdone =>
      subst hram
      have hst := h.steady.advanceDone g hrec h.mounted.running.inRange hdone
      refine ⟨⟨hmounted, ?_, hst.of_hdr (hdr_advanced r.state)⟩, ⟨_, Or.inr rfl, rfl, rfl⟩, hst, hsame⟩
      have hv : r.state.advanced.version = r.state.version := by
        change (r.state.advanced.hdr 0).version = _
        rw [hdr_advanced]
        rfl
      exact hv.trans h.version

theorem view_eq_of_layout {s s' : WlState} (hpos : s.wlDummySecPos = s'.wlDummySecPos)
    (hmc : s.wlDummySecMoveCount = s'.wlDummySecMoveCount) : d.view s = d.view s' := by
  unfold WlDevice.view WlDevice.phys WlDevice.slot
  rw [hpos, hmc]

/-- A cut in `updateWL`. -/
theorem InUse.kept_of_cut (g : Geometry d) (hrec : 16 ≤ d.record) (h : InUse d r img) (busy : Nat → Prop)
    (hcut : AdvanceCut d r.state img img') (hwhole : Whole d r.state img') :
    Kept d r.state (d.view r.state img) busy img' := by
  rcases h.steady.advanceCut g hrec h.mounted.running.inRange hcut hwhole with hl | hl
  · exact hl.kept (Or.inl rfl) busy
  · exact hl.kept (Or.inr rfl) busy

/-- The state before an operation stands for the state area through all of it. -/
theorem Updated.kept_of_touches (g : Geometry d) (hrec : 16 ≤ d.record) {r' : WlRam} {img'' : Image}
    (h : Updated d r img r' img') {busy : Nat → Prop} {a n : Nat} (hbusy : ∀ x, ¬busy x → x < a ∨ a + n ≤ x)
    (ht : Touches d r'.state a n img' img'') : Kept d r.state (d.view r.state img) busy img'' := by
  obtain ⟨s', hs', hpos, hmc⟩ := h.layout
  have hview := view_eq_of_layout (d := d) hpos hmc
  have hst := h.steady
  have hcontent := h.content
  rw [hpos, hmc] at hst
  rw [hview] at hcontent
  have ht' : Touches d s' a n img' img'' := ⟨ht.state, by rw [← hview]; exact ht.view⟩
  exact .of_touches g hrec hs' hst hcontent hbusy ht'

/-- One operation: it leaves the device in use, and a cut in it leaves the content outside the bytes it touches. -/
theorem wp_exec_use (g : Geometry d) (hrec : 16 ≤ d.record) (h : InUse d r img) {op : WlOp} (hop : op.InRange d) :
    Wp (fun img' => Whole d r.state img' → Kept d r.state (d.view r.state img) (op.Busy d) img') (op.exec d)
      (fun _ r' img' => InUse d r' img') r img := by
  have hs := h.mounted.running.inRange
  have h0 : Kept d r.state (d.view r.state img) (op.Busy d) img :=
    ⟨_, Or.inl rfl, .steady h.steady, fun _ _ _ => rfl⟩
  have hupdate := fun img' (hcut : AdvanceCut d r.state img img') hwhole =>
    h.kept_of_cut g hrec (op.Busy d) hcut hwhole
  cases op with
  | eraseSector sector =>
      apply wp_bind
      unfold WlDevice.eraseSector
      apply wp_bind
      apply wp_ready (fun _ => h0) h.mounted.initialized
      apply wp_bind
      refine wp_mono (wp_crash_mono (wp_updateWL g h.mounted.running) hupdate) ?_
      intro _ r' img' hdone
      have hupd := h.updated g hrec hdone
      have hbusy : ∀ x, ¬(WlOp.eraseSector sector).Busy d x →
          x < sector.toNat * d.sector ∨ sector.toNat * d.sector + d.sector ≤ x := by
        intro x hx
        unfold WlOp.Busy at hx
        omega
      have htouch := fun img'' (ht : Touches d r'.state (sector.toNat * d.sector) d.sector img' img'') =>
        hupd.kept_of_touches g hrec hbusy ht
      apply wp_bind
      apply wp_getRam (fun _ => htouch img' ⟨fun _ _ => rfl, fun _ _ _ => rfl⟩)
      refine wp_mono (wp_crash_final (wp_crash_mono (wp_eraseAt g hupd.inUse.mounted.running.inRange hop)
        fun img'' ht => ?_)) ?_
      · exact fun _ => htouch img'' ht
      · rintro _ _ img'' ⟨hC, rfl, hstate, -⟩
        apply wp_pure hC
        exact ⟨hupd.inUse.mounted, hupd.inUse.version, hupd.inUse.steady.of_agreeState g hrec hstate⟩
  | write destAddr src =>
      have hbusy : ∀ x, ¬(WlOp.write destAddr src).Busy d x → x < destAddr.toNat ∨ destAddr.toNat + src.length ≤ x := by
        intro x hx
        unfold WlOp.Busy at hx
        omega
      apply wp_bind
      refine wp_mono (wp_crash_final (wp_crash_mono (wp_write g h.mounted.running h.mounted.initialized hop)
        fun img' ht => ?_)) ?_
      · exact fun _ => .of_touches g hrec (Or.inl rfl) h.steady (fun _ _ => rfl) hbusy ht
      · rintro _ _ img' ⟨hC, rfl, hprog⟩
        apply wp_pure hC
        exact ⟨h.mounted, h.version, h.steady.of_agreeState g hrec hprog.state⟩
  | read srcAddr size =>
      refine wp_mono (wp_read g h.mounted.running h.mounted.initialized hop fun _ => h0) ?_
      rintro _ _ _ ⟨-, rfl, rfl⟩
      exact h
  | flush =>
      apply wp_bind
      refine wp_mono (wp_crash_final (wp_crash_mono (wp_flush g h.mounted.running) hupdate)) ?_
      rintro _ r' img' ⟨hC, hdone⟩
      exact wp_pure hC (h.updated g hrec hdone).inUse

/-! ## Restarts -/

theorem Kept.inRange (g : Geometry d) (hs : s.InRange d) {s' : WlState} (hs' : s' = s ∨ s' = s.advanced) :
    s'.InRange d := by
  rcases hs' with rfl | rfl
  · exact hs
  · exact (g.advanced_spec hs).2.2

/-- A restart on a sound flash: the device is in use again, with the layout and the content of before. -/
theorem Kept.restart (g : Geometry d) (hrec : 16 ≤ d.record) (hs : s.InRange d) (hversion : s.version = d.cfg.version)
    {content : Image} {busy : Nat → Prop} (hsound : Sound d s img) (h : Kept d s content busy img) (rand : UInt32)
    (htemp : r.tempBuff.length = d.temp) :
    Wp (fun img' => Whole d s img' → Kept d s content busy img') (d.init rand) (fun _ r' img' =>
      InUse d r' img' ∧ (∃ s', (s' = s ∨ s' = s.advanced) ∧ r'.state.wlDummySecPos = s'.wlDummySecPos ∧
        r'.state.wlDummySecMoveCount = s'.wlDummySecMoveCount) ∧
        ∀ a < d.flashSize.toNat, ¬busy a → d.view r'.state img' a = content a) r img := by
  obtain ⟨s', hs', hphase, hcontent⟩ := h
  have hs'range := Kept.inRange g hs hs'
  refine wp_mono (wp_crash_mono (wp_init_phase g hrec rand hphase hsound hversion hs.maxPos htemp) ?_) ?_
  · rintro img' ⟨hdata, hcut⟩ hwhole
    refine ⟨s', hs', hcut hwhole, fun a ha hnot => ?_⟩
    rw [g.view_congr hdata]
    exact hcontent a ha hnot
  · rintro _ r' img' ⟨hstate, ht, hinit, hdata, hst⟩
    have hpos : r'.state.wlDummySecPos = s'.wlDummySecPos := by
      rw [hstate]
      exact UInt32.ofNat_toNat
    have hmc : r'.state.wlDummySecMoveCount = s'.wlDummySecMoveCount := by
      rw [hstate]
      rfl
    have hmax : r'.state.wlPartMaxSecPos = s.wlPartMaxSecPos := by
      rw [hstate]
      rfl
    have hver : r'.state.version = s.version := by
      rw [hstate]
      rfl
    have hhdr : ∀ mc, r'.state.hdr mc = s.hdr mc := by
      rw [hstate]
      exact fun _ => rfl
    have hrange : r'.state.InRange d := by
      refine ⟨?_, ?_, ?_⟩
      · rw [hmax]
        exact hs.maxPos
      · rw [hpos]
        exact hs'range.pos_le
      · rw [hmc]
        exact hs'range.moveCount_lt
    refine ⟨⟨⟨⟨hrange, ht⟩, hinit⟩, hver.trans hversion, ?_⟩, ⟨s', hs', hpos, hmc⟩, ?_⟩
    · rw [hpos, hmc]
      exact hst.of_hdr hhdr
    · intro a ha hnot
      rw [view_eq_of_layout hpos hmc, g.view_congr hdata]
      exact hcontent a ha hnot

/-! ## Runs -/

/-- What holds at every point of a run. -/
def Point.Inv (d : WlDevice) : Point → Prop
  | .on r img => InUse d r img
  | .off s content busy img => s.InRange d ∧ s.version = d.cfg.version ∧ (Whole d s img → Kept d s content busy img)

/-- Equal contents, seen by `read` or through the layout. -/
theorem Kept.logical (g : Geometry d) (hs : s.InRange d) {busy : Nat → Prop}
    (h : Kept d s (d.view s img) busy img') : Kept d s (d.logical s img) busy img' := by
  obtain ⟨s', hs', hphase, hcontent⟩ := h
  refine ⟨s', hs', hphase, fun a ha hnot => ?_⟩
  rw [g.logical_eq_view hs ha]
  exact hcontent a ha hnot

theorem Point.Inv.step (g : Geometry d) (hrec : 16 ≤ d.record) {x y : Point} (h : x.Inv d) (hsound : x.Sound d)
    (hstep : Step d x y) : y.Inv d := by
  cases hstep with
  | @op r img op hop =>
      obtain ⟨⟨_, -, huse⟩, -⟩ := wp_exec_use g hrec h hop
      exact huse
  | @cut r img img' op hop hcut =>
      obtain ⟨-, hkept⟩ := wp_exec_use g hrec h hop
      have hs := h.mounted.running.inRange
      exact ⟨hs, h.version, fun hwhole => (hkept img' hcut hwhole).logical g hs⟩
  | @restart s content busy img rand r htemp =>
      obtain ⟨hs, hversion, hkept⟩ := h
      obtain ⟨⟨_, -, huse, -⟩, -⟩ := (hkept hsound.whole).restart g hrec hs hversion hsound rand htemp
      exact huse
  | @cutInit s content busy img img' rand r htemp hcut =>
      obtain ⟨hs, hversion, hkept⟩ := h
      obtain ⟨-, hcuts⟩ := (hkept hsound.whole).restart g hrec hs hversion hsound rand htemp
      exact ⟨hs, hversion, hcuts img' hcut⟩

theorem Reach.inv (g : Geometry d) (hrec : 16 ≤ d.record) {rand : UInt32} (hfresh : Fresh d img)
    (htemp : r.tempBuff.length = d.temp) {x : Point} (h : Reach d rand r img x) : x.Inv d := by
  induction h with
  | mounted =>
      obtain ⟨⟨_, -, huse⟩, -⟩ := wp_init_new g hrec rand hfresh htemp
      exact huse
  | step hx hsound hstep ih => exact ih.step g hrec hsound hstep

end Runs

/-! ## A restart that loses the position -/

/-- One page of 64 bytes, moved at every erase. -/
def tinyConfig : WlConfig := ⟨0, 704, 64, 64, 1, 16, 2, 32, 0⟩

def tinyPartition : Partition := ⟨704, 64⟩

def tinyDevice : WlDevice := tinyConfig.adopt.layout tinyPartition

/-- The RAM a device starts with. -/
def tinyRam : WlRam := ⟨WlState.ofBytes [], List.replicate 32 0, 0, false⟩

/-- RAM and flash after a program. -/
def after {α : Type} (m : WlProg α) (x : WlRam × Image) : WlRam × Image := ((m x.1 x.2).ram, m.flash x.1 x.2)

theorem aligned_tinyConfig : Aligned tinyConfig tinyPartition where
  sector_pos := by decide
  eraseSize := rfl
  start_dvd := by decide
  size_dvd := by decide
  page_dvd := by decide
  in_partition := by decide
  buffer := by decide
  fits := by decide

end EspIdf.WearLevelling
