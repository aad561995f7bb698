import EspIdf.WearLevelling.Mount

/-!
# The device behaves like a plain flash

* `WlOp` : the operations of the interface, run by the driver (`exec`) and by a plain flash (`plain`);
* `view_updateDone` : `updateWL` does not change the logical content;
* `wp_exec`, `wp_runOps` : one operation, and any sequence of them, simulate the plain flash;
* `wl_transparent` : a mounted device returns what a plain flash of `get_flash_size()` bytes returns;
* `config_accepts_misfits` : configurations `config` accepts whose devices do not behave so.
-/

namespace EspIdf.WearLevelling

open Word32 Crc32 NorFlash

/-- The operations of the interface. -/
inductive WlOp
  | eraseSector (sector : UInt32)
  | write (destAddr : UInt32) (src : List UInt8)
  | read (srcAddr size : UInt32)
  | flush

namespace WlOp

/-- The driver's run of an operation, with the bytes it reads. -/
def exec (d : WlDevice) : WlOp → WlProg (List UInt8)
  | eraseSector sector => do d.eraseSector sector; pure []
  | write destAddr src => do d.write destAddr src; pure []
  | read srcAddr size => d.read srcAddr size
  | flush => do d.flush; pure []

/-- The same operation on a plain flash. -/
def plain (d : WlDevice) : WlOp → Image → List UInt8 × Image
  | eraseSector sector, img => ([], eraseRange img (sector.toNat * d.sector) d.sector)
  | write destAddr src, img => ([], program img destAddr.toNat src)
  | read srcAddr size, img => (readBytes img srcAddr.toNat size.toNat, img)
  | flush, img => ([], img)

/-- An operation inside the device, at page granularity. -/
def InRange (d : WlDevice) : WlOp → Prop
  | eraseSector sector => SectorAccess d sector
  | write destAddr src => PageAccess d destAddr.toNat src.length
  | read srcAddr size => PageAccess d srcAddr.toNat size.toNat
  | flush => True

end WlOp

/-- A sequence of operations, with the bytes each one reads. -/
def runOps (d : WlDevice) : List WlOp → WlProg (List (List UInt8))
  | [] => pure []
  | op :: ops => do
      let out ← op.exec d
      let outs ← runOps d ops
      pure (out :: outs)

def plainOps (d : WlDevice) : List WlOp → Image → List (List UInt8) × Image
  | [], img => ([], img)
  | op :: ops, img => ((op.plain d img).1 :: (plainOps d ops (op.plain d img).2).1, (plainOps d ops (op.plain d img).2).2)

/-- The byte `read` returns for a logical address. -/
def WlDevice.logical (d : WlDevice) (s : WlState) (img : Image) (a : Nat) : UInt8 :=
  img (d.cfg.wlPartitionStartAddr + d.calcAddr s (.ofNat a)).toNat

/-- Two contents agree inside the device. -/
def SameContent (d : WlDevice) (v v' : Image) : Prop := ∀ x < d.flashSize.toNat, v x = v' x

section Transparent
variable {d : WlDevice} {s : WlState} {r : WlRam} {img : Image}

theorem Geometry.logical_eq_view (g : Geometry d) (hs : s.InRange d) {a : Nat} (ha : a < d.flashSize.toNat) :
    d.logical s img a = d.view s img a := by
  have hlt := g.flashSize_lt
  have ha32 : (UInt32.ofNat a).toNat = a := toNat_ofNat_of_lt (by omega)
  have hphys := g.phys_toNat hs (a := .ofNat a) (by rw [ha32]; exact ha)
  unfold WlDevice.logical WlDevice.view
  rw [hphys, ha32]

/-! ## `updateWL` preserves the content -/

theorem agreeData_mark {addr : UInt32} (hc : StateCopy d addr) (n : Nat) (b : List UInt8) :
    AgreeData d img (d.mark addr n b img) := by
  have hge := hc.ge
  intro a ha
  exact program_out (Or.inl (by omega))

theorem agreeData_rewriteCopy {addr : UInt32} (hc : StateCopy d addr) :
    AgreeData d img (rewriteCopy d addr s img) := by
  have hge := hc.ge
  intro a ha
  unfold rewriteCopy
  rw [program_out (Or.inl (by omega)), eraseRange_out (Or.inl (by omega))]

theorem AgreeData.trans {img' img'' : Image} (h : AgreeData d img img') (h' : AgreeData d img' img'') :
    AgreeData d img img'' := fun a ha => (h' a ha).trans (h a ha)

theorem Geometry.agreeData_marked (g : Geometry d) (b b' : List UInt8) :
    AgreeData d (d.moved s img) (d.marked s b b' img) :=
  (agreeData_mark g.copy1 _ b).trans (agreeData_mark g.copy2 _ b')

theorem Geometry.view_advanceDone (g : Geometry d) (hs : s.InRange d) {img' : Image} (h : AdvanceDone d s img img') :
    SameContent d (d.view s.advanced img') (d.view s img) := by
  obtain ⟨b, b', -, -, hdone⟩ := h
  have hdata : AgreeData d (d.moved s img) img' := by
    rcases hdone with ⟨-, rfl⟩ | ⟨-, rfl⟩
    · exact ((g.agreeData_marked b b').trans (agreeData_rewriteCopy g.copy1)).trans (agreeData_rewriteCopy g.copy2)
    · exact g.agreeData_marked b b'
  intro x hx
  rw [g.view_congr hdata, g.view_moved hs hx]

theorem Geometry.view_updateDone (g : Geometry d) (hr : Running d r) {r' : WlRam} {img' : Image}
    (h : UpdateDone d r img r' img') :
    Running d r' ∧ r'.initialized = r.initialized ∧ SameContent d (d.view r'.state img') (d.view r.state img) := by
  cases h with
  | count n hram himg =>
      subst hram himg
      exact ⟨hr.of_count n, rfl, fun x _ => rfl⟩
  | advance t a ht hram hdone =>
      subst hram
      exact ⟨⟨(g.advanced_spec hr.inRange).2.2, ht⟩, rfl, g.view_advanceDone hr.inRange hdone⟩

/-! ## The simulation -/

theorem SameContent.plain {v v' : Image} (h : SameContent d v v') {op : WlOp} (hop : op.InRange d) :
    (op.plain d v).1 = (op.plain d v').1 ∧ SameContent d (op.plain d v).2 (op.plain d v').2 := by
  cases op with
  | eraseSector sector => exact ⟨rfl, fun x hx => eraseRange_congr (h x hx)⟩
  | write destAddr src => exact ⟨rfl, fun x hx => program_congr (h x hx)⟩
  | read srcAddr size =>
      have hle : srcAddr.toNat + size.toNat ≤ d.flashSize.toNat := hop.le
      exact ⟨readBytes_congr fun a _ ha => h a (by omega), h⟩
  | flush => exact ⟨rfl, h⟩

theorem SameContent.plainOps {v v' : Image} (h : SameContent d v v') {ops : List WlOp} (hops : ∀ op ∈ ops, op.InRange d) :
    (plainOps d ops v).1 = (plainOps d ops v').1 ∧ SameContent d (plainOps d ops v).2 (plainOps d ops v').2 := by
  induction ops generalizing v v' with
  | nil => exact ⟨rfl, h⟩
  | cons op ops ih =>
      rw [List.forall_mem_cons] at hops
      obtain ⟨hout, hsame⟩ := h.plain hops.1
      obtain ⟨houts, hsames⟩ := ih hsame hops.2
      unfold WearLevelling.plainOps
      rw [hout, houts]
      exact ⟨rfl, hsames⟩

/-- A mounted device. -/
structure Mounted (d : WlDevice) (r : WlRam) : Prop where
  running : Running d r
  initialized : r.initialized = true

/-- One operation does to the logical content what it does to a plain flash. -/
theorem wp_exec (g : Geometry d) (hr : Mounted d r) {op : WlOp} (hop : op.InRange d) :
    Wp (fun _ => True) (op.exec d) (fun out r' img' =>
      out = (op.plain d (d.view r.state img)).1 ∧ Mounted d r' ∧
        SameContent d (d.view r'.state img') (op.plain d (d.view r.state img)).2) r img := by
  cases op with
  | eraseSector sector =>
      apply wp_bind
      unfold WlDevice.eraseSector
      apply wp_bind
      apply wp_ready trivial hr.initialized
      apply wp_bind
      refine wp_mono (wp_crash_mono (wp_updateWL g hr.running) fun _ _ => trivial) ?_
      intro _ r' img' hdone
      obtain ⟨hrun, hinit, hsame⟩ := g.view_updateDone hr.running hdone
      apply wp_bind
      apply wp_getRam trivial
      refine wp_mono (wp_crash_mono (wp_eraseAt g hrun.inRange hop) fun _ _ => trivial) ?_
      rintro _ _ img'' ⟨rfl, -, hview⟩
      apply wp_pure trivial
      refine ⟨rfl, ⟨hrun, by rw [hinit, hr.initialized]⟩, fun x hx => ?_⟩
      rw [hview x hx]
      exact eraseRange_congr (hsame x hx)
  | write destAddr src =>
      apply wp_bind
      refine wp_mono (wp_crash_mono (wp_write g hr.running hr.initialized hop) fun _ _ => trivial) ?_
      rintro _ _ img' ⟨rfl, hprog⟩
      exact wp_pure trivial ⟨rfl, hr, hprog.view⟩
  | read srcAddr size =>
      refine wp_mono (wp_read g hr.running hr.initialized hop trivial) ?_
      rintro bytes _ _ ⟨rfl, rfl, rfl⟩
      exact ⟨rfl, hr, fun _ _ => rfl⟩
  | flush =>
      apply wp_bind
      refine wp_mono (wp_crash_mono (wp_flush g hr.running) fun _ _ => trivial) ?_
      intro _ r' img' hdone
      obtain ⟨hrun, hinit, hsame⟩ := g.view_updateDone hr.running hdone
      exact wp_pure trivial ⟨rfl, ⟨hrun, by rw [hinit, hr.initialized]⟩, hsame⟩

/-- Any sequence of operations does. -/
theorem wp_runOps (g : Geometry d) (hr : Mounted d r) {ops : List WlOp} (hops : ∀ op ∈ ops, op.InRange d) :
    Wp (fun _ => True) (runOps d ops) (fun outs r' img' =>
      outs = (plainOps d ops (d.view r.state img)).1 ∧ Mounted d r' ∧
        SameContent d (d.view r'.state img') (plainOps d ops (d.view r.state img)).2) r img := by
  induction ops generalizing r img with
  | nil => exact wp_pure trivial ⟨rfl, hr, fun _ _ => rfl⟩
  | cons op ops ih =>
      rw [List.forall_mem_cons] at hops
      unfold runOps
      apply wp_bind
      refine wp_mono (wp_exec g hr hops.1) ?_
      rintro out r' img' ⟨rfl, hr', hsame⟩
      obtain ⟨houts, hcont⟩ := hsame.plainOps hops.2
      apply wp_bind
      refine wp_mono (ih hr' hops.2) ?_
      rintro outs r'' img'' ⟨rfl, hr'', hsame'⟩
      apply wp_pure trivial
      refine ⟨?_, hr'', fun x hx => (hsame' x hx).trans (hcont x hx)⟩
      rw [houts]
      rfl

/-! ## The claims about a mounted device -/

/-- `calcAddr` maps logical pages to different physical pages, none of them the dummy page. -/
def CalcAddrInjects (d : WlDevice) (s : WlState) : Prop :=
  (∀ l < d.pages, ∃ q ≤ d.pages, q ≠ s.wlDummySecPos.toNat ∧
    (d.calcAddr s (.ofNat (l * d.page))).toNat = q * d.page) ∧
  ∀ l < d.pages, ∀ l' < d.pages,
    d.calcAddr s (.ofNat (l * d.page)) = d.calcAddr s (.ofNat (l' * d.page)) → l = l'

/-- `updateWL` succeeds and every logical byte reads as before. -/
def UpdatePreserves (d : WlDevice) (r : WlRam) (img : Image) : Prop :=
  (d.updateWL r img).result = .ok () ∧
    ∀ x < d.flashSize.toNat, d.logical (d.updateWL r img).ram.state (d.updateWL.flash r img) x = d.logical r.state img x

theorem Geometry.calcAddr_page (g : Geometry d) (hs : s.InRange d) {l : Nat} (hl : l < d.pages) :
    (d.calcAddr s (.ofNat (l * d.page))).toNat = d.slot s l * d.page := by
  have hlt := g.flashSize_lt
  have hP := g.page_pos
  have hle : (l + 1) * d.page ≤ d.pages * d.page := Nat.mul_le_mul_right _ hl
  rw [Nat.add_mul, ← g.flashSize] at hle
  have ha : (UInt32.ofNat (l * d.page)).toNat = l * d.page := toNat_ofNat_of_lt (by omega)
  rw [g.calcAddr_toNat hs (by rw [ha]; omega), ha, Nat.mul_div_cancel _ hP, Nat.mul_mod_left, Nat.add_zero]

theorem Geometry.calcAddrInjects (g : Geometry d) (hs : s.InRange d) : CalcAddrInjects d s := by
  constructor
  · intro l hl
    exact ⟨d.slot s l, RotatingGap.slot_le g.pages_pos, RotatingGap.slot_ne_gap _ _ _ _, g.calcAddr_page hs hl⟩
  · intro l hl l' hl' h
    have e := congrArg UInt32.toNat h
    rw [g.calcAddr_page hs hl, g.calcAddr_page hs hl'] at e
    exact RotatingGap.slot_inj hs.moveCount_lt hl hl' (Nat.eq_of_mul_eq_mul_right g.page_pos e)

theorem Geometry.updatePreserves (g : Geometry d) (hr : Running d r) : UpdatePreserves d r img := by
  have hupd : Wp (AdvanceCut d r.state img) d.updateWL (fun _ r' img' => UpdateDone d r img r' img') r img :=
    wp_updateWL g hr
  obtain ⟨⟨_, hres, hdone⟩, -⟩ := hupd
  obtain ⟨hrun, -, hsame⟩ := g.view_updateDone hr hdone
  refine ⟨hres, fun x hx => ?_⟩
  rw [g.logical_eq_view hrun.inRange hx, g.logical_eq_view hr.inRange hx]
  exact hsame x hx

/-- A device mounted on a fresh flash returns what a plain flash of `get_flash_size()` bytes returns, whatever the
operations; at every point `calcAddr` is an injection past the dummy page and `updateWL` keeps the content. -/
theorem wl_transparent {cfg : WlConfig} {p : Partition} {mallocOk : Bool} {r₀ : WlRam} {img₀ : Image} (rand : UInt32)
    (ha : Aligned cfg p) (hcfg : config cfg p mallocOk = .ok (d, r₀)) (hfresh : Fresh d img₀) :
    (d.init rand r₀ img₀).result = .ok () ∧
    ∀ ops : List WlOp, (∀ op ∈ ops, op.InRange d) →
      let r₁ := (d.init rand r₀ img₀).ram
      let img₁ := (d.init rand).flash r₀ img₀
      let r₂ := (runOps d ops r₁ img₁).ram
      let img₂ := (runOps d ops).flash r₁ img₁
      (runOps d ops r₁ img₁).result = .ok (plainOps d ops (d.logical r₁.state img₁)).1 ∧
      SameContent d (d.logical r₂.state img₂) (plainOps d ops (d.logical r₁.state img₁)).2 ∧
      CalcAddrInjects d r₂.state ∧ UpdatePreserves d r₂ img₂ := by
  have g := config_geometry ha hcfg
  have htemp : r₀.tempBuff.length = d.temp := by
    obtain ⟨rfl, ht, -⟩ := config_ok hcfg
    exact ht
  obtain ⟨⟨_, hres, hrun, hinit⟩, -⟩ := wp_init_fresh (r := r₀) g rand hfresh htemp
  refine ⟨hres, ?_⟩
  intro ops hops r₁ img₁ r₂ img₂
  have hrunOps : Wp (fun _ => True) (runOps d ops) _ r₁ img₁ := wp_runOps g ⟨hrun, hinit⟩ hops
  obtain ⟨⟨_, hres', rfl, hmount, hsame⟩, -⟩ := hrunOps
  have hstart : SameContent d (d.view r₁.state img₁) (d.logical r₁.state img₁) := fun x hx =>
    (g.logical_eq_view hrun.inRange hx).symm
  obtain ⟨houts, hcont⟩ := hstart.plainOps hops
  have hs₂ := hmount.running.inRange
  refine ⟨by rw [hres', houts], ?_, g.calcAddrInjects hs₂, g.updatePreserves hmount.running⟩
  intro x hx
  rw [g.logical_eq_view hs₂ hx, ← hcont x hx]
  exact hsame x hx

end Transparent

/-! ## Examples -/

/-- A partition of 16 sectors of 4096 bytes. -/
def smallPartition : Partition := ⟨65536, 4096⟩

def erasedFlash : Image := fun _ => 0xFF

/-- One page a sector, the configuration `wl_mount` uses. -/
def mountConfig : WlConfig := ⟨0, 65536, 4096, 4096, 16, 16, 2, 32, 0⟩

theorem aligned_mountConfig : Aligned mountConfig smallPartition where
  sector_pos := by decide
  eraseSize := rfl
  start_dvd := by decide
  size_dvd := by decide
  page_dvd := by decide
  in_partition := by decide
  buffer := by decide
  fits := by decide

theorem wl_transparent_mountConfig : ∃ d r, config mountConfig smallPartition true = .ok (d, r) ∧
    (d.init 7 r erasedFlash).result = .ok () ∧
    (runOps d [.write 0 [1, 2, 3], .eraseSector 1, .read 0 3] (d.init 7 r erasedFlash).ram
      ((d.init 7).flash r erasedFlash)).result =
      .ok (plainOps d [.write 0 [1, 2, 3], .eraseSector 1, .read 0 3]
        (d.logical (d.init 7 r erasedFlash).ram.state ((d.init 7).flash r erasedFlash))).1 := by
  have hfresh : Fresh (mountConfig.adopt.layout smallPartition) erasedFlash :=
    ⟨by decide +kernel, by decide +kernel, by decide +kernel⟩
  obtain ⟨d, r, hcfg⟩ : ∃ d r, config mountConfig smallPartition true = .ok (d, r) := ⟨_, _, rfl⟩
  obtain ⟨rfl, -⟩ := config_ok hcfg
  obtain ⟨hinit, hops⟩ := wl_transparent 7 aligned_mountConfig hcfg hfresh
  refine ⟨_, r, hcfg, hinit, (hops [.write 0 [1, 2, 3], .eraseSector 1, .read 0 3] ?_).1⟩
  rw [List.forall_mem_cons, List.forall_mem_cons, List.forall_mem_singleton]
  exact ⟨⟨by decide, by decide +kernel, by decide +kernel⟩, ⟨by decide +kernel⟩,
    ⟨by decide, by decide +kernel, by decide +kernel⟩⟩

/-- `config` accepts `cfg`, and some operations inside the device do not go as on a plain flash. -/
def Misbehaves (cfg : WlConfig) (p : Partition) : Prop :=
  ∃ d r ops, config cfg p true = .ok (d, r) ∧ (∀ op ∈ ops, WlOp.InRange d op) ∧
    (runOps d ops (d.init 7 r erasedFlash).ram ((d.init 7).flash r erasedFlash)).result ≠
      .ok (plainOps d ops (d.logical (d.init 7 r erasedFlash).ram.state ((d.init 7).flash r erasedFlash))).1

/-- Pages of one and a half sectors. -/
def unalignedPage : WlConfig := ⟨0, 65536, 6144, 4096, 1, 16, 2, 32, 0⟩

def unalignedStart : WlConfig := ⟨100, 61440, 4096, 4096, 1, 16, 2, 32, 0⟩

def unalignedSize : WlConfig := ⟨0, 65000, 4096, 4096, 1, 16, 2, 32, 0⟩

/-- A page larger than the data area: the number of pages wraps. -/
def wrappedPage : WlConfig := ⟨0, 65536, 0xC0000000, 4096, 1, 16, 2, 32, 0⟩

/-- A sector of two erase units. -/
def doubleSector : WlConfig := ⟨0, 65536, 8192, 8192, 16, 16, 2, 32, 0⟩

theorem misbehaves_of_erase {cfg : WlConfig} {p : Partition} {d : WlDevice} {r : WlRam} {e : EspErr}
    (hcfg : config cfg p true = .ok (d, r)) (hsec : 0 * d.sector + d.sector ≤ d.flashSize.toNat)
    (herr : (runOps d [.eraseSector 0] (d.init 7 r erasedFlash).ram ((d.init 7).flash r erasedFlash)).result =
      .error e) : Misbehaves cfg p := by
  refine ⟨d, r, [.eraseSector 0], hcfg, ?_, ?_⟩
  · rw [List.forall_mem_singleton]
    exact ⟨hsec⟩
  · rw [herr]
    exact fun h => nomatch h

/-- `config` accepts configurations whose areas are not whole erase units of the partition; the first four then fail to
erase, and the last one erases another sector. -/
theorem config_accepts_misfits :
    Misbehaves unalignedPage smallPartition ∧ Misbehaves unalignedStart smallPartition ∧
      Misbehaves unalignedSize smallPartition ∧ Misbehaves wrappedPage smallPartition ∧
      Misbehaves doubleSector smallPartition := by
  refine ⟨?_, ?_, ?_, ?_, ?_⟩
  · exact misbehaves_of_erase (e := .invalidSize) rfl (by decide +kernel) (by decide +kernel)
  · exact misbehaves_of_erase (e := .invalidState) rfl (by decide +kernel) (by decide +kernel)
  · exact misbehaves_of_erase (e := .invalidState) rfl (by decide +kernel) (by decide +kernel)
  · exact misbehaves_of_erase (e := .invalidSize) rfl (by decide +kernel) (by decide +kernel)
  · refine ⟨_, _, [.write 8192 [0], .eraseSector 1, .read 8192 1], rfl, ?_, ?_⟩
    · rw [List.forall_mem_cons, List.forall_mem_cons, List.forall_mem_singleton]
      exact ⟨⟨by decide, by decide +kernel, by decide +kernel⟩, ⟨by decide +kernel⟩,
        ⟨by decide, by decide +kernel, by decide +kernel⟩⟩
    · decide +kernel

end EspIdf.WearLevelling
