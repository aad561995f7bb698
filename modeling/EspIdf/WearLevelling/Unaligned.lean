import EspIdf.WearLevelling.PowerLoss

/-!
# Accesses at any address

* `WlDevice.home` : the physical byte that holds a logical one;
* `Contiguous d s a n` : the pages a range runs through lie one behind the other;
* `ReadsHome`, `WritesHome` : `read` and `write` access the home of every byte of a range;
* `partial_read` : whatever the range, each piece is read from the home of its first byte on;
* `Reachable` : the states of a device in use;
* `access_home_iff` : `read` and `write` access the homes of a range exactly when it is contiguous.
-/

namespace EspIdf.WearLevelling

open Word32 Crc32 NorFlash

/-- The physical address of the byte that holds logical byte `a`. -/
def WlDevice.home (d : WlDevice) (s : WlState) (a : Nat) : Nat :=
  (d.cfg.wlPartitionStartAddr + d.calcAddr s (.ofNat a)).toNat

/-- The range starts at a page boundary, or each page it runs into lies right behind the page before. -/
def Contiguous (d : WlDevice) (s : WlState) (a n : Nat) : Prop :=
  d.page ∣ a ∨ ∀ l, a < (l + 1) * d.page → (l + 1) * d.page < a + n →
    d.home s ((l + 1) * d.page) = d.home s (l * d.page) + d.page

/-- `read` returns the bytes that live at the homes of the range. -/
def ReadsHome (d : WlDevice) (r : WlRam) (addr size : UInt32) : Prop :=
  ∀ img, (d.read addr size r img).result =
    .ok ((List.range size.toNat).map fun k => img (d.home r.state (addr.toNat + k)))

/-- `img'` is `img` with `src` programmed at the homes of the bytes from `a`. -/
structure ProgrammedHome (d : WlDevice) (s : WlState) (a : Nat) (src : List UInt8) (img img' : Image) : Prop where
  home : ∀ k < src.length, img' (d.home s (a + k)) = img (d.home s (a + k)) &&& src.getD k 0xFF
  other : ∀ q, (∀ k < src.length, q ≠ d.home s (a + k)) → img' q = img q

/-- `write` programs the homes of the range and nothing else. -/
def WritesHome (d : WlDevice) (r : WlRam) (addr size : UInt32) : Prop :=
  ∀ img src, src.length = size.toNat → (d.write addr src r img).result = .ok () ∧
    ProgrammedHome d r.state addr.toNat src img ((d.write addr src).flash r img)

section Homes
variable {d : WlDevice} {s : WlState} {r : WlRam} {img : Image} {a n : Nat}

theorem Geometry.home_eq_phys (g : Geometry d) (hs : s.InRange d) (ha : a < d.flashSize.toNat) :
    d.home s a = d.phys s a := by
  have hlt := g.flashSize_lt
  have ha32 : (UInt32.ofNat a).toNat = a := toNat_ofNat_of_lt (by omega)
  have h := g.phys_toNat hs (a := .ofNat a) (by rw [ha32]; exact ha)
  rwa [ha32] at h

theorem pageAddr_succ (q : Nat) : d.pageAddr (q + 1) = d.pageAddr q + d.page := by
  unfold WlDevice.pageAddr
  ring

/-- A page lies right behind the one before when their slots are neighbours. -/
theorem Geometry.runsOn_iff (g : Geometry d) (hs : s.InRange d) (h : Inside d a n) :
    RunsOn d s a n ↔ Contiguous d s a n := by
  have hP := g.page_pos
  have hle := h.le
  have hiff : ∀ l, (l + 1) * d.page < a + n → (d.slot s (l + 1) = d.slot s l + 1 ↔
      d.home s ((l + 1) * d.page) = d.home s (l * d.page) + d.page) := by
    intro l hl
    have hl' : l * d.page < (l + 1) * d.page := Nat.mul_lt_mul_of_pos_right (Nat.lt_succ_self l) hP
    rw [g.home_eq_phys hs (by omega), g.home_eq_phys hs (by omega), phys_page _ hP, phys_page _ hP, ← pageAddr_succ]
    constructor
    · intro e
      rw [e]
    · intro e
      unfold WlDevice.pageAddr at e
      exact Nat.eq_of_mul_eq_mul_right hP (by omega)
  constructor
  · exact fun hrun => hrun.imp id fun h l h1 h2 => (hiff l h2).mp (h l h1 h2)
  · exact fun hrun => hrun.imp id fun h l h1 h2 => (hiff l h2).mpr (h l h1 h2)

/-! ## A contiguous range -/

theorem Geometry.readsHome (g : Geometry d) (hr : Mounted d r) {addr size : UInt32}
    (h : Inside d addr.toNat size.toNat) (hrun : RunsOn d r.state addr.toNat size.toNat) : ReadsHome d r addr size := by
  intro img
  have hread : Wp (fun _ => True) (d.read addr size) _ r img := wp_readRange g hr.running hr.initialized h hrun trivial
  obtain ⟨⟨_, hres, rfl, -⟩, -⟩ := hread
  have hle := h.le
  rw [hres]
  unfold readBytes WlDevice.view
  congr 1
  apply List.map_congr_left
  intro k hk
  rw [List.mem_range] at hk
  rw [g.home_eq_phys hr.running.inRange (by omega)]

theorem Geometry.writesHome (g : Geometry d) (hr : Mounted d r) {addr size : UInt32}
    (h : Inside d addr.toNat size.toNat) (hrun : RunsOn d r.state addr.toNat size.toNat) : WritesHome d r addr size := by
  intro img src hlen
  rw [← hlen] at h hrun
  have hwrite : Wp _ (d.write addr src) _ r img := wp_writeRange g hr.running hr.initialized h hrun
  obtain ⟨⟨_, hres, -, hplaced⟩, -⟩ := hwrite
  have hle := h.le
  have hhome : ∀ k < src.length, d.home r.state (addr.toNat + k) = d.phys r.state (addr.toNat + k) :=
    fun k hk => g.home_eq_phys hr.running.inRange (by omega)
  refine ⟨hres, fun k hk => ?_, fun q hq => hplaced.other q fun k hk => ?_⟩
  · rw [hhome k hk]
    exact hplaced.home k hk
  · rw [← hhome k hk]
    exact hq k hk

/-! ## Any range -/

theorem partial_partitionRead {p : Partition} {offset size : UInt32} {Q : List UInt8 → WlRam → Image → Prop}
    (hQ : Q (readBytes img offset.toNat size.toNat) r img) : Partial (p.read offset size) Q r img := by
  unfold Partition.read Partition.inBounds
  apply partial_bind
  split
  · exact partial_fail
  · split
    · exact partial_fail
    · apply partial_pure
      exact partial_readFlash hQ

theorem partial_readChunks (g : Geometry d) (hs : s.InRange d) {addr size : UInt32}
    (h : Inside d addr.toNat size.toNat) (m i : Nat) (hm : i + m ≤ (size.toNat - 1) / d.page) :
    Partial (d.readChunks s addr i m) (fun bytes r' img' =>
      bytes = readBytes (d.seen s addr.toNat img) (i * d.page) (m * d.page) ∧ r' = r ∧ img' = img) r img := by
  induction m generalizing i with
  | zero =>
      apply partial_pure
      refine ⟨?_, rfl, rfl⟩
      rw [Nat.zero_mul]
      rfl
  | succ m ih =>
      have hlt := h.chunk_lt (show i < (size.toNat - 1) / d.page by omega)
      have hphys := g.piece_toNat hs h (show i * d.page < size.toNat by omega)
        (g.pieceAddr h (show i ≤ (size.toNat - 1) / d.page by omega))
      have hpage : d.cfg.wlPageSize.toNat = d.page := rfl
      unfold WlDevice.readChunks
      apply partial_bind
      apply partial_partitionRead
      rw [hphys, hpage, readBytes_seen le_rfl]
      apply partial_bind
      refine partial_mono (ih (i + 1) (by omega)) ?_
      rintro rest _ _ ⟨rfl, rfl, rfl⟩
      apply partial_pure
      refine ⟨?_, rfl, rfl⟩
      rw [show (m + 1) * d.page = d.page + m * d.page by ring, readBytes_append,
        show (i + 1) * d.page = i * d.page + d.page by ring]

/-- Whatever the range, byte `k` of a read comes from `accessed`. -/
theorem partial_read (g : Geometry d) (hr : Mounted d r) {addr size : UInt32} (h : Inside d addr.toNat size.toNat) :
    Partial (d.read addr size) (fun bytes _ _ =>
      bytes = readBytes (d.seen r.state addr.toNat img) 0 size.toNat) r img := by
  have hs := hr.running.inRange
  obtain ⟨hlastlt, hlast⟩ := g.lastChunk h
  have hcount := h.chunkCount_toNat
  have hoff := g.lastOffset h
  have hphys := g.piece_toNat hs h hlastlt (g.lastAddr h)
  have hrest : (size - d.chunkCount size * d.cfg.wlPageSize).toNat =
      size.toNat - (size.toNat - 1) / d.page * d.page := by
    rw [toNat_sub_of_le (by rw [hoff]; omega), hoff]
  have hsplit := readBytes_append (d.seen r.state addr.toNat img) 0 ((size.toNat - 1) / d.page * d.page)
    (size.toNat - (size.toNat - 1) / d.page * d.page)
  rw [Nat.zero_add, show (size.toNat - 1) / d.page * d.page +
    (size.toNat - (size.toNat - 1) / d.page * d.page) = size.toNat by omega] at hsplit
  unfold WlDevice.read ready
  apply partial_bind
  apply partial_bind
  apply partial_getRam
  rw [if_neg (by rw [hr.initialized]; decide)]
  apply partial_pure
  dsimp only
  apply partial_bind
  rw [hcount]
  refine partial_mono (partial_readChunks g hs h _ 0 (by omega)) ?_
  rintro bytes _ _ ⟨rfl, rfl, rfl⟩
  apply partial_bind
  apply partial_partitionRead
  rw [hphys, hrest, readBytes_seen hlast]
  apply partial_pure
  rw [Nat.zero_mul]
  exact hsplit.symm

/-- The first byte of a page is accessed right behind the page before, when the access does not start at a boundary. -/
theorem Geometry.accessed_boundary (g : Geometry d) {l : Nat} (hnot : ¬d.page ∣ a) (ha : a < (l + 1) * d.page) :
    d.accessed s a ((l + 1) * d.page - a) = d.pageAddr (d.slot s l + 1) := by
  have hP := g.page_pos
  have ham : 0 < a % d.page := Nat.pos_of_ne_zero fun e => hnot (Nat.dvd_of_mod_eq_zero e)
  generalize hk : (l + 1) * d.page - a = k
  have hkm := Nat.mod_lt k hP
  have hkd := Nat.div_add_mod k d.page
  have hcm : (a + k / d.page * d.page) % d.page = a % d.page := Nat.add_mul_mod_self_right _ _ _
  have hcd := Nat.div_add_mod (a + k / d.page * d.page) d.page
  have halt := Nat.mod_lt a hP
  rw [Nat.mul_comm] at hkd hcd
  rw [hcm] at hcd
  -- the piece starts in page `l`
  have hpage : (a + k / d.page * d.page) / d.page = l := by
    generalize (a + k / d.page * d.page) / d.page = q at hcd ⊢
    have h1 : q * d.page < (l + 1) * d.page := by omega
    have h2 : l * d.page < (q + 1) * d.page := by
      rw [Nat.add_mul, Nat.one_mul] at hk ⊢
      omega
    have h1' := Nat.lt_of_mul_lt_mul_right h1
    have h2' := Nat.lt_of_mul_lt_mul_right h2
    omega
  unfold WlDevice.accessed WlDevice.phys
  rw [hcm, hpage, pageAddr_succ]
  rw [hpage] at hcd
  rw [Nat.add_mul, Nat.one_mul] at hk
  omega

/-- Reads that come from the homes of all their bytes are of contiguous ranges. -/
theorem Geometry.runsOn_of_reads (g : Geometry d) (hr : Mounted d r) {addr size : UInt32}
    (h : Inside d addr.toNat size.toNat) (hread : ReadsHome d r addr size) :
    RunsOn d r.state addr.toNat size.toNat := by
  by_cases hdvd : d.page ∣ addr.toNat
  · exact Or.inl hdvd
  · right
    intro l h1 h2
    by_contra hne
    have hP := g.page_pos
    have hle := h.le
    -- a flash that differs only at the home of the first byte of page `l + 1`
    generalize himg : (fun q => if q = d.pageAddr (d.slot r.state (l + 1)) then 1 else 0 : Image) = img
    have hok := hread img
    have hseen := partial_read g hr h _ hok
    have hbyte := congrArg (fun bs => bs.getD ((l + 1) * d.page - addr.toNat) 0) hseen
    have hk : (l + 1) * d.page - addr.toNat < size.toNat := by omega
    have hhome : d.home r.state (addr.toNat + ((l + 1) * d.page - addr.toNat)) =
        d.pageAddr (d.slot r.state (l + 1)) := by
      rw [Nat.add_sub_cancel' (le_of_lt h1), g.home_eq_phys hr.running.inRange (by omega), phys_page _ hP]
    have hacc : d.pageAddr (d.slot r.state l + 1) ≠ d.pageAddr (d.slot r.state (l + 1)) := by
      intro e
      unfold WlDevice.pageAddr at e
      exact hne (Nat.eq_of_mul_eq_mul_right hP (by omega)).symm
    simp only [readBytes_getD hk, WlDevice.seen, Nat.zero_add, g.accessed_boundary hdvd h1,
      List.getD_eq_getElem?_getD, List.getElem?_map, List.getElem?_range hk, Option.map_some, Option.getD_some,
      hhome] at hbyte
    rw [← himg] at hbyte
    simp only [if_neg hacc, if_true] at hbyte
    exact absurd hbyte (by decide)

/-- `read` and `write` access the homes of a range exactly when it is contiguous. -/
theorem Geometry.access_iff (g : Geometry d) (hr : Mounted d r) {addr size : UInt32}
    (h : Inside d addr.toNat size.toNat) :
    (ReadsHome d r addr size ∧ WritesHome d r addr size) ↔ Contiguous d r.state addr.toNat size.toNat := by
  rw [← g.runsOn_iff hr.running.inRange h]
  constructor
  · exact fun ⟨hread, _⟩ => g.runsOn_of_reads hr h hread
  · exact fun hrun => ⟨g.readsHome hr h hrun, g.writesHome hr h hrun⟩

end Homes

/-! ## The states of a device in use -/

/-- An operation inside the device, at any address. -/
def WlOp.Inside (d : WlDevice) : WlOp → Prop
  | .eraseSector sector => SectorAccess d sector
  | .write destAddr src => WearLevelling.Inside d destAddr.toNat src.length
  | .read srcAddr size => WearLevelling.Inside d srcAddr.toNat size.toNat
  | .flush => True

/-- A device mounted on a new flash, or in use after any restarts of a run with power cuts, and any operations on it. -/
inductive Reachable (d : WlDevice) : WlRam → Image → Prop
  | mounted {r : WlRam} {img : Image} (rand : UInt32) (htemp : r.tempBuff.length = d.temp) (hfresh : Fresh d img) :
      Reachable d (d.init rand r img).ram ((d.init rand).flash r img)
  | restarted {r₀ r : WlRam} {img₀ img : Image} (rand : UInt32) (hrec : 16 ≤ d.record)
      (htemp : r₀.tempBuff.length = d.temp) (hfresh : Fresh d img₀) (h : Reach d rand r₀ img₀ (.on r img)) :
      Reachable d r img
  | op {r : WlRam} {img : Image} (op : WlOp) (hop : op.Inside d) (h : Reachable d r img) :
      Reachable d (op.exec d r img).ram ((op.exec d).flash r img)

theorem keepsRam_pure {α : Type} (a : α) : KeepsRam (pure a : WlProg α) := fun _ _ => rfl

theorem keepsRam_inBounds (p : Partition) (offset size : UInt32) : KeepsRam (p.inBounds offset size) := by
  intro r img
  unfold Partition.inBounds
  split_ifs <;> rfl

theorem keepsRam_partitionRead (p : Partition) (offset size : UInt32) : KeepsRam (p.read offset size) :=
  keepsRam_bind (keepsRam_inBounds p offset size) fun _ _ _ => rfl

theorem keepsRam_partitionWrite (p : Partition) (offset : UInt32) (bytes : List UInt8) :
    KeepsRam (p.write offset bytes) :=
  keepsRam_bind (keepsRam_inBounds p offset _) fun _ _ _ => rfl

theorem keepsRam_ready : KeepsRam ready := by
  refine keepsRam_bind (fun _ _ => rfl) fun s r img => ?_
  split_ifs <;> rfl

theorem keepsRam_readChunks (d : WlDevice) (s : WlState) (srcAddr : UInt32) (n i : Nat) :
    KeepsRam (d.readChunks s srcAddr i n) := by
  induction n generalizing i with
  | zero => exact keepsRam_pure _
  | succ n ih =>
      exact keepsRam_bind (keepsRam_partitionRead _ _ _) fun _ => keepsRam_bind (ih (i + 1)) fun _ => keepsRam_pure _

theorem keepsRam_read (d : WlDevice) (srcAddr size : UInt32) : KeepsRam (d.read srcAddr size) :=
  keepsRam_bind keepsRam_ready fun _ => keepsRam_bind (keepsRam_readChunks d _ _ _ 0) fun _ =>
    keepsRam_bind (keepsRam_partitionRead _ _ _) fun _ => keepsRam_pure _

theorem keepsRam_write (d : WlDevice) (destAddr : UInt32) (src : List UInt8) : KeepsRam (d.write destAddr src) :=
  keepsRam_bind keepsRam_ready fun _ =>
    keepsRam_bind (keepsRam_loopFrom (fun _ => keepsRam_partitionWrite _ _ _) 0 _) fun _ =>
      keepsRam_partitionWrite _ _ _

section Reachable
variable {d : WlDevice} {r : WlRam} {img : Image}

/-- Every state of a device in use is a mounted one. -/
theorem Reachable.mounted_of (g : Geometry d) (h : Reachable d r img) : Mounted d r := by
  induction h with
  | @mounted r img rand htemp hfresh =>
      obtain ⟨⟨_, -, hrun, hinit⟩, -⟩ := wp_init_fresh (r := r) g rand hfresh htemp
      exact ⟨hrun, hinit⟩
  | restarted rand hrec htemp hfresh h => exact (h.inv g hrec hfresh htemp : InUse _ _ _).mounted
  | @op r img op hop h ih =>
      cases op with
      | eraseSector sector =>
          have hexec : Wp _ ((WlOp.eraseSector sector).exec d) _ r img := wp_exec g ih hop
          obtain ⟨⟨_, -, -, hmounted, -⟩, -⟩ := hexec
          exact hmounted
      | write destAddr src =>
          have hkeep : KeepsRam ((WlOp.write destAddr src).exec d) :=
            keepsRam_bind (keepsRam_write d destAddr src) fun _ => keepsRam_pure _
          rw [hkeep r img]
          exact ih
      | read srcAddr size =>
          have hkeep : KeepsRam ((WlOp.read srcAddr size).exec d) := keepsRam_read d srcAddr size
          rw [hkeep r img]
          exact ih
      | flush =>
          have hexec : Wp _ (WlOp.flush.exec d) _ r img := wp_exec g ih trivial
          obtain ⟨⟨_, -, -, hmounted, -⟩, -⟩ := hexec
          exact hmounted

/-- In every state of a device in use, and for every range inside the device, `read` and `write` access exactly the bytes
that hold the range if and only if the range is contiguous. -/
theorem access_home_iff {cfg : WlConfig} {p : Partition} {mallocOk : Bool} {r₀ : WlRam} (ha : Aligned cfg p)
    (hcfg : config cfg p mallocOk = .ok (d, r₀)) (hreach : Reachable d r img) {addr size : UInt32}
    (h : Inside d addr.toNat size.toNat) :
    (ReadsHome d r addr size ∧ WritesHome d r addr size) ↔ Contiguous d r.state addr.toNat size.toNat := by
  have g := config_geometry ha hcfg
  exact g.access_iff (hreach.mounted_of g) h

end Reachable

/-! ## A range that is split in the wrong places -/

/-- Two pages of 64 bytes, moved at every erase. -/
def twoPages : WlConfig := ⟨0, 896, 64, 64, 1, 16, 2, 32, 0⟩

def twoPagesPartition : Partition := ⟨896, 64⟩

def twoPagesDevice : WlDevice := twoPages.adopt.layout twoPagesPartition

theorem aligned_twoPages : Aligned twoPages twoPagesPartition where
  sector_pos := by decide
  eraseSize := rfl
  start_dvd := by decide
  size_dvd := by decide
  page_dvd := by decide
  in_partition := by decide
  buffer := by decide
  fits := by decide

theorem fresh_twoPages : Fresh twoPagesDevice erasedFlash := ⟨by decide +kernel, by decide +kernel, by decide +kernel⟩

/-- A new device. -/
def twoPagesNew : WlRam × Image := after (twoPagesDevice.init 77) (tinyRam, erasedFlash)

theorem reachable_new (d : WlDevice) {rand : UInt32} {r : WlRam} {img : Image} (htemp : r.tempBuff.length = d.temp)
    (hfresh : Fresh d img) (y : WlRam × Image) (hy : y = after (d.init rand) (r, img)) : Reachable d y.1 y.2 := by
  subst hy
  exact .mounted rand htemp hfresh

theorem reachable_after (d : WlDevice) {op : WlOp} (hop : op.Inside d) {x : WlRam × Image} (h : Reachable d x.1 x.2)
    (y : WlRam × Image) (hy : y = after (op.exec d) x) : Reachable d y.1 y.2 := by
  subst hy
  exact .op op hop h

/-- On a new device the second page lies behind the first one. -/
theorem access_home_iff_twoPages : ReadsHome twoPagesDevice twoPagesNew.1 32 64 := by
  have hcfg : config twoPages twoPagesPartition true = .ok (twoPagesDevice, tinyRam) := rfl
  have hreach := reachable_new twoPagesDevice (by rfl) fresh_twoPages twoPagesNew rfl
  have hin : Inside twoPagesDevice (32 : UInt32).toNat (64 : UInt32).toNat := ⟨by decide, by decide⟩
  have hcont : Contiguous twoPagesDevice twoPagesNew.1.state 32 64 := by
    right
    intro l h1 h2
    have hpage : twoPagesDevice.page = 64 := by decide
    rw [hpage] at h1 h2
    obtain rfl : l = 0 := by omega
    decide +kernel
  exact ((access_home_iff aligned_twoPages hcfg hreach hin).mpr hcont).1

/-- The same device after its dummy page has moved once: it now lies between the two pages. -/
def twoPagesMoved : WlRam × Image := after (WlOp.flush.exec twoPagesDevice) twoPagesNew

/-- An access of 64 bytes from the middle of the first page does not reach the second page. -/
theorem access_misses_home : config twoPages twoPagesPartition true = .ok (twoPagesDevice, tinyRam) ∧
    Reachable twoPagesDevice twoPagesMoved.1 twoPagesMoved.2 ∧
    Inside twoPagesDevice (32 : UInt32).toNat (64 : UInt32).toNat ∧
    ¬ReadsHome twoPagesDevice twoPagesMoved.1 32 64 ∧ ¬WritesHome twoPagesDevice twoPagesMoved.1 32 64 := by
  have hflush : WlOp.flush.Inside twoPagesDevice := trivial
  have hreach : Reachable twoPagesDevice twoPagesMoved.1 twoPagesMoved.2 :=
    reachable_after twoPagesDevice hflush (reachable_new twoPagesDevice (by rfl) fresh_twoPages twoPagesNew rfl) _ rfl
  refine ⟨rfl, hreach, ⟨by decide, by decide⟩, ?_, ?_⟩
  · intro h
    -- each byte of this flash is its own address
    have hread : (twoPagesDevice.read 32 64 twoPagesMoved.1 fun q => .ofNat q).result ≠ .ok ((List.range 64).map
      fun k => .ofNat (twoPagesDevice.home twoPagesMoved.1.state (32 + k))) := by decide +kernel
    exact hread (h _)
  · intro h
    have hbyte := (h erasedFlash (List.replicate 64 0) rfl).2.home 32 (by decide)
    have hwrite : (twoPagesDevice.write 32 (List.replicate 64 0)).flash twoPagesMoved.1 erasedFlash
      (twoPagesDevice.home twoPagesMoved.1.state (32 + 32)) ≠ 0xFF &&& 0 := by decide +kernel
    exact hwrite hbyte

end EspIdf.WearLevelling
