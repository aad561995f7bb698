import EspIdf.WearLevelling.Geometry

/-!
# What each step of the driver does

One rule for each step, for any condition `C` on the images a power cut can leave.

* `wp_partitionRead`, `wp_partitionWrite`, `wp_partitionErase` : accesses inside the partition;
* `wp_moveBlock` : the dummy page becomes a copy of the next page, and nothing else changes;
* `wp_markPos` : a position record is programmed;
* `wp_writeHeaders` : both copies of the state are erased and rewritten;
* `wp_recoverPosFrom` : the recovered position is one the device can be in.
-/

namespace EspIdf.WearLevelling

open Word32 Crc32 NorFlash

variable {C : Image → Prop} {r : WlRam} {img : Image}

/-! ## The partition -/

theorem wp_inBounds {p : Partition} {offset size : UInt32} {Q : Unit → WlRam → Image → Prop} (hC : C img)
    (h : offset.toNat + size.toNat ≤ p.size.toNat) (hQ : Q () r img) : Wp C (p.inBounds offset size) Q r img := by
  have hoff : ¬p.size < offset := by
    rw [UInt32.lt_iff_toNat_lt]
    omega
  have hsize : ¬p.size - offset < size := by
    rw [UInt32.lt_iff_toNat_lt, toNat_sub_of_le (by omega)]
    omega
  unfold Partition.inBounds
  rw [if_neg hoff, if_neg hsize]
  exact wp_pure hC hQ

theorem wp_partitionRead {p : Partition} {offset size : UInt32} {Q : List UInt8 → WlRam → Image → Prop} (hC : C img)
    (h : offset.toNat + size.toNat ≤ p.size.toNat) (hQ : Q (readBytes img offset.toNat size.toNat) r img) :
    Wp C (p.read offset size) Q r img := by
  unfold Partition.read
  apply wp_bind
  apply wp_inBounds hC h
  exact wp_readFlash hC hQ

theorem wp_partitionWrite {p : Partition} {offset : UInt32} {bytes : List UInt8} {Q : Unit → WlRam → Image → Prop}
    (h : offset.toNat + bytes.length ≤ p.size.toNat)
    (hC : ∀ k, C (program img offset.toNat (bytes.take k))) (hQ : Q () r (program img offset.toNat bytes)) :
    Wp C (p.write offset bytes) Q r img := by
  have hlt := p.size.toNat_lt
  have h0 : C img := by
    have e := hC 0
    rwa [List.take_zero, program_nil] at e
  have hall : C (program img offset.toNat bytes) := by
    have e := hC bytes.length
    rwa [List.take_length] at e
  unfold Partition.write
  apply wp_bind
  apply wp_inBounds h0 (by rw [toNat_ofNat_of_lt (by omega)]; exact h)
  exact wp_issue hC ⟨hall, hQ⟩

theorem wp_partitionErase {p : Partition} {offset size : UInt32} {Q : Unit → WlRam → Image → Prop}
    (h : offset.toNat + size.toNat ≤ p.size.toNat) (ho : p.eraseSize.toNat ∣ offset.toNat)
    (hs : p.eraseSize.toNat ∣ size.toNat) (hC : ∀ k ≤ size.toNat, C (eraseRange img offset.toNat k))
    (hQ : Q () r (eraseRange img offset.toNat size.toNat)) : Wp C (p.eraseRange offset size) Q r img := by
  have h0 : C img := by
    have e := hC 0 (Nat.zero_le _)
    rwa [eraseRange_zero] at e
  have mod_zero : ∀ {a : UInt32}, p.eraseSize.toNat ∣ a.toNat → a % p.eraseSize = 0 := by
    intro a ha
    apply UInt32.toNat_inj.mp
    rw [UInt32.toNat_mod, Nat.mod_eq_zero_of_dvd ha]
    rfl
  unfold Partition.eraseRange
  apply wp_bind
  apply wp_inBounds h0 h
  rw [if_neg (not_not.mpr (mod_zero hs)), if_neg (not_not.mpr (mod_zero ho))]
  exact wp_issue (fun k => hC _ (Nat.min_le_right _ _)) ⟨hC _ le_rfl, hQ⟩

theorem wp_setState {f : WlState → WlState} {Q : Unit → WlRam → Image → Prop} (hC : C img)
    (hQ : Q () { r with state := f r.state } img) : Wp C (setState f) Q r img :=
  wp_modifyRam hC hQ

/-- The header read from the copy at `addr`. -/
def stateAt (addr : UInt32) (img : Image) : WlState := WlState.ofBytes (readBytes img addr.toNat 64)

theorem wp_readState {d : WlDevice} {addr : UInt32} {Q : WlState → WlRam → Image → Prop} (hC : C img)
    (h : addr.toNat + 64 ≤ d.partition.size.toNat) (hQ : Q (stateAt addr img) r img) :
    Wp C (d.readState addr) Q r img := by
  unfold WlDevice.readState
  apply wp_bind
  apply wp_partitionRead hC h
  exact wp_pure hC hQ

/-- The buffer after `bytes` were read into it. -/
def intoTemp (bytes : List UInt8) (r : WlRam) : WlRam :=
  { r with tempBuff := bytes ++ r.tempBuff.drop bytes.length }

theorem intoTemp_length {bytes : List UInt8} (h : bytes.length ≤ r.tempBuff.length) :
    (intoTemp bytes r).tempBuff.length = r.tempBuff.length := by
  simp only [intoTemp, List.length_append, List.length_drop]
  omega

theorem wp_readTemp {d : WlDevice} {addr size : UInt32} {Q : Unit → WlRam → Image → Prop} (hC : C img)
    (h : addr.toNat + size.toNat ≤ d.partition.size.toNat)
    (hQ : Q () (intoTemp (readBytes img addr.toNat size.toNat) r) img) : Wp C (d.readTemp addr size) Q r img := by
  unfold WlDevice.readTemp
  apply wp_bind
  apply wp_partitionRead hC h
  exact wp_modifyRam hC hQ

theorem wp_writeTemp {d : WlDevice} {addr size : UInt32} {Q : Unit → WlRam → Image → Prop}
    (hlen : size.toNat ≤ r.tempBuff.length) (h : addr.toNat + size.toNat ≤ d.partition.size.toNat)
    (hC : ∀ k, C (program img addr.toNat ((r.tempBuff.take size.toNat).take k)))
    (hQ : Q () r (program img addr.toNat (r.tempBuff.take size.toNat))) : Wp C (d.writeTemp addr size) Q r img := by
  have h0 : C img := by
    have e := hC 0
    rwa [List.take_zero, program_nil] at e
  unfold WlDevice.writeTemp
  apply wp_bind
  apply wp_getRam h0
  exact wp_partitionWrite (by rw [List.length_take]; omega) hC hQ

/-! ## Moving a page -/

/-- `len` bytes from `src` copied to `dst`. -/
def copyRange (img : Image) (dst src len : Nat) : Image := fun a =>
  if dst ≤ a ∧ a < dst + len then img (a - dst + src) else img a

/-- Two images agree outside `len` bytes from `addr`. -/
def AgreeOutside (addr len : Nat) (img img' : Image) : Prop := ∀ a, a < addr ∨ addr + len ≤ a → img' a = img a

/-- Where `moveBlock` is after `i` pieces: they are copied, the rest of the page is erased. -/
structure Moving (img : Image) (dst src piece page i : Nat) (img' : Image) : Prop where
  copied : ∀ a, dst ≤ a → a < dst + i * piece → img' a = img (a - dst + src)
  erased : ∀ a, dst + i * piece ≤ a → a < dst + page → img' a = 0xFF
  outside : AgreeOutside dst page img img'

theorem Moving.start (img : Image) (dst src piece page : Nat) :
    Moving img dst src piece page 0 (eraseRange img dst page) where
  copied := fun a h h' => by omega
  erased := fun a h h' => eraseRange_in (by omega) h'
  outside := fun a h => eraseRange_out h

/-- The bytes of the next piece, programmed up to any point, stay inside the page. -/
theorem Moving.program_outside {dst src piece page i : Nat} {img' : Image} (h : Moving img dst src piece page i img')
    (hi : (i + 1) * piece ≤ page) {bytes : List UInt8} (hb : bytes.length ≤ piece) :
    AgreeOutside dst page img (program img' (dst + i * piece) bytes) := by
  intro a ha
  rw [Nat.add_mul] at hi
  rw [program_out (by omega)]
  exact h.outside a ha

theorem Moving.next {dst src piece page i : Nat} {img' : Image} (h : Moving img dst src piece page i img')
    (hi : (i + 1) * piece ≤ page) (hdisj : src + page ≤ dst ∨ dst + page ≤ src) :
    Moving img dst src piece page (i + 1)
      (program img' (dst + i * piece) (readBytes img' (src + i * piece) piece)) := by
  have hsucc : (i + 1) * piece = i * piece + piece := by rw [Nat.add_mul, Nat.one_mul]
  refine ⟨?_, ?_, h.program_outside hi (by rw [readBytes_length])⟩
  · intro a h1 h2
    by_cases hold : a < dst + i * piece
    · rw [program_out (Or.inl hold)]
      exact h.copied a h1 hold
    · rw [program_in (by omega) (by rw [readBytes_length]; omega), h.erased a (by omega) (by omega), and_allOnes,
        readBytes_getD (by omega), h.outside _ (by omega)]
      congr 1
      omega
  · intro a h1 h2
    rw [program_out (by rw [readBytes_length]; omega)]
    exact h.erased a (by omega) h2

theorem Moving.done {dst src piece page i : Nat} {img' : Image} (h : Moving img dst src piece page i img')
    (hi : i * piece = page) : img' = copyRange img dst src page := by
  funext a
  unfold copyRange
  split_ifs with ha
  · exact h.copied a ha.1 (by omega)
  · exact h.outside a (by omega)

/-- The address of physical page `q`. -/
def WlDevice.pageAddr (d : WlDevice) (q : Nat) : Nat := d.start + q * d.page

section Page
variable {d : WlDevice}

theorem Geometry.pageAddr_le (g : Geometry d) {q : Nat} (hq : q ≤ d.pages) :
    d.pageAddr q + d.page ≤ d.addrState1.toNat := by
  have h := g.data_le
  have h' := Nat.mul_le_mul_right d.page hq
  rw [Nat.add_mul] at h
  unfold WlDevice.pageAddr
  omega

theorem Geometry.state1_le (g : Geometry d) : d.addrState1.toNat + d.stateSize.toNat ≤ d.partition.size.toNat := by
  have h := g.end_le
  have h1 := g.cfg_eq
  have h2 := g.state2_eq
  omega

theorem pageAddr_disjoint {q q' : Nat} (h : q ≠ q') :
    d.pageAddr q + d.page ≤ d.pageAddr q' ∨ d.pageAddr q' + d.page ≤ d.pageAddr q := by
  unfold WlDevice.pageAddr
  rcases Nat.lt_or_gt_of_ne h with hlt | hgt
  · left
    have := Nat.mul_le_mul_right d.page (Nat.succ_le_of_lt hlt)
    rw [Nat.succ_mul] at this
    omega
  · right
    have := Nat.mul_le_mul_right d.page (Nat.succ_le_of_lt hgt)
    rw [Nat.succ_mul] at this
    omega

theorem Geometry.dvd_pageAddr (g : Geometry d) (q : Nat) : d.partition.eraseSize.toNat ∣ d.pageAddr q := by
  rw [g.eraseSize]
  exact Nat.dvd_add g.start_dvd (Dvd.dvd.mul_left g.page_dvd q)

theorem Geometry.pieces (g : Geometry d) :
    (d.cfg.wlPageSize / d.cfg.wlTempBuffSize).toNat * d.temp = d.page := by
  rw [UInt32.toNat_div]
  exact Nat.div_mul_cancel (dvd_trans g.temp_dvd g.page_dvd)

/-- What holds of RAM and flash after `i` pieces. -/
def MoveInv (d : WlDevice) (r : WlRam) (img : Image) (q q' i : Nat) (r' : WlRam) (img' : Image) : Prop :=
  (∃ t, t.length = d.temp ∧ r' = { r with tempBuff := t }) ∧
    Moving img (d.pageAddr q) (d.pageAddr q') d.temp d.page i img'

theorem wp_movePiece (g : Geometry d) {src dst : UInt32} {q q' i : Nat} {r' : WlRam} {img' : Image}
    (hq : q ≤ d.pages) (hq' : q' ≤ d.pages) (hne : q ≠ q') (hdst : dst.toNat = d.pageAddr q)
    (hsrc : src.toNat = d.pageAddr q') (hi : (i + 1) * d.temp ≤ d.page)
    (hC : ∀ img', AgreeOutside (d.pageAddr q) d.page img img' → C img') (h : MoveInv d r img q q' i r' img') :
    Wp C (d.movePiece src dst i) (fun _ => MoveInv d r img q q' (i + 1)) r' img' := by
  obtain ⟨⟨t, ht, rfl⟩, hmov⟩ := h
  have hend := g.state1_le
  have hle := g.pageAddr_le hq
  have hle' := g.pageAddr_le hq'
  have hsize := d.partition.size.toNat_lt
  have hpiece : i * d.temp + d.temp ≤ d.page := by rwa [Nat.add_mul, Nat.one_mul] at hi
  have hoff : (UInt32.ofNat i * d.cfg.wlTempBuffSize).toNat = i * d.temp := by
    have htp := g.temp_ge
    have hi32 := Nat.le_mul_of_pos_right i (show 0 < d.temp by omega)
    rw [toNat_mul_of_lt (by rw [toNat_ofNat_of_lt (by omega)]; change i * d.temp < _; omega),
      toNat_ofNat_of_lt (by omega)]
    rfl
  have hread : (src + UInt32.ofNat i * d.cfg.wlTempBuffSize).toNat = d.pageAddr q' + i * d.temp := by
    rw [toNat_add_of_lt (by rw [hoff, hsrc]; omega), hoff, hsrc]
  have hwrite : (dst + UInt32.ofNat i * d.cfg.wlTempBuffSize).toNat = d.pageAddr q + i * d.temp := by
    rw [toNat_add_of_lt (by rw [hoff, hdst]; omega), hoff, hdst]
  unfold WlDevice.movePiece
  apply wp_bind
  apply wp_readTemp (hC _ hmov.outside) (by rw [hread]; change _ + d.temp ≤ _; omega)
  rw [hread]
  change Wp C _ _ (intoTemp (readBytes img' (d.pageAddr q' + i * d.temp) d.temp) { r with tempBuff := t }) img'
  have hbytes : (intoTemp (readBytes img' (d.pageAddr q' + i * d.temp) d.temp) { r with tempBuff := t }).tempBuff =
      readBytes img' (d.pageAddr q' + i * d.temp) d.temp := by
    simp [intoTemp, ← ht]
  have hlen : (readBytes img' (d.pageAddr q' + i * d.temp) d.temp).length = d.temp := readBytes_length _ _ _
  apply wp_writeTemp
  · rw [hbytes, hlen]
    exact le_rfl
  · rw [hwrite]
    change _ + d.temp ≤ _
    omega
  · intro k
    rw [hbytes, hwrite]
    apply hC
    apply hmov.program_outside hi
    simp
  · have hle : (readBytes img' (d.pageAddr q' + i * d.temp) d.temp).length ≤ d.cfg.wlTempBuffSize.toNat :=
      le_of_eq hlen
    rw [hbytes, hwrite, List.take_of_length_le hle]
    refine ⟨⟨_, ?_, rfl⟩, hmov.next hi (pageAddr_disjoint hne).symm⟩
    exact (congrArg List.length hbytes).trans hlen

/-- The dummy page becomes a copy of the data page; on the way only the dummy page changes. -/
theorem wp_moveBlock (g : Geometry d) {src dst : UInt32} {q q' : Nat} (hq : q ≤ d.pages) (hq' : q' ≤ d.pages)
    (hne : q ≠ q') (hdst : dst.toNat = d.pageAddr q) (hsrc : src.toNat = d.pageAddr q')
    (htemp : r.tempBuff.length = d.temp) {Q : Unit → WlRam → Image → Prop}
    (hC : ∀ img', AgreeOutside (d.pageAddr q) d.page img img' → C img')
    (hQ : ∀ t, t.length = d.temp → Q () { r with tempBuff := t }
      (copyRange img (d.pageAddr q) (d.pageAddr q') d.page)) :
    Wp C (d.moveBlock src dst) Q r img := by
  have hend := g.state1_le
  have hle := g.pageAddr_le hq
  have hpieces := g.pieces
  unfold WlDevice.moveBlock
  apply wp_bind
  apply wp_partitionErase
  · rw [hdst]
    change d.pageAddr q + d.page ≤ _
    omega
  · rw [hdst]
    exact g.dvd_pageAddr q
  · rw [g.eraseSize]
    exact g.page_dvd
  · intro k hk
    apply hC
    intro a ha
    rw [hdst]
    change k ≤ d.page at hk
    exact eraseRange_out (by omega)
  · have hstart : MoveInv d r img q q' 0 r (eraseRange img dst.toNat d.cfg.wlPageSize.toNat) := by
      refine ⟨⟨r.tempBuff, htemp, rfl⟩, ?_⟩
      rw [hdst]
      exact Moving.start _ _ _ _ _
    refine wp_mono (wp_loop (MoveInv d r img q q') ?_ ?_ hstart) ?_
    · intro i r' img' hi h
      refine wp_movePiece g hq hq' hne hdst hsrc ?_ hC h
      rw [← hpieces]
      exact Nat.mul_le_mul_right _ hi
    · rintro _ img' ⟨-, hmov⟩
      exact hC _ hmov.outside
    · rintro _ _ img' ⟨⟨t, ht, rfl⟩, hmov⟩
      rw [hmov.done hpieces]
      exact hQ t ht

end Page

/-! ## Headers and position records -/

theorem WlState.bytes_length (s : WlState) : s.bytes.length = 64 := by
  unfold WlState.bytes
  rw [flatMap_leBytes_length]
  simp [WlState.wordsV2, WlState.wordsV1]

section State
variable {d : WlDevice}

/-- The two copies of the state, and where they lie. -/
structure StateCopy (d : WlDevice) (addr : UInt32) : Prop where
  ge : d.addrState1.toNat ≤ addr.toNat
  le : addr.toNat + d.stateSize.toNat ≤ d.partition.size.toNat
  dvd : d.sector ∣ addr.toNat

theorem Geometry.copy1 (g : Geometry d) : StateCopy d d.addrState1 :=
  ⟨le_rfl, g.state1_le, g.state1_dvd⟩

theorem Geometry.copy2 (g : Geometry d) : StateCopy d d.addrState2 := by
  have h := g.end_le
  have h1 := g.cfg_eq
  have h2 := g.state2_eq
  refine ⟨by omega, by omega, ?_⟩
  rw [h2]
  exact Nat.dvd_add g.state1_dvd g.stateSize_dvd

theorem Geometry.header_le (g : Geometry d) : 64 ≤ d.stateSize.toNat := by
  have h := g.records_fit
  omega

/-- Position record `i` lies behind the header, inside its copy. -/
theorem Geometry.record_end (g : Geometry d) {i : Nat} (hi : i < d.recordCount.toNat) :
    64 + i * d.record + d.record ≤ d.stateSize.toNat := by
  have h := g.records_fit
  have h' := Nat.mul_le_mul_right d.record (Nat.succ_le_of_lt hi)
  rw [Nat.succ_mul] at h'
  omega

theorem Geometry.recordAddr_toNat (g : Geometry d) {addr : UInt32} (hc : StateCopy d addr) {i : Nat}
    (hi : i < d.recordCount.toNat) :
    (d.recordAddr addr (.ofNat i)).toNat = addr.toNat + 64 + i * d.record := by
  have hend := g.record_end hi
  have hle := hc.le
  have hsize := d.partition.size.toNat_lt
  have hlt := d.recordCount.toNat_lt
  have h64 : stateHeader.toNat = 64 := rfl
  have hi32 : (UInt32.ofNat i).toNat = i := toNat_ofNat_of_lt (by omega)
  have hmul : (UInt32.ofNat i * d.cfg.wlPosUpdateRecordSize).toNat = i * d.record := by
    rw [toNat_mul_of_lt (by rw [hi32]; change i * d.record < _; omega), hi32]
    rfl
  have hadd : (addr + stateHeader).toNat = addr.toNat + 64 := by
    rw [toNat_add_of_lt (by rw [h64]; omega), h64]
  unfold WlDevice.recordAddr
  rw [toNat_add_of_lt (by rw [hmul, hadd]; omega), hmul, hadd]

theorem fillOkBuff_length {n : UInt32} (h : 16 ≤ r.tempBuff.length) :
    (fillOkBuff n r).tempBuff.length = r.tempBuff.length := by
  have h16 : ((okWords r.state.wlDeviceId n).flatMap leBytes).length = 16 := by
    rw [flatMap_leBytes_length]
    rfl
  simp only [fillOkBuff, List.length_append, List.length_drop, h16]
  omega

/-- The bytes of position record `n`. -/
def recordBytes (d : WlDevice) (n : UInt32) (r : WlRam) : List UInt8 := (fillOkBuff n r).tempBuff.take d.record

theorem wp_markPos (g : Geometry d) {addr : UInt32} (hc : StateCopy d addr) {n : Nat} (hn : n < d.recordCount.toNat)
    (htemp : r.tempBuff.length = d.temp) {Q : Unit → WlRam → Image → Prop}
    (hC : ∀ k, C (program img (addr.toNat + 64 + n * d.record) ((recordBytes d (.ofNat n) r).take k)))
    (hQ : Q () (fillOkBuff (.ofNat n) r) (program img (addr.toNat + 64 + n * d.record) (recordBytes d (.ofNat n) r))) :
    Wp C (d.markPos addr (.ofNat n)) Q r img := by
  have haddr := g.recordAddr_toNat hc hn
  have hend := g.record_end hn
  have hle := hc.le
  have hrec := g.record_le
  have h0 : C img := by
    have e := hC 0
    rwa [List.take_zero, program_nil] at e
  unfold WlDevice.markPos
  apply wp_bind
  apply wp_modifyRam h0
  apply wp_writeTemp
  · rw [fillOkBuff_length (by rw [htemp]; exact g.temp_ge), htemp]
    exact hrec
  · rw [haddr]
    change _ + d.record ≤ _
    omega
  · intro k
    rw [haddr]
    exact hC k
  · rw [haddr]
    exact hQ

/-- Erase the copy at `addr` and write header `s` there. -/
def rewriteCopy (d : WlDevice) (addr : UInt32) (s : WlState) (img : Image) : Image :=
  program (eraseRange img addr.toNat d.stateSize.toNat) addr.toNat s.bytes

/-- The images a power cut can leave while a copy is rewritten. -/
inductive RewriteCut (d : WlDevice) (addr : UInt32) (s : WlState) (img : Image) : Image → Prop
  | erase (k : Nat) (hk : k ≤ d.stateSize.toNat) : RewriteCut d addr s img (eraseRange img addr.toNat k)
  | write (k : Nat) : RewriteCut d addr s img
      (program (eraseRange img addr.toNat d.stateSize.toNat) addr.toNat (s.bytes.take k))

theorem wp_rewriteCopy {β : Type} (g : Geometry d) {addr : UInt32} (hc : StateCopy d addr) {s : WlState}
    {f : Unit → WlProg β} {Q : β → WlRam → Image → Prop} (hC : ∀ img', RewriteCut d addr s img img' → C img')
    (hf : Wp C (f ()) Q r (rewriteCopy d addr s img)) :
    Wp C (d.partition.eraseRange addr d.stateSize >>= fun _ => d.partition.write addr s.bytes >>= f) Q r img := by
  have hle := hc.le
  have hhead := g.header_le
  apply wp_bind
  apply wp_partitionErase hle (by rw [g.eraseSize]; exact hc.dvd) (by rw [g.eraseSize]; exact g.stateSize_dvd)
  · exact fun k hk => hC _ (.erase k hk)
  · apply wp_bind
    apply wp_partitionWrite (by rw [WlState.bytes_length]; omega)
    · exact fun k => hC _ (.write k)
    · exact hf

theorem wp_writeHeaders (g : Geometry d) {Q : Unit → WlRam → Image → Prop}
    (hC1 : ∀ img', RewriteCut d d.addrState1 r.state img img' → C img')
    (hC2 : ∀ img', RewriteCut d d.addrState2 r.state (rewriteCopy d d.addrState1 r.state img) img' → C img')
    (hQ : Q () r (rewriteCopy d d.addrState2 r.state (rewriteCopy d d.addrState1 r.state img))) :
    Wp C d.writeHeaders Q r img := by
  have h0 : C img := by
    have e := hC1 _ (.erase 0 (Nat.zero_le _))
    rwa [eraseRange_zero] at e
  unfold WlDevice.writeHeaders
  apply wp_bind
  apply wp_getRam h0
  apply wp_rewriteCopy g g.copy1 hC1
  have hle := g.copy2.le
  have hhead := g.header_le
  apply wp_bind
  apply wp_partitionErase hle (by rw [g.eraseSize]; exact g.copy2.dvd) (by rw [g.eraseSize]; exact g.stateSize_dvd)
  · exact fun k hk => hC2 _ (.erase k hk)
  · apply wp_partitionWrite (by rw [WlState.bytes_length]; omega)
    · exact fun k => hC2 _ (.write k)
    · exact hQ

end State

/-! ## Moving the dummy page on -/

/-- The bytes of a full position record for the state's position. -/
def IsRecord (d : WlDevice) (s : WlState) (b : List UInt8) : Prop :=
  b.length = d.record ∧
    ∃ rest, b = ((okWords s.wlDeviceId s.wlDummySecPos).flatMap leBytes ++ rest).take d.record

/-- The state after the dummy page has moved on. -/
def WlState.advanced (s : WlState) : WlState :=
  if s.wlPartMaxSecPos ≤ s.wlDummySecPos + 1 then
    WlState.wrap { s with wlSecEraseCycleCount := 0, wlDummySecPos := s.wlDummySecPos + 1 }
  else { s with wlSecEraseCycleCount := 0, wlDummySecPos := s.wlDummySecPos + 1 }

/-- The flash once the dummy page holds the data of the next page. -/
def WlDevice.moved (d : WlDevice) (s : WlState) (img : Image) : Image :=
  copyRange img (d.pageAddr s.wlDummySecPos.toNat)
    (d.pageAddr (RotatingGap.nextGap d.pages s.wlDummySecPos.toNat)) d.page

/-- The flash once `b` is programmed as the record of position `n` in the copy at `addr`. -/
def WlDevice.mark (d : WlDevice) (addr : UInt32) (n : Nat) (b : List UInt8) (img : Image) : Image :=
  program img (addr.toNat + 64 + n * d.record) b

/-- The flash once both copies mark the position as passed. -/
def WlDevice.marked (d : WlDevice) (s : WlState) (b b' : List UInt8) (img : Image) : Image :=
  d.mark d.addrState2 s.wlDummySecPos.toNat b' (d.mark d.addrState1 s.wlDummySecPos.toNat b (d.moved s img))

/-- The dummy page is at the last position. -/
def WlDevice.AtEnd (d : WlDevice) (s : WlState) : Prop := s.wlDummySecPos.toNat = d.pages

/-- The images a power cut can leave while the data is moved and the records are written. -/
inductive MoveCut (d : WlDevice) (s : WlState) (img : Image) : Image → Prop
  | move {img' : Image} (h : AgreeOutside (d.pageAddr s.wlDummySecPos.toNat) d.page img img') : MoveCut d s img img'
  | mark1 {b : List UInt8} (hb : IsRecord d s b) (k : Nat) :
      MoveCut d s img (d.mark d.addrState1 s.wlDummySecPos.toNat (b.take k) (d.moved s img))
  | mark2 {b b' : List UInt8} (hb : IsRecord d s b) (hb' : IsRecord d s b') (k : Nat) :
      MoveCut d s img (d.marked s b (b'.take k) img)

/-- The images a power cut can leave while the dummy page moves on. -/
inductive AdvanceCut (d : WlDevice) (s : WlState) (img : Image) : Image → Prop
  | move {img' : Image} (h : MoveCut d s img img') : AdvanceCut d s img img'
  | header1 {b b' : List UInt8} {img' : Image} (hb : IsRecord d s b) (hb' : IsRecord d s b') (hend : d.AtEnd s)
      (h : RewriteCut d d.addrState1 s.advanced (d.marked s b b' img) img') : AdvanceCut d s img img'
  | header2 {b b' : List UInt8} {img' : Image} (hb : IsRecord d s b) (hb' : IsRecord d s b') (hend : d.AtEnd s)
      (h : RewriteCut d d.addrState2 s.advanced
        (rewriteCopy d d.addrState1 s.advanced (d.marked s b b' img)) img') : AdvanceCut d s img img'

/-- The image a completed move leaves. -/
def AdvanceDone (d : WlDevice) (s : WlState) (img img' : Image) : Prop :=
  ∃ b b', IsRecord d s b ∧ IsRecord d s b' ∧
    (d.AtEnd s ∧ img' = rewriteCopy d d.addrState2 s.advanced
      (rewriteCopy d d.addrState1 s.advanced (d.marked s b b' img)) ∨
    ¬d.AtEnd s ∧ img' = d.marked s b b' img)

section Advance
variable {d : WlDevice}

/-- The RAM between two steps of the interface. -/
structure Running (d : WlDevice) (r : WlRam) : Prop where
  inRange : r.state.InRange d
  tempLength : r.tempBuff.length = d.temp

theorem Geometry.pages_lt (g : Geometry d) : d.pages + 1 < 2 ^ 32 := by
  have h := g.data_lt
  have h' := Nat.le_mul_of_pos_right (d.pages + 1) g.page_pos
  omega

theorem Geometry.nextPos_toNat (g : Geometry d) {s : WlState} (hs : s.InRange d) :
    s.nextPos.toNat = RotatingGap.nextGap d.pages s.wlDummySecPos.toNat := by
  have hlt := g.pages_lt
  have hpos := hs.pos_le
  have h1 : (s.wlDummySecPos + 1).toNat = s.wlDummySecPos.toNat + 1 := toNat_add_of_lt (by change _ + 1 < _; omega)
  have hiff : s.wlPartMaxSecPos ≤ s.wlDummySecPos + 1 ↔ d.pages + 1 ≤ s.wlDummySecPos.toNat + 1 := by
    rw [UInt32.le_iff_toNat_le, h1, hs.maxPos]
  unfold WlState.nextPos RotatingGap.nextGap
  simp only [hiff]
  split_ifs
  · rfl
  · exact h1

theorem Geometry.atEnd_iff (g : Geometry d) {s : WlState} (hs : s.InRange d) :
    s.wlPartMaxSecPos ≤ s.wlDummySecPos + 1 ↔ d.AtEnd s := by
  have hlt := g.pages_lt
  have hpos := hs.pos_le
  have h1 : (s.wlDummySecPos + 1).toNat = s.wlDummySecPos.toNat + 1 := toNat_add_of_lt (by change _ + 1 < _; omega)
  unfold WlDevice.AtEnd
  rw [UInt32.le_iff_toNat_le, h1, hs.maxPos]
  omega

theorem Geometry.page_toNat (g : Geometry d) {q : UInt32} (hq : q.toNat ≤ d.pages) :
    (d.cfg.wlPartitionStartAddr + q * d.cfg.wlPageSize).toNat = d.pageAddr q.toNat := by
  have hle := g.pageAddr_le hq
  have hlt := d.addrState1.toNat_lt
  unfold WlDevice.pageAddr at hle ⊢
  have hmul : (q * d.cfg.wlPageSize).toNat = q.toNat * d.page :=
    toNat_mul_of_lt (by change q.toNat * d.page < _; omega)
  rw [toNat_add_of_lt (by rw [hmul]; change d.start + _ < _; omega), hmul]
  rfl

theorem isRecord_recordBytes (g : Geometry d) (htemp : r.tempBuff.length = d.temp) :
    IsRecord d r.state (recordBytes d r.state.wlDummySecPos r) := by
  have hrec := g.record_le
  refine ⟨?_, _, rfl⟩
  unfold recordBytes
  rw [List.length_take, fillOkBuff_length (by rw [htemp]; exact g.temp_ge), htemp]
  exact Nat.min_eq_left hrec

theorem Geometry.pos_lt (g : Geometry d) {s : WlState} (hs : s.InRange d) :
    s.wlDummySecPos.toNat < d.recordCount.toNat := by
  have h := g.pages_le
  have h' := hs.pos_le
  omega

theorem wp_moveDummy (g : Geometry d) (hr : Running d r) :
    Wp (MoveCut d r.state img) (d.moveDummy r.state) (fun _ r' img' =>
      (∃ t a, t.length = d.temp ∧ r' = { r with tempBuff := t, dummyAddr := a }) ∧
        ∃ b b', IsRecord d r.state b ∧ IsRecord d r.state b' ∧ img' = d.marked r.state b b' img) r img := by
  obtain ⟨hs, htemp⟩ := hr
  have hnext := g.nextPos_toNat hs
  have hnextLe : r.state.nextPos.toNat ≤ d.pages := by
    rw [hnext]
    exact RotatingGap.nextGap_le hs.pos_le
  have hne : r.state.wlDummySecPos.toNat ≠ r.state.nextPos.toNat := by
    rw [hnext]
    exact (RotatingGap.nextGap_ne g.pages_pos hs.pos_le).symm
  have hpos := g.pos_lt hs
  have hofNat : UInt32.ofNat r.state.wlDummySecPos.toNat = r.state.wlDummySecPos := UInt32.ofNat_toNat
  have hmark : ∀ {addr : UInt32} {r' : WlRam} {img' : Image} {Q : Unit → WlRam → Image → Prop},
      StateCopy d addr → r'.state = r.state → r'.tempBuff.length = d.temp →
      (∀ b, IsRecord d r.state b → ∀ k, MoveCut d r.state img (d.mark addr r.state.wlDummySecPos.toNat (b.take k) img')) →
      (∀ b t, IsRecord d r.state b → t.length = d.temp →
        Q () { r' with tempBuff := t } (d.mark addr r.state.wlDummySecPos.toNat b img')) →
      Wp (MoveCut d r.state img) ((d.markPos addr r.state.wlDummySecPos).onError retryMove) Q r' img' := by
    intro addr r' img' Q hc hstate ht hcut hQ
    have hrec := isRecord_recordBytes g ht
    rw [hstate] at hrec
    apply wp_onError
    rw [← hofNat]
    refine wp_markPos g hc hpos ht ?_ ?_
    · rw [hofNat]
      exact hcut _ hrec
    · rw [hofNat]
      exact hQ _ _ hrec ((fillOkBuff_length (by rw [ht]; exact g.temp_ge)).trans ht)
  unfold WlDevice.moveDummy
  apply wp_bind
  apply wp_modifyRam (.move fun _ _ => rfl)
  apply wp_bind
  apply wp_onError
  refine wp_moveBlock g hs.pos_le hnextLe hne (g.page_toNat hs.pos_le) (g.page_toNat hnextLe) (by exact htemp)
    (fun img' h => MoveCut.move h) ?_
  intro t ht
  rw [hnext]
  apply wp_bind
  refine hmark g.copy1 rfl ht (fun b hb k => .mark1 hb k) ?_
  intro b t' hb ht'
  refine hmark g.copy2 rfl ht' (fun b' hb' k => .mark2 hb hb' k) ?_
  intro b' t'' hb' ht''
  exact ⟨⟨t'', _, ht'', rfl⟩, b, b', hb, hb', rfl⟩

/-! The count of erases plays no part in a move. -/

theorem IsRecord.of_count {s : WlState} {n : UInt32} {b : List UInt8}
    (h : IsRecord d { s with wlSecEraseCycleCount := n } b) : IsRecord d s b := h

theorem MoveCut.of_count {s : WlState} {n : UInt32} {img' : Image}
    (h : MoveCut d { s with wlSecEraseCycleCount := n } img img') : MoveCut d s img img' := by
  cases h with
  | move h => exact .move h
  | mark1 hb k => exact .mark1 hb.of_count k
  | mark2 hb hb' k => exact .mark2 hb.of_count hb'.of_count k

theorem AdvanceCut.of_count {s : WlState} {n : UInt32} {img' : Image}
    (h : AdvanceCut d { s with wlSecEraseCycleCount := n } img img') : AdvanceCut d s img img' := by
  cases h with
  | move h => exact .move h.of_count
  | header1 hb hb' hend h => exact .header1 hb.of_count hb'.of_count hend h
  | header2 hb hb' hend h => exact .header2 hb.of_count hb'.of_count hend h

theorem Running.of_count (h : Running d r) (n : UInt32) :
    Running d { r with state := { r.state with wlSecEraseCycleCount := n } } :=
  ⟨⟨h.inRange.maxPos, h.inRange.pos_le, h.inRange.moveCount_lt⟩, h.tempLength⟩

/-- What `updateWL` does to RAM and flash when it moves the dummy page. -/
theorem wp_advance (g : Geometry d) (hr : Running d r) :
    Wp (AdvanceCut d r.state img) d.advance (fun _ r' img' =>
      (∃ t a, t.length = d.temp ∧ r' = { r with state := r.state.advanced, tempBuff := t, dummyAddr := a }) ∧
        AdvanceDone d r.state img img') r img := by
  have h0 : AdvanceCut d r.state img img := .move (.move fun _ _ => rfl)
  have hiff := g.atEnd_iff hr.inRange
  have hr0 := hr.of_count 0
  unfold WlDevice.advance
  apply wp_bind
  apply wp_setState h0
  apply wp_bind
  apply wp_getRam h0
  apply wp_bind
  refine wp_mono (wp_crash_final (wp_crash_mono (wp_moveDummy g hr0) fun img' h => .move h.of_count)) ?_
  rintro _ _ _ ⟨hcut, ⟨t, a, ht, rfl⟩, b, b', hb, hb', rfl⟩
  unfold WlDevice.stepPos
  apply wp_bind
  apply wp_setState hcut
  apply wp_bind
  apply wp_getRam hcut
  by_cases hend : r.state.wlPartMaxSecPos ≤ r.state.wlDummySecPos + 1
  · have hadv : r.state.advanced =
        WlState.wrap { r.state with wlSecEraseCycleCount := 0, wlDummySecPos := r.state.wlDummySecPos + 1 } :=
      if_pos hend
    rw [if_pos hend]
    apply wp_bind
    apply wp_setState hcut
    apply wp_writeHeaders g
    · exact fun img' h => .header1 hb hb' (hiff.mp hend) (by rw [hadv]; exact h)
    · exact fun img' h => .header2 hb hb' (hiff.mp hend) (by rw [hadv]; exact h)
    · exact ⟨⟨t, a, ht, by rw [hadv]⟩, b, b', hb, hb', Or.inl ⟨hiff.mp hend, by rw [hadv]; rfl⟩⟩
  · have hadv : r.state.advanced =
        { r.state with wlSecEraseCycleCount := 0, wlDummySecPos := r.state.wlDummySecPos + 1 } := if_neg hend
    rw [if_neg hend]
    apply wp_pure hcut
    exact ⟨⟨t, a, ht, by rw [hadv]⟩, b, b', hb, hb', Or.inr ⟨fun h => hend (hiff.mpr h), rfl⟩⟩

/-- What `updateWL` does: it counts the erase, or moves the dummy page on. -/
inductive UpdateDone (d : WlDevice) (r : WlRam) (img : Image) (r' : WlRam) (img' : Image) : Prop
  | count (n : UInt32) (hram : r' = { r with state := { r.state with wlSecEraseCycleCount := n } }) (himg : img' = img)
  | advance (t : List UInt8) (a : UInt32) (ht : t.length = d.temp)
      (hram : r' = { r with state := r.state.advanced, tempBuff := t, dummyAddr := a })
      (hdone : AdvanceDone d r.state img img')

theorem wp_updateWL (g : Geometry d) (hr : Running d r) :
    Wp (AdvanceCut d r.state img) d.updateWL (fun _ r' img' => UpdateDone d r img r' img') r img := by
  have h0 : AdvanceCut d r.state img img := .move (.move fun _ _ => rfl)
  unfold WlDevice.updateWL
  apply wp_bind
  apply wp_setState h0
  apply wp_bind
  apply wp_getRam h0
  split
  · exact wp_pure h0 (.count _ rfl rfl)
  · have hcount := hr.of_count (r.state.wlSecEraseCycleCount + 1)
    refine wp_mono (wp_crash_mono (wp_advance g hcount) fun img' h => h.of_count) ?_
    rintro _ _ img' ⟨⟨t, a, ht, rfl⟩, b, b', hb, hb', hdone⟩
    exact .advance t a ht rfl ⟨b, b', hb, hb', hdone⟩

theorem wp_flush (g : Geometry d) (hr : Running d r) :
    Wp (AdvanceCut d r.state img) d.flush (fun _ r' img' => UpdateDone d r img r' img') r img := by
  have h0 : AdvanceCut d r.state img img := .move (.move fun _ _ => rfl)
  unfold WlDevice.flush retryMove
  apply wp_bind
  apply wp_setState h0
  have hcount := hr.of_count (r.state.wlMaxSecEraseCycleCount - 1)
  refine wp_mono (wp_crash_mono (wp_updateWL g hcount) fun img' h => h.of_count) ?_
  rintro _ r' img' h
  cases h with
  | count n hram himg => exact .count n hram himg
  | advance t a ht hram hdone =>
      obtain ⟨b, b', hb, hb', hdone⟩ := hdone
      exact .advance t a ht hram ⟨b, b', hb, hb', hdone⟩

end Advance

end EspIdf.WearLevelling
