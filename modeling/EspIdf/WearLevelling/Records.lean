import EspIdf.WearLevelling.Access

/-!
# Headers and position records on flash

* `WlState.hdr s mc` : the header the instance of `s` writes in round `mc`; `ofBytes_bytes`, `bytes_ofBytes`;
* `WholeHeader` : a copy that passes its CRC holds one of these headers;
* `not_whole_of_erased`, `hdr_of_torn` : what an interrupted erase or write of a header leaves;
* `hdr_crc_inj` : headers of different rounds have different CRCs;
* `RecOk`, `SlotClean`, `SlotErased` : a record that marks its position, and slots on which it can be programmed.
-/

namespace EspIdf.WearLevelling

open Word32 Crc32 NorFlash

/-! ## Headers -/

/-- The header the instance of `s` writes in round `mc`. -/
def WlState.hdr (s : WlState) (mc : UInt32) : WlState :=
  let s := { s with wlDummySecPos := 0, wlDummySecMoveCount := mc, wlSecEraseCycleCount := 0 }
  { s with crc32 := s.crcV2 }

theorem hdr_crcOk (s : WlState) (mc : UInt32) : (s.hdr mc).CrcOk := rfl

theorem ofBytes_bytes (s : WlState) : WlState.ofBytes s.bytes = s := by
  unfold WlState.ofBytes WlState.bytes
  rw [wordsOf_flatMap]
  obtain ⟨pos, maxPos, mc, count, maxCount, block, version, id, reserved, crc⟩ := s
  have hres : ∀ i : Fin 7, (WlState.wordsV2 ⟨pos, maxPos, mc, count, maxCount, block, version, id, reserved, crc⟩ ++
      [crc]).getD (8 + i) 0 = reserved[i] := by
    intro i
    have hi := i.isLt
    simp only [WlState.wordsV2, WlState.wordsV1, List.getD_eq_getElem?_getD, List.cons_append, List.nil_append]
    rw [show 8 + (i : Nat) = (i : Nat) + 8 by omega]
    simp [List.getElem?_append, hi]
  have hcrc : (WlState.wordsV2 ⟨pos, maxPos, mc, count, maxCount, block, version, id, reserved, crc⟩ ++
      [crc]).getD 15 0 = crc := by
    simp [WlState.wordsV2, WlState.wordsV1, List.getD_eq_getElem?_getD]
  congr 1
  apply Vector.ext
  intro i hi
  rw [Vector.getElem_ofFn]
  exact hres ⟨i, hi⟩

/-- The words of a header, back from its fields. -/
theorem words_ofWords (ws : List UInt32) (h : ws.length = 16) :
    ([ws.getD 0 0, ws.getD 1 0, ws.getD 2 0, ws.getD 3 0, ws.getD 4 0, ws.getD 5 0, ws.getD 6 0] ++
      ws.getD 7 0 :: (Vector.ofFn fun i : Fin 7 => ws.getD (8 + i) 0).toList) ++ [ws.getD 15 0] = ws := by
  match ws, h with
  | [_, _, _, _, _, _, _, _, _, _, _, _, _, _, _, _], _ => rfl

theorem bytes_ofBytes {bs : List UInt8} (h : bs.length = 64) : (WlState.ofBytes bs).bytes = bs := by
  have hwords := words_ofWords (wordsOf bs) (wordsOf_length 16 bs h)
  unfold WlState.bytes WlState.wordsV2 WlState.wordsV1 WlState.ofBytes
  dsimp only
  rw [hwords]
  exact flatMap_wordsOf 16 bs h

/-- The header at `addr` is `s` when the bytes there are those of `s`. -/
theorem stateAt_eq_iff {addr : UInt32} {img : Image} {s : WlState} :
    stateAt addr img = s ↔ readBytes img addr.toNat 64 = s.bytes := by
  unfold stateAt
  constructor
  · rintro rfl
    rw [bytes_ofBytes (readBytes_length _ _ _)]
  · intro h
    rw [h, ofBytes_bytes]

theorem stateAt_congr {addr : UInt32} {img img' : Image}
    (h : ∀ a, addr.toNat ≤ a → a < addr.toNat + 64 → img' a = img a) : stateAt addr img' = stateAt addr img := by
  unfold stateAt
  rw [readBytes_congr h]

/-- The bytes of a header, by offset. -/
theorem byte_of_stateAt {addr : UInt32} {img : Image} {s : WlState} (h : stateAt addr img = s) {i : Nat} (hi : i < 64) :
    img (addr.toNat + i) = s.bytes.getD i 0 := by
  rw [stateAt_eq_iff] at h
  rw [← h, readBytes_getD hi]

/-- A copy that passes its CRC holds a header of the instance of `s`. -/
def WholeHeader (d : WlDevice) (s : WlState) (addr : UInt32) (img : Image) : Prop :=
  (stateAt addr img).CrcOk → ∃ mc : UInt32, mc.toNat < d.pages ∧ stateAt addr img = s.hdr mc

/-- A header by its words: the position is `0`, and the move count follows the number of positions. -/
theorem hdr_bytes (s : WlState) (mc : UInt32) : (s.hdr mc).bytes = ([0, s.wlPartMaxSecPos].flatMap leBytes ++
    leBytes mc) ++ ([0, s.wlMaxSecEraseCycleCount, s.wlBlockSize, s.version] ++
      s.wlDeviceId :: s.reserved.toList ++ [(s.hdr mc).crc32]).flatMap leBytes := by
  have e : [0, s.wlPartMaxSecPos].flatMap leBytes ++ leBytes mc = [0, s.wlPartMaxSecPos, mc].flatMap leBytes := rfl
  rw [e, ← List.flatMap_append]
  rfl

/-- The first bytes of a header: its position is `0`, and its move count follows the number of positions. -/
theorem hdr_bytes_take (s : WlState) (mc : UInt32) :
    (s.hdr mc).bytes.take 12 = [0, 0, 0, 0] ++ leBytes s.wlPartMaxSecPos ++ leBytes mc := by
  rw [hdr_bytes, List.take_append_of_le_length (by simp)]
  rfl

theorem hdr_bytes_getD (s : WlState) (mc : UInt32) {i : Nat} (hi : i < 12) :
    (s.hdr mc).bytes.getD i 0 = ([0, 0, 0, 0] ++ leBytes s.wlPartMaxSecPos ++ leBytes mc).getD i 0 := by
  rw [← hdr_bytes_take, List.getD_eq_getElem?_getD, List.getD_eq_getElem?_getD, List.getElem?_take_of_lt hi]

theorem getD_0_hdr (s : WlState) (mc : UInt32) : (s.hdr mc).bytes.getD 0 0 = 0 := hdr_bytes_getD s mc (by omega)

/-- The top byte of the move count. -/
theorem getD_11_hdr (s : WlState) (mc : UInt32) : (s.hdr mc).bytes.getD 11 0 = .ofNat (mc.toNat / 2 ^ 24) :=
  hdr_bytes_getD s mc (by omega)

theorem ofNat_ne_ones {n : Nat} (h : n < 128) : UInt8.ofNat n ≠ 0xFF := by
  intro e
  have e' := congrArg UInt8.toNat e
  rw [UInt8.toNat_ofNat'] at e'
  change n % 2 ^ 8 = 255 at e'
  omega

/-- A copy whose first byte is erased holds no header. -/
theorem not_hdr_of_erased {addr : UInt32} {img : Image} {s : WlState} {mc : UInt32} (h : img addr.toNat = 0xFF) :
    stateAt addr img ≠ s.hdr mc := by
  intro e
  have hb := byte_of_stateAt e (i := 0) (by omega)
  rw [Nat.add_zero, h, getD_0_hdr] at hb
  exact absurd hb (by decide)

/-- A header written in part holds no other header. -/
theorem hdr_of_torn {addr : UInt32} {img : Image} {s : WlState} {mc mc' : UInt32} {k : Nat} (hmc : mc'.toNat < 2 ^ 31)
    (herased : ∀ a, addr.toNat ≤ a → a < addr.toNat + 64 → img a = 0xFF)
    (h : stateAt addr (program img addr.toNat ((s.hdr mc).bytes.take k)) = s.hdr mc') : mc' = mc := by
  have hlen := WlState.bytes_length (s.hdr mc)
  have htake : ((s.hdr mc).bytes.take k).length = min k 64 := by rw [List.length_take, hlen]
  have hold : ∀ i < 64, k ≤ i → program img addr.toNat ((s.hdr mc).bytes.take k) (addr.toNat + i) = 0xFF := by
    intro i hi hk
    rw [program_out (by omega)]
    exact herased _ (by omega) (by omega)
  have hk : 12 ≤ k := by
    by_contra hlt
    have hb := byte_of_stateAt h (i := 11) (by omega)
    rw [hold 11 (by omega) (by omega), getD_11_hdr] at hb
    exact ofNat_ne_ones (by omega) hb.symm
  have hnew : ∀ i < 12, (s.hdr mc).bytes.getD i 0 = (s.hdr mc').bytes.getD i 0 := by
    intro i hi
    have hget : ((s.hdr mc).bytes.take k)[i]? = (s.hdr mc).bytes[i]? := List.getElem?_take_of_lt (by omega)
    have hsome : (s.hdr mc).bytes[i]? = some ((s.hdr mc).bytes.getD i 0) := by
      rw [List.getD_eq_getElem?_getD, List.getElem?_eq_getElem (by omega), Option.getD_some]
    rw [← byte_of_stateAt h (by omega), program_in (by omega) (by omega), herased _ (by omega) (by omega), and_allOnes,
      Nat.add_sub_cancel_left]
    conv_rhs => rw [List.getD_eq_getElem?_getD, hget, hsome, Option.getD_some]
  apply leBytes_injective
  have h8 := hnew 8 (by omega)
  have h9 := hnew 9 (by omega)
  have h10 := hnew 10 (by omega)
  have h11 := hnew 11 (by omega)
  rw [hdr_bytes_getD _ _ (by omega), hdr_bytes_getD _ _ (by omega)] at h8 h9 h10 h11
  unfold leBytes at h8 h9 h10 h11 ⊢
  simp only [List.cons_append, List.nil_append, List.getD_cons_succ, List.getD_cons_zero] at h8 h9 h10 h11
  rw [h8, h9, h10, h11]

/-- Headers of different rounds have different CRCs. -/
theorem hdr_crc_inj {s : WlState} {mc mc' : UInt32} (h : (s.hdr mc).crc32 = (s.hdr mc').crc32) : mc = mc' := by
  have split : ∀ x : UInt32, (s.hdr x).crc32 = crc32Le 0xFFFFFFFF (([0, s.wlPartMaxSecPos].flatMap leBytes) ++
      leBytes x ++ ([0, s.wlMaxSecEraseCycleCount, s.wlBlockSize, s.version] ++
        s.wlDeviceId :: s.reserved.toList).flatMap leBytes) := by
    intro x
    have e : ∀ ws : List UInt32, ([0, s.wlPartMaxSecPos].flatMap leBytes) ++ leBytes x ++ ws.flatMap leBytes =
        ([0, s.wlPartMaxSecPos, x] ++ ws).flatMap leBytes := by
      intro ws
      simp only [List.flatMap_cons, List.flatMap_nil, List.append_nil, List.append_assoc, List.cons_append,
        List.nil_append]
    rw [e]
    rfl
  rw [split, split] at h
  exact crc32Le_word_inj h

/-! ## Position records -/

/-- The address of position record `i`. -/
def WlDevice.slotAddr (d : WlDevice) (addr : UInt32) (i : Nat) : Nat := addr.toNat + 64 + i * d.record

/-- The bytes that mark position `i` as passed. -/
def okBytes (id : UInt32) (i : Nat) : List UInt8 := (okWords id (.ofNat i)).flatMap leBytes

theorem okBytes_length (id : UInt32) (i : Nat) : (okBytes id i).length = 16 := by
  unfold okBytes
  rw [flatMap_leBytes_length]
  rfl

/-- Record `i` of a copy marks its position as passed. -/
def RecOk (d : WlDevice) (addr : UInt32) (id : UInt32) (i : Nat) (img : Image) : Prop :=
  readBytes img (d.slotAddr addr i) 16 = okBytes id i

instance (d : WlDevice) (addr : UInt32) (id : UInt32) (i : Nat) (img : Image) : Decidable (RecOk d addr id i img) :=
  inferInstanceAs (Decidable (_ = _))

/-- Nothing but the record was programmed into slot `i`. -/
def SlotClean (d : WlDevice) (addr : UInt32) (id : UInt32) (i : Nat) (img : Image) : Prop :=
  ∀ j < 16, img (d.slotAddr addr i + j) = 0xFF ∨ img (d.slotAddr addr i + j) = (okBytes id i).getD j 0xFF

def SlotErased (d : WlDevice) (addr : UInt32) (i : Nat) (img : Image) : Prop :=
  ∀ j < 16, img (d.slotAddr addr i + j) = 0xFF

section Slots
variable {d : WlDevice} {addr id : UInt32} {i : Nat} {img img' : Image}

theorem RecOk.congr (h : ∀ j < 16, img' (d.slotAddr addr i + j) = img (d.slotAddr addr i + j)) :
    RecOk d addr id i img' ↔ RecOk d addr id i img := by
  have e : readBytes img' (d.slotAddr addr i) 16 = readBytes img (d.slotAddr addr i) 16 := by
    apply readBytes_congr
    intro a h1 h2
    have := h (a - d.slotAddr addr i) (by omega)
    rwa [Nat.add_sub_cancel' h1] at this
  unfold RecOk
  rw [e]

theorem SlotErased.congr (h : ∀ j < 16, img' (d.slotAddr addr i + j) = img (d.slotAddr addr i + j))
    (he : SlotErased d addr i img) : SlotErased d addr i img' := by
  intro j hj
  rw [h j hj]
  exact he j hj

theorem SlotClean.congr (h : ∀ j < 16, img' (d.slotAddr addr i + j) = img (d.slotAddr addr i + j))
    (hc : SlotClean d addr id i img) : SlotClean d addr id i img' := by
  intro j hj
  rw [h j hj]
  exact hc j hj

theorem SlotErased.clean (h : SlotErased d addr i img) : SlotClean d addr id i img := fun j hj => Or.inl (h j hj)

theorem RecOk.byte (h : RecOk d addr id i img) {j : Nat} (hj : j < 16) :
    img (d.slotAddr addr i + j) = (okBytes id i).getD j 0xFF := by
  rw [← h, readBytes_getD hj]

theorem recOk_of_bytes (h : ∀ j < 16, img (d.slotAddr addr i + j) = (okBytes id i).getD j 0xFF) :
    RecOk d addr id i img := by
  have hlen := okBytes_length id i
  have e : readBytes img (d.slotAddr addr i) (okBytes id i).length = okBytes id i :=
    readBytes_eq_of_getD fun j hj => h j (by omega)
  rwa [hlen] at e

/-- An erased slot marks no position: two neighbouring words are not both zero. -/
theorem SlotErased.not_ok (h : SlotErased d addr i img) : ¬RecOk d addr id i img := by
  intro hok
  have hword : ∀ k < 2, crc32Le 0xFFFFFFFF (leBytes (id + UInt32.ofNat i * 4 + .ofNat k)) = 0xFFFFFFFF := by
    intro k hk
    have hbyte : ∀ j < 16, (okBytes id i).getD j 0xFF = 0xFF := fun j hj => (hok.byte hj).symm.trans (h j hj)
    apply leBytes_injective
    have e : ∀ j < 4, (leBytes (crc32Le 0xFFFFFFFF (leBytes (id + UInt32.ofNat i * 4 + .ofNat k)))).getD j 0xFF =
        0xFF := by
      intro j hj
      have hb := hbyte (4 * k + j) (by omega)
      rw [← hb]
      have hk' : k = 0 ∨ k = 1 := by omega
      have hj' : j = 0 ∨ j = 1 ∨ j = 2 ∨ j = 3 := by omega
      rcases hk' with rfl | rfl <;> rcases hj' with rfl | rfl | rfl | rfl <;> rfl
    apply List.ext_getElem (by rw [leBytes_length, leBytes_length])
    intro j h1 h2
    have hj := e j h1
    rw [List.getD_eq_getElem?_getD, List.getElem?_eq_getElem h1, Option.getD_some] at hj
    rw [hj]
    have hj' : j = 0 ∨ j = 1 ∨ j = 2 ∨ j = 3 := by
      rw [leBytes_length] at h1
      omega
    rcases hj' with rfl | rfl | rfl | rfl <;> rfl
  have h0 := crc32Le_word_eq_ones (hword 0 (by omega))
  have h1 := crc32Le_word_eq_ones (hword 1 (by omega))
  rw [show (UInt32.ofNat 0) = 0 by rfl, UInt32.add_zero] at h0
  rw [h0] at h1
  exact absurd h1 (by decide)

/-! ## Programming a record -/

theorem IsRecord.byte {s : WlState} {b : List UInt8} (hrec : 16 ≤ d.record) (h : IsRecord d s b) {j : Nat} (hj : j < 16) :
    b.getD j 0xFF = (okBytes s.wlDeviceId s.wlDummySecPos.toNat).getD j 0xFF := by
  obtain ⟨-, rest, rfl⟩ := h
  have hlen := okBytes_length s.wlDeviceId s.wlDummySecPos.toNat
  have hof : UInt32.ofNat s.wlDummySecPos.toNat = s.wlDummySecPos := UInt32.ofNat_toNat
  unfold okBytes at hlen ⊢
  rw [hof] at hlen ⊢
  rw [List.getD_eq_getElem?_getD, List.getElem?_take_of_lt (by omega), List.getElem?_append_left (by omega),
    ← List.getD_eq_getElem?_getD]

/-- Slots of different positions do not overlap. -/
theorem slotAddr_disjoint {i' : Nat} (hne : i ≠ i') :
    d.slotAddr addr i + d.record ≤ d.slotAddr addr i' ∨ d.slotAddr addr i' + d.record ≤ d.slotAddr addr i := by
  unfold WlDevice.slotAddr
  rcases Nat.lt_or_gt_of_ne hne with hlt | hgt
  · left
    have := Nat.mul_le_mul_right d.record (Nat.succ_le_of_lt hlt)
    rw [Nat.succ_mul] at this
    omega
  · right
    have := Nat.mul_le_mul_right d.record (Nat.succ_le_of_lt hgt)
    rw [Nat.succ_mul] at this
    omega

/-- Programming a record leaves the other slots alone. -/
theorem mark_other (hrec : 16 ≤ d.record) {n : Nat} {b : List UInt8} (hb : b.length ≤ d.record) (hne : i ≠ n) :
    ∀ j < 16, d.mark addr n b img (d.slotAddr addr i + j) = img (d.slotAddr addr i + j) := by
  intro j hj
  have hdisj : d.slotAddr addr i + d.record ≤ d.slotAddr addr n ∨ _ := slotAddr_disjoint hne
  unfold WlDevice.slotAddr at hdisj ⊢
  apply program_out
  omega

section Mark
variable {s : WlState} {b : List UInt8}

theorem IsRecord.take_length (hb : IsRecord d s b) (k : Nat) : (b.take k).length ≤ d.record := by
  rw [List.length_take, hb.1]
  exact Nat.min_le_right _ _

/-- The byte of the slot after any part of the record was programmed. -/
theorem mark_byte (hrec : 16 ≤ d.record) (hb : IsRecord d s b) (k : Nat) {j : Nat} (hj : j < 16) :
    d.mark addr s.wlDummySecPos.toNat (b.take k) img (d.slotAddr addr s.wlDummySecPos.toNat + j) =
      if j < k then img (d.slotAddr addr s.wlDummySecPos.toNat + j) &&&
        (okBytes s.wlDeviceId s.wlDummySecPos.toNat).getD j 0xFF
      else img (d.slotAddr addr s.wlDummySecPos.toNat + j) := by
  have hlen : (b.take k).length = min k d.record := by rw [List.length_take, hb.1]
  unfold WlDevice.mark WlDevice.slotAddr
  split_ifs with hk
  · rw [program_in (by omega) (by omega), show addr.toNat + 64 + s.wlDummySecPos.toNat * d.record + j -
      (addr.toNat + 64 + s.wlDummySecPos.toNat * d.record) = j by omega, ← hb.byte hrec hj,
      List.getD_eq_getElem?_getD, List.getElem?_take_of_lt hk, ← List.getD_eq_getElem?_getD]
  · exact program_out (by omega)

theorem mark_clean (hrec : 16 ≤ d.record) (hb : IsRecord d s b) (k : Nat)
    (h : SlotClean d addr s.wlDeviceId s.wlDummySecPos.toNat img) :
    SlotClean d addr s.wlDeviceId s.wlDummySecPos.toNat (d.mark addr s.wlDummySecPos.toNat (b.take k) img) := by
  intro j hj
  rw [mark_byte hrec hb k hj]
  split_ifs with hk
  · right
    rcases h j hj with e | e
    · rw [e, and_allOnes]
    · rw [e, UInt8.and_self]
  · exact h j hj

theorem mark_ok (hrec : 16 ≤ d.record) (hb : IsRecord d s b)
    (h : SlotClean d addr s.wlDeviceId s.wlDummySecPos.toNat img) :
    RecOk d addr s.wlDeviceId s.wlDummySecPos.toNat (d.mark addr s.wlDummySecPos.toNat b img) := by
  apply recOk_of_bytes
  intro j hj
  have hlen := hb.1
  have hbyte : d.mark addr s.wlDummySecPos.toNat (b.take d.record) img
      (d.slotAddr addr s.wlDummySecPos.toNat + j) = _ := mark_byte hrec hb d.record hj
  rw [List.take_of_length_le (by omega), if_pos (by omega)] at hbyte
  rw [hbyte]
  rcases h j hj with e | e
  · rw [e, and_allOnes]
  · rw [e, UInt8.and_self]

theorem mark_ok_of_ok (hrec : 16 ≤ d.record) (hb : IsRecord d s b) (k : Nat)
    (h : RecOk d addr s.wlDeviceId s.wlDummySecPos.toNat img) :
    RecOk d addr s.wlDeviceId s.wlDummySecPos.toNat (d.mark addr s.wlDummySecPos.toNat (b.take k) img) := by
  apply recOk_of_bytes
  intro j hj
  rw [mark_byte hrec hb k hj, h.byte hj]
  split_ifs
  · rw [UInt8.and_self]
  · rfl

end Mark

end Slots

end EspIdf.WearLevelling
