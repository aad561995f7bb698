import EspIdf.Efuse.Table
import Mathlib.Data.List.Nodup

/-!
# A field, written and read back

* `fillBuff_bits`, `fill_run` : what a walk reads;
* `Codes` : a blob is read back as it was written, and nothing else is touched;
* `SameBits`, `codes_iff` : where that is so.
-/

namespace EspIdf.Efuse

/-! ## Reading -/

section fill
variable {blob : Blob} {aligned : Reg} {counter : Nat}

theorem blobBit_setByte (blob : Blob) (i : Nat) (value : BitVec 8) (k : Nat) :
    blobBit (setByte blob i (blob i ||| value)) k = (blobBit blob k || (decide (k / 8 = i) && value.getLsbD (k % 8))) := by
  unfold blobBit setByte
  by_cases h : k / 8 = i
  · rw [if_pos h, BitVec.getLsbD_or, h, decide_eq_true rfl, Bool.true_and]
  · rw [if_neg h, decide_eq_false h, Bool.false_and, Bool.or_false]

/-- From a whole byte on, the bits that are left go behind the ones that are there. -/
theorem fillBuffBytes_bits {fuel count sumShift shiftBit : Nat} (hfuel : count ≤ fuel)
    (haligned : count = 0 ∨ counter % 8 = 0) (hhigh : ∀ j, sumShift + shiftBit + count ≤ j → aligned.getLsbD j = false)
    (k : Nat) :
    blobBit (fillBuffBytes aligned fuel count counter sumShift shiftBit blob).1 k =
      (blobBit blob k || (decide (counter ≤ k) && aligned.getLsbD (sumShift + shiftBit + (k - counter)))) := by
  induction fuel generalizing count counter sumShift shiftBit blob with
  | zero =>
    rw [hhigh _ (by omega), Bool.and_false, Bool.or_false]
    rfl
  | succ fuel ih =>
    unfold fillBuffBytes
    split
    · rw [hhigh _ (by omega), Bool.and_false, Bool.or_false]
    · rename_i hpos
      have hwhole := haligned.resolve_left hpos
      dsimp only
      obtain ⟨m, hm⟩ : ∃ m, m = if count > 8 then 8 else count := ⟨_, rfl⟩
      rw [← hm]
      have hm8 : m ≤ count ∧ (m = 8 ∨ m = count ∧ m ≤ 8) := by
        rw [hm]
        split <;> omega
      rw [ih (by omega) (by omega) (fun j hj => hhigh j (by omega)), blobBit_setByte, Bool.or_assoc]
      congr 1
      rw [BitVec.getLsbD_setWidth, BitVec.getLsbD_ushiftRight, decide_eq_true (Nat.mod_lt k (by decide)), Bool.true_and]
      by_cases hlow : counter ≤ k
      · by_cases hbyte : k / 8 = counter / 8
        · rw [show k % 8 = k - counter by omega]
          by_cases hnext : counter + m ≤ k
          · rw [show sumShift + shiftBit + m + (k - (counter + m)) = sumShift + shiftBit + (k - counter) by omega]
            simp [hlow, hbyte, hnext]
          · simp [hlow, hbyte, hnext]
        · have hnext : counter + m ≤ k := by omega
          rw [show sumShift + shiftBit + m + (k - (counter + m)) = sumShift + shiftBit + (k - counter) by omega]
          simp [hlow, hbyte, hnext]
      · have hbyte : ¬k / 8 = counter / 8 := by omega
        have hnext : ¬counter + m ≤ k := by omega
        simp [hlow, hbyte, hnext]

/-- The bits of a piece, as a word. -/
theorem aligned_bits (burned : Blocks) {p : Piece} (hfit : p.Fits) (j : Nat) :
    ((burned p.block p.reg >>> p.start) &&& getMask p.count 0).getLsbD j =
      (decide (j < p.count) && bitAt burned (p.block, 32 * p.reg + p.start + j)) := by
  unfold Piece.Fits at hfit
  rw [BitVec.getLsbD_and, BitVec.getLsbD_ushiftRight, getLsbD_lowMask (by omega)]
  by_cases hj : j < p.count
  · unfold bitAt
    dsimp only
    rw [show (32 * p.reg + p.start + j) / 32 = p.reg by omega, show (32 * p.reg + p.start + j) % 32 = p.start + j by omega,
      Bool.and_comm]
  · rw [decide_eq_false hj, Bool.and_false, Bool.false_and]

/-- `fill_buff` puts the bits of its register behind the ones that are there. -/
theorem fillBuff_bits (burned : Blocks) {p : Piece} (hfit : p.Fits) (blob : Blob) (counter k : Nat) :
    blobBit (fillBuff burned p.reg p.block p.start p.count blob counter).2.1 k =
      (blobBit blob k || (decide (counter ≤ k ∧ k < counter + p.count) &&
        bitAt burned (p.block, 32 * p.reg + p.start + (k - counter)))) := by
  obtain ⟨aligned, haligned⟩ : ∃ aligned, aligned = (burned p.block p.reg >>> p.start) &&& getMask p.count 0 := ⟨_, rfl⟩
  have hbits := aligned_bits burned hfit
  rw [← haligned] at hbits
  have hhigh : ∀ j, p.count ≤ j → aligned.getLsbD j = false := by
    intro j hj
    rw [hbits, decide_eq_false (Nat.not_lt.mpr hj), Bool.false_and]
  have hgoal : (decide (counter ≤ k ∧ k < counter + p.count) && bitAt burned (p.block, 32 * p.reg + p.start + (k - counter))) =
      (decide (counter ≤ k) && aligned.getLsbD (k - counter)) := by
    rw [hbits, ← Bool.and_assoc, ← Bool.decide_and]
    congr 1
    exact decide_eq_decide.mpr (by omega)
  rw [hgoal]
  unfold fillBuff
  dsimp only
  rw [← haligned]
  split
  · obtain ⟨m, hm⟩ : ∃ m, m = if 8 - counter % 8 < p.count then 8 - counter % 8 else p.count := ⟨_, rfl⟩
    rw [← hm]
    have hmc : m ≤ p.count ∧ (m = 8 - counter % 8 ∨ m = p.count ∧ p.count ≤ 8 - counter % 8) := by
      rw [hm]
      split <;> omega
    rw [fillBuffBytes_bits (by omega) (by omega) (fun j hj => hhigh j (by omega)), blobBit_setByte, Bool.or_assoc]
    congr 1
    rw [BitVec.getLsbD_setWidth, BitVec.getLsbD_shiftLeft, decide_eq_true (Nat.mod_lt k (by decide)), Bool.true_and]
    by_cases hlow : counter ≤ k
    · by_cases hbyte : k / 8 = counter / 8
      · have hshift : ¬k % 8 < counter % 8 := by omega
        rw [show k % 8 - counter % 8 = k - counter by omega]
        by_cases hnext : counter + m ≤ k
        · rw [show 0 + m + (k - (counter + m)) = k - counter by omega]
          simp [hlow, hbyte, hnext, hshift, show k % 8 < 32 by omega]
        · simp [hlow, hbyte, hnext, hshift, show k % 8 < 32 by omega]
      · have hnext : counter + m ≤ k := by omega
        rw [show 0 + m + (k - (counter + m)) = k - counter by omega]
        simp [hlow, hbyte, hnext]
    · have hnext : ¬counter + m ≤ k := by omega
      by_cases hbyte : k / 8 = counter / 8
      · simp [hlow, hnext, show k % 8 < counter % 8 by omega]
      · simp [hlow, hbyte, hnext]
  · rw [fillBuffBytes_bits (Nat.le_refl _) (by omega) (fun j hj => hhigh j (by omega)), Nat.zero_add]

/-- The `j`-th bit that a walk comes to. -/
def readBit (burned : Blocks) (list : List Pos) (j : Nat) : Bool := list[j]?.elim false (bitAt burned)

theorem readBit_piece (burned : Blocks) (p : Piece) (j : Nat) :
    readBit burned p.bits j = (decide (j < p.count) && bitAt burned (p.block, 32 * p.reg + p.start + j)) := by
  unfold readBit Piece.bits
  rw [List.getElem?_map]
  by_cases h : j < p.count
  · rw [List.getElem?_range' h]
    simp [h]
  · rw [List.getElem?_eq_none (by simpa using h)]
    simp [h]

theorem readBit_append (burned : Blocks) (xs ys : List Pos) (j : Nat) :
    readBit burned (xs ++ ys) j = if j < xs.length then readBit burned xs j else readBit burned ys (j - xs.length) := by
  unfold readBit
  rw [List.getElem?_append]
  split <;> rfl

/-- A walk reads its bits in their order. -/
theorem fill_run (burned : Blocks) {list : List Piece} (hfits : ∀ p ∈ list, p.Fits) (blob : Blob) (counter : Nat) :
    (runItems (fillBuff burned) (list.map Item.piece) blob counter).1 = .ok ∧
      ∀ k, blobBit (runItems (fillBuff burned) (list.map Item.piece) blob counter).2.1 k =
        (blobBit blob k || (decide (counter ≤ k) && readBit burned (list.flatMap Piece.bits) (k - counter))) := by
  induction list generalizing blob counter with
  | nil => exact ⟨rfl, fun k => by simp [runItems, readBit]⟩
  | cons p list ih =>
    rw [List.forall_mem_cons] at hfits
    have hok : (fillBuff burned p.reg p.block p.start p.count blob counter).1 = .ok := rfl
    have hcount := fillBuff_advances burned p.reg p.block p.start p.count blob counter hfits.1 hok
    simp only [List.map_cons, runItems]
    rw [if_neg (not_not_intro hok), hcount]
    obtain ⟨hrest, hbits⟩ := ih hfits.2 (fillBuff burned p.reg p.block p.start p.count blob counter).2.1 (counter + p.count)
    refine ⟨hrest, fun k => ?_⟩
    rw [hbits, fillBuff_bits burned hfits.1, List.flatMap_cons, readBit_append, Piece.length_bits, readBit_piece,
      Bool.or_assoc]
    congr 1
    by_cases hlow : counter ≤ k
    · by_cases hin : k - counter < p.count
      · simp [hlow, hin, show k < counter + p.count by omega, show ¬counter + p.count ≤ k by omega]
      · rw [if_neg hin, show k - (counter + p.count) = k - counter - p.count by omega]
        simp [hlow, show ¬k < counter + p.count by omega, show counter + p.count ≤ k by omega]
    · simp [hlow, show ¬counter + p.count ≤ k by omega]

end fill

/-! ## Writing and reading -/

namespace Table
variable (t : Table) (size : Nat)

/-- The bits of the field that are asked for. -/
def wanted : List Pos := t.field.bits.take (min size (fieldSize t.field.descs))

/-- None of them is set. -/
def Blank (blocks : Blocks) : Prop := ∀ pos ∈ t.wanted size, bitAt blocks pos = false

/-- The blob is staged in the bits that are asked for, and read back once they are burned; and no call leaves its
register. -/
structure Codes : Prop where
  trip : ∀ burned staged blob, t.Blank size burned → t.Blank size staged →
    ∃ staged' written, t.process staged size (checked (writeBlob burned blob)) = (some .ok, staged', written) ∧
      (∀ pos, pos ∉ t.wanted size → bitAt staged' pos = bitAt staged pos) ∧
      ∃ out counted, t.process (fun _ => 0) size (checked (fillBuff (union burned staged'))) = (some .ok, out, counted) ∧
        ∀ k, blobBit out k = (decide (k < min size (fieldSize t.field.descs)) && blobBit blob k)
  calls : ∀ (σ : Type) (func : CellFunc σ) (s : σ), ∀ call ∈ (t.process (s, []) size (logged func)).2.1.2, call.Fits

/-- The words from the first description on describe registers that there are, and the bits that are asked for, in any
order. -/
def SameBits : Prop :=
  ∃ list, Pieces (walk t.cells (min size (fieldSize t.field.descs))) list ∧ (list.flatMap Piece.bits).Nodup ∧
    ∀ pos ∈ list.flatMap Piece.bits, pos ∈ t.wanted size

variable {t size}

theorem fieldSizeAt_eq {mem : List Cell} {ptrs : List Nat} {descs : List Desc}
    (h : List.Forall₂ (fun p d => mem[p]? = some (Desc.cell d)) ptrs descs) : fieldSizeAt mem ptrs = fieldSize descs := by
  induction h with
  | nil => rfl
  | cons hp _ ih =>
    unfold fieldSizeAt fieldSize
    rw [hp, ih]
    rfl

theorem process_eq {σ : Type} {func : FuncProc σ} (hfunc : Advances func) (hsize : 0 < size) (s : σ) :
    t.process s size (checked func) = runWalk func (walk t.cells (min size (fieldSize t.field.descs))) s 0 := by
  unfold process
  dsimp only
  rw [fieldSizeAt_eq t.stored, if_neg (by omega), processCells_eq hfunc, Nat.sub_zero]

/-- What a walk over registers does is a run over them. -/
theorem process_pieces {σ : Type} {func : FuncProc σ} (hfunc : Advances func) (hsize : 0 < size) (s : σ)
    {list : List Piece} (hlist : Pieces (walk t.cells (min size (fieldSize t.field.descs))) list) :
    t.process s size (checked func) =
      (some (runItems func (list.map Item.piece) s 0).1, (runItems func (list.map Item.piece) s 0).2) := by
  rw [process_eq hfunc hsize, hlist, runWalk_pieces]

end Table

section pieces
variable {burned staged : Blocks} {blob : Blob} {list : List Piece}

theorem pos_of_asks {k : Nat} {ps : List Pos} {pos : Pos} (h : asks blob k ps pos = true) : pos ∈ ps := by
  obtain ⟨i, hi, rfl, -⟩ := asks_iff.mp h
  exact List.getElem_mem hi

/-- A blob is staged where nothing is burned yet. -/
theorem blob_pieces (hfits : ∀ p ∈ list, p.Fits) (hfree : ∀ pos ∈ list.flatMap Piece.bits, bitAt burned pos = false)
    (staged : Blocks) :
    (runItems (writeBlob burned blob) (list.map Item.piece) staged 0).1 = .ok ∧
      ∀ pos, bitAt (runItems (writeBlob burned blob) (list.map Item.piece) staged 0).2.1 pos =
        (bitAt staged pos || asks blob 0 (list.flatMap Piece.bits) pos) := by
  have hfits' : ∀ item ∈ list.map Item.piece, item.Fits := by
    intro item hitem
    obtain ⟨p, hp, rfl⟩ := List.mem_map.mp hitem
    exact hfits p hp
  rcases blob_run hfits' staged 0 with ⟨hok, -, -, hbits⟩ | ⟨pre, bad, post, heq, -, -, -, hrefused, -⟩
  · rw [reach_pieces] at hbits
    exact ⟨hok, hbits⟩
  · have hbad : bad ∈ list.map Item.piece := by
      rw [heq]
      exact List.mem_append_right _ List.mem_cons_self
    obtain ⟨p, hp, rfl⟩ := List.mem_map.mp hbad
    obtain ⟨pos, hasks, hburned⟩ := hrefused
    have hpos : pos ∈ list.flatMap Piece.bits := List.mem_flatMap.mpr ⟨p, hp, pos_of_asks hasks⟩
    rw [hfree pos hpos] at hburned
    cases hburned

theorem readBit_of_lt {bits : List Pos} {j : Nat} (hj : j < bits.length) :
    readBit burned bits j = bitAt burned bits[j] := by
  unfold readBit
  rw [List.getElem?_eq_getElem hj]
  rfl

theorem readBit_of_ge {bits : List Pos} {j : Nat} (hj : bits.length ≤ j) : readBit burned bits j = false := by
  unfold readBit
  rw [List.getElem?_eq_none hj]
  rfl

/-- Into a buffer of zeros. -/
theorem fill_zeros (burned : Blocks) (hfits : ∀ p ∈ list, p.Fits) (k : Nat) :
    blobBit (runItems (fillBuff burned) (list.map Item.piece) (fun _ => 0) 0).2.1 k =
      readBit burned (list.flatMap Piece.bits) k := by
  rw [(fill_run burned hfits _ 0).2 k, decide_eq_true (Nat.zero_le k), Bool.true_and, Nat.sub_zero]
  unfold blobBit
  simp

/-- Where no bit is met twice, each is asked for by its own bit of the blob. -/
theorem asks_nodup {bits : List Pos} (hnodup : bits.Nodup) {j : Nat} (hj : j < bits.length) :
    asks blob 0 bits bits[j] = blobBit blob j := by
  rw [Bool.eq_iff_iff, asks_iff]
  constructor
  · rintro ⟨i, hi, heq, hbit⟩
    obtain rfl := (hnodup.getElem_inj_iff).mp heq
    rwa [Nat.zero_add] at hbit
  · intro hbit
    exact ⟨j, hj, rfl, by rwa [Nat.zero_add]⟩

end pieces

/-! ## When it is exact -/

/-- A single bit. -/
def oneBit (i : Nat) : Blob := fun b => if b = i / 8 then BitVec.twoPow 8 (i % 8) else 0

theorem blobBit_oneBit (i k : Nat) : blobBit (oneBit i) k = decide (k = i) := by
  unfold blobBit oneBit
  split
  · rename_i hbyte
    rw [BitVec.getLsbD_twoPow, decide_eq_true (Nat.mod_lt i (by decide)), Bool.true_and]
    exact decide_eq_decide.mpr (by omega)
  · rename_i hbyte
    rw [decide_eq_false (by omega)]
    exact BitVec.getLsbD_zero

section exact
variable {t : Table} {size : Nat}

theorem blank_noBits : t.Blank size noBits := fun _ _ => bitAt_noBits _

theorem codes_of_sameBits (hsize : 0 < size) (h : t.SameBits size) : t.Codes size where
  trip burned staged blob hburned hstaged := by
    obtain ⟨list, hlist, hnodup, hsub⟩ := h
    obtain ⟨hlength, hfits⟩ := walk_length hlist
    obtain ⟨hok, hbits⟩ := @blob_pieces burned blob list hfits (fun pos hpos => hburned pos (hsub pos hpos)) staged
    have hwrite := Table.process_pieces (writeBlob_advances burned blob) hsize staged hlist
    obtain ⟨w, hw⟩ : ∃ w, runItems (writeBlob burned blob) (list.map Item.piece) staged 0 = w := ⟨_, rfl⟩
    rw [hw] at hok hbits hwrite
    have hread := Table.process_pieces (fillBuff_advances (union burned w.2.1)) hsize (fun _ => 0) hlist
    rw [(fill_run (union burned w.2.1) hfits _ 0).1] at hread
    refine ⟨w.2.1, w.2.2, by rw [hwrite, hok], fun pos hpos => ?_, _, _, hread, fun k => ?_⟩
    · have hasks : asks blob 0 (list.flatMap Piece.bits) pos = false := by
        rw [← Bool.not_eq_true]
        exact fun hasks => hpos (hsub pos (pos_of_asks hasks))
      rw [hbits, hasks, Bool.or_false]
    · rw [fill_zeros _ hfits]
      by_cases hk : k < (list.flatMap Piece.bits).length
      · have hmem := hsub _ (List.getElem_mem hk)
        rw [readBit_of_lt hk, bitAt_union, hbits, hburned _ hmem, hstaged _ hmem, asks_nodup hnodup hk,
          decide_eq_true (hlength ▸ hk)]
        simp
      · rw [readBit_of_ge (Nat.le_of_not_lt hk), decide_eq_false (hlength ▸ hk), Bool.false_and]
  calls _ func s := calls_fit t size func s

/-- A blob that is written to erased registers and read back. -/
theorem codes_erased (hsize : 0 < size) (h : t.Codes size) {list : List Piece}
    (hlist : Pieces (walk t.cells (min size (fieldSize t.field.descs))) list) (blob : Blob) :
    (∀ pos, pos ∉ t.wanted size → asks blob 0 (list.flatMap Piece.bits) pos = false) ∧
      ∀ k (hk : k < (list.flatMap Piece.bits).length),
        asks blob 0 (list.flatMap Piece.bits) (list.flatMap Piece.bits)[k] = blobBit blob k := by
  obtain ⟨hlength, hfits⟩ := walk_length hlist
  obtain ⟨staged, written, hwrite, hkeep, out, counted, hread, hout⟩ := h.trip noBits noBits blob blank_noBits blank_noBits
  obtain ⟨-, hbits⟩ := @blob_pieces noBits blob list hfits (fun pos _ => bitAt_noBits pos) noBits
  rw [Table.process_pieces (writeBlob_advances _ _) hsize _ hlist] at hwrite
  rw [Table.process_pieces (fillBuff_advances _) hsize _ hlist] at hread
  obtain rfl : _ = staged := congrArg (fun r => r.2.1) hwrite
  obtain rfl : _ = out := congrArg (fun r => r.2.1) hread
  constructor
  · intro pos hpos
    have hsame := hkeep pos hpos
    rwa [hbits, bitAt_noBits, Bool.false_or] at hsame
  · intro k hk
    have hbit := hout k
    rwa [fill_zeros _ hfits, readBit_of_lt hk, bitAt_union, hbits, bitAt_noBits, Bool.false_or, Bool.false_or,
      decide_eq_true (hlength ▸ hk), Bool.true_and] at hbit

theorem sameBits_of_codes (hsize : 0 < size) (h : t.Codes size) : t.SameBits size := by
  obtain ⟨_, _, hwrite, -⟩ := h.trip noBits noBits (fun _ => 0) blank_noBits blank_noBits
  rw [Table.process_eq (writeBlob_advances _ _) hsize] at hwrite
  obtain ⟨list, hlist⟩ := runWalk_ok (congrArg Prod.fst hwrite)
  have herased := codes_erased hsize h hlist
  refine ⟨list, hlist, ?_, fun pos hpos => ?_⟩
  · -- a bit that is met twice is read back twice
    rw [List.nodup_iff_getElem?_ne_getElem?]
    intro i j hij hj heq
    rw [List.getElem?_eq_getElem (by omega), List.getElem?_eq_getElem hj] at heq
    have hbit := (herased (oneBit i)).2 j hj
    rw [← Option.some.inj heq, (herased (oneBit i)).2 i (by omega), blobBit_oneBit, blobBit_oneBit, decide_eq_true rfl,
      decide_eq_false (by omega)] at hbit
    cases hbit
  · -- a bit that is not asked for is set by a blob of ones
    by_contra hnot
    obtain ⟨i, hi, rfl⟩ := List.mem_iff_getElem.mp hpos
    have hbit := (herased fun _ => BitVec.allOnes 8).2 i hi
    rw [(herased _).1 _ hnot] at hbit
    have hone : blobBit (fun _ => BitVec.allOnes 8) i = true := by
      unfold blobBit
      rw [BitVec.getLsbD_allOnes, decide_eq_true (Nat.mod_lt i (by decide))]
    rw [hone] at hbit
    cases hbit

end exact

/-- For every table, and every size that the callers let through. -/
theorem codes_iff (t : Table) {size : Nat} (hsize : 0 < size) : t.Codes size ↔ t.SameBits size :=
  ⟨sameBits_of_codes hsize, codes_of_sameBits hsize⟩

theorem stray_pos : 0 < 4 := by decide

scoped instance neZeroFour : NeZero 4 := ⟨by decide⟩

theorem stray_inBlock_zero : (3 : Block) = 0 → 0 + 4 ≤ 224 ∨ 256 < 0 + 4 := fun h => absurd h (by decide)

theorem stray_inBlock_four : (3 : Block) = 0 → 4 + 4 ≤ 224 ∨ 256 < 4 + 4 := fun h => absurd h (by decide)

def strayDescs : List Desc := [⟨3, 0, 4, stray_pos, stray_inBlock_zero⟩, ⟨3, 4, 4, stray_pos, stray_inBlock_four⟩]

theorem strayDescs_nodup : (strayDescs.flatMap Desc.bits).Nodup := by decide

theorem strayDescs_inRange : ∀ d ∈ strayDescs, d.inRange = true := by decide

/-- Two descriptions of one block, with another one in between. -/
def strayTable : Table where
  mem := [⟨3, 0, 4⟩, ⟨3, 100, 4⟩, ⟨3, 4, 4⟩]
  ptrs := [0, 2]
  field := ⟨strayDescs, strayDescs_nodup⟩
  stored := .cons rfl (.cons rfl .nil)
  inRange := strayDescs_inRange

/-- The first four bits are in the first description. -/
theorem codes_iff_stray : strayTable.Codes 4 ↔ strayTable.SameBits 4 := codes_iff strayTable (by decide)

/-- The other one is written. -/
theorem stray_bits_written : ¬strayTable.Codes 8 := by
  intro h
  obtain ⟨staged, written, hwrite, hkeep, -⟩ := h.trip noBits noBits (fun _ => 0xFF) blank_noBits blank_noBits
  have hset : bitAt (strayTable.process noBits 8 (checked (writeBlob noBits fun _ => 0xFF))).2.1 (3, 100) = true := by
    decide +kernel
  rw [hwrite, hkeep (3, 100) (by decide), bitAt_noBits] at hset
  cases hset

end EspIdf.Efuse
