import Mathlib.Algebra.GroupWithZero.Nat
import Mathlib.Data.List.Basic

/-!
# `esp_efuse_utility.c`: fields, registers and what is staged

* `Desc`, `Field` : where the bits of a field lie;
* `process` : the walk over the registers of a field;
* `fillReg`, `setCntInReg` : the words for a blob and for a count;
* `writeBlob`, `writeCnt`, `utilityWriteReg` : one register of a write.

The chip is the one whose coding scheme may be NONE: four blocks of eight registers, the first of
seven. `Blocks` is both the burned registers (`virt_blocks`) and the staged ones
(`write_mass_blocks`).
-/

namespace EspIdf.Efuse

abbrev Reg := BitVec 32

/-- `EFUSE_BLK0` … `EFUSE_BLK3` -/
abbrev Block := Fin 4

scoped instance lawfulBEqBlock : LawfulBEq Block := inferInstance

abbrev Blocks := Block → Nat → Reg

/-- A bit of a block. -/
abbrev Pos := Block × Nat

def bitAt (blocks : Blocks) (pos : Pos) : Bool := (blocks pos.1 (pos.2 / 32)).getLsbD (pos.2 % 32)

/-- The bits an array of bytes holds, the low ones first. -/
abbrev Blob := Nat → BitVec 8

def blobBit (blob : Blob) (k : Nat) : Bool := (blob (k / 8)).getLsbD (k % 8)

inductive Err
  | ok
  /-- `ESP_OK_EFUSE_CNT` -/
  | okCnt
  | invalidArg
  | invalidState
  | coding
  | repeatedProg
  | cntIsFull
deriving Repr, DecidableEq

/-! ## Fields -/

/-- `esp_efuse_desc_t`. Block 0 has seven registers, which `write_reg` asserts. -/
structure Desc where
  block : Block
  bitStart : Nat
  bitCount : Nat
  pos : 0 < bitCount
  inBlock : block = 0 → bitStart + bitCount ≤ 224 ∨ 256 < bitStart + bitCount

def Desc.bits (d : Desc) : List Pos := (List.range' d.bitStart d.bitCount).map fun i => (d.block, i)

/-- A field is a list of descriptions that do not overlap. They stand one after the other, where the walk looks for
them. -/
structure Field where
  descs : List Desc
  nodup : (descs.flatMap Desc.bits).Nodup

def Field.bits (field : Field) : List Pos := field.descs.flatMap Desc.bits

/-- `esp_efuse_get_field_size` -/
def fieldSize : List Desc → Nat
  | [] => 0
  | d :: rest => d.bitCount + fieldSize rest

/-- `check_range_of_bits` -/
def Desc.inRange (d : Desc) : Bool := d.bitStart + d.bitCount ≤ 256

def Desc.endBit (d : Desc) : Nat := d.bitStart + d.bitCount - 1
def Desc.firstReg (d : Desc) : Nat := d.bitStart / 32
def Desc.lastReg (d : Desc) : Nat := d.endBit / 32

/-! ## The walk -/

/-- `efuse_func_proc_t`: register, block, first bit, number of bits, the caller's data and the bits
counted so far. -/
abbrev FuncProc (σ : Type) := (numReg : Nat) → Block → (bitStart bitCount : Nat) → σ → (bitsCounter : Nat) → Err × σ × Nat

section process
variable {σ : Type} (func : FuncProc σ) (reqSize : Nat)

/-- The bits of a description in one of its registers. -/
def Desc.useBits (d : Desc) (numReg startBit : Nat) : Nat :=
  let firstBit := if numReg = d.firstReg then startBit % 32 else 0
  let lastBit := if numReg = d.lastReg then d.endBit % 32 else 31
  lastBit - firstBit + 1

/-- The inner loop of `esp_efuse_utility_process`, over the registers of a description. -/
def processRegs (d : Desc) : List Nat → (startBit : Nat) → σ → Nat → Err × σ × Nat
  | [], _, s, counter => (.ok, s, counter)
  | numReg :: rest, startBit, s, counter =>
    let use := d.useBits numReg startBit
    let use := if counter + use > reqSize then reqSize - counter else use
    let r := func numReg d.block startBit use s counter
    if r.1 ≠ .ok ∨ reqSize ≤ r.2.2 then r else processRegs d rest 0 r.2.1 r.2.2

/-- The outer loop, over the descriptions. -/
def processDescs : List Desc → σ → Nat → Err × σ × Nat
  | [], s, counter => (.ok, s, counter)
  | d :: rest, s, counter =>
    if reqSize ≤ counter then (.ok, s, counter)
    else if !d.inRange then (.coding, s, counter)
    else
      let r := processRegs func reqSize d (List.range' d.firstReg (d.lastReg - d.firstReg + 1)) (d.bitStart % 32) s counter
      if r.1 ≠ .ok then r else processDescs rest r.2.1 r.2.2

end process

/-- `esp_efuse_utility_process`; a size of 0 stands for the whole field. -/
def process {σ : Type} (field : Field) (s : σ) (sizeBits : Nat) (func : FuncProc σ) : Err × σ × Nat :=
  let len := fieldSize field.descs
  processDescs func (if sizeBits = 0 then len else min sizeBits len) field.descs s 0

/-! ## Words -/

def getMask (bitCount shift : Nat) : Reg :=
  (if bitCount ≠ 32 then ((1 : Reg) <<< bitCount) - 1 else 0xFFFFFFFF#32) <<< shift

/-- The loop of `fill_reg`, a byte of the blob at a time; `bitCount` turns are enough. -/
def fillBytes (blob : Blob) : (fuel bitCount filled shiftReg : Nat) → Reg → Reg × Nat
  | 0, _, filled, _, reg => (reg, filled)
  | fuel + 1, bitCount, filled, shiftReg, reg =>
    if bitCount = 0 then (reg, filled)
    else
      let shiftBit := if bitCount > 8 then 8 else bitCount
      let temp : Reg := (blob (filled / 8)).setWidth 32
      fillBytes blob fuel (bitCount - shiftBit) (filled + shiftBit) (shiftReg + 8)
        (reg ||| (temp &&& getMask shiftBit 0) <<< shiftReg)

/-- `fill_reg`: the word, and the bits of the blob used so far. -/
def fillReg (bitStart bitCount : Nat) (blob : Blob) (filled : Nat) : Reg × Nat :=
  let shiftBit := filled % 8
  let r :=
    if shiftBit ≠ 0 then
      let temp : Reg := (blob (filled / 8)).setWidth 32 >>> shiftBit
      let shiftBit := if 8 - shiftBit < bitCount then 8 - shiftBit else bitCount
      fillBytes blob bitCount (bitCount - shiftBit) (filled + shiftBit) shiftBit (temp &&& getMask shiftBit 0)
    else fillBytes blob bitCount bitCount filled 0 0
  (r.1 <<< bitStart, r.2)

/-- `set_cnt_in_reg` from bit `i` on: the word, and the bits still to be set. -/
def setCntInReg (regMasked : Reg) : (i bitCount cnt : Nat) → Reg × Nat
  | _, 0, cnt => (0, cnt)
  | i, n + 1, cnt =>
    if regMasked.getLsbD i = false then
      if cnt - 1 = 0 then ((1 : Reg) <<< i, 0)
      else
        let r := setCntInReg regMasked (i + 1) n (cnt - 1)
        ((1 : Reg) <<< i ||| r.1, r.2)
    else setCntInReg regMasked (i + 1) n cnt

/-! ## One register of a write -/

/-- `write_reg`: the word is combined with what is staged. -/
def writeReg (staged : Blocks) (blk : Block) (numReg : Nat) (value : Reg) : Blocks := fun b r =>
  if b = blk ∧ r = numReg then staged b r ||| value else staged b r

/-- `esp_efuse_utility_write_reg` -/
def utilityWriteReg (burned staged : Blocks) (blk : Block) (numReg : Nat) (value : Reg) : Err × Blocks :=
  if burned blk numReg &&& value ≠ 0 then (.repeatedProg, staged) else (.ok, writeReg staged blk numReg value)

/-- `esp_efuse_utility_write_blob` -/
def writeBlob (burned : Blocks) (blob : Blob) : FuncProc Blocks := fun numReg blk bitStart bitCount staged counter =>
  let r := fillReg bitStart bitCount blob counter
  let w := utilityWriteReg burned staged blk numReg r.1
  (w.1, w.2, r.2)

/-- `esp_efuse_utility_write_cnt` -/
def writeCnt (burned : Blocks) : FuncProc (Blocks × Nat) := fun numReg blk bitStart bitCount s counter =>
  let mask := getMask bitCount bitStart
  let regMasked := burned blk numReg &&& mask
  let s :=
    if regMasked ^^^ mask ≠ 0 then
      let r := setCntInReg regMasked bitStart bitCount s.2
      (writeReg s.1 blk numReg r.1, r.2)
    else s
  (if s.2 = 0 then .okCnt else .ok, s, counter + bitCount)

/-! ## Bits of words -/

theorem getLsbD_one_shiftLeft {i : Nat} (hi : i < 32) (j : Nat) : ((1 : Reg) <<< i).getLsbD j = decide (j = i) := by
  have h := BitVec.getLsbD_twoPow (w := 32) i j
  rw [BitVec.twoPow_eq] at h
  refine h.trans ?_
  by_cases hij : i = j
  · subst hij
    simp [hi]
  · simp [hij, Ne.symm hij]

theorem getLsbD_lowMask {n : Nat} (h : n ≤ 32) (j : Nat) : (getMask n 0).getLsbD j = decide (j < n) := by
  unfold getMask
  rw [BitVec.shiftLeft_zero]
  split
  · have hn : n < 32 := by omega
    have hpow : 2 ^ n < 2 ^ 32 := Nat.pow_lt_pow_right (by decide) hn
    have hpos : 0 < 2 ^ n := Nat.pow_pos (by decide)
    have hnat : (((1 : Reg) <<< n) - 1).toNat = 2 ^ n - 1 := by
      have hone : ((1 : Reg) <<< n).toNat = 2 ^ n := by
        have htwo := BitVec.toNat_twoPow_of_lt hn
        rw [BitVec.twoPow_eq] at htwo
        exact htwo
      rw [BitVec.toNat_sub, hone, show (1 : Reg).toNat = 1 from rfl]
      omega
    rw [BitVec.getLsbD, hnat, Nat.testBit_two_pow_sub_one]
  · rename_i hn
    have hn : n = 32 := by omega
    subst hn
    rw [show 0xFFFFFFFF#32 = BitVec.allOnes 32 by decide, BitVec.getLsbD_allOnes]

theorem getLsbD_getMask {n shift : Nat} (h : n ≤ 32) {j : Nat} (hj : j < 32) :
    (getMask n shift).getLsbD j = decide (shift ≤ j ∧ j < shift + n) := by
  have hmask : getMask n shift = getMask n 0 <<< shift := by
    unfold getMask
    rw [BitVec.shiftLeft_zero]
  rw [hmask, BitVec.getLsbD_shiftLeft, getLsbD_lowMask h]
  by_cases hs : shift ≤ j
  · have hlt : ¬j < shift := by omega
    simp only [hj, hlt, hs, decide_true, decide_false, Bool.not_false, Bool.true_and, true_and]
    exact decide_eq_decide.mpr (by omega)
  · have hlt : j < shift := by omega
    simp [hs, hlt]

/-- Bits `k` to `k + n` of a blob, from bit `shift` of a word on. -/
def Holds (reg : Reg) (blob : Blob) (shift n k : Nat) : Prop :=
  ∀ j, j < 32 → reg.getLsbD j = (decide (shift ≤ j ∧ j < shift + n) && blobBit blob (k + (j - shift)))

/-- A byte of the blob, put behind the bits already there. -/
theorem holds_byte {blob : Blob} {reg : Reg} {n k m : Nat} (h : Holds reg blob 0 n k) (hm : m ≤ 8)
    (haligned : (k + n) % 8 = 0) :
    Holds (reg ||| ((blob ((k + n) / 8)).setWidth 32 &&& getMask m 0) <<< n) blob 0 (n + m) k := by
  intro j hj
  rw [BitVec.getLsbD_or, h j hj, BitVec.getLsbD_shiftLeft, BitVec.getLsbD_and, BitVec.getLsbD_setWidth,
    getLsbD_lowMask (by omega)]
  unfold blobBit
  by_cases hn : j < n
  · simp [hn, show j < n + m by omega]
  · by_cases hnm : j < n + m
    · have hdiv : (k + j) / 8 = (k + n) / 8 := by omega
      have hmod : (k + j) % 8 = j - n := by omega
      simp [hn, hnm, hj, hdiv, hmod, show j - n < m by omega, show j - n < 32 by omega]
    · simp [hn, hnm, show ¬j - n < m by omega]

theorem fillBytes_holds {blob : Blob} {fuel count n k shift : Nat} {reg : Reg} (hfuel : count ≤ fuel)
    (h : Holds reg blob 0 n k) (hgo : count = 0 ∨ ((k + n) % 8 = 0 ∧ shift = n)) :
    Holds (fillBytes blob fuel count (k + n) shift reg).1 blob 0 (n + count) k ∧
      (fillBytes blob fuel count (k + n) shift reg).2 = k + (n + count) := by
  induction fuel generalizing count n shift reg with
  | zero =>
    have hzero : count = 0 := by omega
    subst hzero
    exact ⟨h, rfl⟩
  | succ fuel ih =>
    unfold fillBytes
    split
    · rename_i hzero
      subst hzero
      exact ⟨h, rfl⟩
    · rename_i hpos
      obtain ⟨haligned, rfl⟩ := hgo.resolve_left hpos
      dsimp only
      obtain ⟨m, hm⟩ : ∃ m, m = if count > 8 then 8 else count := ⟨_, rfl⟩
      rw [← hm]
      have hm8 : m ≤ 8 := by
        rw [hm]
        split <;> omega
      have hmc : m ≤ count := by
        rw [hm]
        split <;> omega
      have hfull : count = m ∨ m = 8 := by
        rw [hm]
        split <;> omega
      have hnext := @ih (count - m) (shift + m) (shift + 8) _ (by omega)
        (holds_byte h hm8 haligned) (by omega)
      rw [show k + shift + m = k + (shift + m) by omega, show shift + count = shift + m + (count - m) by omega]
      exact hnext

/-- `fill_reg` takes the next bits of the blob. -/
theorem fillReg_holds (blob : Blob) {bitStart bitCount : Nat} (hfit : bitStart + bitCount ≤ 32) (filled : Nat) :
    Holds (fillReg bitStart bitCount blob filled).1 blob bitStart bitCount filled ∧
      (fillReg bitStart bitCount blob filled).2 = filled + bitCount := by
  have hlow : Holds (fillReg 0 bitCount blob filled).1 blob 0 bitCount filled ∧
      (fillReg 0 bitCount blob filled).2 = filled + bitCount := by
    unfold fillReg
    dsimp only
    rw [BitVec.shiftLeft_zero]
    split
    · rename_i hpart
      obtain ⟨m, hm⟩ : ∃ m, m = if 8 - filled % 8 < bitCount then 8 - filled % 8 else bitCount := ⟨_, rfl⟩
      rw [← hm]
      have hm8 : m ≤ 8 - filled % 8 := by
        rw [hm]
        split <;> omega
      have hmc : m ≤ bitCount := by
        rw [hm]
        split <;> omega
      have hfull : bitCount = m ∨ m = 8 - filled % 8 := by
        rw [hm]
        split <;> omega
      have hfirst : Holds ((blob (filled / 8)).setWidth 32 >>> (filled % 8) &&& getMask m 0) blob 0 m filled := by
        intro j hj
        rw [BitVec.getLsbD_and, BitVec.getLsbD_ushiftRight, BitVec.getLsbD_setWidth, getLsbD_lowMask (by omega)]
        unfold blobBit
        by_cases hjm : j < m
        · have hdiv : (filled + j) / 8 = filled / 8 := by omega
          have hmod : (filled + j) % 8 = filled % 8 + j := by omega
          simp [hjm, hdiv, hmod, show filled % 8 + j < 32 by omega]
        · simp [hjm]
      have hrest := @fillBytes_holds blob bitCount (bitCount - m) m filled m _ (by omega) hfirst (by omega)
      rw [show m + (bitCount - m) = bitCount by omega] at hrest
      exact hrest
    · rename_i hwhole
      have hnone : Holds 0 blob 0 0 filled := by
        intro j _
        simp
      have hrest := @fillBytes_holds blob bitCount bitCount 0 filled 0 _ (Nat.le_refl _) hnone (by omega)
      rw [Nat.zero_add] at hrest
      exact hrest
  refine ⟨?_, hlow.2⟩
  intro j hj
  have hshift : (fillReg bitStart bitCount blob filled).1 = (fillReg 0 bitCount blob filled).1 <<< bitStart := by
    unfold fillReg
    simp
  rw [hshift, BitVec.getLsbD_shiftLeft]
  by_cases hstart : j < bitStart
  · simp [hstart, show ¬bitStart ≤ j by omega]
  · have hb := hlow.1 (j - bitStart) (by omega)
    rw [hb]
    simp [hj, hstart, show bitStart ≤ j by omega, show (j - bitStart < bitCount) ↔ (j < bitStart + bitCount) by omega]

end EspIdf.Efuse
