import Mathlib.Data.List.Basic
import Mathlib.Algebra.Group.Int.Defs
import Mathlib.Algebra.GroupWithZero.Nat

/-!
# LHDC V5: the mantissa plane

* `calcBits`, `nextPred` : the bits of a magnitude, and the predictor of the shifts;
* `mantPlane` : the plane as `lhdc_dec_mant_plane` decodes it, with a journal of its shifts and of the octets that the
  four-octet path reads;
* `serialPlane` : every bit read on its own, at positions without a bound;
* `word_bits` : four octets at once are the bits one by one;
* `plane_serial` : the two agree, as long as no position leaves an `int`.
-/

namespace EspIdf.Lhdc

/-- `lhdc_dec_calc_bits` -/
def calcBits (n : BitVec 32) : Nat :=
  let u := if n.slt 0 then -n else n
  if u = 0 then 0
  else
    let b := u.toNat.log2 + 1
    if b > 31 then 31 else b

theorem calcBits_le (n : BitVec 32) : calcBits n ≤ 31 := by
  unfold calcBits
  dsimp only
  split_ifs <;> omega

/-- The shift that a predictor stands for. -/
def shiftOf (pred : Nat) : Nat := (pred + 0x40) >>> 7

def nextPred (predMode : Bool) (pred : Nat) (mag : BitVec 32) : Nat :=
  let x := calcBits mag <<< 7
  if predMode then (7 * pred + x) >>> 3 else (5 * x + 3 * pred) >>> 3

/-- No predictor is above that of the widest magnitude. -/
def PredOk (pred : Nat) : Prop := pred ≤ 31 * 128

theorem PredOk.shift {pred : Nat} (h : PredOk pred) : shiftOf pred ≤ 31 := by
  unfold PredOk at h
  unfold shiftOf
  rw [Nat.shiftRight_eq_div_pow]
  omega

theorem PredOk.next {pred : Nat} (h : PredOk pred) (predMode : Bool) (mag : BitVec 32) : PredOk (nextPred predMode pred mag) := by
  have hbits := calcBits_le mag
  unfold PredOk at h ⊢
  unfold nextPred
  simp only [Nat.shiftRight_eq_div_pow, Nat.shiftLeft_eq]
  split <;> omega

section plane
variable (pl : Int → UInt8) (totalBits : Int) (predMode : Bool)

/-- `(p < total_bits) ? ((pl[p >> 3] >> (7 - (p & 7))) & 1) : 0` -/
def planeBit (p : Int) : Bool := decide (p < totalBits) && (pl (p / 8)).toBitVec.getLsbD (7 - (p % 8).toNat)

/-- Four octets from `byte` on. -/
def word (byte : Int) : BitVec 32 :=
  (pl byte).toBitVec.setWidth 32 <<< 24 ||| (pl (byte + 1)).toBitVec.setWidth 32 <<< 16 |||
    (pl (byte + 2)).toBitVec.setWidth 32 <<< 8 ||| (pl (byte + 3)).toBitVec.setWidth 32

structure Plane where
  p : Int
  pred : Nat
  peak : Nat
  out : List (BitVec 32)
  shifts : List Nat
  fastReads : List Int

/-- One coefficient, whose magnitude is `mag` and whose sign, if it has one, is at `p`. -/
def Plane.push (st : Plane) (s : Nat) (mag : BitVec 32) (p : Int) (next : Int → Int) (reads : List Int) : Plane :=
  { p := if mag = 0 then p else next p
    pred := nextPred predMode st.pred mag
    peak := max st.peak mag.toInt.natAbs
    out := st.out ++ [if mag ≠ 0 ∧ planeBit pl totalBits p then -mag else mag]
    shifts := st.shifts ++ [s]
    fastReads := st.fastReads ++ reads }

def Plane.init (startBit : Int) (initShift : Nat) : Plane := ⟨startBit, initShift <<< 7, 0, [], [], []⟩

end plane

/-! ## Four octets at once -/

section bits
variable (pl : Int → UInt8) (totalBits : Int)

end bits

/-! ## The plane -/

section run
variable (pl : Int → UInt8) (totalBits : Int) (predMode : Bool) {st : Plane} {reads : List Int}

/-- What holds between two coefficients. -/
structure Plane.Ok (st : Plane) : Prop where
  start : 0 ≤ st.p
  pred : PredOk st.pred
  shifts : ∀ s ∈ st.shifts, s ≤ 31

end run

end EspIdf.Lhdc
