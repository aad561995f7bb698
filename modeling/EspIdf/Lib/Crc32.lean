import EspIdf.Lib.Word32

/-!
# The reflected CRC-32

* `crc32Step`, `crc32Table`, `crc32Le` : the byte-at-a-time CRC with polynomial `0xEDB88320`;
* `crc32Fold_xor` : the CRC is linear in the remainder and the bytes together;
* `crc32Fold_word` : from a zero remainder, only the zero word leaves a zero remainder;
* `crc32Le_word_eq_ones` : with all-ones start value only the zero word has an all-ones CRC;
* `crc32Le_word_inj` : two byte strings that differ in one word have different CRCs.
-/

namespace Crc32

open Word32

/-- One bit of the reflected CRC. -/
def crc32Step (c : UInt32) : UInt32 :=
  if c &&& 1 = 1 then (c >>> 1) ^^^ 0xEDB88320 else c >>> 1

/-- The table entry of a byte. -/
def crc32Table (x : UInt32) : UInt32 := crc32Step^[8] x

def crc32Byte (c : UInt32) (b : UInt8) : UInt32 :=
  crc32Table ((c ^^^ b.toUInt32) &&& 0xFF) ^^^ (c >>> 8)

/-- The CRC of a byte string, continuing from `crc`. -/
def crc32Le (crc : UInt32) (buf : List UInt8) : UInt32 := ~~~(buf.foldl crc32Byte (~~~crc))

/-- Only the entry of `0` has a clear top byte. -/
theorem crc32Table_top : ∀ x < 256, (crc32Table (.ofNat x)).toNat < 2 ^ 24 → x = 0 := by
  decide +kernel

theorem crc32Table_zero : crc32Table 0 = 0 := by
  decide

theorem and_255_toNat (x : UInt32) : (x &&& 0xFF).toNat = x.toNat % 2 ^ 8 := by
  rw [UInt32.toNat_and]
  exact Nat.and_two_pow_sub_one_eq_mod _ 8

/-- Absorbing `b` leaves a remainder below `2 ^ 24` from one remainder only. -/
theorem crc32Byte_inv {c : UInt32} {b : UInt8} (h : (crc32Byte c b).toNat < 2 ^ 24) :
    c.toNat = b.toNat + 2 ^ 8 * (crc32Byte c b).toNat := by
  have hc := c.toNat_lt
  have hb := b.toNat_lt
  have hidx : ((c ^^^ b.toUInt32) &&& 0xFF).toNat = (c.toNat ^^^ b.toNat) % 2 ^ 8 := by
    rw [and_255_toNat, UInt32.toNat_xor, UInt8.toNat_toUInt32]
  have hshift : (c >>> 8).toNat = c.toNat / 2 ^ 8 := by
    rw [UInt32.toNat_shiftRight]
    exact Nat.shiftRight_eq_div_pow _ _
  have hentry : crc32Table ((c ^^^ b.toUInt32) &&& 0xFF) = crc32Byte c b ^^^ (c >>> 8) := by
    unfold crc32Byte
    rw [UInt32.xor_assoc, UInt32.xor_self, UInt32.xor_zero]
  have hsmall : (crc32Table ((c ^^^ b.toUInt32) &&& 0xFF)).toNat < 2 ^ 24 := by
    rw [hentry, UInt32.toNat_xor]
    exact Nat.xor_lt_two_pow h (by rw [hshift]; omega)
  have hzero : (c.toNat ^^^ b.toNat) % 2 ^ 8 = 0 := by
    apply crc32Table_top _ (by omega)
    rwa [← hidx, UInt32.ofNat_toNat]
  have hrem : crc32Byte c b = c >>> 8 := by
    have e : ((c ^^^ b.toUInt32) &&& 0xFF) = 0 := by
      apply UInt32.toNat_inj.mp
      rw [hidx, hzero]
      rfl
    unfold crc32Byte
    rw [e, crc32Table_zero, UInt32.zero_xor]
  rw [Nat.xor_mod_two_pow, Nat.xor_eq_zero_iff] at hzero
  rw [hrem, hshift]
  omega

/-- The remainder after a byte string. -/
abbrev crc32Fold (c : UInt32) (buf : List UInt8) : UInt32 := buf.foldl crc32Byte c

/-- From a zero remainder, only the zero word leaves a zero remainder. -/
theorem crc32Fold_word {w : UInt32} (h : crc32Fold 0 (leBytes w) = 0) : w = 0 := by
  have hw := w.toNat_lt
  simp only [crc32Fold, leBytes, List.foldl_cons, List.foldl_nil] at h
  have n3 := congrArg UInt32.toNat h
  rw [UInt32.toNat_zero] at n3
  have i3 := crc32Byte_inv (by rw [n3]; decide)
  rw [n3, UInt8.toNat_ofNat'] at i3
  have i2 := crc32Byte_inv (by rw [i3]; omega)
  rw [i3, UInt8.toNat_ofNat'] at i2
  have i1 := crc32Byte_inv (by rw [i2]; omega)
  rw [i2, UInt8.toNat_ofNat'] at i1
  have i0 := crc32Byte_inv (by rw [i1]; omega)
  rw [i1, UInt8.toNat_ofNat', UInt32.toNat_zero] at i0
  apply UInt32.toNat_inj.mp
  rw [UInt32.toNat_zero]
  omega

/-- From the all-ones start value, only the zero word has an all-ones CRC. -/
theorem crc32Le_word_eq_ones {w : UInt32} (h : crc32Le 0xFFFFFFFF (leBytes w) = 0xFFFFFFFF) : w = 0 := by
  apply crc32Fold_word
  rw [← UInt32.not_not (a := crc32Fold 0 (leBytes w))]
  change ~~~(crc32Le 0xFFFFFFFF (leBytes w)) = 0
  rw [h]
  rfl

/-! ## Linearity -/

theorem and_one_eq_iff (c : UInt32) : c &&& 1 = 1 ↔ c.toNat % 2 = 1 := by
  rw [← UInt32.toNat_inj, UInt32.toNat_and]
  change c.toNat &&& 1 = 1 ↔ _
  rw [Nat.and_one_is_mod]

theorem crc32Step_xor (c c' : UInt32) : crc32Step (c ^^^ c') = crc32Step c ^^^ crc32Step c' := by
  have hpar : (c ^^^ c').toNat % 2 = (c.toNat + c'.toNat) % 2 := by
    rw [UInt32.toNat_xor]
    exact Nat.xor_mod_two_eq
  unfold crc32Step
  simp only [and_one_eq_iff, hpar, UInt32.shiftRight_xor]
  by_cases h : c.toNat % 2 = 1 <;> by_cases h' : c'.toNat % 2 = 1
  · rw [if_neg (by omega), if_pos h, if_pos h', UInt32.xor_comm (c' >>> 1), UInt32.xor_assoc, ← UInt32.xor_assoc 3988292384,
      UInt32.xor_self, UInt32.zero_xor]
  · rw [if_pos (by omega), if_pos h, if_neg h']
    ac_rfl
  · rw [if_pos (by omega), if_neg h, if_pos h']
    ac_rfl
  · rw [if_neg (by omega), if_neg h, if_neg h']

theorem crc32Steps_xor (n : Nat) (c c' : UInt32) : crc32Step^[n] (c ^^^ c') = crc32Step^[n] c ^^^ crc32Step^[n] c' := by
  induction n generalizing c c' with
  | zero => rfl
  | succ n ih =>
      rw [Function.iterate_succ_apply, Function.iterate_succ_apply, Function.iterate_succ_apply, crc32Step_xor, ih]

theorem crc32Table_xor (c c' : UInt32) : crc32Table (c ^^^ c') = crc32Table c ^^^ crc32Table c' :=
  crc32Steps_xor 8 c c'

theorem crc32Byte_xor (c c' : UInt32) (b b' : UInt8) :
    crc32Byte (c ^^^ c') (b ^^^ b') = crc32Byte c b ^^^ crc32Byte c' b' := by
  have hand : ∀ x y : UInt32, (x ^^^ y) &&& 0xFF = (x &&& 0xFF) ^^^ (y &&& 0xFF) := by
    intro x y
    apply UInt32.toNat_inj.mp
    rw [UInt32.toNat_xor, and_255_toNat, and_255_toNat, and_255_toNat, UInt32.toNat_xor, Nat.xor_mod_two_pow]
  have hidx : c ^^^ c' ^^^ (b ^^^ b').toUInt32 = (c ^^^ b.toUInt32) ^^^ (c' ^^^ b'.toUInt32) := by
    rw [UInt8.toUInt32_xor]
    ac_rfl
  unfold crc32Byte
  rw [hidx, hand, crc32Table_xor, UInt32.shiftRight_xor]
  ac_rfl

theorem crc32Fold_xor (bs bs' : List UInt8) (h : bs.length = bs'.length) (c c' : UInt32) :
    crc32Fold (c ^^^ c') (List.zipWith (· ^^^ ·) bs bs') = crc32Fold c bs ^^^ crc32Fold c' bs' := by
  induction bs generalizing bs' c c' with
  | nil =>
      cases bs' with
      | nil => rfl
      | cons b' bs' => simp at h
  | cons b bs ih =>
      cases bs' with
      | nil => simp at h
      | cons b' bs' =>
          simp only [List.length_cons, Nat.add_right_cancel_iff] at h
          rw [List.zipWith_cons_cons]
          simp only [crc32Fold, List.foldl_cons]
          rw [crc32Byte_xor]
          exact ih bs' h _ _

/-- A byte absorbed into different remainders leaves different remainders. -/
theorem crc32Fold_inj {bs : List UInt8} {c c' : UInt32} (h : crc32Fold c bs = crc32Fold c' bs) : c = c' := by
  induction bs generalizing c c' with
  | nil => exact h
  | cons b bs ih =>
      have e : crc32Byte (c ^^^ c') (b ^^^ b) = 0 := by
        rw [crc32Byte_xor, ih h, UInt32.xor_self]
      have n := congrArg UInt32.toNat e
      rw [UInt32.toNat_zero] at n
      have i := crc32Byte_inv (by rw [n]; decide)
      rw [n, UInt8.xor_self] at i
      exact UInt32.xor_eq_zero_iff.mp (UInt32.toNat_inj.mp i)

/-- Two byte strings that differ in one word have different CRCs. -/
theorem crc32Le_word_inj {crc w w' : UInt32} {pre post : List UInt8}
    (h : crc32Le crc (pre ++ leBytes w ++ post) = crc32Le crc (pre ++ leBytes w' ++ post)) : w = w' := by
  unfold crc32Le at h
  rw [UInt32.not_inj, List.foldl_append, List.foldl_append, List.foldl_append, List.foldl_append] at h
  have hword := crc32Fold_inj h
  apply UInt32.xor_eq_zero_iff.mp
  apply crc32Fold_word
  have hlin := crc32Fold_xor (leBytes w) (leBytes w') rfl (crc32Fold (~~~crc) pre) (crc32Fold (~~~crc) pre)
  rw [UInt32.xor_self] at hlin
  rw [leBytes_xor, hlin]
  exact UInt32.xor_eq_zero_iff.mpr hword

end Crc32
