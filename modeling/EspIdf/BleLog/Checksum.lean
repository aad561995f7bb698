import EspIdf.Lib.BitField

/-!
# The checksum of a log frame

* `fastChecksum` : `ble_log_fast_checksum`, which reads aligned words from anywhere in memory;
* `checksumOf` : the sum that the receiver of the bytes computes, wherever it has put them;
* `fastChecksum_eq` : they agree, whatever the alignment and whatever lies around the bytes.
-/

namespace EspIdf.BleLog

abbrev Byte := BitVec 8

/-- `*p` : four bytes, the low one first. -/
def readWord (mem : Nat → Byte) (p : Nat) : BitVec 32 := mem (p + 3) ++ mem (p + 2) ++ mem (p + 1) ++ mem p

def ror32 (word : BitVec 32) (shift : Nat) : BitVec 32 :=
  if shift = 0 then word else word >>> shift ||| word <<< ((32 - shift) % 32)

/-- The loop of step 4, over `n` words. -/
def xorWords (mem : Nat → Byte) : Nat → Nat → BitVec 32 → BitVec 32
  | _, 0, checksum => checksum
  | p, n + 1, checksum => xorWords mem (p + 4) n (checksum ^^^ readWord mem p)

/-- `ble_log_fast_checksum`. -/
def fastChecksum (mem : Nat → Byte) (data len : Nat) : BitVec 32 :=
  if len = 0 then 0
  else
    let startOffsetShift := data % 4 * 8
    let pAligned := data - data % 4
    let pEndAligned := data + len - (data + len) % 4
    let endOffsetShift := (data + len) % 4 * 8
    let endOffsetShiftMask := ~~~(0xFFFFFFFF#32 <<< endOffsetShift)
    let first := readWord mem pAligned &&& 0xFFFFFFFF#32 <<< startOffsetShift
    let checksum :=
      if pAligned = pEndAligned then if endOffsetShift = 0 then first else first &&& endOffsetShiftMask
      else
        let checksum := xorWords mem (pAligned + 4) ((pEndAligned - (pAligned + 4)) / 4) first
        if endOffsetShift = 0 then checksum else checksum ^^^ readWord mem pEndAligned &&& endOffsetShiftMask
    ror32 checksum startOffsetShift

/-! ## The sum by lanes -/

/-- A byte in its lane of a word. -/
def lane (i : Nat) (byte : Byte) : BitVec 32 := byte.setWidth 32 <<< (i % 4 * 8)

def laneXor : Nat → List Byte → BitVec 32
  | _, [] => 0
  | i, byte :: bytes => lane i byte ^^^ laneXor (i + 1) bytes

/-- Byte `i` is added in lane `i % 4`. -/
def checksumOf (bytes : List Byte) : BitVec 32 := laneXor 0 bytes

/-- The bytes from `lo` on, each in the lane of its address. -/
def lanes (mem : Nat → Byte) : Nat → Nat → BitVec 32
  | _, 0 => 0
  | lo, n + 1 => lane lo (mem lo) ^^^ lanes mem (lo + 1) n

section lanes
variable (mem : Nat → Byte) {p : Nat}

theorem lanes_add (mem : Nat → Byte) (lo m n : Nat) : lanes mem lo (m + n) = lanes mem lo m ^^^ lanes mem (lo + m) n := by
  induction m generalizing lo with
  | zero => simp [lanes]
  | succ m ih =>
    rw [show m + 1 + n = m + n + 1 by omega, lanes, ih, lanes, BitVec.xor_assoc,
      show lo + 1 + m = lo + (m + 1) by omega]

theorem getLsbD_lane (i : Nat) (byte : Byte) (k : Nat) (hk : k < 32) :
    (lane i byte).getLsbD k = (decide (k / 8 = i % 4) && byte.getLsbD (k % 8)) := by
  have four : i % 4 < 4 := Nat.mod_lt _ (by decide)
  simp only [lane, BitVec.getLsbD_shiftLeft, BitVec.getLsbD_setWidth, hk, decide_true, Bool.true_and]
  by_cases inside : k / 8 = i % 4
  · have low : k % 8 = k - i % 4 * 8 := by omega
    have reached : ¬k < i % 4 * 8 := by omega
    have short : k - i % 4 * 8 < 32 := by omega
    simp [inside, low, reached, short]
  · by_cases before : k < i % 4 * 8
    · simp [before, inside]
    · have past : 8 ≤ k - i % 4 * 8 := by omega
      simp [inside, BitVec.getLsbD_of_ge byte _ past]

/-- The bytes of a word from lane `s` up to lane `e`. -/
theorem getLsbD_lanes (aligned : p % 4 = 0) (s n : Nat) (short : s + n ≤ 4) (k : Nat) (hk : k < 32) :
    (lanes mem (p + s) n).getLsbD k = (decide (s ≤ k / 8 ∧ k / 8 < s + n) && (readWord mem p).getLsbD k) := by
  have word : (readWord mem p).getLsbD k = (mem (p + k / 8)).getLsbD (k % 8) := by
    have four : k / 8 = 0 ∨ k / 8 = 1 ∨ k / 8 = 2 ∨ k / 8 = 3 := by omega
    simp only [readWord, BitVec.getLsbD_append]
    rcases four with h | h | h | h
    · have : k < 8 := by omega
      simp [h, this, show k % 8 = k by omega]
    · have : ¬k < 8 ∧ k - 8 < 8 := by omega
      simp [h, this, show k % 8 = k - 8 by omega]
    · have : ¬k < 8 ∧ ¬k - 8 < 8 ∧ k - 8 - 8 < 8 := by omega
      simp [h, this, show k % 8 = k - 8 - 8 by omega]
    · have : ¬k < 8 ∧ ¬k - 8 < 8 ∧ ¬k - 8 - 8 < 8 := by omega
      simp [h, this, show k % 8 = k - 8 - 8 - 8 by omega]
  rw [word]
  induction n generalizing s with
  | zero =>
    simp [lanes]
  | succ n ih =>
    rw [lanes, BitVec.getLsbD_xor, getLsbD_lane _ _ k hk, show p + s + 1 = p + (s + 1) by omega,
      ih (s + 1) (by omega), show (p + s) % 4 = s by omega]
    by_cases here : k / 8 = s
    · subst here
      have later : ¬k / 8 + 1 ≤ k / 8 := by omega
      simp [later]
    · have same : decide (s + 1 ≤ k / 8 ∧ k / 8 < s + 1 + n) = decide (s ≤ k / 8 ∧ k / 8 < s + (n + 1)) :=
        decide_eq_decide.mpr (by omega)
      rw [same]
      simp [here]

theorem getLsbD_startMask (s k : Nat) (hk : k < 32) : (0xFFFFFFFF#32 <<< (s * 8)).getLsbD k = decide (s ≤ k / 8) := by
  have ones (j : Nat) (hj : j < 32) : (0xFFFFFFFF#32).getLsbD j = true := by
    rw [show 0xFFFFFFFF#32 = BitVec.allOnes 32 by decide, BitVec.getLsbD_allOnes]
    exact decide_eq_true hj
  rw [BitVec.getLsbD_shiftLeft]
  by_cases inside : s ≤ k / 8
  · have reached : ¬k < s * 8 := by omega
    simp [hk, reached, inside, ones (k - s * 8) (by omega)]
  · have before : k < s * 8 := by omega
    simp [before, inside]

theorem readWord_from (aligned : p % 4 = 0) {s : Nat} (hs : s ≤ 4) :
    readWord mem p &&& 0xFFFFFFFF#32 <<< (s * 8) = lanes mem (p + s) (4 - s) := by
  apply BitVec.eq_of_getLsbD_eq
  intro k hk
  have inside : (s ≤ k / 8 ∧ k / 8 < s + (4 - s)) ↔ s ≤ k / 8 := by omega
  rw [BitVec.getLsbD_and, getLsbD_startMask s k hk, getLsbD_lanes mem aligned s _ (by omega) k hk, Bool.and_comm]
  simp only [inside]

/-- The bytes of a word up to lane `e`, after a mask that starts at lane `s`. -/
theorem lanes_until (aligned : p % 4 = 0) {s e : Nat} (hs : s ≤ e) (he : e ≤ 4) :
    lanes mem (p + s) (4 - s) &&& ~~~(0xFFFFFFFF#32 <<< (e * 8)) = lanes mem (p + s) (e - s) := by
  apply BitVec.eq_of_getLsbD_eq
  intro k hk
  rw [BitVec.getLsbD_and, BitVec.getLsbD_not, getLsbD_startMask e k hk, getLsbD_lanes mem aligned s _ (by omega) k hk,
    getLsbD_lanes mem aligned s _ (by omega) k hk]
  by_cases inside : k / 8 < e
  · have same : (s ≤ k / 8 ∧ k / 8 < s + (4 - s)) ↔ (s ≤ k / 8 ∧ k / 8 < s + (e - s)) := by omega
    have low : ¬e ≤ k / 8 := by omega
    simp [hk, low, same]
  · have none : ¬(s ≤ k / 8 ∧ k / 8 < s + (e - s)) := by omega
    have high : e ≤ k / 8 := by omega
    simp [high, none]

theorem readWord_eq (aligned : p % 4 = 0) : readWord mem p = lanes mem p 4 := by
  apply BitVec.eq_of_getLsbD_eq
  intro k hk
  have all : 0 ≤ k / 8 ∧ k / 8 < 0 + 4 := by omega
  have := getLsbD_lanes mem aligned 0 4 (by omega) k hk
  simpa [all] using this.symm

theorem xorWords_eq (aligned : p % 4 = 0) (n : Nat) (checksum : BitVec 32) :
    xorWords mem p n checksum = checksum ^^^ lanes mem p (4 * n) := by
  induction n generalizing p checksum with
  | zero => simp [xorWords, lanes]
  | succ n ih =>
    rw [xorWords, ih (by omega), readWord_eq mem aligned, show 4 * (n + 1) = 4 + 4 * n by omega, lanes_add, BitVec.xor_assoc]

/-! ## Rotation -/

theorem getLsbD_ror32 (word : BitVec 32) {shift : Nat} (h : shift < 32) (k : Nat) (hk : k < 32) :
    (ror32 word shift).getLsbD k = word.getLsbD ((k + shift) % 32) := by
  unfold ror32
  split
  · rename_i zero
    simp [zero, Nat.mod_eq_of_lt hk]
  · rename_i pos
    rw [BitVec.getLsbD_or, BitVec.getLsbD_ushiftRight, BitVec.getLsbD_shiftLeft,
      show (32 - shift) % 32 = 32 - shift by omega]
    by_cases inside : k + shift < 32
    · have before : k < 32 - shift := by omega
      simp [before, Nat.mod_eq_of_lt inside, Nat.add_comm shift k]
    · have around : (k + shift) % 32 = k - (32 - shift) := by omega
      have past : 32 ≤ shift + k := by omega
      have reached : ¬k < 32 - shift := by omega
      simp [hk, around, reached, BitVec.getLsbD_of_ge word _ past]

theorem ror32_xor (a b : BitVec 32) {shift : Nat} (h : shift < 32) :
    ror32 (a ^^^ b) shift = ror32 a shift ^^^ ror32 b shift := by
  apply BitVec.eq_of_getLsbD_eq
  intro k hk
  simp [getLsbD_ror32 _ h k hk]

/-- Turning a word back by the first address's lane puts byte `i` in lane `i % 4`. -/
theorem ror32_lane (byte : Byte) (i : Nat) {s : Nat} (hs : s < 4) : ror32 (lane (i + s) byte) (s * 8) = lane i byte := by
  apply BitVec.eq_of_getLsbD_eq
  intro k hk
  have turned : (k + s * 8) % 32 < 32 := Nat.mod_lt _ (by decide)
  rw [getLsbD_ror32 _ (by omega) k hk, getLsbD_lane _ _ _ turned, getLsbD_lane _ _ k hk,
    show (k + s * 8) % 32 % 8 = k % 8 by omega]
  have same : (k + s * 8) % 32 / 8 = (i + s) % 4 ↔ k / 8 = i % 4 := by omega
  simp only [same]

theorem ror32_lanes (mem : Nat → Byte) {s : Nat} (hs : s < 4) (i n : Nat) :
    ror32 (lanes mem (i + s) n) (s * 8) = laneXor i ((List.range' (i + s) n).map mem) := by
  induction n generalizing i with
  | zero =>
    unfold ror32
    simp [lanes, laneXor]
  | succ n ih =>
    rw [lanes, ror32_xor _ _ (by omega), ror32_lane _ _ hs, List.range'_succ, List.map_cons, laneXor,
      show i + s + 1 = i + 1 + s by omega, ih]

end lanes

theorem lane_congr {i j : Nat} (h : i % 4 = j % 4) (byte : Byte) : lane i byte = lane j byte := by
  unfold lane
  rw [h]

theorem laneXor_congr {i j : Nat} (h : i % 4 = j % 4) (bytes : List Byte) : laneXor i bytes = laneXor j bytes := by
  induction bytes generalizing i j with
  | nil => rfl
  | cons byte bytes ih =>
    have next : (i + 1) % 4 = (j + 1) % 4 := by omega
    rw [laneXor, laneXor, lane_congr h, ih next]

/-- The masked first word, the words in between and the masked last word are the bytes in their lanes. -/
theorem fastChecksum_lanes (mem : Nat → Byte) (data : Nat) {len : Nat} (some : len ≠ 0) :
    fastChecksum mem data len = ror32 (lanes mem data len) (data % 4 * 8) := by
  have hs : data % 4 < 4 := Nat.mod_lt _ (by decide)
  have he : (data + len) % 4 < 4 := Nat.mod_lt _ (by decide)
  have start : (data - data % 4) % 4 = 0 := by omega
  have first := readWord_from mem start (Nat.le_of_lt hs)
  rw [show data - data % 4 + data % 4 = data by omega] at first
  simp only [fastChecksum, some, ↓reduceIte, first]
  congr 1
  split
  · rename_i same
    have inside : (data + len) % 4 * 8 ≠ 0 := by omega
    have until_end := lanes_until mem start (s := data % 4) (e := (data + len) % 4) (by omega) (by omega)
    rw [show data - data % 4 + data % 4 = data by omega] at until_end
    rw [if_neg inside, until_end, show (data + len) % 4 - data % 4 = len by omega]
  · rename_i apart
    obtain ⟨n, hn⟩ : ∃ n, (data + len - (data + len) % 4 - (data - data % 4 + 4)) / 4 = n := ⟨_, rfl⟩
    have words := xorWords_eq mem (p := data - data % 4 + 4) (by omega) n (lanes mem data (4 - data % 4))
    rw [show data - data % 4 + 4 = data + (4 - data % 4) by omega, ← lanes_add] at words
    rw [hn, show data - data % 4 + 4 = data + (4 - data % 4) by omega, words]
    split
    · rw [show 4 - data % 4 + 4 * n = len by omega]
    · have stop : (data + len - (data + len) % 4) % 4 = 0 := by omega
      have last := lanes_until mem stop (s := 0) (e := (data + len) % 4) (by omega) (by omega)
      rw [Nat.add_zero, Nat.sub_zero, Nat.sub_zero, ← readWord_eq mem stop] at last
      rw [last, show data + len - (data + len) % 4 = data + (4 - data % 4 + 4 * n) by omega, ← lanes_add,
        show 4 - data % 4 + 4 * n + (data + len) % 4 = len by omega]

/-- The checksum does not depend on where the bytes are, nor on what the words at the ends hold besides them. -/
theorem fastChecksum_eq (mem : Nat → Byte) (data len : Nat) :
    fastChecksum mem data len = checksumOf ((List.range' data len).map mem) := by
  by_cases empty : len = 0
  · simp [fastChecksum, empty, checksumOf, laneXor]
  have hs : data % 4 < 4 := Nat.mod_lt _ (by decide)
  have turned := ror32_lanes mem hs (data - data % 4) len
  rw [show data - data % 4 + data % 4 = data by omega] at turned
  rw [fastChecksum_lanes mem data empty, turned]
  exact laneXor_congr (by omega) _

/-- A byte string has the same checksum at every address, whatever surrounds it. -/
theorem fastChecksum_placed (bytes : List Byte) (mem : Nat → Byte) (data : Nat)
    (placed : ∀ i, (h : i < bytes.length) → mem (data + i) = bytes[i]) :
    fastChecksum mem data bytes.length = checksumOf bytes := by
  have there : (List.range' data bytes.length).map mem = bytes := by
    apply List.ext_getElem
    · simp
    · intro i _ inside
      rw [List.getElem_map, List.getElem_range', Nat.one_mul]
      exact placed i inside
  rw [fastChecksum_eq, there]

/-- Seven bytes from the last lane of one word to the second of the next but one. -/
theorem fastChecksum_placed_unaligned :
    fastChecksum (fun p => BitVec.ofNat 8 (p * p)) 7 7 = checksumOf [49, 64, 81, 100, 121, 144, 169] :=
  fastChecksum_placed [49, 64, 81, 100, 121, 144, 169] (fun p => BitVec.ofNat 8 (p * p)) 7 (by decide)

end EspIdf.BleLog
