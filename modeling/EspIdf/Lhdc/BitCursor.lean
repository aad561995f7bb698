import EspIdf.Lhdc.BitReader
import EspIdf.Lib.BitString

/-!
# LHDC V5: the bit reader is a cursor in the bits of its data

* `bitReaderPeek`, `bitReaderSkip`, `bitReaderAlignByte`, `bitReaderReadFlag` : the other operations;
* `Reads br c` : the cache holds the bits between the cursor and the next byte to fetch;
* `perform_spec` : one operation on the reader is one on the cursor;
* `bitReader_cursor` : so is any sequence of operations.

The number of bits fits `size_t`.
-/

namespace EspIdf.Lhdc

open BitString

/-- `lhdc_bit_reader_peek`. -/
def bitReaderPeek (br : BitReader) (numBits : Int) : Nat × BitReader :=
  if numBits ≤ 0 then (0, br)
  else
    let n := min numBits.toNat 32
    let br := bitReaderRefill br n
    if br.cacheBits < n then (u32 (lowBits br.cache br.cacheBits), br)
    else (u32 (lowBits (br.cache >>> (br.cacheBits - n)) n), br)

/-- `lhdc_bit_reader_skip`. -/
def bitReaderSkip (br : BitReader) (numBits : Int) : BitReader :=
  if numBits ≤ 0 then br
  else
    let br := bitReaderRefill br numBits.toNat
    if numBits.toNat ≤ br.cacheBits then br.keep (br.cacheBits - numBits.toNat)
    else { br with cache := 0, cacheBits := 0 }

/-- `lhdc_bit_reader_align_byte`. -/
def bitReaderAlignByte (br : BitReader) : BitReader :=
  if br.cacheBits % 8 ≠ 0 then bitReaderSkip br (br.cacheBits % 8 : Nat) else br

/-- `lhdc_bit_reader_read_flag`. -/
def bitReaderReadFlag (br : BitReader) : Nat × BitReader := bitReaderRead br 1

/-- A call of one of the functions that work on a reader. -/
inductive ReaderOp
  | read (numBits : Int)
  | peek (numBits : Int)
  | skip (numBits : Int)
  | readFlag
  | alignByte
  deriving DecidableEq

/-- The width is at most 32 bits. -/
def ReaderOp.Narrow : ReaderOp → Prop
  | read n | peek n | skip n => n ≤ 32
  | readFlag | alignByte => True

instance : DecidablePred ReaderOp.Narrow
  | .read n | .peek n | .skip n => inferInstanceAs (Decidable (n ≤ 32))
  | .readFlag | .alignByte => inferInstanceAs (Decidable True)

/-- What a call returns, 0 if nothing, and the reader after it. -/
def BitReader.perform (br : BitReader) : ReaderOp → Nat × BitReader
  | .read n => bitReaderRead br n
  | .peek n => bitReaderPeek br n
  | .skip n => (0, bitReaderSkip br n)
  | .readFlag => bitReaderReadFlag br
  | .alignByte => (0, bitReaderAlignByte br)

/-- What each of a sequence of calls returns, and the reader after them. -/
def BitReader.run (br : BitReader) : List ReaderOp → List Nat × BitReader
  | [] => ([], br)
  | op :: ops => ((br.perform op).1 :: ((br.perform op).2.run ops).1, ((br.perform op).2.run ops).2)

/-- The next multiple of 8. -/
def roundUp8 (pos : Nat) : Nat := (pos + 7) / 8 * 8

/-! ## The cache -/

/-- The reader is at the cursor: the cache holds the bits from there to the next byte to fetch. -/
structure Reads (br : BitReader) (c : Cursor) : Prop where
  ok : br.Ok
  bits : c.bits = ofBytes br.data
  pos : c.pos + br.cacheBits = 8 * br.bytePos
  cache : br.cache = value (c.next br.cacheBits)

namespace Reads

variable {br : BitReader} {c : Cursor}

theorem start (data : List UInt8) : Reads (bitReaderInit data) (.start (ofBytes data)) :=
  ⟨bitReaderInit_ok data, rfl, rfl, rfl⟩

theorem length (h : Reads br c) : c.bits.length = 8 * br.data.length := by
  rw [h.bits, ofBytes_length]

theorem tell (h : Reads br c) : bitReaderTell br = c.pos := by
  have := h.pos
  unfold bitReaderTell
  omega

theorem remaining (h : Reads br c) : bitReaderRemaining br = c.remaining := by
  have hpos := h.pos
  have hlen := h.length
  have hle := h.ok.pos_le
  unfold bitReaderRemaining Cursor.remaining
  omega

theorem cacheBits_le (h : Reads br c) : br.cacheBits ≤ c.remaining := by
  rw [← h.remaining]
  exact Nat.le_add_left _ _

theorem cache_lt (h : Reads br c) : br.cache < 2 ^ br.cacheBits := by
  rw [h.cache]
  exact c.next_lt _

/-- A fetched byte comes after the cached bits. -/
theorem fetch (h : Reads br c) (hbits : br.cacheBits < 32) (hlt : br.bytePos < br.data.length) :
    Reads { br with
      cache := (br.cache <<< 8) % 2 ^ 64 ||| br.data[br.bytePos].toNat
      bytePos := br.bytePos + 1
      cacheBits := br.cacheBits + 8 } c := by
  have hbyte : (c.advance br.cacheBits).next 8 = ofByte br.data[br.bytePos] := by
    have hle := h.ok.pos_le
    have hpos : min (c.pos + br.cacheBits) c.bits.length = 8 * br.bytePos := by
      rw [h.pos, h.length]
      omega
    unfold Cursor.next Cursor.advance
    dsimp only
    rw [hpos, h.bits]
    exact ofBytes_byte hlt
  have hsmall : br.cache <<< 8 < 2 ^ 64 := by
    have hcache := h.cache_lt
    have hpow : 2 ^ br.cacheBits ≤ 2 ^ 32 := Nat.pow_le_pow_right (by decide) hbits.le
    rw [Nat.shiftLeft_eq]
    omega
  have hor : (br.cache <<< 8) % 2 ^ 64 ||| br.data[br.bytePos].toNat =
      value (c.next (br.cacheBits + 8)) := by
    rw [Nat.mod_eq_of_lt hsmall, ← Nat.shiftLeft_add_eq_or_of_lt br.data[br.bytePos].toNat_lt, Nat.shiftLeft_eq,
      c.next_add h.cacheBits_le, hbyte, value_append, value_ofByte, ofByte_length, h.cache]
  have hle := h.ok.cacheBits_le
  have hpos := h.pos
  exact ⟨⟨hlt, by dsimp only; omega, by dsimp only; omega⟩, h.bits, by dsimp only; omega, hor⟩

/-- A refill leaves the cursor where it is. -/
theorem refill (h : Reads br c) {need : Nat} (hneed : need ≤ 32) : Reads (bitReaderRefill br need) c := by
  induction br using bitReaderRefill.induct need with
  | case1 br hlt ih =>
      rw [bitReaderRefill, dif_pos hlt]
      exact ih (h.fetch (by omega) hlt.2)
  | case2 br hge =>
      rw [bitReaderRefill, dif_neg hge]
      exact h

/-- After a refill there are enough bits, or all there are. -/
theorem refill_enough (h : Reads br c) {need : Nat} (hneed : need ≤ 32)
    (hlt : (bitReaderRefill br need).cacheBits < need) :
    (bitReaderRefill br need).cacheBits = c.remaining := by
  have hend := (bitReaderRefill_spec br need h.ok hneed).2.2.2 hlt
  have hr := h.refill hneed
  have hdata := (bitReaderRefill_spec br need h.ok hneed).2.1
  rw [← hr.remaining]
  unfold bitReaderRemaining
  rw [hdata, hend, Nat.sub_self, Nat.zero_mul, Nat.zero_add]

/-- The cached bits are the next ones, then the others. -/
theorem cache_split (h : Reads br c) {n : Nat} (hn : n ≤ br.cacheBits) :
    c.next br.cacheBits = c.next n ++ (c.advance n).next (br.cacheBits - n) ∧
      ((c.advance n).next (br.cacheBits - n)).length = br.cacheBits - n := by
  have hle := h.cacheBits_le
  have hnext := c.next_add (hn.trans hle) (br.cacheBits - n)
  rw [Nat.add_sub_cancel' hn] at hnext
  refine ⟨hnext, ?_⟩
  have hlen := congrArg List.length hnext
  rw [List.length_append, c.next_length, c.next_length, Nat.min_eq_left hle, Nat.min_eq_left (hn.trans hle)] at hlen
  omega

/-- The first `n` cached bits, as a number. -/
theorem top (h : Reads br c) {n : Nat} (hn : n ≤ br.cacheBits) (h32 : n ≤ 32) :
    u32 (lowBits (br.cache >>> (br.cacheBits - n)) n) = value (c.next n) := by
  obtain ⟨hsplit, hlen⟩ := h.cache_split hn
  have hshift : br.cache >>> (br.cacheBits - n) = value (c.next n) := by
    rw [h.cache, hsplit, Nat.shiftRight_eq_div_pow, value_div hlen]
  have hlt := c.next_lt n
  have hpow : 2 ^ n ≤ 2 ^ 32 := Nat.pow_le_pow_right (by decide) h32
  unfold u32 lowBits
  rw [hshift, Nat.mod_eq_of_lt hlt, Nat.mod_eq_of_lt (by omega)]

/-- Dropping the first `n` cached bits moves the cursor. -/
theorem keep (h : Reads br c) {n : Nat} (hn : n ≤ br.cacheBits) : Reads (br.keep (br.cacheBits - n)) (c.advance n) := by
  obtain ⟨hsplit, hlen⟩ := h.cache_split hn
  have hle := h.cacheBits_le
  have hcle := c.le
  have hok := h.ok
  have hpos := h.pos
  have hcache : lowBits br.cache (br.cacheBits - n) = value ((c.advance n).next (br.cacheBits - n)) := by
    unfold lowBits
    rw [h.cache, hsplit, value_mod hlen]
  refine ⟨⟨hok.pos_le, ?_, ?_⟩, h.bits, ?_, hcache⟩
  · exact (Nat.sub_le _ _).trans hok.cacheBits_le
  · exact (Nat.sub_le _ _).trans_lt hok.cacheBits_lt
  · change min (c.pos + n) c.bits.length + (br.cacheBits - n) = 8 * br.bytePos
    unfold Cursor.remaining at hle
    omega

/-- Dropping all cached bits when there are no others moves the cursor to the end. -/
theorem clear (h : Reads br c) {n : Nat} (hall : br.cacheBits = c.remaining) (hn : c.remaining ≤ n) :
    Reads { br with cache := 0, cacheBits := 0 } (c.advance n) := by
  have hle := c.le
  have hpos := h.pos
  have hok := h.ok
  refine ⟨⟨hok.pos_le, Nat.zero_le _, Nat.zero_lt_succ _⟩, h.bits, ?_, rfl⟩
  change min (c.pos + n) c.bits.length + 0 = 8 * br.bytePos
  unfold Cursor.remaining at hall hn
  omega

/-- All cached bits, as a number, if there are no others. -/
theorem rest (h : Reads br c) {n : Nat} (hall : br.cacheBits = c.remaining) (hn : br.cacheBits < n) (h32 : n ≤ 32) :
    u32 (lowBits br.cache br.cacheBits) = value (c.next n) := by
  have hlt := h.cache_lt
  have hpow : 2 ^ br.cacheBits ≤ 2 ^ 32 := Nat.pow_le_pow_right (by decide) (by omega)
  unfold u32 lowBits
  rw [Nat.mod_eq_of_lt hlt, Nat.mod_eq_of_lt (by omega), h.cache, c.next_of_le (n := n) hall.ge (by omega)]

/-! ### The operations -/

theorem read (h : Reads br c) {n : Int} (hn : n ≤ 32) :
    (bitReaderRead br n).1 = value (c.next n.toNat) ∧ Reads (bitReaderRead br n).2 (c.advance n.toNat) := by
  unfold bitReaderRead
  split_ifs with hpos
  · rw [Int.toNat_of_nonpos hpos, c.advance_zero]
    exact ⟨rfl, h⟩
  · have hmin : min n.toNat 32 = n.toNat := by omega
    have h32 : n.toNat ≤ 32 := by omega
    have hr := h.refill h32
    dsimp only
    rw [hmin]
    split_ifs with hshort
    · have hall := h.refill_enough h32 hshort
      exact ⟨hr.rest hall hshort h32, hr.clear hall (by omega)⟩
    · exact ⟨hr.top (by omega) h32, hr.keep (by omega)⟩

theorem peek (h : Reads br c) {n : Int} (hn : n ≤ 32) :
    (bitReaderPeek br n).1 = value (c.next n.toNat) ∧ Reads (bitReaderPeek br n).2 c := by
  unfold bitReaderPeek
  split_ifs with hpos
  · rw [Int.toNat_of_nonpos hpos]
    exact ⟨rfl, h⟩
  · have hmin : min n.toNat 32 = n.toNat := by omega
    have h32 : n.toNat ≤ 32 := by omega
    have hr := h.refill h32
    dsimp only
    rw [hmin]
    split_ifs with hshort
    · exact ⟨hr.rest (h.refill_enough h32 hshort) hshort h32, hr⟩
    · exact ⟨hr.top (by omega) h32, hr⟩

theorem skip (h : Reads br c) {n : Int} (hn : n ≤ 32) : Reads (bitReaderSkip br n) (c.advance n.toNat) := by
  unfold bitReaderSkip
  split_ifs with hpos
  · rw [Int.toNat_of_nonpos hpos, c.advance_zero]
    exact h
  · have h32 : n.toNat ≤ 32 := by omega
    have hr := h.refill h32
    dsimp only
    split_ifs with henough
    · exact hr.keep henough
    · have hall := h.refill_enough h32 (by omega)
      exact hr.clear hall (by omega)

theorem alignByte (h : Reads br c) :
    Reads (bitReaderAlignByte br) (c.advance (roundUp8 c.pos - c.pos)) := by
  have hpos := h.pos
  have hrem : roundUp8 c.pos - c.pos = br.cacheBits % 8 := by
    unfold roundUp8
    omega
  unfold bitReaderAlignByte
  rw [hrem]
  split_ifs with hzero
  · exact h.skip (n := (br.cacheBits % 8 : Nat)) (by omega)
  · rw [not_not.mp hzero, c.advance_zero]
    exact h

end Reads

/-! ## The cursor -/

/-- The position after a call, in a string without an end. -/
def ReaderOp.moves (pos : Nat) : ReaderOp → Nat
  | read n | skip n => pos + n.toNat
  | peek _ => pos
  | readFlag => pos + 1
  | alignByte => roundUp8 pos

/-- What a call returns at a cursor. -/
def ReaderOp.returns (c : Cursor) : ReaderOp → Nat
  | read n | peek n => value (c.next n.toNat)
  | readFlag => value (c.next 1)
  | skip _ | alignByte => 0

/-- The cursor at a position, or at the end. -/
def cursorAt (bits : List Bool) (pos : Nat) : Cursor := ⟨bits, min pos bits.length, Nat.min_le_right _ _⟩

/-- What each of a sequence of calls returns, from a position on. -/
def returnsFrom (bits : List Bool) (pos : Nat) : List ReaderOp → List Nat
  | [] => []
  | op :: ops => op.returns (cursorAt bits pos) :: returnsFrom bits (op.moves pos) ops

/-- The bits consumed by a sequence of calls. -/
def consumed (ops : List ReaderOp) : Nat := ops.foldl ReaderOp.moves 0

theorem cursorAt_zero (bits : List Bool) : cursorAt bits 0 = .start bits := by
  have h : min 0 bits.length = 0 := Nat.zero_min _
  unfold cursorAt Cursor.start
  simp only [h]

theorem cursorAt_advance (bits : List Bool) (pos n : Nat) :
    (cursorAt bits pos).advance n = cursorAt bits (pos + n) := by
  have h : min (min pos bits.length + n) bits.length = min (pos + n) bits.length := by omega
  unfold cursorAt Cursor.advance
  simp only [h]

theorem cursorAt_align (data : List UInt8) (pos : Nat) :
    (cursorAt (ofBytes data) pos).advance (roundUp8 (min pos (8 * data.length)) - min pos (8 * data.length)) =
      cursorAt (ofBytes data) (roundUp8 pos) := by
  have h : min (min pos (8 * data.length) + (roundUp8 (min pos (8 * data.length)) - min pos (8 * data.length)))
      (8 * data.length) = min (roundUp8 pos) (8 * data.length) := by
    unfold roundUp8
    omega
  unfold cursorAt Cursor.advance
  simp only [ofBytes_length, h]

/-- One call on the reader is one at the cursor. -/
theorem perform_spec {br : BitReader} {data : List UInt8} {pos : Nat} (h : Reads br (cursorAt (ofBytes data) pos))
    {op : ReaderOp} (hop : op.Narrow) :
    (br.perform op).1 = op.returns (cursorAt (ofBytes data) pos) ∧
      Reads (br.perform op).2 (cursorAt (ofBytes data) (op.moves pos)) := by
  cases op with
  | read n =>
      obtain ⟨hval, hreads⟩ := h.read hop
      exact ⟨hval, cursorAt_advance _ _ _ ▸ hreads⟩
  | peek n => exact h.peek hop
  | skip n => exact ⟨rfl, cursorAt_advance _ _ _ ▸ h.skip hop⟩
  | readFlag =>
      obtain ⟨hval, hreads⟩ := h.read (n := 1) (by decide)
      exact ⟨hval, cursorAt_advance _ _ _ ▸ hreads⟩
  | alignByte =>
      have halign := h.alignByte
      have hpos : (cursorAt (ofBytes data) pos).pos = min pos (8 * data.length) := by
        rw [← ofBytes_length]
        rfl
      rw [hpos, cursorAt_align] at halign
      exact ⟨rfl, halign⟩

/-- A sequence of calls on the reader is one at the cursor. -/
theorem run_spec {br : BitReader} {data : List UInt8} {pos : Nat} (h : Reads br (cursorAt (ofBytes data) pos))
    {ops : List ReaderOp} (hops : ∀ op ∈ ops, op.Narrow) :
    (br.run ops).1 = returnsFrom (ofBytes data) pos ops ∧
      Reads (br.run ops).2 (cursorAt (ofBytes data) (ops.foldl ReaderOp.moves pos)) := by
  induction ops generalizing br pos with
  | nil => exact ⟨rfl, h⟩
  | cons op ops ih =>
      obtain ⟨hval, hreads⟩ := perform_spec h (hops op List.mem_cons_self)
      obtain ⟨hvals, hend⟩ := ih hreads fun op hop => hops op (List.mem_cons_of_mem _ hop)
      refine ⟨?_, hend⟩
      change (br.perform op).1 :: _ = _ :: _
      rw [hval, hvals]

/-- After any sequence of calls of width at most 32 the reader is at the bits consumed, or at the end. -/
theorem reads_run (data : List UInt8) {ops : List ReaderOp} (hops : ∀ op ∈ ops, op.Narrow) :
    ((bitReaderInit data).run ops).1 = returnsFrom (ofBytes data) 0 ops ∧
      Reads ((bitReaderInit data).run ops).2 (cursorAt (ofBytes data) (consumed ops)) :=
  run_spec (cursorAt_zero _ ▸ Reads.start data) hops

/-- The bit reader is a string of bits, the most significant bit of each byte first, with a cursor: after any calls of
width at most 32, `tell` is what they consumed, up to the end, and the next read or peek gives the bits from there,
those that are left if it goes past the end. -/
theorem bitReader_cursor (data : List UInt8) (ops : List ReaderOp) (hops : ∀ op ∈ ops, op.Narrow) :
    let br := ((bitReaderInit data).run ops).2
    ((bitReaderInit data).run ops).1 = returnsFrom (ofBytes data) 0 ops ∧
    bitReaderTell br = min (8 * data.length) (consumed ops) ∧
    bitReaderTell br + bitReaderRemaining br = 8 * data.length ∧
    (∀ n : Int, n ≤ 32 →
      (bitReaderRead br n).1 = value (((ofBytes data).drop (bitReaderTell br)).take n.toNat) ∧
      bitReaderTell (bitReaderRead br n).2 = min (8 * data.length) (bitReaderTell br + n.toNat) ∧
      (bitReaderPeek br n).1 = (bitReaderRead br n).1 ∧ bitReaderTell (bitReaderPeek br n).2 = bitReaderTell br ∧
      bitReaderTell (bitReaderSkip br n) = bitReaderTell (bitReaderRead br n).2) ∧
    8 ∣ bitReaderTell (bitReaderAlignByte br) ∧ bitReaderTell br ≤ bitReaderTell (bitReaderAlignByte br) := by
  obtain ⟨hvals, h⟩ := reads_run data hops
  have hlen : (ofBytes data).length = 8 * data.length := ofBytes_length data
  have hpos : (cursorAt (ofBytes data) (consumed ops)).pos = min (8 * data.length) (consumed ops) := by
    rw [← hlen, Nat.min_comm]
    rfl
  refine ⟨hvals, h.tell.trans hpos, ?_, ?_, ?_, ?_⟩
  · have hle := (cursorAt (ofBytes data) (consumed ops)).le
    rw [h.tell, h.remaining]
    unfold Cursor.remaining
    change _ + ((ofBytes data).length - _) = _
    rw [hlen] at *
    omega
  · intro n hn
    obtain ⟨hread, hreads⟩ := h.read hn
    obtain ⟨hpeek, hpeeks⟩ := h.peek hn
    have hskips := h.skip hn
    refine ⟨?_, ?_, hpeek.trans hread.symm, hpeeks.tell.trans h.tell.symm, hskips.tell.trans hreads.tell.symm⟩
    · rw [hread, h.tell]
      rfl
    · rw [hreads.tell, h.tell, Cursor.advance_pos, Nat.min_comm]
      exact congrArg (min · _) hlen
  · have halign := h.alignByte
    have hbits : (cursorAt (ofBytes data) (consumed ops)).bits.length = 8 * data.length := hlen
    rw [halign.tell, Cursor.advance_pos, hbits]
    unfold roundUp8
    omega
  · have halign := h.alignByte
    rw [halign.tell, h.tell, Cursor.advance_pos]
    have hle := (cursorAt (ofBytes data) (consumed ops)).le
    omega

/-- Reading one byte in two pieces, over the end of the data, and aligned. -/
theorem bitReader_cursor_byte :
    ((bitReaderInit [0xA5]).run [.read 3, .peek 4, .alignByte, .read 32]).1 = [5, 2, 0, 0] ∧
      bitReaderTell ((bitReaderInit [0xA5]).run [.read 3, .peek 4, .alignByte, .read 32]).2 = 8 := by
  obtain ⟨hvals, htell, -⟩ := bitReader_cursor [0xA5] [.read 3, .peek 4, .alignByte, .read 32]
    (by decide)
  exact ⟨hvals.trans (by decide), htell.trans (by decide)⟩

end EspIdf.Lhdc
