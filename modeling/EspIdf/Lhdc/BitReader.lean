import EspIdf.Lhdc.Fac

/-!
# LHDC V5: the MSB-first bit reader

`lhdc_dec_bit_reader_t` keeps up to 64 fetched bits in `cache`. `BitReader.Ok` is what holds
between two calls; `remaining_read` is the only fact the entropy decoder needs of a byte read.
-/

namespace EspIdf.Lhdc

/-- `lhdc_dec_bit_reader_t`; `data_bytes` is the length of `data`, `cache` a `uint64_t`. -/
structure BitReader where
  data : List UInt8
  bytePos : Nat
  cache : Nat
  cacheBits : Nat
  deriving DecidableEq

def bitReaderInit (data : List UInt8) : BitReader :=
  { data := data, bytePos := 0, cache := 0, cacheBits := 0 }

/-- Fetch bytes until `needBits` bits are cached or the data ends. -/
def bitReaderRefill (br : BitReader) (needBits : Nat) : BitReader :=
  if h : br.cacheBits < needBits ∧ br.bytePos < br.data.length then
    bitReaderRefill
      { br with
        cache := (br.cache <<< 8) % 2 ^ 64 ||| br.data[br.bytePos].toNat
        bytePos := br.bytePos + 1
        cacheBits := br.cacheBits + 8 } needBits
  else br
termination_by br.data.length - br.bytePos

/-- The low `n` bits. -/
def lowBits (v n : Nat) : Nat := v % 2 ^ n

/-- Drop all but the low `shift` cached bits. -/
def BitReader.keep (br : BitReader) (shift : Nat) : BitReader :=
  { br with cache := lowBits br.cache shift, cacheBits := shift }

def bitReaderRead (br : BitReader) (numBits : Int) : Nat × BitReader :=
  if numBits ≤ 0 then (0, br)
  else
    let n := min numBits.toNat 32
    let br := bitReaderRefill br n
    if br.cacheBits < n then
      (u32 (lowBits br.cache br.cacheBits), { br with cache := 0, cacheBits := 0 })
    else
      let shift := br.cacheBits - n
      (u32 (lowBits (br.cache >>> shift) n), br.keep shift)

def bitReaderTell (br : BitReader) : Nat := br.bytePos * 8 - br.cacheBits

def bitReaderRemaining (br : BitReader) : Nat :=
  (br.data.length - br.bytePos) * 8 + br.cacheBits

/-- The cache never counts more bits than were fetched, nor more than it holds. -/
structure BitReader.Ok (br : BitReader) : Prop where
  pos_le : br.bytePos ≤ br.data.length
  cacheBits_le : br.cacheBits ≤ 8 * br.bytePos
  cacheBits_lt : br.cacheBits < 40

theorem bitReaderInit_ok (data : List UInt8) : (bitReaderInit data).Ok :=
  ⟨Nat.zero_le _, Nat.zero_le _, by change 0 < 40; norm_num⟩

/-- A refill moves whole bytes into the cache. -/
theorem bitReaderRefill_spec (br : BitReader) (needBits : Nat) (h : br.Ok) (hn : needBits ≤ 32) :
    (bitReaderRefill br needBits).Ok ∧ (bitReaderRefill br needBits).data = br.data ∧
      bitReaderRemaining (bitReaderRefill br needBits) = bitReaderRemaining br ∧
      ((bitReaderRefill br needBits).cacheBits < needBits →
        (bitReaderRefill br needBits).bytePos = br.data.length) := by
  induction br using bitReaderRefill.induct needBits with
  | case1 br hlt ih =>
      rw [bitReaderRefill, dif_pos hlt]
      have hok : BitReader.Ok
          { br with
            cache := (br.cache <<< 8) % 2 ^ 64 ||| br.data[br.bytePos].toNat
            bytePos := br.bytePos + 1
            cacheBits := br.cacheBits + 8 } :=
        ⟨hlt.2, by have := h.cacheBits_le; dsimp only; omega, by dsimp only; omega⟩
      obtain ⟨h1, h2, h3, h4⟩ := ih hok
      refine ⟨h1, h2, h3.trans ?_, h4⟩
      simp only [bitReaderRemaining]
      omega
  | case2 br hge =>
      rw [bitReaderRefill, dif_neg hge]
      refine ⟨h, rfl, rfl, fun hlt => ?_⟩
      have := h.pos_le
      omega

end EspIdf.Lhdc
