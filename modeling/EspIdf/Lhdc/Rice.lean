import EspIdf.Lhdc.BitReader
import EspIdf.Lhdc.RangeDecoder

/-!
# LHDC V5: the Rice inverse over the lazily decoded second stream

* `S2Lazy`, `s2At`, `s2StateAfter` : the second symbol stream, pulled one symbol at a time;
* `riceReadQuotient`, `riceDecodeCoeffsUsed` : the Rice inverse, written once over any symbol
  reader `sym`; the source reads through `s2At`, the older decoder it replaced through an array
  decoded beforehand (`eagerS2`, `arrayAt`);
* `lhdcEntropyDecodeSpectrumEx2` : one channel, from the bit reader to the coefficients.

Loops that only the stream's end bounds take a fuel; `none` is a loop that did not return.
-/

namespace EspIdf.Lhdc

/-- What a reader gives at an index: a symbol, or `-1` past the end of the stream. -/
abbrev S2Val := Option Sym

/-! ## The lazy stream -/

/-- `s2_lazy_t`; `curIdx = -1` while no symbol has been decoded. -/
structure S2Lazy where
  d : FacDec
  m : FacModel
  curIdx : Int
  curVal : Sym
  produced : Nat
  hardCap : Nat
  eos : Bool
  saveP : Nat
  saveRange : Nat

/-- The initialisation in `lhdc_entropy_decode_spectrum_ex2`. -/
def s2Init (d : FacDec) (m : FacModel) (hardCap : Nat) : S2Lazy :=
  { d := d, m := m, curIdx := -1, curVal := 0, produced := 0, hardCap := hardCap, eos := false
    saveP := d.p, saveRange := d.range }

/-- The state after one more symbol. -/
def S2Lazy.push (z : S2Lazy) (out : FacStep) : S2Lazy :=
  { z with
    saveP := z.d.p, saveRange := z.d.range, d := out.dec, m := out.model
    curVal := out.sym, curIdx := z.curIdx + 1, produced := z.produced + 1 }

/-- `while (i > z->cur_idx)`, entered with `i - cur_idx` symbols to go. -/
def s2Pull : Nat → S2Lazy → Option S2Lazy
  | 0, z => some z
  | n + 1, z =>
    if z.eos then some z
    else if z.d.data.length < z.d.p ∨ z.hardCap ≤ z.produced then some { z with eos := true }
    else (facDecode z.d z.m).bind fun out => s2Pull n (z.push out)

def s2At (z : S2Lazy) (i : Nat) : Option (S2Val × S2Lazy) :=
  (s2Pull ((i : Int) - z.curIdx).toNat z).map fun z' =>
    (if (i : Int) = z'.curIdx then some z'.curVal else none, z')

/-- Byte position and range after exactly `used` symbols. -/
def s2StateAfter (z : S2Lazy) (used : Nat) : Option (Nat × Nat) :=
  if (used : Int) = (z.produced : Int) - 1 then some (z.saveP, z.saveRange)
  else if z.produced ≤ used then
    (facCalls (used - z.produced) z.d z.m).map fun x => (x.1.p, x.1.range)
  else some (z.d.p, z.d.range)

/-! ## The Rice inverse over a symbol reader -/

/-- `v << shift` on `uint32_t`; `ub` is whatever the target does from 32 on. -/
def shl32 (ub : BitVec 32 → Nat → BitVec 32) (v : BitVec 32) (shift : Nat) : BitVec 32 :=
  if shift < 32 then v <<< shift else ub v shift

/-- `(v < 0) ? 0 : v`. -/
def S2Val.bits (v : S2Val) : BitVec 32 := BitVec.ofNat 32 ((v.getD 0 : Sym) : Nat)

section Reader
variable {ρ : Type} (sym : ρ → Nat → Option (S2Val × ρ)) (ub : BitVec 32 → Nat → BitVec 32)

/-- The escape groups: marker, high bit, low bit. -/
def riceGroups : Nat → ρ → Nat → BitVec 32 → Nat → Option ((BitVec 32 × Nat) × ρ × Nat)
  | 0, _, _, _, _ => none
  | fuel + 1, z, j, low, shift =>
    (sym z j).bind fun (v, z) =>
      if v = some 2 then
        (sym z (j + 1)).bind fun (v1, z) =>
          (sym z (j + 2)).bind fun (v0, z) =>
            riceGroups fuel z (j + 3) (low ||| shl32 ub (v1.bits <<< 1 ||| v0.bits) shift)
              (shift + 2)
      else some ((low, shift), z, j)

/-- `while (s2_at(z, j) == 1) { ones++; j++; }`. -/
def riceOnes : Nat → ρ → Nat → Nat → Option (Nat × ρ × Nat)
  | 0, _, _, _ => none
  | fuel + 1, z, j, ones =>
    (sym z j).bind fun (v, z) =>
      if v = some 1 then riceOnes fuel z (j + 1) (ones + 1) else some (ones, z, j)

/-- The same loop with at most `left` turns. -/
def riceOnesUpTo : Nat → ρ → Nat → Nat → Option (Nat × ρ × Nat)
  | 0, z, j, ones => some (ones, z, j)
  | left + 1, z, j, ones =>
    (sym z j).bind fun (v, z) =>
      if v = some 1 then riceOnesUpTo left z (j + 1) (ones + 1) else some (ones, z, j)

/-- `if (s2_at(z, j) == 0) j++`. -/
def riceStop (z : ρ) (j : Nat) : Option (ρ × Nat) :=
  (sym z j).map fun (v, z) => (z, if v = some 0 then j + 1 else j)

def riceReadQuotient (fuel : Nat) (z : ρ) (j : Nat) : Option (BitVec 32 × ρ × Nat) :=
  (sym z j).bind fun (v, z) =>
    if v = some 2 then
      (riceGroups sym ub fuel z j 0 0).bind fun ((low, shift), z, j) =>
        (riceOnes sym fuel z j 0).bind fun (ones, z, j) =>
          (riceStop sym z j).map fun (z, j) =>
            (low ||| shl32 ub (BitVec.ofNat 32 (ones + 1)) shift, z, j)
    else
      (riceOnesUpTo sym 3 z j 0).bind fun (ones, z, j) =>
        if ones = 3 then some (3, z, j)
        else (riceStop sym z j).map fun (z, j) => (BitVec.ofNat 32 ones, z, j)

/-- The coefficient loop from index `i` on. -/
def riceCoeffs (fuel pivot2 : Nat) : List Sym → Nat → ρ → Nat → Option (List (BitVec 32) × ρ × Nat)
  | [], _, z, j => some ([], z, j)
  | s :: rest, i, z, j =>
    (if i ≤ pivot2 then
      if s = 2 then (riceReadQuotient sym ub fuel z j).map fun (q, z, j) => (q + 2, z, j)
      else some (BitVec.ofNat 32 (s : Nat), z, j)
    else (riceReadQuotient sym ub fuel z j).map fun (q, z, j) =>
      (q <<< 1 ||| BitVec.ofNat 32 (s : Nat), z, j)).bind fun (c, z, j) =>
        (riceCoeffs fuel pivot2 rest (i + 1) z j).map fun (cs, z, j) => (c :: cs, z, j)

/-- The last index of `s1` that holds a 2, zero when there is none. -/
def riceRun (s1 : List Sym) : Nat :=
  (List.range s1.length).foldl (fun run i => if s1.getD i 0 = 2 then i else run) 0

def ricePivot2 (s1 : List Sym) (split : Int) : Nat :=
  let pivot := max ((s1.length : Int) - split) 0
  if (riceRun s1 : Int) < pivot then s1.length else riceRun s1

/-- The coefficients, the reader after them and the number of symbols used. -/
def riceDecodeCoeffsUsed (fuel : Nat) (s1 : List Sym) (z : ρ) (split : Int) :
    Option (List (BitVec 32) × ρ × Nat) :=
  riceCoeffs sym ub fuel (ricePivot2 s1 split) s1 0 z 0

end Reader

/-! ## One channel -/

/-- The first stream: `count` symbols, and the coder after them. -/
def decodeS1 : Nat → FacDec → FacModel → Option (List Sym × FacDec)
  | 0, d, _ => some ([], d)
  | n + 1, d, m =>
    (facDecode d m).bind fun out =>
      (decodeS1 n out.dec out.model).map fun (s1, d) => (out.sym :: s1, d)

/-- The window a positive argument sets, 256 otherwise. -/
def maWindow (w : Int) : Int := if 0 < w then w else 256

/-- The history buffers the two models run on. -/
structure FacHist where
  hist1 : List Sym
  hist2 : List Sym
  len1 : hist1.length = facHist1Cap
  len2 : hist2.length = facHist2Cap

def FacHist.model1 (h : FacHist) (w : Int) : FacModel := facModelInit h.hist1 FAC_FQ1 (maWindow w)
def FacHist.model2 (h : FacHist) (w : Int) : FacModel := facModelInit h.hist2 FAC_FQ2 (maWindow w)

/-- `hard_cap = count * 16`. -/
def s2HardCap (count : Nat) : Nat := count * 16

/-- What a channel's entropy decoding reports. -/
structure ChannelCoeffs where
  coeffs : List (BitVec 32)
  s2Used : Nat
  facBytes : Nat
  finalRange : Nat
  deriving DecidableEq

/-- The body of `lhdc_entropy_decode_spectrum_ex2` on a filled `facbuf`. -/
def decodeChannel (ub : BitVec 32 → Nat → BitVec 32) (h : FacHist) (data : List UInt8)
    (count : Nat) (split maWin1 maWin2 : Int) : Option ChannelCoeffs :=
  (decodeS1 count (facDecInit data) (h.model1 maWin1)).bind fun (s1, d) =>
    let cap := s2HardCap count
    let z := s2Init d (h.model2 maWin2) cap
    (riceDecodeCoeffsUsed s2At ub (cap + 1) s1 z split).bind fun (coeffs, z, used) =>
      (s2StateAfter z used).map fun (p, range) =>
        { coeffs := coeffs, s2Used := used, facBytes := p, finalRange := range }

/-! ## The entry point -/

/-- What `lhdc_entropy_decode_spectrum_ex2` leaves: the padded spectrum, the byte position and
range it reports, and its bit reader. -/
structure Ex2Out where
  quantSpectrum : List (BitVec 32)
  facBytes : Nat
  finalRange : Nat
  br : BitReader

/-- `facbuf`: whole bytes until the reader or the buffer ends. -/
def facFill : Nat → BitReader → List UInt8 × BitReader
  | 0, br => ([], br)
  | cap + 1, br =>
    if 8 ≤ bitReaderRemaining br then
      let byte := bitReaderRead br 8
      let rest := facFill cap byte.2
      (UInt8.ofNat byte.1 :: rest.1, rest.2)
    else ([], br)

/-- The count that is decoded: all coefficients when the argument is out of range. -/
def ex2Count (count : Int) (numCoeffs : Nat) : Nat :=
  if count < 1 ∨ (numCoeffs : Int) < count then numCoeffs else count.toNat

/-- `lhdc_entropy_decode_spectrum_ex2` around a channel decoder. -/
def ex2With (channel : List UInt8 → Nat → Option ChannelCoeffs) (numCoeffs : Nat) (br : BitReader)
    (count : Int) (facCap : Nat) : Option Ex2Out :=
  let fill := facFill facCap br
  let n := ex2Count count numCoeffs
  (channel fill.1 n).map fun c =>
    { quantSpectrum := c.coeffs ++ List.replicate (numCoeffs - n) 0
      facBytes := c.facBytes, finalRange := c.finalRange, br := fill.2 }

def lhdcEntropyDecodeSpectrumEx2 (ub : BitVec 32 → Nat → BitVec 32) (h : FacHist)
    (numCoeffs : Nat) (br : BitReader) (count split maWin1 maWin2 : Int) (facCap : Nat) :
    Option Ex2Out :=
  ex2With (fun data n => decodeChannel ub h data n split maWin1 maWin2) numCoeffs br count facCap

/-! ## The eager decoder -/

/-- The whole second stream: up to `cap` symbols, until the bytes run out. -/
def eagerS2 : Nat → FacDec → FacModel → Option (List Sym)
  | 0, _, _ => some []
  | n + 1, d, m =>
    if d.data.length < d.p then some []
    else (facDecode d m).bind fun out =>
      (eagerS2 n out.dec out.model).map fun s2 => out.sym :: s2

/-- `j < n ? s2[j] : -1`. -/
def arrayAt (s2 : List Sym) (j : Nat) : Option (S2Val × List Sym) := some (s2[j]?, s2)

/-- The channel decoded from the array, its end state by decoding `s2_used` symbols again. -/
def decodeChannelEager (ub : BitVec 32 → Nat → BitVec 32) (h : FacHist) (data : List UInt8)
    (count : Nat) (split maWin1 maWin2 : Int) : Option ChannelCoeffs :=
  (decodeS1 count (facDecInit data) (h.model1 maWin1)).bind fun (s1, d) =>
    let cap := s2HardCap count
    (eagerS2 cap d (h.model2 maWin2)).bind fun s2 =>
      (riceDecodeCoeffsUsed arrayAt ub (cap + 1) s1 s2 split).bind fun (coeffs, _, used) =>
        (facCalls used d (h.model2 maWin2)).map fun x =>
          { coeffs := coeffs, s2Used := used, facBytes := x.1.p, finalRange := x.1.range }

/-- The same entry point over the eager decoder. -/
def ex2Eager (ub : BitVec 32 → Nat → BitVec 32) (h : FacHist)
    (numCoeffs : Nat) (br : BitReader) (count split maWin1 maWin2 : Int) (facCap : Nat) :
    Option Ex2Out :=
  ex2With (fun data n => decodeChannelEager ub h data n split maWin1 maWin2) numCoeffs br count
    facCap

end EspIdf.Lhdc
