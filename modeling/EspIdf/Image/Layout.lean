import EspIdf.Image.ImageFormat
import EspIdf.Lib.Fallible
import EspIdf.Lib.Pieces

/-!
# The parts of an image in its partition

* `headersFrom`, `partLengths`, `imageParts` : the parts of an image, with addresses that do not wrap;
* `Layout` : the metadata tell these parts, and they lie in the partition;
* `segmentLoop_ok`, `processSegments_ok` : what the segments come to where no address wraps;
* `Fits` : there are no more segments than the metadata hold, and the image ends below `2 ^ 32`;
* `layout_iff_fits` : where a call does not fail, it leaves a layout exactly if the image fits.
-/

namespace EspIdf.Image

open Word32 Fallible Pieces

/-! ## Parts of an image -/

/-- The headers of `count` segments from `a` on. -/
def headersFrom (f : Flash) : (count a : Nat) → List SegmentHeader
  | 0, _ => []
  | count + 1, a =>
    f.segmentHeader a :: headersFrom f count (a + segmentHeaderSize + (f.segmentHeader a).dataLen)

def segmentCountAt (f : Flash) (a : Nat) : Nat := (f.byte ((a + 1) % 2 ^ 32)).toNat

def hashAppendedAt (f : Flash) (a : Nat) : Bool := f.byte ((a + 23) % 2 ^ 32) != 0

/-- The segments of the image at `a`. -/
def segmentsAt (f : Flash) (a : Nat) : List SegmentHeader := headersFrom f (segmentCountAt f a) (a + headerSize)

/-- A header and a body for each segment. -/
def segmentLengths (hs : List SegmentHeader) : List Nat := hs.flatMap fun h => [segmentHeaderSize, h.dataLen]

/-- From the image header to the end of the last segment. -/
def unpaddedLen (f : Flash) (a : Nat) : Nat := headerSize + (segmentLengths (segmentsAt f a)).sum

/-- The image header, the segments, the padding with the checksum, the hash. -/
def partLengths (f : Flash) (a : Nat) : List Nat :=
  headerSize :: segmentLengths (segmentsAt f a) ++
    [16 - unpaddedLen f a % 16, if hashAppendedAt f a then hashLen else 0]

def imageParts (f : Flash) (a : Nat) : List Piece := consecutive a (partLengths f a)

/-- Where the bodies of the segments begin. -/
def bodiesFrom : (a : Nat) → List SegmentHeader → List Nat
  | _, [] => []
  | a, h :: hs => (a + segmentHeaderSize) :: bodiesFrom (a + segmentHeaderSize + h.dataLen) hs

/-- The metadata are those of the image in the partition. -/
structure Layout (f : Flash) (part : PartitionPos) (m : Metadata) : Prop where
  header : m.startAddr = part.offset ∧ m.image = f.bytes part.offset headerSize
  segments : m.segments = segmentsAt f part.offset
  bodies : m.segmentData = bodiesFrom (part.offset + headerSize) (segmentsAt f part.offset)
  count_le : m.segments.length ≤ maxSegments
  ordered : (imageParts f part.offset).Pairwise fun p q => p.1 + p.2 ≤ q.1
  within : ∀ p ∈ imageParts f part.offset, part.offset ≤ p.1 ∧ p.1 + p.2 ≤ part.offset + part.size
  length : m.imageLen = ((imageParts f part.offset).map Prod.snd).sum
  no_wrap : part.offset + m.imageLen ≤ 2 ^ 32

/-- There are no more segments than the metadata hold, and no address and no length of the image wraps. -/
def Fits (f : Flash) (a : Nat) : Prop :=
  segmentCountAt f a ≤ maxSegments ∧ (partLengths f a).sum < 2 ^ 32 ∧ a + (partLengths f a).sum ≤ 2 ^ 32

theorem headersFrom_length (f : Flash) (count a : Nat) : (headersFrom f count a).length = count := by
  induction count generalizing a with
  | zero => rfl
  | succ count ih => rw [headersFrom, List.length_cons, ih]

theorem segmentsAt_length (f : Flash) (a : Nat) : (segmentsAt f a).length = segmentCountAt f a :=
  headersFrom_length f _ _

theorem partLengths_sum (f : Flash) (a : Nat) :
    (partLengths f a).sum =
      unpaddedLen f a + (16 - unpaddedLen f a % 16) + if hashAppendedAt f a then hashLen else 0 := by
  simp only [partLengths, unpaddedLen, List.cons_append, List.sum_cons, List.sum_append, List.sum_nil]
  omega

/-- What the header tells of the image. -/
theorem image_getD (f : Flash) (a i : Nat) (h : i < headerSize) :
    (f.bytes a headerSize).getD i 0 = f.byte ((a + i) % 2 ^ 32) := by
  simp [Flash.bytes, h, List.getD_eq_getElem?_getD]

theorem bytes_length (f : Flash) (a n : Nat) : (f.bytes a n).length = n := by
  simp [Flash.bytes]

/-! ## No access past an array -/

variable {d : Device} {maxLen : Nat → Nat}

@[simp] theorem ensure_eq_ok {b : Bool} {code : EspErr} {u : Unit} : (ensure b code).result = .ok u ↔ b = true := by
  cases b <;> simp [ensure]

theorem flashRead_eq_ok {a n : Nat} {bs : List UInt8} :
    (d.flashRead a n).result = .ok bs ↔ d.flash.readable a n ∧ d.flash.bytes a n = bs := by
  unfold Device.flashRead
  split <;> simp [*]

theorem never_ensure (b : Bool) (code : EspErr) : Never .undefined (ensure b code) := by
  cases b
  · exact Never.fail nofun
  · exact Never.pure ()

theorem never_flashRead (a n : Nat) : Never .undefined (d.flashRead a n) := by
  unfold Device.flashRead
  split
  · exact Never.pure _
  · exact Never.fail nofun

theorem never_checkAppDesc (s : SegmentData) : Never .undefined (checkAppDesc d s) := by
  unfold checkAppDesc
  split
  · exact (Never.tell _).bind fun _ _ => never_ensure _ _
  · exact Never.pure _

theorem never_processWords (s : SegmentData) (is : List Nat) (w : Work) :
    Never .undefined (is.foldlM (processWord d s) w) := by
  induction is generalizing w with
  | nil => exact Never.pure w
  | cons i is ih =>
    refine Never.bind ?_ fun w' _ => ih w'
    exact (Never.tell _).bind fun _ _ => (Never.tell _).bind fun _ _ => Never.pure _

theorem never_processSegmentData (s : SegmentData) (w : Work) : Never .undefined (processSegmentData d s w) := by
  unfold processSegmentData
  split
  · exact Never.pure _
  · refine (never_ensure _ _).bind fun _ _ => ?_
    split
    · exact (Never.tell _).bind fun _ _ => Never.pure _
    · exact (never_checkAppDesc _).bind fun _ _ => never_processWords _ _ _

theorem never_processChunks (s : SegmentData) (fuel offset remain : Nat) (w : Work) :
    Never .undefined (processChunks d maxLen s fuel offset remain w) := by
  induction fuel generalizing offset remain w with
  | zero => exact Never.pure _
  | succ fuel ih =>
    rw [processChunks]
    split
    · exact Never.pure _
    · exact (never_ensure _ _).bind fun _ _ => (never_processSegmentData _ _).bind fun _ _ => ih _ _ _

theorem never_findMmuPageSize (index : Nat) (segment : SegmentHeader) (dataAddr : Nat) (m : Metadata) :
    Never .undefined (findMmuPageSize d index segment dataAddr m) := by
  unfold findMmuPageSize
  split
  · exact Never.pure _
  split
  · split
    · exact Never.pure _
    · exact (never_flashRead _ _).bind fun _ _ => (Never.tell _).bind fun _ _ => (never_flashRead _ _).bind fun _ _ =>
        (Never.tell _).bind fun _ _ => (never_ensure _ _).bind fun _ _ => Never.pure _
  · exact Never.pure _

theorem never_verifySegmentHeader (index : Nat) (segment : SegmentHeader) (dataAddr : Nat) (m : Metadata) :
    Never .undefined (verifySegmentHeader d index segment dataAddr m) :=
  (never_ensure _ _).bind fun _ _ => (never_findMmuPageSize _ _ _ _).bind fun _ _ =>
    (never_ensure _ _).bind fun _ _ => Never.pure _

theorem never_processSegment (index flashAddr : Nat) (doLoad : Bool) (m : Metadata) (w : Work) :
    Never .undefined (processSegment d maxLen index flashAddr doLoad m w) :=
  (never_flashRead _ _).bind fun _ _ => (never_verifySegmentHeader _ _ _ _).bind fun _ _ =>
    (never_ensure _ _).bind fun _ _ => (never_processChunks _ _ _ _ _).bind fun _ _ => Never.pure _

/-- The array of the segments is long enough. -/
theorem never_segmentLoop (doLoad : Bool) {count index : Nat} (nextAddr : Nat) (m : Metadata) (w : Work)
    (h : index + count ≤ maxSegments) : Never .undefined (segmentLoop d maxLen doLoad count index nextAddr m w) := by
  induction count generalizing index nextAddr m w with
  | zero => exact Never.pure _
  | succ count ih =>
    rw [segmentLoop, if_neg (by omega)]
    exact (never_processSegment _ _ _ _ _).bind fun _ _ => ih _ _ _ (by omega)

theorem never_processSegments (doLoad : Bool) (m : Metadata) (w : Work) (h : m.segmentCount ≤ maxSegments) :
    Never .undefined (processSegments d maxLen doLoad m w) :=
  (never_segmentLoop _ _ _ _ (by omega)).bind fun _ _ => (never_ensure _ _).bind fun _ _ => Never.pure _

theorem never_processImageHeader (partOffset : Nat) (verifySha doVerify : Bool) :
    Never .undefined (processImageHeader d partOffset verifySha doVerify) := by
  refine (never_flashRead _ _).bind fun _ _ => ?_
  split
  · refine (never_ensure _ _).bind fun _ _ => Never.bind ?_ fun _ _ => Never.pure _
    exact (never_ensure _ _).bind fun _ _ => (never_ensure _ _).bind fun _ _ => never_ensure _ _
  · exact Never.pure _

theorem never_processChecksum (sha : Option (List UInt8)) (checksumWord : UInt32) (m : Metadata) (skip : Bool) :
    Never .undefined (processChecksum d sha checksumWord m skip) := by
  unfold processChecksum
  simp only
  split
  · exact (never_flashRead _ _).bind fun _ _ => (never_ensure _ _).bind fun _ _ => Never.pure _
  · exact (never_ensure _ _).bind fun _ _ => Never.pure _

theorem never_processAppendedHash (partLen : Nat) (doVerify : Bool) (m : Metadata) :
    Never .undefined (processAppendedHash d partLen doVerify m) := by
  unfold processAppendedHash
  simp only
  split
  · split
    · exact (never_flashRead _ _).bind fun _ _ => (never_ensure _ _).bind fun _ _ => Never.pure _
    · exact (never_ensure _ _).bind fun _ _ => Never.pure _
  · exact (never_ensure _ _).bind fun _ _ => Never.pure _

/-! ## What the segments come to -/

theorem findMmuPageSize_ok {index dataAddr : Nat} {segment : SegmentHeader} {m m' : Metadata}
    (h : (findMmuPageSize d index segment dataAddr m).result = .ok m') : ∃ p, m' = { m with mmuPageSize := p } := by
  unfold findMmuPageSize at h
  split at h
  · cases h
    exact ⟨_, rfl⟩
  split at h
  · split at h
    · cases h
      exact ⟨_, rfl⟩
    · simp only [bind_result_ok, pure_result, Except.ok.injEq] at h
      obtain ⟨_, _, _, _, _, _, _, _, _, _, rfl⟩ := h
      exact ⟨_, rfl⟩
  · cases h
    exact ⟨m.mmuPageSize, rfl⟩

theorem processSegment_ok {index a : Nat} {doLoad : Bool} {m m' : Metadata} {w w' : Work} {segment : SegmentHeader}
    (h : (processSegment d maxLen index a doLoad m w).result = .ok (segment, m', w')) :
    segment = d.flash.segmentHeader a ∧ ∃ p, m' = { m with mmuPageSize := p } := by
  simp only [processSegment, verifySegmentHeader, bind_result_ok, pure_result, Except.ok.injEq, Prod.mk.injEq] at h
  obtain ⟨_, _, _, ⟨_, _, _, hpage, _, _, rfl⟩, _, _, _, _, rfl, rfl, _⟩ := h
  exact ⟨rfl, findMmuPageSize_ok hpage⟩

theorem segmentLengths_cons (h : SegmentHeader) (hs : List SegmentHeader) :
    (segmentLengths (h :: hs)).sum = segmentHeaderSize + h.dataLen + (segmentLengths hs).sum := by
  simp [segmentLengths, Nat.add_assoc]

theorem segmentLoop_ok {doLoad : Bool} {count index a e : Nat} {m m' : Metadata} {w w' : Work}
    (h : (segmentLoop d maxLen doLoad count index a m w).result = .ok (e, m', w'))
    (hlt : a + (segmentLengths (headersFrom d.flash count a)).sum < 2 ^ 32) :
    e = a + (segmentLengths (headersFrom d.flash count a)).sum ∧
      ∃ p, m' = { m with
        segments := m.segments ++ headersFrom d.flash count a
        segmentData := m.segmentData ++ bodiesFrom a (headersFrom d.flash count a)
        mmuPageSize := p } := by
  induction count generalizing index a m w with
  | zero =>
    cases h
    exact ⟨rfl, m'.mmuPageSize, by simp [headersFrom, bodiesFrom]⟩
  | succ count ih =>
    rw [segmentLoop] at h
    split at h
    · cases h
    simp only [bind_result_ok, Prod.exists] at h
    obtain ⟨segment, m₁, w₁, hseg, hrest⟩ := h
    obtain ⟨rfl, p, rfl⟩ := processSegment_ok hseg
    rw [headersFrom, segmentLengths_cons] at hlt ⊢
    rw [add32_eq (by omega : a + segmentHeaderSize < 2 ^ 32), add32_eq (by omega)] at hrest
    obtain ⟨he, q, hm⟩ := ih hrest (by omega)
    refine ⟨by omega, q, ?_⟩
    rw [hm, bodiesFrom]
    simp only [List.append_assoc, List.singleton_append]

/-- The metadata once the header is read. -/
def headerMetadata (f : Flash) (a : Nat) : Metadata := ⟨a, f.bytes a headerSize, [], [], headerSize, [], 0⟩

theorem headerMetadata_segmentCount (f : Flash) (a : Nat) : (headerMetadata f a).segmentCount = segmentCountAt f a :=
  congrArg UInt8.toNat (image_getD f a 1 (by decide))

theorem headerMetadata_hashAppended (f : Flash) (a : Nat) : (headerMetadata f a).hashAppended = hashAppendedAt f a :=
  congrArg (· != 0) (image_getD f a 23 (by decide))

theorem processImageHeader_ok {a : Nat} {verifySha doVerify : Bool} {m : Metadata} {sha : Option (List UInt8)}
    (h : (processImageHeader d a verifySha doVerify).result = .ok (m, sha)) : m = headerMetadata d.flash a := by
  unfold processImageHeader at h
  simp only [bind_result_ok, flashRead_eq_ok] at h
  obtain ⟨_, ⟨_, rfl⟩, h⟩ := h
  split at h
  · simp only [bind_result_ok, pure_result, Except.ok.injEq, Prod.mk.injEq] at h
    obtain ⟨_, _, _, _, rfl, _⟩ := h
    rfl
  · cases h
    rfl

/-- The metadata once the segments are read. -/
def segmentsMetadata (f : Flash) (a p : Nat) : Metadata :=
  { headerMetadata f a with
    segments := segmentsAt f a
    segmentData := bodiesFrom (a + headerSize) (segmentsAt f a)
    imageLen := unpaddedLen f a
    mmuPageSize := p }

theorem processSegments_ok {a : Nat} {doLoad : Bool} {m : Metadata} {w w' : Work}
    (h : (processSegments d maxLen doLoad (headerMetadata d.flash a) w).result = .ok (m, w'))
    (hlt : a + unpaddedLen d.flash a < 2 ^ 32) : ∃ p, m = segmentsMetadata d.flash a p := by
  simp only [processSegments, bind_result_ok, pure_result, Prod.exists, headerMetadata_segmentCount] at h
  obtain ⟨e, m₁, w₁, hloop, _, _, heq⟩ := h
  have hle : unpaddedLen d.flash a = headerSize + (segmentLengths (segmentsAt d.flash a)).sum := rfl
  have hstart : add32 (headerMetadata d.flash a).startAddr (headerMetadata d.flash a).imageLen = a + headerSize :=
    add32_eq (show a + headerSize < 2 ^ 32 by omega)
  rw [hstart] at hloop heq
  obtain ⟨he, p, rfl⟩ := segmentLoop_ok hloop (by unfold segmentsAt at hle; omega)
  have hsub : sub32 e (a + headerSize) = (segmentLengths (segmentsAt d.flash a)).sum := by
    rw [← segmentsAt] at he
    rw [sub32_eq (by omega) (by omega), he, Nat.add_sub_cancel_left]
  cases heq
  refine ⟨p, ?_⟩
  simp only [hsub, segmentsMetadata, headerMetadata, List.nil_append]
  rw [add32_eq (by omega)]
  rfl

/-! ## What stands behind the segments -/

theorem checksumLen_eq {n : Nat} (h : n + (16 - n % 16) < 2 ^ 32) : checksumLen n = 16 - n % 16 := by
  unfold checksumLen
  rw [add32_eq (by omega : n + 1 < 2 ^ 32), add32_eq (by omega), sub32_eq (by omega) (by omega)]
  omega

theorem processChecksum_ok {sha sha' : Option (List UInt8)} {word : UInt32} {m m' : Metadata} {skip : Bool}
    (h : (processChecksum d sha word m skip).result = .ok (m', sha')) :
    m' = { m with imageLen := add32 m.imageLen (checksumLen m.imageLen) } := by
  unfold processChecksum at h
  simp only at h
  split at h <;>
  · simp only [bind_result_ok, pure_result, Except.ok.injEq, Prod.mk.injEq] at h
    obtain ⟨_, _, _, _, rfl, _⟩ := h
    rfl

theorem processAppendedHash_ok {partLen : Nat} {doVerify : Bool} {m m' : Metadata}
    (h : (processAppendedHash d partLen doVerify m).result = .ok m') :
    m'.imageLen ≤ partLen ∧ ∃ digest, m' = { m with
      imageDigest := digest
      imageLen := if m.hashAppended then add32 m.imageLen hashLen else m.imageLen } := by
  unfold processAppendedHash at h
  simp only at h
  split at h
  · rename_i happ
    rw [if_pos happ]
    split at h <;>
    · simp only [bind_result_ok, pure_result, Except.ok.injEq, ensure_eq_ok, decide_eq_true_eq] at h
      obtain ⟨digest, _, _, rfl, _, hle, rfl⟩ := h
      exact ⟨hle, digest, rfl⟩
  · rename_i happ
    rw [if_neg happ]
    simp only [bind_result_ok, pure_result, Except.ok.injEq, ensure_eq_ok, decide_eq_true_eq] at h
    obtain ⟨_, rfl, _, hle, rfl⟩ := h
    exact ⟨hle, _, rfl⟩

/-- What is left of a call once the segments are read. -/
theorem layout_of_ok {part : PartitionPos} (hfits : Fits d.flash part.offset) {p : Nat} {sha sha' : Option (List UInt8)}
    {word : UInt32} {skip doVerify : Bool} {m m' : Metadata}
    (hchecksum : (processChecksum d sha word (segmentsMetadata d.flash part.offset p) skip).result = .ok (m', sha'))
    (hhash : (processAppendedHash d part.size doVerify m').result = .ok m) : Layout d.flash part m := by
  obtain ⟨hcount, hlt, hend⟩ := hfits
  have hsum := partLengths_sum d.flash part.offset
  have hm' := processChecksum_ok hchecksum
  obtain ⟨hsize, digest, hm⟩ := processAppendedHash_ok hhash
  have hpadded : m'.imageLen =
      unpaddedLen d.flash part.offset + (16 - unpaddedLen d.flash part.offset % 16) := by
    rw [hm']
    simp only [segmentsMetadata]
    rw [checksumLen_eq (by omega), add32_eq (by omega)]
  have happ : m'.hashAppended = hashAppendedAt d.flash part.offset := by
    rw [hm']
    exact headerMetadata_hashAppended d.flash part.offset
  have hlen : m.imageLen = (partLengths d.flash part.offset).sum := by
    rw [hm]
    simp only [happ, hpadded]
    rw [hsum] at hlt ⊢
    split at hlt
    · rw [if_pos ‹_›, if_pos ‹_›, add32_eq hlt]
    · rw [if_neg ‹_›, if_neg ‹_›, Nat.add_zero]
  refine ⟨?_, ?_, ?_, ?_, consecutive_ordered _ _, fun q hq => ?_, ?_, hlen ▸ hend⟩
  · rw [hm, hm']
    exact ⟨rfl, rfl⟩
  · rw [hm, hm']
    rfl
  · rw [hm, hm']
    rfl
  · rw [hm, hm']
    exact Nat.le_trans (Nat.le_of_eq (segmentsAt_length _ _)) hcount
  · have hq := consecutive_within hq
    exact ⟨hq.1, by omega⟩
  · rw [hlen, imageParts, consecutive_lengths]

/-! ## The calls -/

/-- The call succeeds, and the metadata are those of an image in the partition. -/
def Contained (f : Flash) (part : PartitionPos) (r : Except Fault Metadata) : Prop := ∃ m, r = .ok m ∧ Layout f part m

theorem Layout.fits {f : Flash} {part : PartitionPos} {m : Metadata} (h : Layout f part m) : Fits f part.offset := by
  have hlen : m.imageLen = (partLengths f part.offset).sum := by
    rw [h.length, imageParts, consecutive_lengths]
  refine ⟨?_, ?_, hlen ▸ h.no_wrap⟩
  · rw [← segmentsAt_length, ← h.segments]
    exact h.count_le
  · have hne : partLengths f part.offset ≠ [] := by simp [partLengths]
    obtain ⟨p, hp, hend⟩ := exists_consecutive_end hne part.offset
    have := (h.within p hp).2
    have := part.size_lt
    omega

theorem contained_iff {f : Flash} {part : PartitionPos} {r : Except Fault Metadata}
    (hnever : Fits f part.offset → r ≠ .error .undefined)
    (hlayout : ∀ m, Fits f part.offset → r = .ok m → Layout f part m)
    (hr : ∀ code, r ≠ .error (.err code)) : Contained f part r ↔ Fits f part.offset := by
  constructor
  · rintro ⟨m, _, hm⟩
    exact hm.fits
  · intro hfits
    match r with
    | .ok m => exact ⟨m, rfl, hlayout m hfits rfl⟩
    | .error (.err code) => exact absurd rfl (hr code)
    | .error .undefined => exact absurd rfl (hnever hfits)

theorem Fits.unpadded {f : Flash} {a : Nat} (h : Fits f a) : a + unpaddedLen f a < 2 ^ 32 := by
  have := h.2.2
  rw [partLengths_sum] at this
  omega

section verify
variable {part : PartitionPos} {mode : LoadMode} {ram : Nat → UInt8} {obfs : UInt32 × UInt32}

theorem never_imageLoad (h : Fits d.flash part.offset) : Never .undefined (imageLoad d maxLen mode part ram obfs) := by
  refine (never_ensure _ _).bind fun _ _ => (never_processImageHeader _ _ _).bind fun x hx => ?_
  obtain ⟨m, sha⟩ := x
  obtain rfl := processImageHeader_ok hx
  refine (never_processSegments _ _ _ ?_).bind fun _ _ => (never_processChecksum _ _ _ _).bind fun _ _ =>
    (never_processAppendedHash _ _ _).bind fun _ _ => (never_ensure _ _).bind fun _ _ => Never.pure _
  exact headerMetadata_segmentCount d.flash part.offset ▸ h.1

theorem imageLoad_layout {m : Metadata} {w : Work} (hfits : Fits d.flash part.offset)
    (h : (imageLoad d maxLen mode part ram obfs).result = .ok (m, w)) : Layout d.flash part m := by
  simp only [imageLoad, bind_result_ok, pure_result, Prod.exists] at h
  obtain ⟨_, _, m₀, _, hheader, m₁, _, hsegments, m₂, _, hchecksum, m₃, hhash, _, _, heq⟩ := h
  cases heq
  obtain rfl := processImageHeader_ok hheader
  obtain ⟨p, rfl⟩ := processSegments_ok hsegments hfits.unpadded
  exact layout_of_ok hfits hchecksum hhash

theorem never_getMetadata (h : Fits d.flash part.offset) : Never .undefined (getMetadata d part) := by
  refine (never_ensure _ _).bind fun _ _ => (never_processImageHeader _ _ _).bind fun x hx => ?_
  obtain ⟨m, sha⟩ := x
  obtain rfl := processImageHeader_ok hx
  refine (never_processSegments _ _ _ ?_).bind fun _ _ => (never_processChecksum _ _ _ _).bind fun _ _ =>
    never_processAppendedHash _ _ _
  exact headerMetadata_segmentCount d.flash part.offset ▸ h.1

theorem getMetadata_layout {m : Metadata} (hfits : Fits d.flash part.offset)
    (h : (getMetadata d part).result = .ok m) : Layout d.flash part m := by
  simp only [getMetadata, bind_result_ok, Prod.exists] at h
  obtain ⟨_, _, m₀, _, hheader, m₁, _, hsegments, m₂, _, hchecksum, hhash⟩ := h
  obtain rfl := processImageHeader_ok hheader
  obtain ⟨p, rfl⟩ := processSegments_ok hsegments hfits.unpadded
  exact layout_of_ok hfits hchecksum hhash

end verify

/-- Where a call does not return an error, it leaves the metadata of an image in the partition exactly if the image
fits. -/
theorem layout_iff_fits (d : Device) (part : PartitionPos) :
    (∀ mode ram obfs, (∀ code, espImageVerify d mode part ram obfs ≠ .error (.err code)) →
      (Contained d.flash part (espImageVerify d mode part ram obfs) ↔ Fits d.flash part.offset)) ∧
    ((∀ code, espImageGetMetadata d part ≠ .error (.err code)) →
      (Contained d.flash part (espImageGetMetadata d part) ↔ Fits d.flash part.offset)) := by
  refine ⟨fun mode ram obfs hr => contained_iff (fun hfits => ?_) (fun m hfits h => ?_) hr,
    fun hr => contained_iff never_getMetadata (fun m => getMetadata_layout) hr⟩
  · have hnever : Never .undefined (imageLoad d (maxImageLen d) mode part ram obfs) := never_imageLoad hfits
    unfold espImageVerify
    cases hload : (imageLoad d (maxImageLen d) mode part ram obfs).result with
    | ok x => exact nofun
    | error e => exact fun he => hnever (hload.trans (by simpa [Except.map] using he))
  · unfold espImageVerify at h
    cases hload : (imageLoad d (maxImageLen d) mode part ram obfs).result with
    | error e => rw [hload] at h; cases h
    | ok x =>
      rw [hload] at h
      cases h
      exact imageLoad_layout hfits hload

/-! ## Three images -/

/-- A chip that maps 32-bit addresses, with a flash of 16 MB. -/
def exampleDevice (byte : Nat → UInt8) : Device where
  flash := ⟨byte, fun a n => a + n ≤ 0x1000000, fun a n => a + n ≤ 0x1000000⟩
  esp32 := false
  pageSizeConfigurable := false
  cache32BitAddrMap := true
  bootloaderBuild := false
  pageSize := 0x10000
  freePages := 60
  isBootloader := fun a => a == 0
  shouldMap := fun _ => false
  shouldLoad := fun _ => false
  verifyLoadAddresses := fun _ _ => true
  checkChipValidity := fun _ _ => true
  checkEfuseBlkValidity := fun _ _ => true
  random := (1, 1)
  shaStarts := true
  debuggerAttached := false
  sha256 := fun _ => List.replicate 32 0
  pageSize_pos := by decide
  pageSize_dvd := by decide
  random_ne := by decide

def examplePartition : PartitionPos := ⟨0x10000, 0x100000, by decide, by decide⟩

/-- One segment of four bytes. -/
def smallImage (a : Nat) : UInt8 :=
  if a = 0x10000 then 0xE9 else if a = 0x10001 then 1 else if a = 0x1001C then 4 else if a = 0x1002F then 0xEF else 0

/-- One segment of `0xFFFFFFF0` bytes. -/
def wrappedImage (a : Nat) : UInt8 :=
  if a = 0x10000 then 0xE9 else if a = 0x10001 then 1 else if a = 0x1001C then 0xF0
  else if 0x1001D ≤ a ∧ a ≤ 0x1001F then 0xFF else 0

/-- Seventeen segments without data. -/
def manySegments (a : Nat) : UInt8 := if a = 0x10000 then 0xE9 else if a = 0x10001 then 17 else 0

theorem layout_iff_fits_smallImage :
    Contained (exampleDevice smallImage).flash examplePartition
        (espImageVerify (exampleDevice smallImage) .verify examplePartition (fun _ => 0) (0, 0)) ∧
      Contained (exampleDevice smallImage).flash examplePartition
        (espImageGetMetadata (exampleDevice smallImage) examplePartition) := by
  have hfits : Fits (exampleDevice smallImage).flash 0x10000 := by
    unfold Fits
    decide
  have hlaw := layout_iff_fits (exampleDevice smallImage) examplePartition
  refine ⟨(hlaw.1 .verify (fun _ => 0) (0, 0) fun code => ?_).mpr hfits, (hlaw.2 fun code => ?_).mpr hfits⟩ <;>
  · revert code
    rintro (_ | _ | _ | _) <;> decide

/-- The segment ends `0xFFFFFFF0` bytes behind its start, which is taken for an image of 32 bytes; and the seventeenth
header is written past the array. -/
theorem wrapped_image_shortened :
    (∃ m, espImageGetMetadata (exampleDevice wrappedImage) examplePartition = .ok m ∧ m.imageLen = 32 ∧
      ¬Layout (exampleDevice wrappedImage).flash examplePartition m) ∧
    espImageGetMetadata (exampleDevice manySegments) examplePartition = .error .undefined := by
  refine ⟨⟨⟨0x10000, (exampleDevice wrappedImage).flash.bytes 0x10000 headerSize, [⟨0, 0xFFFFFFF0⟩], [0x10020], 32, [],
    0x10000⟩, by decide +kernel, rfl, fun hlayout => absurd hlayout.fits ?_⟩, by decide⟩
  unfold Fits
  decide

end EspIdf.Image
