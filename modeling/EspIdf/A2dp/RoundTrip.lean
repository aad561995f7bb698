import EspIdf.A2dp.CodecInfo

/-!
# Building and parsing codec information

* `RoundTrips`, `Rebuilds` : a structure comes back from its octets, and octets from their structure;
* one section a codec: its `Declared` structures, what its parser asks for (`Offers`), and both directions;
* `info_round_trip_iff` : for all codecs, what comes back.
-/

namespace EspIdf.A2dp

open BitField

/-- The octets agree with those of `info` from the `i`-th on, on the bits of a mask for each of them. -/
def AgreeFrom (info : List Octet) : Nat → List Octet → List Octet → Prop
  | _, [], [] => True
  | i, m :: mask, o :: out => m &&& o = m &&& octet info i ∧ AgreeFrom info (i + 1) mask out
  | _, _, _ => False

instance (info : List Octet) : (i : Nat) → (mask out : List Octet) → Decidable (AgreeFrom info i mask out)
  | _, [], [] => isTrue True.intro
  | i, _ :: mask, _ :: out =>
    have := instDecidableAgreeFrom info (i + 1) mask out
    inferInstanceAs (Decidable (_ ∧ _))
  | _, [], _ :: _ => isFalse id
  | _, _ :: _, [] => isFalse id

/-- A structure is built to octets that are parsed to it. -/
def RoundTrips {α : Type} (build : Octet → α → Except Status (List Octet))
    (parse : List Octet → Bool → Except Status α) (isCapability : Bool) (ie : α) : Prop :=
  ∃ out, build mediaTypeAudio ie = .ok out ∧ parse out isCapability = .ok ie

/-- A structure is built to the octets of `info`, as far as the mask goes. -/
def Rebuilds {α : Type} (build : Octet → α → Except Status (List Octet)) (mask info : List Octet) (ie : α) : Prop :=
  ∃ out, build mediaTypeAudio ie = .ok out ∧ AgreeFrom info 0 mask out

theorem roundTrips_iff {α : Type} {build : Octet → α → Except Status (List Octet)}
    {parse : List Octet → Bool → Except Status α} {isCapability : Bool} {ie : α} {out : List Octet}
    (h : build mediaTypeAudio ie = .ok out) :
    RoundTrips build parse isCapability ie ↔ parse out isCapability = .ok ie := by
  constructor
  · rintro ⟨out', h', hparse⟩
    rw [h] at h'
    rw [Except.ok.inj h']
    exact hparse
  · exact fun hparse => ⟨out, h, hparse⟩

theorem rebuilds_iff {α : Type} {build : Octet → α → Except Status (List Octet)} {mask info : List Octet} {ie : α}
    {out : List Octet} (h : build mediaTypeAudio ie = .ok out) :
    Rebuilds build mask info ie ↔ AgreeFrom info 0 mask out := by
  constructor
  · rintro ⟨out', h', hagree⟩
    rw [h] at h'
    rw [Except.ok.inj h']
    exact hagree
  · exact fun hagree => ⟨out, h, hagree⟩

/-! ## SBC -/

namespace Sbc

variable {ie : Cie} {info : List Octet} {isCapability : Bool}

def Bitpools (ie : Cie) : Prop :=
  minBitpoolIe ≤ ie.minBitpool ∧ ie.minBitpool ≤ ie.maxBitpool ∧ ie.maxBitpool ≤ maxBitpoolIe

def Declared (ie : Cie) : Prop :=
  Within ie.sampFreq sampFreqMsk ∧ Within ie.chMode chMdMsk ∧ Within ie.blockLen blocksMsk ∧
    Within ie.numSubbands subbandMsk ∧ Within ie.allocMthd allocMdMsk ∧ Bitpools ie

/-- A capability may leave a field empty. -/
def Offers (isCapability : Bool) (ie : Cie) : Prop :=
  isCapability = false → OneHot ie.sampFreq ∧ OneHot ie.chMode ∧ OneHot ie.blockLen ∧ OneHot ie.numSubbands ∧
    OneHot ie.allocMthd

theorem parsSbcInfo_ok_iff : parsSbcInfo info isCapability = .ok ie ↔
    (octet info 0 = 6 ∧ octet info 1 = mediaTypeAudio ∧ octet info 2 = mediaCtSbc) ∧ Bitpools (cieOf info) ∧
      Offers isCapability (cieOf info) ∧ cieOf info = ie := by
  unfold parsSbcInfo Bitpools Offers options
  dsimp only
  rw [ite_error_eq_ok_iff, ite_error_eq_ok_iff, ite_error_eq_ok_iff, ite_map_eq_ok_iff]
  simp only [checkOptions_cons, checkOptions_nil, and_true, Chosen, Bool.false_eq_true, if_false, not_or,
    Decidable.not_not, BitVec.not_lt]
  constructor
  · rintro ⟨hheader, ⟨hmin, -⟩, ⟨-, hmax, hle⟩, hrest⟩
    exact ⟨hheader, ⟨hmin, hle, hmax⟩, hrest⟩
  · rintro ⟨hheader, ⟨hmin, hle, hmax⟩, hrest⟩
    exact ⟨hheader, ⟨hmin, BitVec.le_trans hle hmax⟩, ⟨BitVec.le_trans hmin hle, hmax, hle⟩, hrest⟩

theorem bldSbcInfo_ok (mediaType : Octet) (h : Declared ie) : bldSbcInfo mediaType ie =
    .ok [6, mediaType, mediaCtSbc, ie.sampFreq ||| ie.chMode, ie.blockLen ||| ie.numSubbands ||| ie.allocMthd,
      ie.minBitpool, ie.maxBitpool] := by
  obtain ⟨hfreq, hch, hblocks, hsub, halloc, hmin, hle, hmax⟩ := h
  unfold bldSbcInfo
  refine if_neg ?_
  simp only [not_or, Decidable.not_not, BitVec.not_lt]
  exact ⟨hfreq, hch, hblocks, hsub, halloc, hle, BitVec.le_trans hmin hle, hmax, hmin, BitVec.le_trans hle hmax⟩

theorem roundTrips_iff (h : Declared ie) :
    RoundTrips bldSbcInfo parsSbcInfo isCapability ie ↔ Offers isCapability ie := by
  rw [A2dp.roundTrips_iff (bldSbcInfo_ok _ h), parsSbcInfo_ok_iff]
  obtain ⟨hfreq, hch, hblocks, hsub, halloc, hpools⟩ := h
  have hcie : cieOf [6, mediaTypeAudio, mediaCtSbc, ie.sampFreq ||| ie.chMode,
      ie.blockLen ||| ie.numSubbands ||| ie.allocMthd, ie.minBitpool, ie.maxBitpool] = ie := by
    apply Cie.ext
    · exact hfreq.select_left hch (by decide)
    · exact hfreq.select_right hch (by decide)
    · exact hblocks.select_first hsub halloc (by decide) (by decide)
    · exact hblocks.select_second hsub halloc (by decide) (by decide)
    · exact hblocks.select_third hsub halloc (by decide) (by decide)
    · rfl
    · rfl
  rw [hcie]
  exact ⟨fun h' => h'.2.2.1, fun hoffers => ⟨⟨rfl, rfl, rfl⟩, hpools, hoffers, rfl⟩⟩

def nonReserved : List Octet := [0xFF, 0xF0, 0xFF, 0xFF, 0xFF, 0xFF, 0xFF]

theorem rebuilds (h : parsSbcInfo info isCapability = .ok ie) : Rebuilds bldSbcInfo nonReserved info ie := by
  obtain ⟨⟨hlosc, htype, hcodec⟩, hpools, -, rfl⟩ := parsSbcInfo_ok_iff.mp h
  refine ⟨_, bldSbcInfo_ok _ ⟨within_and, within_and, within_and, within_and, within_and, hpools⟩, ?_⟩
  refine ⟨by rw [hlosc], by rw [htype], by rw [hcodec], and_or_and (by decide), and_or_and_and (by decide), rfl, rfl,
    True.intro⟩

end Sbc

/-! ## AAC -/

theorem Chosen.ne_zero {isCapability : Bool} {w : Nat} {x : BitVec w} (h : Chosen isCapability x) : x ≠ 0#w := by
  cases isCapability with
  | true => exact h
  | false => exact h.1

theorem media_type_shift : (mediaTypeAudio <<< 4) >>> 4 = mediaTypeAudio := by decide

theorem media_type_agree {b : Octet} (h : b >>> 4 = mediaTypeAudio) :
    0xF0#8 &&& mediaTypeAudio <<< 4 = 0xF0#8 &&& b := by
  revert b
  decide

namespace Aac

variable {ie : Cie} {info : List Octet} {isCapability : Bool}

def Declared (ie : Cie) : Prop :=
  Within ie.sampleRate 0xF0FF ∧ Within ie.channelMode channelModeMask ∧
    Within ie.variableBitRateSupport variableBitRateMask ∧ Within ie.bitRate 0x7FFFFF

def Offers (isCapability : Bool) (ie : Cie) : Prop :=
  Chosen isCapability ie.objectType ∧ Chosen isCapability ie.sampleRate ∧ Chosen isCapability ie.channelMode

theorem parseInfoAac_ok_iff : parseInfoAac info isCapability = .ok ie ↔
    (octet info 0 = 8 ∧ octet info 1 >>> 4 = mediaTypeAudio ∧ octet info 2 = mediaCtM24) ∧
      Offers isCapability (cieOf info) ∧ cieOf info = ie := by
  unfold parseInfoAac Offers options
  dsimp only
  rw [ite_error_eq_ok_iff, map_eq_ok_iff]
  simp only [checkOptions_cons, checkOptions_nil, and_true, not_or, Decidable.not_not]

/-- The octets of a structure, when no field is empty. -/
def bytes (ie : Cie) : List Octet :=
  [8, mediaTypeAudio <<< 4, mediaCtM24, ie.objectType, ie.sampleRate.extractLsb' 0 8,
    (ie.sampleRate.extractLsb' 8 8 &&& samplingFreqMask1) ||| (ie.channelMode &&& channelModeMask),
    (ie.variableBitRateSupport &&& variableBitRateMask) ||| (ie.bitRate.extractLsb' 16 8 &&& bitRateMask0),
    ie.bitRate.extractLsb' 8 8, ie.bitRate.extractLsb' 0 8]

theorem buildInfoAac_ok (h : ie.objectType ≠ 0 ∧ ie.sampleRate ≠ 0 ∧ ie.channelMode ≠ 0) :
    buildInfoAac mediaTypeAudio ie = .ok (bytes ie) :=
  if_neg fun hor => hor.elim h.1 fun hor => hor.elim h.2.1 h.2.2

theorem cieOf_bytes (h : Declared ie) : cieOf (bytes ie) = ie := by
  obtain ⟨hrate, hch, hvbr, hbit⟩ := h
  have hrate1 : Within (ie.sampleRate.extractLsb' 8 8) samplingFreqMask1 := hrate.extract 8 8
  have hbit2 : Within (ie.bitRate.extractLsb' 16 8) bitRateMask0 := hbit.extract 16 8
  have hbit3 : ie.bitRate.extractLsb' 24 8 = 0#8 := (hbit.extract 24 8).symm.trans (BitVec.and_zero ..)
  apply Cie.ext
  · rfl
  · refine Eq.trans ?_ (append_extract16 ie.sampleRate)
    exact congrArg (· ++ ie.sampleRate.extractLsb' 0 8) ((within_and.select_left within_and (by decide)).trans hrate1)
  · exact (within_and.select_right within_and (by decide)).trans hch
  · exact (within_and.select_left within_and (by decide)).trans hvbr
  · refine Eq.trans ?_ (append_extract32 ie.bitRate)
    rw [hbit3]
    exact congrArg (0#8 ++ · ++ ie.bitRate.extractLsb' 8 8 ++ ie.bitRate.extractLsb' 0 8)
      ((within_and.select_right within_and (by decide)).trans hbit2)

theorem roundTrips_iff (h : Declared ie) :
    RoundTrips buildInfoAac parseInfoAac isCapability ie ↔ Offers isCapability ie := by
  by_cases hsome : ie.objectType ≠ 0 ∧ ie.sampleRate ≠ 0 ∧ ie.channelMode ≠ 0
  · rw [A2dp.roundTrips_iff (buildInfoAac_ok hsome), parseInfoAac_ok_iff, cieOf_bytes h]
    exact ⟨fun h' => h'.2.1, fun hoffers => ⟨⟨rfl, media_type_shift, rfl⟩, hoffers, rfl⟩⟩
  · refine iff_of_false ?_ fun hoffers => hsome ⟨hoffers.1.ne_zero, hoffers.2.1.ne_zero, hoffers.2.2.ne_zero⟩
    rintro ⟨out, hbuild, -⟩
    have hfail : buildInfoAac mediaTypeAudio ie = .error .invalidParams := if_pos (by
      simp only [ne_eq, not_and_or, Decidable.not_not] at hsome
      exact hsome)
    rw [hfail] at hbuild
    exact nomatch hbuild

def nonReserved : List Octet := [0xFF, 0xF0, 0xFF, 0xF0, 0xFF, 0xFC, 0xFF, 0xFF, 0xFF]

theorem rebuilds (h : parseInfoAac info isCapability = .ok ie) : Rebuilds buildInfoAac nonReserved info ie := by
  obtain ⟨⟨hlosc, htype, hcodec⟩, hoffers, rfl⟩ := parseInfoAac_ok_iff.mp h
  refine ⟨_, buildInfoAac_ok ⟨hoffers.1.ne_zero, hoffers.2.1.ne_zero, hoffers.2.2.ne_zero⟩, ?_⟩
  obtain ⟨hlow, hmid, hhigh, -⟩ := extract_append32 0#8 (octet info 6 &&& bitRateMask0) (octet info 7) (octet info 8)
  refine ⟨by rw [hlosc], media_type_agree htype, by rw [hcodec], rfl, ?_, ?_, ?_, ?_, ?_, True.intro⟩
  · exact congrArg _ (extract_append_low ..)
  · have hrate : (cieOf info).sampleRate.extractLsb' 8 8 = octet info 5 &&& samplingFreqMask1 := extract_append_high ..
    have hch : (cieOf info).channelMode &&& channelModeMask = octet info 5 &&& channelModeMask := within_and
    rw [hrate, within_and, hch]
    exact and_or_and (by decide)
  · have hrate : (cieOf info).bitRate.extractLsb' 16 8 = octet info 6 &&& bitRateMask0 := hhigh
    have hvbr : (cieOf info).variableBitRateSupport &&& variableBitRateMask =
        octet info 6 &&& variableBitRateMask := within_and
    rw [hrate, within_and, hvbr]
    exact and_or_and (by decide)
  · exact congrArg _ hmid
  · exact congrArg _ hlow

end Aac

/-! ## Vendor codecs -/

section Vendor

variable {info rest mask : List Octet} {losc : Octet} {vendorId : BitVec 32} {codecId : BitVec 16}

theorem word32_vendorInfo : word32 (vendorInfo losc mediaTypeAudio vendorId codecId ++ rest) 3 = vendorId :=
  append_extract32 vendorId

theorem word16_vendorInfo : word16 (vendorInfo losc mediaTypeAudio vendorId codecId ++ rest) 7 = codecId :=
  append_extract16 codecId

theorem isVendor_vendorInfo : IsVendor (vendorInfo losc mediaTypeAudio vendorId codecId ++ rest) losc vendorId codecId :=
  ⟨rfl, media_type_shift, rfl, word32_vendorInfo, word16_vendorInfo⟩

/-- The mask of the header of a vendor codec information. -/
def vendorMask : List Octet := [0xFF, 0xF0, 0xFF, 0xFF, 0xFF, 0xFF, 0xFF, 0xFF, 0xFF]

/-- The header comes back. -/
theorem vendorInfo_agree (h : IsVendor info losc vendorId codecId) :
    AgreeFrom info 0 (vendorMask ++ mask) (vendorInfo losc mediaTypeAudio vendorId codecId ++ rest) ↔
      AgreeFrom info 9 mask rest := by
  obtain ⟨hlosc, htype, hcodec, rfl, rfl⟩ := h
  obtain ⟨h3, h4, h5, h6⟩ := extract_append32 (octet info 6) (octet info 5) (octet info 4) (octet info 3)
  constructor
  · rintro ⟨-, -, -, -, -, -, -, -, -, hrest⟩
    exact hrest
  · intro hrest
    exact ⟨by rw [hlosc], media_type_agree htype, by rw [hcodec], congrArg _ h3, congrArg _ h4, congrArg _ h5,
      congrArg _ h6, congrArg _ (extract_append_low ..), congrArg _ (extract_append_high ..), hrest⟩

end Vendor

namespace Ldac

variable {ie : Cie} {info : List Octet} {isCapability : Bool}

def Declared (ie : Cie) : Prop :=
  ie.vendorId = vendorIdLdac ∧ ie.codecId = codecIdLdac ∧ Within ie.sampleRate samplingFreqMask ∧
    Within ie.channelMode channelModeMask

def Offers (isCapability : Bool) (ie : Cie) : Prop :=
  Chosen isCapability ie.sampleRate ∧ Chosen isCapability ie.channelMode

theorem parseInfoLdac_ok_iff : parseInfoLdac info isCapability = .ok ie ↔
    IsVendor info 10 vendorIdLdac codecIdLdac ∧ Offers isCapability (cieOf info) ∧ cieOf info = ie := by
  unfold parseInfoLdac Offers options
  dsimp only
  rw [ite_error_eq_ok_iff, map_eq_ok_iff, Decidable.not_not]
  simp only [checkOptions_cons, checkOptions_nil, and_true]

theorem buildInfoLdac_ok (hrate : Within ie.sampleRate samplingFreqMask) (hch : Within ie.channelMode channelModeMask)
    (h : ie.sampleRate ≠ 0 ∧ ie.channelMode ≠ 0) : buildInfoLdac mediaTypeAudio ie =
      .ok (vendorInfo 10 mediaTypeAudio ie.vendorId ie.codecId ++ [ie.sampleRate, ie.channelMode]) := by
  unfold buildInfoLdac
  rw [hrate, hch]
  exact if_neg fun hor => hor.elim h.1 h.2

theorem roundTrips_iff (h : Declared ie) :
    RoundTrips buildInfoLdac parseInfoLdac isCapability ie ↔ Offers isCapability ie := by
  obtain ⟨hvendor, hcodec, hrate, hch⟩ := h
  by_cases hsome : ie.sampleRate ≠ 0 ∧ ie.channelMode ≠ 0
  · rw [A2dp.roundTrips_iff (buildInfoLdac_ok hrate hch hsome), parseInfoLdac_ok_iff]
    have hcie : cieOf (vendorInfo 10 mediaTypeAudio ie.vendorId ie.codecId ++ [ie.sampleRate, ie.channelMode]) = ie :=
      Cie.ext word32_vendorInfo word16_vendorInfo hrate hch
    rw [hcie, ← hvendor, ← hcodec]
    exact ⟨fun h' => h'.2.1, fun hoffers => ⟨isVendor_vendorInfo, hoffers, rfl⟩⟩
  · refine iff_of_false ?_ fun hoffers => hsome ⟨hoffers.1.ne_zero, hoffers.2.ne_zero⟩
    rintro ⟨out, hbuild, -⟩
    have hfail : buildInfoLdac mediaTypeAudio ie = .error .invalidParams := if_pos (by
      rw [hrate, hch]
      simp only [ne_eq, not_and_or, Decidable.not_not] at hsome
      exact hsome)
    rw [hfail] at hbuild
    exact nomatch hbuild

def nonReserved : List Octet := vendorMask ++ [0x3F, 0x07]

theorem rebuilds (h : parseInfoLdac info isCapability = .ok ie) : Rebuilds buildInfoLdac nonReserved info ie := by
  obtain ⟨hvendor, hoffers, rfl⟩ := parseInfoLdac_ok_iff.mp h
  refine ⟨_, buildInfoLdac_ok within_and within_and ⟨hoffers.1.ne_zero, hoffers.2.ne_zero⟩, ?_⟩
  have hids : (cieOf info).vendorId = vendorIdLdac ∧ (cieOf info).codecId = codecIdLdac :=
    ⟨hvendor.2.2.2.1, hvendor.2.2.2.2⟩
  rw [hids.1, hids.2]
  exact (vendorInfo_agree hvendor).mpr ⟨and_and_of_le (by decide), and_and_of_le (by decide), True.intro⟩

end Ldac

namespace Lhdcv5

variable {ie : Cie} {info : List Octet} {isCapability : Bool}

def Declared (ie : Cie) : Prop :=
  ie.vendorId = vendorIdLhdcv5 ∧ ie.codecId = codecIdLhdcv5 ∧ Within ie.sampleRate samplingFreqMask ∧
    Within ie.bitsPerSample bitFmtMask ∧ Within ie.channelMode (channelModeMono ||| channelModeStereo) ∧
    Within ie.version versionMask ∧ Within ie.frameLenType frameLenMask ∧ Within ie.maxTargetBitrate maxBitRateMask ∧
    Within ie.minTargetBitrate minBitRateMask

/-- Only capabilities are checked. -/
def Offers (isCapability : Bool) (ie : Cie) : Prop :=
  isCapability = true → ie.sampleRate ≠ 0#8 ∧ ie.bitsPerSample ≠ 0#8 ∧ ie.version &&& ver1 ≠ 0#8 ∧
    ie.frameLenType ≠ 0#8

/-- The channel mode is the one the parser sets, and the features `featureMask` takes away are not offered. -/
def Survives (ie : Cie) : Prop :=
  ie.channelMode = channelModeStereo ∧ ie.hasFeatureLLESS24Bit = false ∧ ie.hasFeatureLLESS96K = false

theorem parseInfoLhdcV5_ok_iff : parseInfoLhdcV5 info isCapability = .ok ie ↔
    IsVendor info 13 vendorIdLhdcv5 codecIdLhdcv5 ∧ Offers isCapability (cieOf info) ∧ cieOf info = ie := by
  unfold parseInfoLhdcV5 Offers options
  dsimp only
  rw [ite_error_eq_ok_iff, ite_map_eq_ok_iff, Decidable.not_not]
  simp only [checkOptions_cons, checkOptions_nil, and_true, Chosen, if_true]

/-- What `featureMask` leaves of the features. -/
theorem parse_features : ∀ ar jas metadata ll l48k l24bit l96k : Bool, ∀ f, f = (bitIf ar 0x01 ||| bitIf jas 0x02 |||
    bitIf metadata 0x04 ||| bitIf ll 0x40 ||| bitIf l48k 0x80 ||| bitIf l24bit 0x20 ||| bitIf l96k 0x10) →
    decide (f &&& featureMask &&& 0x01 ≠ 0) = ar ∧ decide (f &&& featureMask &&& 0x02 ≠ 0) = jas ∧
    decide (f &&& featureMask &&& 0x04 ≠ 0) = metadata ∧ decide (f &&& featureMask &&& 0x40 ≠ 0) = ll ∧
    decide (f &&& featureMask &&& 0x80 ≠ 0) = l48k ∧ decide (f &&& featureMask &&& 0x20 ≠ 0) = false ∧
    decide (f &&& featureMask &&& 0x10 ≠ 0) = false := by
  intro ar jas metadata ll l48k l24bit l96k f hf
  subst hf
  revert ar jas metadata ll l48k l24bit l96k
  decide +kernel

theorem features_agree_iff : ∀ b : Octet, 0xF7 &&& (bitIf (b &&& featureMask &&& 0x01 ≠ 0) 0x01 |||
    bitIf (b &&& featureMask &&& 0x02 ≠ 0) 0x02 ||| bitIf (b &&& featureMask &&& 0x04 ≠ 0) 0x04 |||
    bitIf (b &&& featureMask &&& 0x40 ≠ 0) 0x40 ||| bitIf (b &&& featureMask &&& 0x80 ≠ 0) 0x80 |||
    bitIf (b &&& featureMask &&& 0x20 ≠ 0) 0x20 ||| bitIf (b &&& featureMask &&& 0x10 ≠ 0) 0x10) = 0xF7 &&& b ↔
    b &&& 0x30 = 0 := by
  decide +kernel

theorem raw_agree : ∀ b : Octet, 0x80 &&& bitIf (b &&& 0x80 ≠ 0) 0x80 = 0x80 &&& b := by
  decide +kernel

theorem raw_parse : ∀ raw : Bool, decide (bitIf raw 0x80 &&& 0x80 ≠ 0) = raw := by
  decide

theorem roundTrips_iff (h : Declared ie) : RoundTrips buildInfoLhdcV5 parseInfoLhdcV5 isCapability ie ↔
    Offers isCapability ie ∧ Survives ie := by
  obtain ⟨hvendor, hcodec, hrate, hbits, hch, hver, hframe, hmax, hmin⟩ := h
  rw [A2dp.roundTrips_iff rfl, parseInfoLhdcV5_ok_iff]
  obtain ⟨har, hjas, hmeta, hll, h48k, h24bit, h96k⟩ := parse_features ie.hasFeatureAR ie.hasFeatureJAS
    ie.hasFeatureMETA ie.hasFeatureLL ie.hasFeatureLLESS48K ie.hasFeatureLLESS24Bit ie.hasFeatureLLESS96K (features ie) rfl
  -- every field comes back, but the channel mode and the two features are set
  have hcie : ∀ rest, rest = [ie.sampleRate &&& samplingFreqMask,
      (ie.bitsPerSample &&& bitFmtMask) ||| (ie.maxTargetBitrate &&& maxBitRateMask) |||
        (ie.minTargetBitrate &&& minBitRateMask),
      (ie.version &&& versionMask) ||| (ie.frameLenType &&& frameLenMask), features ie,
      bitIf ie.hasFeatureLLESSRaw 0x80] → cieOf (vendorInfo 13 mediaTypeAudio ie.vendorId ie.codecId ++ rest) =
        { ie with channelMode := channelModeStereo, hasFeatureLLESS24Bit := false, hasFeatureLLESS96K := false } := by
    rintro rest rfl
    apply Cie.ext
    · exact word32_vendorInfo
    · exact word16_vendorInfo
    · exact within_and.trans hrate
    · exact (within_and.select_first within_and within_and (by decide) (by decide)).trans hbits
    · rfl
    · exact (within_and.select_left within_and (by decide)).trans hver
    · exact (within_and.select_right within_and (by decide)).trans hframe
    · exact (within_and.select_second within_and within_and (by decide) (by decide)).trans hmax
    · exact (within_and.select_third within_and within_and (by decide) (by decide)).trans hmin
    · exact har
    · exact hjas
    · exact hmeta
    · exact hll
    · exact h48k
    · exact h24bit
    · exact h96k
    · exact raw_parse _
  rw [hcie _ rfl, ← hvendor, ← hcodec]
  constructor
  · rintro ⟨-, hoffers, hsame⟩
    exact ⟨hoffers, (congrArg Cie.channelMode hsame).symm, (congrArg Cie.hasFeatureLLESS24Bit hsame).symm,
      (congrArg Cie.hasFeatureLLESS96K hsame).symm⟩
  · rintro ⟨hoffers, hstereo, hno24bit, hno96k⟩
    exact ⟨isVendor_vendorInfo, hoffers, Cie.ext rfl rfl rfl rfl hstereo.symm rfl rfl rfl rfl rfl rfl rfl rfl rfl
      hno24bit.symm hno96k.symm rfl⟩

def nonReserved : List Octet := vendorMask ++ [0x35, 0xF7, 0x1F, 0xF7, 0x80]

theorem rebuilds_iff (h : parseInfoLhdcV5 info isCapability = .ok ie) :
    Rebuilds buildInfoLhdcV5 nonReserved info ie ↔ octet info 12 &&& 0x30 = 0 := by
  obtain ⟨hvendor, hoffers, rfl⟩ := parseInfoLhdcV5_ok_iff.mp h
  have hids : (cieOf info).vendorId = vendorIdLhdcv5 ∧ (cieOf info).codecId = codecIdLhdcv5 :=
    ⟨hvendor.2.2.2.1, hvendor.2.2.2.2⟩
  rw [A2dp.rebuilds_iff rfl, hids.1, hids.2]
  refine (vendorInfo_agree hvendor).trans ?_
  refine Iff.trans ?_ (features_agree_iff (octet info 12))
  constructor
  · exact fun h' => h'.2.2.2.1
  · intro hfeatures
    refine ⟨?_, ?_, ?_, hfeatures, raw_agree _, True.intro⟩
    · have hrate : (cieOf info).sampleRate &&& samplingFreqMask = octet info 9 &&& samplingFreqMask := within_and
      rw [hrate]
      exact and_and_of_le (by decide)
    · have hbits : (cieOf info).bitsPerSample &&& bitFmtMask = octet info 10 &&& bitFmtMask := within_and
      have hmax : (cieOf info).maxTargetBitrate &&& maxBitRateMask = octet info 10 &&& maxBitRateMask := within_and
      have hmin : (cieOf info).minTargetBitrate &&& minBitRateMask = octet info 10 &&& minBitRateMask := within_and
      rw [hbits, hmax, hmin]
      exact and_or_and_and (by decide)
    · have hver : (cieOf info).version &&& versionMask = octet info 11 &&& versionMask := within_and
      have hframe : (cieOf info).frameLenType &&& frameLenMask = octet info 11 &&& frameLenMask := within_and
      rw [hver, hframe]
      exact and_or_and (by decide)

end Lhdcv5

namespace Lc3plus

variable {ie : Cie} {info : List Octet} {isCapability : Bool}

def Declared (ie : Cie) : Prop := ie.vendorId = vendorIdLc3plus ∧ ie.codecId = codecIdLc3plus

/-- Only capabilities are checked. -/
def Offers (isCapability : Bool) (ie : Cie) : Prop :=
  isCapability = true → ie.frameDuration ≠ 0#8 ∧ ie.channels ≠ 0#8 ∧ ie.frequency ≠ 0#16

/-- Nothing is lost with the low octet of the frequencies. -/
def Survives (ie : Cie) : Prop := ie.frequency.extractLsb' 0 8 = 0#8

theorem parseInfoLc3Plus_ok_iff : parseInfoLc3Plus info isCapability = .ok ie ↔
    IsVendor info 12 vendorIdLc3plus codecIdLc3plus ∧ Offers isCapability (cieOf info) ∧ cieOf info = ie := by
  unfold parseInfoLc3Plus Offers options
  dsimp only
  rw [ite_error_eq_ok_iff, ite_map_eq_ok_iff, Decidable.not_not]
  simp only [checkOptions_cons, checkOptions_nil, and_true, Chosen, if_true]

theorem shift_octet (b : Octet) : b >>> 8 = 0#8 := BitVec.ushiftRight_eq_zero (Nat.le_refl 8)

theorem roundTrips_iff (h : Declared ie) : RoundTrips buildInfoLc3Plus parseInfoLc3Plus isCapability ie ↔
    Offers isCapability ie ∧ Survives ie := by
  obtain ⟨hvendor, hcodec⟩ := h
  rw [A2dp.roundTrips_iff rfl, parseInfoLc3Plus_ok_iff]
  have hcie : ∀ rest, rest = [ie.frameDuration, ie.channels, ie.frequency.extractLsb' 8 8,
      ie.frequency.extractLsb' 0 8] → cieOf (vendorInfo 12 mediaTypeAudio ie.vendorId ie.codecId ++ rest) =
        { ie with frequency := ie.frequency.extractLsb' 8 8 ++ 0#8 } := by
    rintro rest rfl
    apply Cie.ext
    · exact word32_vendorInfo
    · exact word16_vendorInfo
    · rfl
    · rfl
    · exact congrArg (ie.frequency.extractLsb' 8 8 ++ ·) (shift_octet _)
  rw [hcie _ rfl, ← hvendor, ← hcodec]
  have hlow : ie.frequency.extractLsb' 8 8 ++ 0#8 = ie.frequency ↔ Survives ie := by
    constructor
    · intro hsame
      have hextract := congrArg (BitVec.extractLsb' 0 8) hsame
      rw [extract_append_low] at hextract
      exact hextract.symm
    · intro hzero
      have happend := append_extract16 ie.frequency
      rw [hzero] at happend
      exact happend
  constructor
  · rintro ⟨-, hoffers, hsame⟩
    have hfreq : ie.frequency.extractLsb' 8 8 ++ 0#8 = ie.frequency := congrArg Cie.frequency hsame
    rw [hfreq] at hoffers
    exact ⟨hoffers, hlow.mp hfreq⟩
  · rintro ⟨hoffers, hzero⟩
    have hfreq := hlow.mpr hzero
    rw [hfreq]
    exact ⟨isVendor_vendorInfo, hoffers, rfl⟩

def nonReserved : List Octet := vendorMask ++ [0x70, 0xC0, 0x01, 0x80]

theorem rebuilds_iff (h : parseInfoLc3Plus info isCapability = .ok ie) :
    Rebuilds buildInfoLc3Plus nonReserved info ie ↔ octet info 12 &&& 0x80 = 0 := by
  obtain ⟨hvendor, hoffers, rfl⟩ := parseInfoLc3Plus_ok_iff.mp h
  have hids : (cieOf info).vendorId = vendorIdLc3plus ∧ (cieOf info).codecId = codecIdLc3plus :=
    ⟨hvendor.2.2.2.1, hvendor.2.2.2.2⟩
  rw [A2dp.rebuilds_iff rfl, hids.1, hids.2]
  refine (vendorInfo_agree hvendor).trans ?_
  have hhigh : (cieOf info).frequency.extractLsb' 8 8 = octet info 11 := extract_append_high ..
  have hlow : (cieOf info).frequency.extractLsb' 0 8 = 0#8 :=
    (extract_append_low ..).trans (shift_octet _)
  rw [hhigh, hlow]
  constructor
  · rintro ⟨-, -, -, hzero, -⟩
    rw [BitVec.and_comm]
    exact hzero.symm
  · intro hzero
    rw [BitVec.and_comm] at hzero
    exact ⟨rfl, rfl, rfl, hzero.symm, True.intro⟩

end Lc3plus

namespace Opus

variable {ie : Cie} {info : List Octet} {isCapability : Bool}

/-- A structure of one of the two variants, with the fields of the other one zero. -/
def Declared (ie : Cie) : Prop :=
  match ie.variant with
  | .android => ie.vendorId = androidVendorId ∧ ie.codecId = androidCodecId ∧ Within ie.channelMode channelModeMask ∧
      Within ie.frameSize framesizeMask ∧ Within ie.samplingFreq samplingFreqMask ∧ ie.channels = 0 ∧
      ie.coupledStreams = 0 ∧ ie.audioLocation = 0 ∧ ie.frameDuration = 0 ∧ ie.maximumBitrate = 0 ∧
      ie.bidiChannels = 0 ∧ ie.bidiCoupledStreams = 0 ∧ ie.bidiAudioLocation = 0 ∧ ie.bidiFrameDuration = 0 ∧
      ie.bidiMaximumBitrate = 0
  | .pipewire => ie.vendorId = pipewireVendorId ∧ ie.codecId = pipewireCodecId ∧ ie.channelMode = 0 ∧
      ie.frameSize = 0 ∧ ie.samplingFreq = 0

def Offers (isCapability : Bool) (ie : Cie) : Prop :=
  match ie.variant with
  | .android => Chosen isCapability ie.channelMode ∧ Chosen isCapability ie.frameSize ∧
      Chosen isCapability ie.samplingFreq
  | .pipewire => isCapability = true → ie.channels ≠ 0#8 ∧ ie.coupledStreams ≠ 0#8 ∧ ie.audioLocation ≠ 0#32

/-- The structure the parser reads, after the vendor and codec identifiers. -/
def cieOf (info : List Octet) : Cie :=
  if IsVendor info 9 androidVendorId androidCodecId then androidCie info else pipewireCie info

theorem parseInfoOpus_ok_iff : parseInfoOpus info isCapability = .ok ie ↔
    (IsVendor info 9 androidVendorId androidCodecId ∨ IsVendor info 26 pipewireVendorId pipewireCodecId) ∧
      Offers isCapability (cieOf info) ∧ cieOf info = ie := by
  unfold parseInfoOpus cieOf
  by_cases handroid : IsVendor info 9 androidVendorId androidCodecId
  · rw [if_pos handroid, if_pos handroid]
    dsimp only
    rw [map_eq_ok_iff]
    unfold androidOptions
    simp only [checkOptions_cons, checkOptions_nil, and_true, handroid, true_or, true_and]
    exact Iff.rfl
  · rw [if_neg handroid, if_neg handroid]
    by_cases hpipewire : IsVendor info 26 pipewireVendorId pipewireCodecId
    · rw [if_pos hpipewire]
      dsimp only
      rw [ite_map_eq_ok_iff]
      unfold pipewireOptions
      simp only [checkOptions_cons, checkOptions_nil, and_true, hpipewire, or_true, true_and, Chosen, if_true]
      exact Iff.rfl
    · rw [if_neg hpipewire]
      exact iff_of_false (fun h => nomatch h) (fun h => h.1.elim handroid hpipewire)

theorem android_roundTrips_iff (h : Declared ie) (hvariant : ie.variant = .android) :
    RoundTrips buildInfoOpus parseInfoOpus isCapability ie ↔ Offers isCapability ie := by
  unfold Declared at h
  rw [hvariant] at h
  obtain ⟨hvendor, hcodec, hch, hsize, hfreq, h1, h2, h3, h4, h5, h6, h7, h8, h9, h10⟩ := h
  have hbuild : buildInfoOpus mediaTypeAudio ie = .ok (vendorInfo 9 mediaTypeAudio androidVendorId androidCodecId ++
      [ie.channelMode ||| ie.frameSize ||| ie.samplingFreq]) := by
    unfold buildInfoOpus
    rw [if_pos ⟨hvendor, hcodec⟩, hvendor, hcodec]
  rw [A2dp.roundTrips_iff hbuild, parseInfoOpus_ok_iff]
  have hcie : cieOf (vendorInfo 9 mediaTypeAudio androidVendorId androidCodecId ++
      [ie.channelMode ||| ie.frameSize ||| ie.samplingFreq]) = ie := by
    unfold cieOf
    rw [if_pos isVendor_vendorInfo]
    apply Cie.ext
    · exact word32_vendorInfo.trans hvendor.symm
    · exact word16_vendorInfo.trans hcodec.symm
    · exact hvariant.symm
    · exact hch.select_first hsize hfreq (by decide) (by decide)
    · exact hch.select_second hsize hfreq (by decide) (by decide)
    · exact hch.select_third hsize hfreq (by decide) (by decide)
    · exact h1.symm
    · exact h2.symm
    · exact h3.symm
    · exact h4.symm
    · exact h5.symm
    · exact h6.symm
    · exact h7.symm
    · exact h8.symm
    · exact h9.symm
    · exact h10.symm
  rw [hcie]
  exact ⟨fun h' => h'.2.1, fun hoffers => ⟨Or.inl isVendor_vendorInfo, hoffers, rfl⟩⟩

/-- The octets of a PipeWire structure after the header. -/
def pipewireBytes (ie : Cie) : List Octet :=
  [ie.channels, ie.coupledStreams] ++ octets32 ie.audioLocation ++ [ie.frameDuration] ++ octets16 ie.maximumBitrate ++
    [ie.bidiChannels, ie.bidiCoupledStreams] ++ octets32 ie.bidiAudioLocation ++ [ie.bidiFrameDuration] ++
    octets16 ie.bidiMaximumBitrate

theorem buildInfoOpus_pipewire (hvendor : ie.vendorId = pipewireVendorId) (hcodec : ie.codecId = pipewireCodecId) :
    buildInfoOpus mediaTypeAudio ie =
      .ok (vendorInfo 26 mediaTypeAudio pipewireVendorId pipewireCodecId ++ pipewireBytes ie) := by
  unfold buildInfoOpus pipewireBytes
  rw [if_neg (fun hf => absurd (hvendor.symm.trans hf.1) (by decide)), if_pos ⟨hvendor, hcodec⟩, hvendor, hcodec]
  simp only [List.append_assoc]

theorem pipewire_roundTrips_iff (h : Declared ie) (hvariant : ie.variant = .pipewire) :
    RoundTrips buildInfoOpus parseInfoOpus isCapability ie ↔ Offers isCapability ie := by
  unfold Declared at h
  rw [hvariant] at h
  obtain ⟨hvendor, hcodec, hch, hsize, hfreq⟩ := h
  rw [A2dp.roundTrips_iff (buildInfoOpus_pipewire hvendor hcodec), parseInfoOpus_ok_iff]
  have hcie : cieOf (vendorInfo 26 mediaTypeAudio pipewireVendorId pipewireCodecId ++ pipewireBytes ie) = ie := by
    unfold cieOf
    rw [if_neg (fun hf => absurd (show (26#8 : Octet) = 9 from hf.1) (by decide))]
    apply Cie.ext
    · exact word32_vendorInfo.trans hvendor.symm
    · exact word16_vendorInfo.trans hcodec.symm
    · exact hvariant.symm
    · exact hch.symm
    · exact hsize.symm
    · exact hfreq.symm
    · rfl
    · rfl
    · exact append_extract32 ie.audioLocation
    · rfl
    · exact append_extract16 ie.maximumBitrate
    · rfl
    · rfl
    · exact append_extract32 ie.bidiAudioLocation
    · rfl
    · exact append_extract16 ie.bidiMaximumBitrate
  rw [hcie]
  exact ⟨fun h' => h'.2.1, fun hoffers => ⟨Or.inr isVendor_vendorInfo, hoffers, rfl⟩⟩

theorem roundTrips_iff (h : Declared ie) :
    RoundTrips buildInfoOpus parseInfoOpus isCapability ie ↔ Offers isCapability ie := by
  cases hvariant : ie.variant with
  | android => exact android_roundTrips_iff h hvariant
  | pipewire => exact pipewire_roundTrips_iff h hvariant

def nonReserved (info : List Octet) : List Octet :=
  vendorMask ++ if octet info 0 = 9 then [0x9F] else List.replicate 18 0xFF

theorem rebuilds (h : parseInfoOpus info isCapability = .ok ie) : Rebuilds buildInfoOpus (nonReserved info) info ie := by
  obtain ⟨hvendor, -, rfl⟩ := parseInfoOpus_ok_iff.mp h
  unfold nonReserved cieOf
  rcases hvendor with handroid | hpipewire
  · rw [if_pos handroid, if_pos handroid.1]
    have hids : (androidCie info).vendorId = androidVendorId ∧ (androidCie info).codecId = androidCodecId :=
      ⟨handroid.2.2.2.1, handroid.2.2.2.2⟩
    refine ⟨_, if_pos hids, ?_⟩
    rw [hids.1, hids.2]
    exact (vendorInfo_agree handroid).mpr ⟨and_or_and_and (by decide), True.intro⟩
  · have hother : ¬IsVendor info 9 androidVendorId androidCodecId := fun hf =>
      absurd (hf.1.symm.trans hpipewire.1) (by decide)
    rw [if_neg hother, if_neg (by rw [hpipewire.1]; decide)]
    refine ⟨_, buildInfoOpus_pipewire hpipewire.2.2.2.1 hpipewire.2.2.2.2, ?_⟩
    rw [vendorInfo_agree hpipewire]
    obtain ⟨ha0, ha1, ha2, ha3⟩ := extract_append32 (octet info 14) (octet info 13) (octet info 12) (octet info 11)
    obtain ⟨hb0, hb1, hb2, hb3⟩ := extract_append32 (octet info 23) (octet info 22) (octet info 21) (octet info 20)
    exact ⟨rfl, rfl, congrArg _ ha0, congrArg _ ha1, congrArg _ ha2, congrArg _ ha3, rfl,
      congrArg _ (extract_append_low ..), congrArg _ (extract_append_high ..), rfl, rfl, congrArg _ hb0, congrArg _ hb1,
      congrArg _ hb2, congrArg _ hb3, rfl, congrArg _ (extract_append_low ..), congrArg _ (extract_append_high ..),
      True.intro⟩

end Opus

/-! ### The aptX family -/

namespace Aptx

variable {ie : Cie} {info : List Octet} {isCapability : Bool}

def Declared (ie : Cie) : Prop :=
  ie.vendorId = vendorIdAptx ∧ ie.codecId = codecIdAptx ∧ Within ie.sampleRate 0xF0 ∧ Within ie.channelMode 0x0F

def Offers (isCapability : Bool) (ie : Cie) : Prop :=
  Chosen isCapability ie.sampleRate ∧ Chosen isCapability ie.channelMode

theorem parseInfoAptx_ok_iff : parseInfoAptx info isCapability = .ok ie ↔
    IsVendor info 9 vendorIdAptx codecIdAptx ∧ Offers isCapability (cieOf info) ∧ cieOf info = ie := by
  unfold parseInfoAptx Offers options
  dsimp only
  rw [ite_error_eq_ok_iff, map_eq_ok_iff, Decidable.not_not]
  simp only [checkOptions_cons, checkOptions_nil, and_true]

theorem roundTrips_iff (h : Declared ie) :
    RoundTrips buildInfoAptx parseInfoAptx isCapability ie ↔ Offers isCapability ie := by
  obtain ⟨hvendor, hcodec, hrate, hch⟩ := h
  rw [A2dp.roundTrips_iff rfl, parseInfoAptx_ok_iff]
  have hcie : cieOf (vendorInfo 9 mediaTypeAudio ie.vendorId ie.codecId ++ [ie.sampleRate ||| ie.channelMode]) = ie :=
    Cie.ext word32_vendorInfo word16_vendorInfo (hrate.select_left hch (by decide)) (hrate.select_right hch (by decide))
  rw [hcie, ← hvendor, ← hcodec]
  exact ⟨fun h' => h'.2.1, fun hoffers => ⟨isVendor_vendorInfo, hoffers, rfl⟩⟩

def nonReserved : List Octet := vendorMask ++ [0xFF]

theorem rebuilds (h : parseInfoAptx info isCapability = .ok ie) : Rebuilds buildInfoAptx nonReserved info ie := by
  obtain ⟨hvendor, -, rfl⟩ := parseInfoAptx_ok_iff.mp h
  have hids : (cieOf info).vendorId = vendorIdAptx ∧ (cieOf info).codecId = codecIdAptx :=
    ⟨hvendor.2.2.2.1, hvendor.2.2.2.2⟩
  rw [A2dp.rebuilds_iff rfl, hids.1, hids.2]
  exact (vendorInfo_agree hvendor).mpr ⟨and_or_and (by decide), True.intro⟩

end Aptx

namespace AptxHd

variable {ie : Cie} {info : List Octet} {isCapability : Bool}

def Declared (ie : Cie) : Prop :=
  ie.vendorId = vendorIdAptxHd ∧ ie.codecId = codecIdAptxHd ∧ Within ie.sampleRate 0xF0 ∧ Within ie.channelMode 0x0F

def Offers (isCapability : Bool) (ie : Cie) : Prop :=
  Chosen isCapability ie.sampleRate ∧ Chosen isCapability ie.channelMode

theorem parseInfoAptxHd_ok_iff : parseInfoAptxHd info isCapability = .ok ie ↔
    IsVendor info 13 vendorIdAptxHd codecIdAptxHd ∧ Offers isCapability (cieOf info) ∧ cieOf info = ie := by
  unfold parseInfoAptxHd Offers options
  dsimp only
  rw [ite_error_eq_ok_iff, map_eq_ok_iff, Decidable.not_not]
  simp only [checkOptions_cons, checkOptions_nil, and_true]

theorem roundTrips_iff (h : Declared ie) :
    RoundTrips buildInfoAptxHd parseInfoAptxHd isCapability ie ↔ Offers isCapability ie := by
  obtain ⟨hvendor, hcodec, hrate, hch⟩ := h
  rw [A2dp.roundTrips_iff rfl, parseInfoAptxHd_ok_iff]
  have hcie : cieOf (vendorInfo 13 mediaTypeAudio ie.vendorId ie.codecId ++ [ie.sampleRate ||| ie.channelMode,
      ie.aclSprintReserved0, ie.aclSprintReserved1, ie.aclSprintReserved2, ie.aclSprintReserved3]) = ie :=
    Cie.ext word32_vendorInfo word16_vendorInfo (hrate.select_left hch (by decide)) (hrate.select_right hch (by decide))
      rfl rfl rfl rfl
  rw [hcie, ← hvendor, ← hcodec]
  exact ⟨fun h' => h'.2.1, fun hoffers => ⟨isVendor_vendorInfo, hoffers, rfl⟩⟩

def nonReserved : List Octet := vendorMask ++ [0xFF, 0xFF, 0xFF, 0xFF, 0xFF]

theorem rebuilds (h : parseInfoAptxHd info isCapability = .ok ie) : Rebuilds buildInfoAptxHd nonReserved info ie := by
  obtain ⟨hvendor, -, rfl⟩ := parseInfoAptxHd_ok_iff.mp h
  have hids : (cieOf info).vendorId = vendorIdAptxHd ∧ (cieOf info).codecId = codecIdAptxHd :=
    ⟨hvendor.2.2.2.1, hvendor.2.2.2.2⟩
  rw [A2dp.rebuilds_iff rfl, hids.1, hids.2]
  exact (vendorInfo_agree hvendor).mpr ⟨and_or_and (by decide), rfl, rfl, rfl, rfl, True.intro⟩

end AptxHd

namespace AptxLl

variable {ie : Cie} {info : List Octet} {isCapability : Bool}

def Declared (ie : Cie) : Prop :=
  ie.vendorId = vendorIdAptxLl ∧ ie.codecId = codecIdAptxLl ∧ Within ie.sampleRate 0xF0 ∧
    Within ie.channelMode 0x0F ∧ Within ie.bidirectLink 0x01 ∧ Within ie.hasNewCaps 0x01

def Offers (isCapability : Bool) (ie : Cie) : Prop :=
  Chosen isCapability ie.sampleRate ∧ Chosen isCapability ie.channelMode

theorem parseInfoAptxLl_ok_iff : parseInfoAptxLl info isCapability = .ok ie ↔
    IsVendor info 10 vendorIdAptxLl codecIdAptxLl ∧ Offers isCapability (cieOf info) ∧ cieOf info = ie := by
  unfold parseInfoAptxLl Offers options
  dsimp only
  rw [ite_error_eq_ok_iff, map_eq_ok_iff, Decidable.not_not]
  simp only [checkOptions_cons, checkOptions_nil, and_true]

theorem caps_parse {caps link : Octet} (hcaps : Within caps 0x01) (hlink : Within link 0x01) :
    ((caps &&& 0x01) <<< 1 ||| (link &&& 0x01)) >>> 1 &&& 0x01 = caps ∧
      ((caps &&& 0x01) <<< 1 ||| (link &&& 0x01)) &&& 0x01 = link := by
  have hbits : ∀ bit : Octet, Within bit 0x01 → bit = 0 ∨ bit = 1 := by decide
  rcases hbits caps hcaps with rfl | rfl
  · rcases hbits link hlink with rfl | rfl
    · decide
    · decide
  · rcases hbits link hlink with rfl | rfl
    · decide
    · decide

theorem roundTrips_iff (h : Declared ie) :
    RoundTrips buildInfoAptxLl parseInfoAptxLl isCapability ie ↔ Offers isCapability ie := by
  obtain ⟨hvendor, hcodec, hrate, hch, hlink, hcaps⟩ := h
  rw [A2dp.roundTrips_iff rfl, parseInfoAptxLl_ok_iff]
  have hcie : cieOf (vendorInfo 10 mediaTypeAudio ie.vendorId ie.codecId ++ [ie.sampleRate ||| ie.channelMode,
      (ie.hasNewCaps &&& 0x01) <<< 1 ||| (ie.bidirectLink &&& 0x01)]) = ie :=
    Cie.ext word32_vendorInfo word16_vendorInfo (hrate.select_left hch (by decide)) (hrate.select_right hch (by decide))
      (caps_parse hcaps hlink).2 (caps_parse hcaps hlink).1
  rw [hcie, ← hvendor, ← hcodec]
  exact ⟨fun h' => h'.2.1, fun hoffers => ⟨isVendor_vendorInfo, hoffers, rfl⟩⟩

def nonReserved : List Octet := vendorMask ++ [0xFF, 0x03]

theorem caps_agree : ∀ b : Octet,
    0x03 &&& ((b >>> 1 &&& 0x01 &&& 0x01) <<< 1 ||| (b &&& 0x01 &&& 0x01)) = 0x03 &&& b := by
  decide +kernel

theorem rebuilds (h : parseInfoAptxLl info isCapability = .ok ie) : Rebuilds buildInfoAptxLl nonReserved info ie := by
  obtain ⟨hvendor, -, rfl⟩ := parseInfoAptxLl_ok_iff.mp h
  have hids : (cieOf info).vendorId = vendorIdAptxLl ∧ (cieOf info).codecId = codecIdAptxLl :=
    ⟨hvendor.2.2.2.1, hvendor.2.2.2.2⟩
  rw [A2dp.rebuilds_iff rfl, hids.1, hids.2]
  exact (vendorInfo_agree hvendor).mpr ⟨and_or_and (by decide), caps_agree _, True.intro⟩

end AptxLl

/-! ## All codecs -/

namespace Codec

/-- The fields of a structure lie in their masks and ranges, with the codec's own identifiers. -/
def Declared : (c : Codec) → c.Cie → Prop
  | .sbc => Sbc.Declared
  | .aac => Aac.Declared
  | .ldac => Ldac.Declared
  | .lhdcv5 => Lhdcv5.Declared
  | .lc3plus => Lc3plus.Declared
  | .opus => Opus.Declared
  | .aptx => Aptx.Declared
  | .aptxHd => AptxHd.Declared
  | .aptxLl => AptxLl.Declared

/-- What the parser asks of the option fields. -/
def Offers : (c : Codec) → Bool → c.Cie → Prop
  | .sbc => Sbc.Offers
  | .aac => Aac.Offers
  | .ldac => Ldac.Offers
  | .lhdcv5 => Lhdcv5.Offers
  | .lc3plus => Lc3plus.Offers
  | .opus => Opus.Offers
  | .aptx => Aptx.Offers
  | .aptxHd => AptxHd.Offers
  | .aptxLl => AptxLl.Offers

/-- No field has a value that the parser loses. -/
def Survives : (c : Codec) → c.Cie → Prop
  | .lhdcv5 => Lhdcv5.Survives
  | .lc3plus => Lc3plus.Survives
  | _ => fun _ => True

/-- The bits of a codec information that mean something, for each octet. -/
def nonReserved (c : Codec) (info : List Octet) : List Octet :=
  match c with
  | .sbc => Sbc.nonReserved
  | .aac => Aac.nonReserved
  | .ldac => Ldac.nonReserved
  | .lhdcv5 => Lhdcv5.nonReserved
  | .lc3plus => Lc3plus.nonReserved
  | .opus => Opus.nonReserved info
  | .aptx => Aptx.nonReserved
  | .aptxHd => AptxHd.nonReserved
  | .aptxLl => AptxLl.nonReserved

/-- The octets have no bit that the parser loses. -/
def OctetsSurvive (c : Codec) (info : List Octet) : Prop :=
  match c with
  | .lhdcv5 => octet info 12 &&& 0x30 = 0
  | .lc3plus => octet info 12 &&& 0x80 = 0
  | _ => True

/-- A declared structure comes back from its octets when the parser takes its option fields and loses none of their values;
and accepted octets come back from their structure unless they have a bit that the parser loses. -/
theorem info_round_trip_iff (c : Codec) (isCapability : Bool) :
    (∀ ie, c.Declared ie → (RoundTrips c.build c.parse isCapability ie ↔ c.Offers isCapability ie ∧ c.Survives ie)) ∧
      ∀ info ie, c.parse info isCapability = .ok ie →
        (Rebuilds c.build (c.nonReserved info) info ie ↔ c.OctetsSurvive info) := by
  cases c with
  | sbc => exact ⟨fun ie h => (Sbc.roundTrips_iff h).trans (and_iff_left True.intro).symm,
      fun info ie h => iff_of_true (Sbc.rebuilds h) True.intro⟩
  | aac => exact ⟨fun ie h => (Aac.roundTrips_iff h).trans (and_iff_left True.intro).symm,
      fun info ie h => iff_of_true (Aac.rebuilds h) True.intro⟩
  | ldac => exact ⟨fun ie h => (Ldac.roundTrips_iff h).trans (and_iff_left True.intro).symm,
      fun info ie h => iff_of_true (Ldac.rebuilds h) True.intro⟩
  | lhdcv5 => exact ⟨fun ie h => Lhdcv5.roundTrips_iff h, fun info ie h => Lhdcv5.rebuilds_iff h⟩
  | lc3plus => exact ⟨fun ie h => Lc3plus.roundTrips_iff h, fun info ie h => Lc3plus.rebuilds_iff h⟩
  | opus => exact ⟨fun ie h => (Opus.roundTrips_iff h).trans (and_iff_left True.intro).symm,
      fun info ie h => iff_of_true (Opus.rebuilds h) True.intro⟩
  | aptx => exact ⟨fun ie h => (Aptx.roundTrips_iff h).trans (and_iff_left True.intro).symm,
      fun info ie h => iff_of_true (Aptx.rebuilds h) True.intro⟩
  | aptxHd => exact ⟨fun ie h => (AptxHd.roundTrips_iff h).trans (and_iff_left True.intro).symm,
      fun info ie h => iff_of_true (AptxHd.rebuilds h) True.intro⟩
  | aptxLl => exact ⟨fun ie h => (AptxLl.roundTrips_iff h).trans (and_iff_left True.intro).symm,
      fun info ie h => iff_of_true (AptxLl.rebuilds h) True.intro⟩

/-- An LHDC V5 configuration with 24-bit lossless audio, or without. -/
def lhdcv5Config (lossless24Bit : Bool) : Lhdcv5.Cie where
  vendorId := Lhdcv5.vendorIdLhdcv5
  codecId := Lhdcv5.codecIdLhdcv5
  sampleRate := 0x10
  bitsPerSample := 0x02
  channelMode := Lhdcv5.channelModeStereo
  version := Lhdcv5.ver1
  frameLenType := 0x10
  maxTargetBitrate := 0x00
  minTargetBitrate := 0x00
  hasFeatureAR := false
  hasFeatureJAS := false
  hasFeatureMETA := false
  hasFeatureLL := true
  hasFeatureLLESS48K := false
  hasFeatureLLESS24Bit := lossless24Bit
  hasFeatureLLESS96K := false
  hasFeatureLLESSRaw := false

/-- An LC3plus configuration: 10 ms, two channels. -/
def lc3plusConfig (frequency : BitVec 16) : Lc3plus.Cie where
  vendorId := Lc3plus.vendorIdLc3plus
  codecId := Lc3plus.codecIdLc3plus
  frameDuration := 0x40
  channels := 0x40
  frequency := frequency

/-- LC3plus capabilities with everything offered. -/
def lc3plusOctets : List Octet := [12, 0, 0xFF, 0xA9, 0x08, 0, 0, 0x01, 0, 0x70, 0xC0, 0x01, 0x80]

theorem lc3plusOctets_parse : Lc3plus.parseInfoLc3Plus lc3plusOctets true =
    .ok { lc3plusConfig 0x100 with frameDuration := 0x70, channels := 0xC0 } := rfl

theorem info_round_trip_iff_lhdcv5 : RoundTrips Codec.lhdcv5.build Codec.lhdcv5.parse false (lhdcv5Config false) ∧
    ¬Rebuilds Codec.lc3plus.build (Codec.lc3plus.nonReserved lc3plusOctets) lc3plusOctets
      { lc3plusConfig 0x100 with frameDuration := 0x70, channels := 0xC0 } := by
  constructor
  · exact ((info_round_trip_iff .lhdcv5 false).1 (lhdcv5Config false) ⟨rfl, rfl, by decide, by decide, by decide,
      by decide, by decide, by decide, by decide⟩).mpr ⟨fun h => absurd h (by decide), rfl, rfl, rfl⟩
  · intro h
    have hlow : octet lc3plusOctets 12 &&& 0x80 = 0 :=
      ((info_round_trip_iff .lc3plus true).2 lc3plusOctets _ lc3plusOctets_parse).mp h
    exact absurd hlow (by decide)

/-- The LHDC V5 parser drops the 24-bit lossless feature of a configuration, the LC3plus parser the 96 kHz of a configuration
and of capabilities. -/
theorem info_loses_options :
    (Codec.lhdcv5.Declared (lhdcv5Config true) ∧ Codec.lhdcv5.Offers false (lhdcv5Config true) ∧
      ¬RoundTrips Codec.lhdcv5.build Codec.lhdcv5.parse false (lhdcv5Config true)) ∧
    (Codec.lc3plus.Declared (lc3plusConfig 0x80) ∧ Codec.lc3plus.Offers false (lc3plusConfig 0x80) ∧
      ¬RoundTrips Codec.lc3plus.build Codec.lc3plus.parse false (lc3plusConfig 0x80)) ∧
    ∃ ie, Codec.lc3plus.parse lc3plusOctets true = .ok ie ∧
      ¬Rebuilds Codec.lc3plus.build (Codec.lc3plus.nonReserved lc3plusOctets) lc3plusOctets ie := by
  have hlhdc : Lhdcv5.Declared (lhdcv5Config true) :=
    ⟨rfl, rfl, by decide, by decide, by decide, by decide, by decide, by decide, by decide⟩
  have hlc3 : Lc3plus.Declared (lc3plusConfig 0x80) := ⟨rfl, rfl⟩
  refine ⟨⟨hlhdc, fun h => absurd h (by decide), fun h => ?_⟩, ⟨hlc3, fun h => absurd h (by decide), fun h => ?_⟩,
    _, lc3plusOctets_parse, fun h => ?_⟩
  · exact absurd ((Lhdcv5.roundTrips_iff hlhdc).mp h).2.2.1 (by decide)
  · have hlow : BitVec.extractLsb' 0 8 0x80#16 = 0#8 := ((Lc3plus.roundTrips_iff hlc3).mp h).2
    exact absurd hlow (by decide)
  · exact absurd ((Lc3plus.rebuilds_iff lc3plusOctets_parse).mp h) (by decide)

end Codec

end EspIdf.A2dp
