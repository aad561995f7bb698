import EspIdf.Lib.BitField

/-!
# Codec information elements

* `checkOptions` : the checks of the option fields, for capabilities and for configurations;
* one namespace a codec, with its `Cie`, its builder and its parser;
* `vendorInfo`, `IsVendor` : what the vendor codecs have in common.

A codec information is read from its LOSC octet on.
-/

namespace EspIdf.A2dp

open BitField

abbrev Octet := BitVec 8

/-- `tA2D_STATUS`, without `A2D_SUCCESS`. -/
inductive Status
  | fail | invalidParams | wrongCodec
  | badSampFreq | nsSampFreq | badChMode | nsChMode | badSubbands | badAllocMthd
  | badMinBitpool | badMaxBitpool | badObjType | badBlockLen
  deriving DecidableEq, Repr

inductive BitCount
  | zero | one | multiple
  deriving DecidableEq, Repr

/-- `A2D_BitsSet`. -/
def bitsSet {w : Nat} (num : BitVec w) : BitCount :=
  if num = 0#w then .zero else if num &&& (num - 1#w) = 0#w then .one else .multiple

/-- The options selected in a field, and the status of a field without a valid choice. -/
abbrev Options := List (BitCount × Status)

/-- Checks of option fields: a capability offers something in each, a configuration selects one. -/
def checkOptions (isCapability : Bool) : Options → Except Status Unit
  | [] => .ok ()
  | (count, status) :: rest =>
    if (if isCapability then count = .zero else count ≠ .one) then .error status else checkOptions isCapability rest

/-- `p_codec_info[i]`. -/
def octet (info : List Octet) (i : Nat) : Octet := info.getD i 0

def word16 (info : List Octet) (i : Nat) : BitVec 16 := octet info (i + 1) ++ octet info i

def word32 (info : List Octet) (i : Nat) : BitVec 32 :=
  octet info (i + 3) ++ octet info (i + 2) ++ octet info (i + 1) ++ octet info i

def octets16 (v : BitVec 16) : List Octet := [v.extractLsb' 0 8, v.extractLsb' 8 8]

def octets32 (v : BitVec 32) : List Octet :=
  [v.extractLsb' 0 8, v.extractLsb' 8 8, v.extractLsb' 16 8, v.extractLsb' 24 8]

/-- `A2D_MEDIA_TYPE_AUDIO`. -/
abbrev mediaTypeAudio : Octet := 0

/-- `A2D_MEDIA_CT_SBC`, `A2D_MEDIA_CT_M24` and `A2D_MEDIA_CT_NON_A2DP`. -/
abbrev mediaCtSbc : Octet := 0x00
abbrev mediaCtM24 : Octet := 0x02
abbrev mediaCtNonA2dp : Octet := 0xFF

/-! ## SBC -/

namespace Sbc

/-- `tA2D_SBC_CIE`. -/
@[ext] structure Cie where
  sampFreq : Octet
  chMode : Octet
  blockLen : Octet
  numSubbands : Octet
  allocMthd : Octet
  maxBitpool : Octet
  minBitpool : Octet
  deriving DecidableEq, Repr

abbrev sampFreqMsk : Octet := 0xF0
abbrev chMdMsk : Octet := 0x0F
abbrev blocksMsk : Octet := 0xF0
abbrev subbandMsk : Octet := 0x0C
abbrev allocMdMsk : Octet := 0x03
abbrev minBitpoolIe : Octet := 2
abbrev maxBitpoolIe : Octet := 250

/-- `A2D_BldSbcInfo`. -/
def bldSbcInfo (mediaType : Octet) (ie : Cie) : Except Status (List Octet) :=
  if ¬Within ie.sampFreq sampFreqMsk ∨ ¬Within ie.chMode chMdMsk ∨ ¬Within ie.blockLen blocksMsk ∨
      ¬Within ie.numSubbands subbandMsk ∨ ¬Within ie.allocMthd allocMdMsk ∨ ie.maxBitpool < ie.minBitpool ∨
      ie.maxBitpool < minBitpoolIe ∨ maxBitpoolIe < ie.maxBitpool ∨ ie.minBitpool < minBitpoolIe ∨
      maxBitpoolIe < ie.minBitpool then .error .invalidParams
  else .ok [6, mediaType, mediaCtSbc, ie.sampFreq ||| ie.chMode, ie.blockLen ||| ie.numSubbands ||| ie.allocMthd,
    ie.minBitpool, ie.maxBitpool]

def cieOf (info : List Octet) : Cie where
  sampFreq := octet info 3 &&& sampFreqMsk
  chMode := octet info 3 &&& chMdMsk
  blockLen := octet info 4 &&& blocksMsk
  numSubbands := octet info 4 &&& subbandMsk
  allocMthd := octet info 4 &&& allocMdMsk
  minBitpool := octet info 5
  maxBitpool := octet info 6

def options (ie : Cie) : Options :=
  [(bitsSet ie.sampFreq, .badSampFreq), (bitsSet ie.chMode, .badChMode), (bitsSet ie.blockLen, .badBlockLen),
    (bitsSet ie.numSubbands, .badSubbands), (bitsSet ie.allocMthd, .badAllocMthd)]

/-- `A2D_ParsSbcInfo`. -/
def parsSbcInfo (info : List Octet) (forCaps : Bool) : Except Status Cie :=
  if octet info 0 ≠ 6 ∨ octet info 1 ≠ mediaTypeAudio ∨ octet info 2 ≠ mediaCtSbc then .error .wrongCodec
  else
    let ie := cieOf info
    if ie.minBitpool < minBitpoolIe ∨ maxBitpoolIe < ie.minBitpool then .error .badMinBitpool
    else if ie.maxBitpool < minBitpoolIe ∨ maxBitpoolIe < ie.maxBitpool ∨ ie.maxBitpool < ie.minBitpool then
      .error .badMaxBitpool
    else if forCaps = false then (checkOptions false (options ie)).map fun _ => ie
    else .ok ie

end Sbc

/-! ## AAC -/

namespace Aac

/-- `tA2DP_AAC_CIE`. -/
@[ext] structure Cie where
  objectType : Octet
  sampleRate : BitVec 16
  channelMode : Octet
  variableBitRateSupport : Octet
  bitRate : BitVec 32
  deriving DecidableEq, Repr

/-- `A2DP_AAC_SAMPLING_FREQ_MASK1`, as it lies in the octet. -/
abbrev samplingFreqMask1 : Octet := 0xF0
abbrev channelModeMask : Octet := 0x0C
abbrev variableBitRateMask : Octet := 0x80
/-- `A2DP_AAC_BIT_RATE_MASK0`, as it lies in the octet. -/
abbrev bitRateMask0 : Octet := 0x7F

/-- `A2DP_BuildInfoAac`. -/
def buildInfoAac (mediaType : Octet) (ie : Cie) : Except Status (List Octet) :=
  if ie.objectType = 0 ∨ ie.sampleRate = 0 ∨ ie.channelMode = 0 then .error .invalidParams
  else .ok [8, mediaType <<< 4, mediaCtM24, ie.objectType, ie.sampleRate.extractLsb' 0 8,
    (ie.sampleRate.extractLsb' 8 8 &&& samplingFreqMask1) ||| (ie.channelMode &&& channelModeMask),
    (ie.variableBitRateSupport &&& variableBitRateMask) ||| (ie.bitRate.extractLsb' 16 8 &&& bitRateMask0),
    ie.bitRate.extractLsb' 8 8, ie.bitRate.extractLsb' 0 8]

def cieOf (info : List Octet) : Cie where
  objectType := octet info 3
  sampleRate := (octet info 5 &&& samplingFreqMask1) ++ octet info 4
  channelMode := octet info 5 &&& channelModeMask
  variableBitRateSupport := octet info 6 &&& variableBitRateMask
  bitRate := 0#8 ++ (octet info 6 &&& bitRateMask0) ++ octet info 7 ++ octet info 8

def options (ie : Cie) : Options :=
  [(bitsSet ie.objectType, .badObjType), (bitsSet ie.sampleRate, .badSampFreq), (bitsSet ie.channelMode, .badChMode)]

/-- `A2DP_ParseInfoAac`. -/
def parseInfoAac (info : List Octet) (isCapability : Bool) : Except Status Cie :=
  if octet info 0 ≠ 8 ∨ octet info 1 >>> 4 ≠ mediaTypeAudio ∨ octet info 2 ≠ mediaCtM24 then .error .wrongCodec
  else
    let ie := cieOf info
    (checkOptions isCapability (options ie)).map fun _ => ie

end Aac

/-! ## Vendor codecs -/

/-- The header of a vendor codec information. -/
def vendorInfo (losc mediaType : Octet) (vendorId : BitVec 32) (codecId : BitVec 16) : List Octet :=
  [losc, mediaType <<< 4, mediaCtNonA2dp] ++ octets32 vendorId ++ octets16 codecId

def IsVendor (info : List Octet) (losc : Octet) (vendorId : BitVec 32) (codecId : BitVec 16) : Prop :=
  octet info 0 = losc ∧ octet info 1 >>> 4 = mediaTypeAudio ∧ octet info 2 = mediaCtNonA2dp ∧
    word32 info 3 = vendorId ∧ word16 info 7 = codecId

instance (info : List Octet) (losc : Octet) (vendorId : BitVec 32) (codecId : BitVec 16) :
    Decidable (IsVendor info losc vendorId codecId) :=
  inferInstanceAs (Decidable (_ ∧ _))

namespace Ldac

/-- `tA2DP_LDAC_CIE`. -/
@[ext] structure Cie where
  vendorId : BitVec 32
  codecId : BitVec 16
  sampleRate : Octet
  channelMode : Octet
  deriving DecidableEq, Repr

abbrev vendorIdLdac : BitVec 32 := 0x12D
abbrev codecIdLdac : BitVec 16 := 0xAA
abbrev samplingFreqMask : Octet := 0x3F
abbrev channelModeMask : Octet := 0x07

/-- `A2DP_BuildInfoLdac`. -/
def buildInfoLdac (mediaType : Octet) (ie : Cie) : Except Status (List Octet) :=
  if ie.sampleRate &&& samplingFreqMask = 0 ∨ ie.channelMode &&& channelModeMask = 0 then .error .invalidParams
  else .ok (vendorInfo 10 mediaType ie.vendorId ie.codecId ++
    [ie.sampleRate &&& samplingFreqMask, ie.channelMode &&& channelModeMask])

def cieOf (info : List Octet) : Cie where
  vendorId := word32 info 3
  codecId := word16 info 7
  sampleRate := octet info 9 &&& samplingFreqMask
  channelMode := octet info 10 &&& channelModeMask

def options (ie : Cie) : Options := [(bitsSet ie.sampleRate, .badSampFreq), (bitsSet ie.channelMode, .badChMode)]

/-- `A2DP_ParseInfoLdac`. -/
def parseInfoLdac (info : List Octet) (isCapability : Bool) : Except Status Cie :=
  if ¬IsVendor info 10 vendorIdLdac codecIdLdac then .error .wrongCodec
  else
    let ie := cieOf info
    (checkOptions isCapability (options ie)).map fun _ => ie

end Ldac

namespace Lhdcv5

/-- `tA2DP_LHDCV5_CIE`. -/
@[ext] structure Cie where
  vendorId : BitVec 32
  codecId : BitVec 16
  sampleRate : Octet
  bitsPerSample : Octet
  channelMode : Octet
  version : Octet
  frameLenType : Octet
  maxTargetBitrate : Octet
  minTargetBitrate : Octet
  hasFeatureAR : Bool
  hasFeatureJAS : Bool
  hasFeatureMETA : Bool
  hasFeatureLL : Bool
  hasFeatureLLESS48K : Bool
  hasFeatureLLESS24Bit : Bool
  hasFeatureLLESS96K : Bool
  hasFeatureLLESSRaw : Bool
  deriving DecidableEq, Repr

abbrev vendorIdLhdcv5 : BitVec 32 := 0x53A
abbrev codecIdLhdcv5 : BitVec 16 := 0x4C35
abbrev samplingFreqMask : Octet := 0x35
abbrev bitFmtMask : Octet := 0x07
abbrev maxBitRateMask : Octet := 0x30
abbrev minBitRateMask : Octet := 0xC0
abbrev versionMask : Octet := 0x0F
abbrev frameLenMask : Octet := 0x10
abbrev channelModeMono : Octet := 0x01
abbrev channelModeStereo : Octet := 0x02
abbrev ver1 : Octet := 0x01
abbrev featureMask : Octet := 0xC7

/-- `flag ? bit : 0`. -/
def bitIf (flag : Bool) (bit : Octet) : Octet := if flag then bit else 0

def features (ie : Cie) : Octet :=
  bitIf ie.hasFeatureAR 0x01 ||| bitIf ie.hasFeatureJAS 0x02 ||| bitIf ie.hasFeatureMETA 0x04 |||
    bitIf ie.hasFeatureLL 0x40 ||| bitIf ie.hasFeatureLLESS48K 0x80 ||| bitIf ie.hasFeatureLLESS24Bit 0x20 |||
    bitIf ie.hasFeatureLLESS96K 0x10

/-- `A2DP_BuildInfoLhdcV5`. -/
def buildInfoLhdcV5 (mediaType : Octet) (ie : Cie) : Except Status (List Octet) :=
  .ok (vendorInfo 13 mediaType ie.vendorId ie.codecId ++
    [ie.sampleRate &&& samplingFreqMask,
      (ie.bitsPerSample &&& bitFmtMask) ||| (ie.maxTargetBitrate &&& maxBitRateMask) |||
        (ie.minTargetBitrate &&& minBitRateMask),
      (ie.version &&& versionMask) ||| (ie.frameLenType &&& frameLenMask),
      features ie,
      bitIf ie.hasFeatureLLESSRaw 0x80])

def cieOf (info : List Octet) : Cie where
  vendorId := word32 info 3
  codecId := word16 info 7
  sampleRate := octet info 9 &&& samplingFreqMask
  bitsPerSample := octet info 10 &&& bitFmtMask
  maxTargetBitrate := octet info 10 &&& maxBitRateMask
  minTargetBitrate := octet info 10 &&& minBitRateMask
  version := octet info 11 &&& versionMask
  frameLenType := octet info 11 &&& frameLenMask
  channelMode := channelModeStereo
  hasFeatureAR := octet info 12 &&& featureMask &&& 0x01 ≠ 0
  hasFeatureJAS := octet info 12 &&& featureMask &&& 0x02 ≠ 0
  hasFeatureMETA := octet info 12 &&& featureMask &&& 0x04 ≠ 0
  hasFeatureLL := octet info 12 &&& featureMask &&& 0x40 ≠ 0
  hasFeatureLLESS48K := octet info 12 &&& featureMask &&& 0x80 ≠ 0
  hasFeatureLLESS24Bit := octet info 12 &&& featureMask &&& 0x20 ≠ 0
  hasFeatureLLESS96K := octet info 12 &&& featureMask &&& 0x10 ≠ 0
  hasFeatureLLESSRaw := octet info 13 &&& 0x80 ≠ 0

def options (ie : Cie) : Options :=
  [(bitsSet ie.sampleRate, .badSampFreq), (bitsSet ie.bitsPerSample, .fail),
    (bitsSet (ie.version &&& ver1), .wrongCodec), (bitsSet ie.frameLenType, .fail)]

/-- `A2DP_ParseInfoLhdcV5`. -/
def parseInfoLhdcV5 (info : List Octet) (isCapability : Bool) : Except Status Cie :=
  if ¬IsVendor info 13 vendorIdLhdcv5 codecIdLhdcv5 then .error .wrongCodec
  else
    let ie := cieOf info
    if isCapability then (checkOptions true (options ie)).map fun _ => ie else .ok ie

end Lhdcv5

namespace Lc3plus

/-- `tA2DP_LC3PLUS_CIE`. -/
@[ext] structure Cie where
  vendorId : BitVec 32
  codecId : BitVec 16
  frameDuration : Octet
  channels : Octet
  frequency : BitVec 16
  deriving DecidableEq, Repr

abbrev vendorIdLc3plus : BitVec 32 := 0x8A9
abbrev codecIdLc3plus : BitVec 16 := 0x0001

/-- `A2DP_BuildInfoLc3Plus`. -/
def buildInfoLc3Plus (mediaType : Octet) (ie : Cie) : Except Status (List Octet) :=
  .ok (vendorInfo 12 mediaType ie.vendorId ie.codecId ++
    [ie.frameDuration, ie.channels, ie.frequency.extractLsb' 8 8, ie.frequency.extractLsb' 0 8])

def cieOf (info : List Octet) : Cie where
  vendorId := word32 info 3
  codecId := word16 info 7
  frameDuration := octet info 9
  channels := octet info 10
  -- the low octet is shifted right by eight
  frequency := octet info 11 ++ (octet info 12 >>> 8)

def options (ie : Cie) : Options :=
  [(bitsSet ie.frameDuration, .fail), (bitsSet ie.channels, .nsChMode), (bitsSet ie.frequency, .nsSampFreq)]

/-- `A2DP_ParseInfoLc3Plus`. -/
def parseInfoLc3Plus (info : List Octet) (isCapability : Bool) : Except Status Cie :=
  if ¬IsVendor info 12 vendorIdLc3plus codecIdLc3plus then .error .wrongCodec
  else
    let ie := cieOf info
    if isCapability then (checkOptions true (options ie)).map fun _ => ie else .ok ie

end Lc3plus

namespace Opus

/-- `ie->variant`. -/
inductive Variant
  | android | pipewire
  deriving DecidableEq, Repr

/-- `tA2DP_OPUS_CIE`. -/
@[ext] structure Cie where
  vendorId : BitVec 32
  codecId : BitVec 16
  variant : Variant
  channelMode : Octet
  frameSize : Octet
  samplingFreq : Octet
  channels : Octet
  coupledStreams : Octet
  audioLocation : BitVec 32
  frameDuration : Octet
  maximumBitrate : BitVec 16
  bidiChannels : Octet
  bidiCoupledStreams : Octet
  bidiAudioLocation : BitVec 32
  bidiFrameDuration : Octet
  bidiMaximumBitrate : BitVec 16
  deriving DecidableEq, Repr

abbrev androidVendorId : BitVec 32 := 0xE0
abbrev androidCodecId : BitVec 16 := 0x0001
abbrev pipewireVendorId : BitVec 32 := 0x5F1
abbrev pipewireCodecId : BitVec 16 := 0x1005
abbrev channelModeMask : Octet := 0x07
abbrev framesizeMask : Octet := 0x18
abbrev samplingFreqMask : Octet := 0x80

/-- `A2DP_BuildInfoOpus`. -/
def buildInfoOpus (mediaType : Octet) (ie : Cie) : Except Status (List Octet) :=
  if ie.vendorId = androidVendorId ∧ ie.codecId = androidCodecId then
    .ok (vendorInfo 9 mediaType ie.vendorId ie.codecId ++ [ie.channelMode ||| ie.frameSize ||| ie.samplingFreq])
  else if ie.vendorId = pipewireVendorId ∧ ie.codecId = pipewireCodecId then
    .ok (vendorInfo 26 mediaType ie.vendorId ie.codecId ++ [ie.channels, ie.coupledStreams] ++
      octets32 ie.audioLocation ++ [ie.frameDuration] ++ octets16 ie.maximumBitrate ++
      [ie.bidiChannels, ie.bidiCoupledStreams] ++ octets32 ie.bidiAudioLocation ++ [ie.bidiFrameDuration] ++
      octets16 ie.bidiMaximumBitrate)
  else .error .wrongCodec

def androidCie (info : List Octet) : Cie where
  vendorId := word32 info 3
  codecId := word16 info 7
  variant := .android
  channelMode := octet info 9 &&& channelModeMask
  frameSize := octet info 9 &&& framesizeMask
  samplingFreq := octet info 9 &&& samplingFreqMask
  channels := 0
  coupledStreams := 0
  audioLocation := 0
  frameDuration := 0
  maximumBitrate := 0
  bidiChannels := 0
  bidiCoupledStreams := 0
  bidiAudioLocation := 0
  bidiFrameDuration := 0
  bidiMaximumBitrate := 0

def androidOptions (ie : Cie) : Options :=
  [(bitsSet ie.channelMode, .badChMode), (bitsSet ie.frameSize, .fail), (bitsSet ie.samplingFreq, .badSampFreq)]

def pipewireCie (info : List Octet) : Cie where
  vendorId := word32 info 3
  codecId := word16 info 7
  variant := .pipewire
  channelMode := 0
  frameSize := 0
  samplingFreq := 0
  channels := octet info 9
  coupledStreams := octet info 10
  audioLocation := word32 info 11
  frameDuration := octet info 15
  maximumBitrate := word16 info 16
  bidiChannels := octet info 18
  bidiCoupledStreams := octet info 19
  bidiAudioLocation := word32 info 20
  bidiFrameDuration := octet info 24
  bidiMaximumBitrate := word16 info 25

def pipewireOptions (ie : Cie) : Options :=
  [(bitsSet ie.channels, .badChMode), (bitsSet ie.coupledStreams, .badChMode), (bitsSet ie.audioLocation, .badChMode)]

/-- `A2DP_ParseInfoOpus`. -/
def parseInfoOpus (info : List Octet) (isCapability : Bool) : Except Status Cie :=
  if IsVendor info 9 androidVendorId androidCodecId then
    let ie := androidCie info
    (checkOptions isCapability (androidOptions ie)).map fun _ => ie
  else if IsVendor info 26 pipewireVendorId pipewireCodecId then
    let ie := pipewireCie info
    if isCapability then (checkOptions true (pipewireOptions ie)).map fun _ => ie else .ok ie
  else .error .wrongCodec

end Opus

/-! ### The aptX family -/

namespace Aptx

/-- `tA2DP_APTX_CIE`. -/
@[ext] structure Cie where
  vendorId : BitVec 32
  codecId : BitVec 16
  sampleRate : Octet
  channelMode : Octet
  deriving DecidableEq, Repr

abbrev vendorIdAptx : BitVec 32 := 0x4F
abbrev codecIdAptx : BitVec 16 := 0x0001

/-- `A2DP_BuildInfoAptx`. -/
def buildInfoAptx (mediaType : Octet) (ie : Cie) : Except Status (List Octet) :=
  .ok (vendorInfo 9 mediaType ie.vendorId ie.codecId ++ [ie.sampleRate ||| ie.channelMode])

def cieOf (info : List Octet) : Cie where
  vendorId := word32 info 3
  codecId := word16 info 7
  channelMode := octet info 9 &&& 0x0F
  sampleRate := octet info 9 &&& 0xF0

def options (ie : Cie) : Options := [(bitsSet ie.sampleRate, .badSampFreq), (bitsSet ie.channelMode, .badChMode)]

/-- `A2DP_ParseInfoAptx`. -/
def parseInfoAptx (info : List Octet) (isCapability : Bool) : Except Status Cie :=
  if ¬IsVendor info 9 vendorIdAptx codecIdAptx then .error .wrongCodec
  else
    let ie := cieOf info
    (checkOptions isCapability (options ie)).map fun _ => ie

end Aptx

namespace AptxHd

/-- `tA2DP_APTX_HD_CIE`. -/
@[ext] structure Cie where
  vendorId : BitVec 32
  codecId : BitVec 16
  sampleRate : Octet
  channelMode : Octet
  aclSprintReserved0 : Octet
  aclSprintReserved1 : Octet
  aclSprintReserved2 : Octet
  aclSprintReserved3 : Octet
  deriving DecidableEq, Repr

abbrev vendorIdAptxHd : BitVec 32 := 0xD7
abbrev codecIdAptxHd : BitVec 16 := 0x0024

/-- `A2DP_BuildInfoAptxHd`. -/
def buildInfoAptxHd (mediaType : Octet) (ie : Cie) : Except Status (List Octet) :=
  .ok (vendorInfo 13 mediaType ie.vendorId ie.codecId ++ [ie.sampleRate ||| ie.channelMode, ie.aclSprintReserved0,
    ie.aclSprintReserved1, ie.aclSprintReserved2, ie.aclSprintReserved3])

def cieOf (info : List Octet) : Cie where
  vendorId := word32 info 3
  codecId := word16 info 7
  channelMode := octet info 9 &&& 0x0F
  sampleRate := octet info 9 &&& 0xF0
  aclSprintReserved0 := octet info 10
  aclSprintReserved1 := octet info 11
  aclSprintReserved2 := octet info 12
  aclSprintReserved3 := octet info 13

def options (ie : Cie) : Options := [(bitsSet ie.sampleRate, .badSampFreq), (bitsSet ie.channelMode, .badChMode)]

/-- `A2DP_ParseInfoAptxHd`. -/
def parseInfoAptxHd (info : List Octet) (isCapability : Bool) : Except Status Cie :=
  if ¬IsVendor info 13 vendorIdAptxHd codecIdAptxHd then .error .wrongCodec
  else
    let ie := cieOf info
    (checkOptions isCapability (options ie)).map fun _ => ie

end AptxHd

namespace AptxLl

/-- `tA2DP_APTX_LL_CIE`. -/
@[ext] structure Cie where
  vendorId : BitVec 32
  codecId : BitVec 16
  sampleRate : Octet
  channelMode : Octet
  bidirectLink : Octet
  hasNewCaps : Octet
  deriving DecidableEq, Repr

abbrev vendorIdAptxLl : BitVec 32 := 0x0A
abbrev codecIdAptxLl : BitVec 16 := 0x0002

/-- `A2DP_BuildInfoAptxLl`. -/
def buildInfoAptxLl (mediaType : Octet) (ie : Cie) : Except Status (List Octet) :=
  .ok (vendorInfo 10 mediaType ie.vendorId ie.codecId ++ [ie.sampleRate ||| ie.channelMode,
    (ie.hasNewCaps &&& 0x01) <<< 1 ||| (ie.bidirectLink &&& 0x01)])

def cieOf (info : List Octet) : Cie where
  vendorId := word32 info 3
  codecId := word16 info 7
  channelMode := octet info 9 &&& 0x0F
  sampleRate := octet info 9 &&& 0xF0
  hasNewCaps := octet info 10 >>> 1 &&& 0x01
  bidirectLink := octet info 10 &&& 0x01

def options (ie : Cie) : Options := [(bitsSet ie.sampleRate, .badSampFreq), (bitsSet ie.channelMode, .badChMode)]

/-- `A2DP_ParseInfoAptxLl`. -/
def parseInfoAptxLl (info : List Octet) (isCapability : Bool) : Except Status Cie :=
  if ¬IsVendor info 10 vendorIdAptxLl codecIdAptxLl then .error .wrongCodec
  else
    let ie := cieOf info
    (checkOptions isCapability (options ie)).map fun _ => ie

end AptxLl

/-! ## All codecs -/

inductive Codec
  | sbc | aac | ldac | lhdcv5 | lc3plus | opus | aptx | aptxHd | aptxLl
  deriving DecidableEq, Repr

namespace Codec

def Cie : Codec → Type
  | .sbc => Sbc.Cie
  | .aac => Aac.Cie
  | .ldac => Ldac.Cie
  | .lhdcv5 => Lhdcv5.Cie
  | .lc3plus => Lc3plus.Cie
  | .opus => Opus.Cie
  | .aptx => Aptx.Cie
  | .aptxHd => AptxHd.Cie
  | .aptxLl => AptxLl.Cie

def build : (c : Codec) → Octet → c.Cie → Except Status (List Octet)
  | .sbc => Sbc.bldSbcInfo
  | .aac => Aac.buildInfoAac
  | .ldac => Ldac.buildInfoLdac
  | .lhdcv5 => Lhdcv5.buildInfoLhdcV5
  | .lc3plus => Lc3plus.buildInfoLc3Plus
  | .opus => Opus.buildInfoOpus
  | .aptx => Aptx.buildInfoAptx
  | .aptxHd => AptxHd.buildInfoAptxHd
  | .aptxLl => AptxLl.buildInfoAptxLl

def parse : (c : Codec) → List Octet → Bool → Except Status c.Cie
  | .sbc => Sbc.parsSbcInfo
  | .aac => Aac.parseInfoAac
  | .ldac => Ldac.parseInfoLdac
  | .lhdcv5 => Lhdcv5.parseInfoLhdcV5
  | .lc3plus => Lc3plus.parseInfoLc3Plus
  | .opus => Opus.parseInfoOpus
  | .aptx => Aptx.parseInfoAptx
  | .aptxHd => AptxHd.parseInfoAptxHd
  | .aptxLl => AptxLl.parseInfoAptxLl

end Codec

/-! ## What the checks say -/

/-- A field of a capability offers an option, a field of a configuration selects exactly one. -/
def Chosen (isCapability : Bool) {w : Nat} (field : BitVec w) : Prop :=
  if isCapability then field ≠ 0#w else OneHot field

instance (isCapability : Bool) {w : Nat} (field : BitVec w) : Decidable (Chosen isCapability field) := by
  unfold Chosen
  infer_instance

section Checks

variable {w : Nat} {x : BitVec w} {os : Options} {status : Status} {isCapability : Bool}

theorem bitsSet_eq_zero_iff : bitsSet x = .zero ↔ x = 0#w := by
  unfold bitsSet
  split
  · exact iff_of_true rfl ‹_›
  · split
    · exact iff_of_false (by decide) ‹_›
    · exact iff_of_false (by decide) ‹_›

theorem bitsSet_eq_one_iff : bitsSet x = .one ↔ OneHot x := by
  unfold bitsSet OneHot
  split
  · exact iff_of_false (by decide) (fun h => h.1 ‹_›)
  · split
    · exact iff_of_true rfl ⟨‹_›, ‹_›⟩
    · exact iff_of_false (by decide) (fun h => absurd h.2 ‹_›)

theorem ite_error_eq_ok_iff {α : Type} {p : Prop} [Decidable p] {r : Except Status α} {a : α} :
    (if p then .error status else r) = .ok a ↔ ¬p ∧ r = .ok a := by
  by_cases h : p
  · rw [if_pos h]
    exact iff_of_false (fun h' => nomatch h') (fun h' => h'.1 h)
  · rw [if_neg h]
    exact (and_iff_right h).symm

theorem checkOptions_nil : checkOptions isCapability [] = .ok () := rfl

theorem checkOptions_cons : checkOptions isCapability ((bitsSet x, status) :: os) = .ok () ↔
    Chosen isCapability x ∧ checkOptions isCapability os = .ok () := by
  unfold Chosen
  cases isCapability with
  | true =>
      have hcheck : checkOptions true ((bitsSet x, status) :: os) = .ok () ↔
          ¬bitsSet x = .zero ∧ checkOptions true os = .ok () := ite_error_eq_ok_iff
      rw [hcheck, bitsSet_eq_zero_iff]
      exact Iff.rfl
  | false =>
      have hcheck : checkOptions false ((bitsSet x, status) :: os) = .ok () ↔
          ¬bitsSet x ≠ .one ∧ checkOptions false os = .ok () := ite_error_eq_ok_iff
      rw [hcheck, Decidable.not_not, bitsSet_eq_one_iff]
      exact Iff.rfl

theorem map_eq_ok_iff {α : Type} {r : Except Status Unit} {a b : α} :
    r.map (fun _ => a) = .ok b ↔ r = .ok () ∧ a = b := by
  cases r with
  | error e => exact iff_of_false (fun h => nomatch h) (fun h => nomatch h.1)
  | ok u =>
      constructor
      · intro h
        exact ⟨rfl, Except.ok.inj h⟩
      · rintro ⟨-, rfl⟩
        rfl

theorem ite_map_eq_ok_iff {α : Type} {p : Prop} [Decidable p] {r : Except Status Unit} {a b : α} :
    (if p then r.map (fun _ => a) else .ok a) = .ok b ↔ (p → r = .ok ()) ∧ a = b := by
  by_cases h : p
  · rw [if_pos h, map_eq_ok_iff, forall_prop_of_true h]
  · rw [if_neg h, forall_prop_of_false h, true_and]
    exact ⟨Except.ok.inj, congrArg _⟩

end Checks

end EspIdf.A2dp
