import EspIdf.A2dp.RoundTrip

/-!
# Configurations for a source's capabilities

* `prefer` : a ladder of options, `buildCodecConfig…` : the functions of the codecs;
* `Picks`, `Codec.Selected` : a configuration selects what both sides offer;
* `SoundConfig` : what is built for a source is accepted and selects so.
-/

namespace EspIdf.A2dp

open BitField

/-- The first option of a ladder that the source offers. -/
def prefer (ladder : List Octet) (offered : Octet) : Option Octet := ladder.find? fun bit => offered &&& bit ≠ 0

/-- The bytes of a configuration, when the builder succeeds. -/
def onSuccess (built : Except Status (List Octet)) : Option (List Octet) := built.toOption

namespace Sbc

/-- `a2dp_sbc_sink_caps`. -/
def sinkCaps : Cie where
  sampFreq := 0x30
  chMode := 0x0F
  blockLen := 0xF0
  numSubbands := 0x0C
  allocMthd := 0x03
  maxBitpool := maxBitpoolIe
  minBitpool := minBitpoolIe

/-- `a2dp_sbc_default_config`. -/
def defaultConfig : Cie where
  sampFreq := 0x20
  chMode := 0x01
  blockLen := 0x10
  numSubbands := 0x04
  allocMthd := 0x01
  maxBitpool := 53
  minBitpool := minBitpoolIe

/-- `pref_cap`. -/
def prefCap (src : Cie) : Cie where
  sampFreq := (prefer [0x10, 0x20] src.sampFreq).getD defaultConfig.sampFreq
  chMode := (prefer [0x01, 0x02, 0x04, 0x08] src.chMode).getD defaultConfig.chMode
  blockLen := (prefer [0x10, 0x20, 0x40, 0x80] src.blockLen).getD defaultConfig.blockLen
  numSubbands := (prefer [0x04, 0x08] src.numSubbands).getD defaultConfig.numSubbands
  allocMthd := (prefer [0x01, 0x02] src.allocMthd).getD defaultConfig.allocMthd
  maxBitpool :=
    if minBitpoolIe ≤ src.maxBitpool ∧ src.maxBitpool ≤ maxBitpoolIe then
      if defaultConfig.maxBitpool < src.maxBitpool then defaultConfig.maxBitpool else src.maxBitpool
    else defaultConfig.maxBitpool
  minBitpool :=
    if minBitpoolIe ≤ src.minBitpool ∧ src.minBitpool ≤ maxBitpoolIe then
      if src.minBitpool < defaultConfig.minBitpool then defaultConfig.minBitpool else src.minBitpool
    else defaultConfig.minBitpool

/-- `A2DP_BuildCodecConfigSbc`. -/
def buildCodecConfigSbc (srcCap : List Octet) : Option (List Octet) :=
  match parsSbcInfo srcCap true with
  | .error _ => none
  | .ok src => onSuccess (bldSbcInfo mediaTypeAudio (prefCap src))

end Sbc

namespace Aac

/-- `a2dp_aac_sink_caps`. -/
def sinkCaps : Cie where
  objectType := 0x80
  sampleRate := 0x8001
  channelMode := 0x0C
  variableBitRateSupport := 0x80
  bitRate := 320000

/-- `A2DP_BuildCodecConfigAac`, which does not look at the source. -/
def buildCodecConfigAac (_ : List Octet) : Option (List Octet) := onSuccess (buildInfoAac mediaTypeAudio sinkCaps)

end Aac

namespace Ldac

/-- `a2dp_ldac_sink_caps`. -/
def sinkCaps : Cie where
  vendorId := vendorIdLdac
  codecId := codecIdLdac
  sampleRate := 0x3C
  channelMode := 0x07

/-- `A2DP_VendorBuildCodecConfigLdac`. The builder's status is not looked at; with the fields set it is a success. -/
def buildCodecConfigLdac (srcCap : List Octet) : Option (List Octet) :=
  match parseInfoLdac srcCap true with
  | .error _ => none
  | .ok src => do
    let sampleRate ← prefer [0x04, 0x08, 0x10, 0x20] src.sampleRate
    let channelMode ← prefer [0x01, 0x02, 0x04] src.channelMode
    onSuccess (buildInfoLdac mediaTypeAudio
      { vendorId := vendorIdLdac, codecId := codecIdLdac, sampleRate := sampleRate, channelMode := channelMode })

end Ldac

namespace Lhdcv5

/-- `a2dp_lhdcv5_sink_caps`. -/
def sinkCaps : Cie where
  vendorId := vendorIdLhdcv5
  codecId := codecIdLhdcv5
  sampleRate := 0x35
  bitsPerSample := 0x06
  channelMode := channelModeStereo
  version := ver1
  frameLenType := 0x10
  maxTargetBitrate := 0x00
  minTargetBitrate := 0x00
  hasFeatureAR := false
  hasFeatureJAS := false
  hasFeatureMETA := false
  hasFeatureLL := true
  hasFeatureLLESS48K := false
  hasFeatureLLESS24Bit := false
  hasFeatureLLESS96K := false
  hasFeatureLLESSRaw := false

/-- `a2dp_lhdcv5_default_config`. -/
def defaultConfig : Cie := { sinkCaps with sampleRate := 0x01, bitsPerSample := 0x02 }

/-- `pref_cap`, once a sample rate is found. -/
def prefCap (src : Cie) (sampleRate : Octet) : Cie where
  vendorId := defaultConfig.vendorId
  codecId := defaultConfig.codecId
  sampleRate := sampleRate
  bitsPerSample := (prefer [0x02, 0x04] src.bitsPerSample).getD defaultConfig.bitsPerSample
  channelMode := defaultConfig.channelMode
  version := defaultConfig.version
  frameLenType := defaultConfig.frameLenType
  maxTargetBitrate := src.maxTargetBitrate
  minTargetBitrate := src.minTargetBitrate
  hasFeatureAR := src.hasFeatureAR
  hasFeatureJAS := src.hasFeatureJAS
  hasFeatureMETA := src.hasFeatureMETA
  hasFeatureLL := src.hasFeatureLL
  hasFeatureLLESS48K := src.hasFeatureLLESS48K
  hasFeatureLLESS24Bit := src.hasFeatureLLESS24Bit
  hasFeatureLLESS96K := src.hasFeatureLLESS96K
  hasFeatureLLESSRaw := src.hasFeatureLLESSRaw

/-- `A2DP_VendorBuildCodecConfigLhdcV5`. -/
def buildCodecConfigLhdcV5 (srcCap : List Octet) : Option (List Octet) :=
  match parseInfoLhdcV5 srcCap true with
  | .error _ => none
  | .ok src => do
    let sampleRate ← prefer [0x01, 0x04, 0x10, 0x20] src.sampleRate
    onSuccess (buildInfoLhdcV5 mediaTypeAudio (prefCap src sampleRate))

end Lhdcv5

namespace Lc3plus

/-- `a2dp_lc3plus_sink_caps`, also `a2dp_lc3plus_default_config`. -/
def sinkCaps : Cie where
  vendorId := vendorIdLc3plus
  codecId := codecIdLc3plus
  frameDuration := 0x70
  channels := 0xC0
  frequency := 0x0180

/-- `A2DP_VendorBuildCodecConfigLc3Plus`. -/
def buildCodecConfigLc3Plus (srcCap : List Octet) : Option (List Octet) :=
  match parseInfoLc3Plus srcCap true with
  | .error _ => none
  | .ok src => onSuccess (buildInfoLc3Plus mediaTypeAudio
      { sinkCaps with frameDuration := src.frameDuration, channels := src.channels, frequency := src.frequency })

end Lc3plus

namespace Opus

/-- `a2dp_opus_android_sink_caps`, also `a2dp_opus_android_default_config`. -/
def androidSinkCaps : Cie where
  vendorId := androidVendorId
  codecId := androidCodecId
  variant := .android
  channelMode := 0x02
  frameSize := 0x10
  samplingFreq := 0x80
  channels := 0
  coupledStreams := 0
  audioLocation := 0
  frameDuration := 0
  maximumBitrate := 0
  bidiChannels := 0
  bidiCoupledStreams := 0
  bidiAudioLocation := 0
  bidiFrameDuration := 0
  bidiMaximumBitrate := 0

/-- `a2dp_opus_pipewire_sink_caps`. -/
def pipewireSinkCaps : Cie where
  vendorId := pipewireVendorId
  codecId := pipewireCodecId
  variant := .pipewire
  channelMode := 0
  frameSize := 0
  samplingFreq := 0
  channels := 2
  coupledStreams := 1
  audioLocation := 0x3
  frameDuration := 0x1C
  maximumBitrate := 0
  bidiChannels := 0
  bidiCoupledStreams := 0
  bidiAudioLocation := 0
  bidiFrameDuration := 0
  bidiMaximumBitrate := 0

/-- `a2dp_opus_pipewire_default_config`. -/
def pipewireDefaultConfig : Cie := { pipewireSinkCaps with frameDuration := 0x08 }

/-- `pref_cap` for an Android source. -/
def androidPrefCap (src : Cie) : Cie :=
  { androidSinkCaps with
    channelMode := androidSinkCaps.channelMode &&& src.channelMode
    frameSize := androidSinkCaps.frameSize &&& src.frameSize
    samplingFreq := androidSinkCaps.samplingFreq &&& src.samplingFreq }

/-- `min`. -/
def minOctet (a b : Octet) : Octet := if a < b then a else b

/-- `pref_cap` for a PipeWire source. -/
def pipewirePrefCap (src : Cie) : Cie :=
  { pipewireDefaultConfig with
    channels := minOctet src.channels pipewireDefaultConfig.channels
    coupledStreams := minOctet src.coupledStreams pipewireDefaultConfig.coupledStreams
    audioLocation := src.audioLocation &&& 0x3
    frameDuration := src.frameDuration &&& pipewireDefaultConfig.frameDuration
    maximumBitrate := if 0 < src.maximumBitrate then src.maximumBitrate else pipewireDefaultConfig.maximumBitrate }

/-- `A2DP_VendorBuildCodecConfigOpus`. -/
def buildCodecConfigOpus (srcCap : List Octet) : Option (List Octet) :=
  match parseInfoOpus srcCap true with
  | .error _ => none
  | .ok src =>
    match src.variant with
    | .android =>
      let pref := androidPrefCap src
      if bitsSet pref.channelMode = .zero ∨ bitsSet pref.frameSize = .zero ∨ bitsSet pref.samplingFreq = .zero then none
      else onSuccess (buildInfoOpus mediaTypeAudio pref)
    | .pipewire =>
      let pref := pipewirePrefCap src
      if src.channels.toNat < 2 * src.coupledStreams.toNat then none
      else if bitsSet pref.audioLocation = .zero ∨ bitsSet pref.frameDuration = .zero then none
      else onSuccess (buildInfoOpus mediaTypeAudio pref)

end Opus

namespace Aptx

/-- `a2dp_aptx_sink_caps`. -/
def sinkCaps : Cie where
  vendorId := vendorIdAptx
  codecId := codecIdAptx
  sampleRate := 0x30
  channelMode := 0x02

/-- `A2DP_VendorBuildCodecConfigAptx`; the ladder of channel modes tests stereo twice. -/
def buildCodecConfigAptx (srcCap : List Octet) : Option (List Octet) :=
  match parseInfoAptx srcCap true with
  | .error _ => none
  | .ok src => do
    let sampleRate ← prefer [0x10, 0x20] src.sampleRate
    let channelMode ← if src.channelMode &&& 0x02 ≠ 0 then some 0x02 else if src.channelMode &&& 0x02 ≠ 0 then some 0x01
      else none
    onSuccess (buildInfoAptx mediaTypeAudio { sinkCaps with sampleRate := sampleRate, channelMode := channelMode })

end Aptx

namespace AptxHd

/-- `a2dp_aptx_hd_sink_caps`. -/
def sinkCaps : Cie where
  vendorId := vendorIdAptxHd
  codecId := codecIdAptxHd
  sampleRate := 0x30
  channelMode := 0x02
  aclSprintReserved0 := 0
  aclSprintReserved1 := 0
  aclSprintReserved2 := 0
  aclSprintReserved3 := 0

/-- `A2DP_VendorBuildCodecConfigAptxHd`. -/
def buildCodecConfigAptxHd (srcCap : List Octet) : Option (List Octet) :=
  match parseInfoAptxHd srcCap true with
  | .error _ => none
  | .ok src => do
    let sampleRate ← prefer [0x10, 0x20] src.sampleRate
    let channelMode ← prefer [0x02, 0x01] src.channelMode
    onSuccess (buildInfoAptxHd mediaTypeAudio { sinkCaps with sampleRate := sampleRate, channelMode := channelMode })

end AptxHd

namespace AptxLl

/-- `a2dp_aptx_ll_sink_caps`. -/
def sinkCaps : Cie where
  vendorId := vendorIdAptxLl
  codecId := codecIdAptxLl
  sampleRate := 0x30
  channelMode := 0x02
  bidirectLink := 0
  hasNewCaps := 0

/-- `A2DP_VendorBuildCodecConfigAptxLl`. -/
def buildCodecConfigAptxLl (srcCap : List Octet) : Option (List Octet) :=
  match parseInfoAptxLl srcCap true with
  | .error _ => none
  | .ok src => do
    let sampleRate ← prefer [0x10, 0x20] src.sampleRate
    let channelMode ← prefer [0x02, 0x01] src.channelMode
    onSuccess (buildInfoAptxLl mediaTypeAudio { sinkCaps with sampleRate := sampleRate, channelMode := channelMode })

end AptxLl

/-- The build function of each codec. -/
def Codec.buildCodecConfig : Codec → List Octet → Option (List Octet)
  | .sbc => Sbc.buildCodecConfigSbc
  | .aac => Aac.buildCodecConfigAac
  | .ldac => Ldac.buildCodecConfigLdac
  | .lhdcv5 => Lhdcv5.buildCodecConfigLhdcV5
  | .lc3plus => Lc3plus.buildCodecConfigLc3Plus
  | .opus => Opus.buildCodecConfigOpus
  | .aptx => Aptx.buildCodecConfigAptx
  | .aptxHd => AptxHd.buildCodecConfigAptxHd
  | .aptxLl => AptxLl.buildCodecConfigAptxLl

/-! ## What a configuration selects -/

/-- Exactly one option, offered by both sides. -/
def Picks {w : Nat} (cfg src sink : BitVec w) : Prop := OneHot cfg ∧ Within cfg src ∧ Within cfg sink

instance {w : Nat} (cfg src sink : BitVec w) : Decidable (Picks cfg src sink) := inferInstanceAs (Decidable (_ ∧ _))

namespace Sbc

/-- The options are picked, and the bit pools lie in the ranges of both sides. -/
def Selected (src cfg : Cie) : Prop :=
  (Picks cfg.sampFreq src.sampFreq sinkCaps.sampFreq ∧ Picks cfg.chMode src.chMode sinkCaps.chMode ∧
    Picks cfg.blockLen src.blockLen sinkCaps.blockLen ∧ Picks cfg.numSubbands src.numSubbands sinkCaps.numSubbands ∧
    Picks cfg.allocMthd src.allocMthd sinkCaps.allocMthd) ∧
  src.minBitpool ≤ cfg.minBitpool ∧ sinkCaps.minBitpool ≤ cfg.minBitpool ∧ cfg.minBitpool ≤ cfg.maxBitpool ∧
    cfg.maxBitpool ≤ src.maxBitpool ∧ cfg.maxBitpool ≤ sinkCaps.maxBitpool

end Sbc

namespace Aac

def Selected (src cfg : Cie) : Prop :=
  Picks cfg.objectType src.objectType sinkCaps.objectType ∧ Picks cfg.sampleRate src.sampleRate sinkCaps.sampleRate ∧
    Picks cfg.channelMode src.channelMode sinkCaps.channelMode ∧
    Within cfg.variableBitRateSupport (src.variableBitRateSupport &&& sinkCaps.variableBitRateSupport) ∧
    cfg.bitRate ≤ src.bitRate ∧ cfg.bitRate ≤ sinkCaps.bitRate

end Aac

namespace Ldac

def Selected (src cfg : Cie) : Prop :=
  Picks cfg.sampleRate src.sampleRate sinkCaps.sampleRate ∧ Picks cfg.channelMode src.channelMode sinkCaps.channelMode

end Ldac

namespace Lhdcv5

/-- The bit rates that the two limits stand for, in kbit/s. -/
def maxKbps (code : Octet) : Nat :=
  if code = 0x30 then 900 else if code = 0x20 then 500 else if code = 0x10 then 400 else 1000

def minKbps (code : Octet) : Nat :=
  if code = 0xC0 then 400 else if code = 0x80 then 256 else if code = 0x40 then 160 else 64

/-- The options are picked, the bit rates lie in the ranges of both sides, and both sides have each feature. -/
def Selected (src cfg : Cie) : Prop :=
  (Picks cfg.sampleRate src.sampleRate sinkCaps.sampleRate ∧
    Picks cfg.bitsPerSample src.bitsPerSample sinkCaps.bitsPerSample ∧
    Picks cfg.channelMode src.channelMode sinkCaps.channelMode ∧ Picks cfg.version src.version sinkCaps.version ∧
    Picks cfg.frameLenType src.frameLenType sinkCaps.frameLenType) ∧
  (minKbps src.minTargetBitrate ≤ minKbps cfg.minTargetBitrate ∧
    minKbps sinkCaps.minTargetBitrate ≤ minKbps cfg.minTargetBitrate ∧
    minKbps cfg.minTargetBitrate ≤ maxKbps cfg.maxTargetBitrate ∧
    maxKbps cfg.maxTargetBitrate ≤ maxKbps src.maxTargetBitrate ∧
    maxKbps cfg.maxTargetBitrate ≤ maxKbps sinkCaps.maxTargetBitrate) ∧
  (cfg.hasFeatureAR → src.hasFeatureAR ∧ sinkCaps.hasFeatureAR) ∧
  (cfg.hasFeatureJAS → src.hasFeatureJAS ∧ sinkCaps.hasFeatureJAS) ∧
  (cfg.hasFeatureMETA → src.hasFeatureMETA ∧ sinkCaps.hasFeatureMETA) ∧
  (cfg.hasFeatureLL → src.hasFeatureLL ∧ sinkCaps.hasFeatureLL) ∧
  (cfg.hasFeatureLLESS48K → src.hasFeatureLLESS48K ∧ sinkCaps.hasFeatureLLESS48K) ∧
  (cfg.hasFeatureLLESS24Bit → src.hasFeatureLLESS24Bit ∧ sinkCaps.hasFeatureLLESS24Bit) ∧
  (cfg.hasFeatureLLESS96K → src.hasFeatureLLESS96K ∧ sinkCaps.hasFeatureLLESS96K) ∧
  (cfg.hasFeatureLLESSRaw → src.hasFeatureLLESSRaw ∧ sinkCaps.hasFeatureLLESSRaw)

end Lhdcv5

namespace Lc3plus

def Selected (src cfg : Cie) : Prop :=
  Picks cfg.frameDuration src.frameDuration sinkCaps.frameDuration ∧
    Picks cfg.channels src.channels sinkCaps.channels ∧ Picks cfg.frequency src.frequency sinkCaps.frequency

end Lc3plus

namespace Opus

/-- `A2DP_OPUS_FRAME_BITRATE_ALL`, zero, is no limit. -/
def UnderLimit (bitrate limit : BitVec 16) : Prop := limit = 0 ∨ bitrate ≠ 0 ∧ bitrate ≤ limit

/-- Android: the options are picked. PipeWire: as many channels and couplings, and such locations, as both sides have, one
frame duration, a bit rate under both limits, and no return channel. -/
def Selected (src cfg : Cie) : Prop :=
  match src.variant with
  | .android => Picks cfg.channelMode src.channelMode androidSinkCaps.channelMode ∧
      Picks cfg.frameSize src.frameSize androidSinkCaps.frameSize ∧
      Picks cfg.samplingFreq src.samplingFreq androidSinkCaps.samplingFreq
  | .pipewire => (cfg.channels ≠ 0 ∧ cfg.channels ≤ src.channels ∧ cfg.channels ≤ pipewireSinkCaps.channels ∧
        cfg.coupledStreams ≤ src.coupledStreams ∧ cfg.coupledStreams ≤ pipewireSinkCaps.coupledStreams ∧
        2 * cfg.coupledStreams.toNat ≤ cfg.channels.toNat) ∧
      (cfg.audioLocation ≠ 0 ∧ Within cfg.audioLocation src.audioLocation ∧
        Within cfg.audioLocation pipewireSinkCaps.audioLocation) ∧
      Picks cfg.frameDuration src.frameDuration pipewireSinkCaps.frameDuration ∧
      UnderLimit cfg.maximumBitrate src.maximumBitrate ∧ UnderLimit cfg.maximumBitrate pipewireSinkCaps.maximumBitrate ∧
      cfg.bidiChannels = 0

end Opus

namespace Aptx

def Selected (src cfg : Cie) : Prop :=
  Picks cfg.sampleRate src.sampleRate sinkCaps.sampleRate ∧ Picks cfg.channelMode src.channelMode sinkCaps.channelMode

end Aptx

namespace AptxHd

def Selected (src cfg : Cie) : Prop :=
  Picks cfg.sampleRate src.sampleRate sinkCaps.sampleRate ∧ Picks cfg.channelMode src.channelMode sinkCaps.channelMode

end AptxHd

namespace AptxLl

def Selected (src cfg : Cie) : Prop :=
  Picks cfg.sampleRate src.sampleRate sinkCaps.sampleRate ∧
    Picks cfg.channelMode src.channelMode sinkCaps.channelMode ∧
    Within cfg.bidirectLink (src.bidirectLink &&& sinkCaps.bidirectLink) ∧
    Within cfg.hasNewCaps (src.hasNewCaps &&& sinkCaps.hasNewCaps)

end AptxLl

/-- A configuration selects, from the capabilities of the source and the sink, one option in each field. -/
def Codec.Selected : (c : Codec) → (src cfg : c.Cie) → Prop
  | .sbc => Sbc.Selected
  | .aac => Aac.Selected
  | .ldac => Ldac.Selected
  | .lhdcv5 => Lhdcv5.Selected
  | .lc3plus => Lc3plus.Selected
  | .opus => Opus.Selected
  | .aptx => Aptx.Selected
  | .aptxHd => AptxHd.Selected
  | .aptxLl => AptxLl.Selected

/-- What is built for a source is accepted as a configuration and selects what both sides offer. -/
def SoundConfig {α : Type} (build : List Octet → Option (List Octet)) (parse : List Octet → Bool → Except Status α)
    (Selected : α → α → Prop) (info : List Octet) (src : α) : Prop :=
  ∀ out, build info = some out → ∃ cfg, parse out false = .ok cfg ∧ Selected src cfg

section Sound

variable {α : Type} {buildConfig : List Octet → Option (List Octet)} {build : Octet → α → Except Status (List Octet)}
  {parse : List Octet → Bool → Except Status α} {Selected : α → α → Prop} {info : List Octet} {src cfg : α}

theorem sound_of_none (h : buildConfig info = none) : SoundConfig buildConfig parse Selected info src := by
  intro out hout
  rw [h] at hout
  exact nomatch hout

/-- When the preferred structure comes back from its octets, all is up to that structure. -/
theorem sound_iff_selected (h : buildConfig info = onSuccess (build mediaTypeAudio cfg))
    (hround : RoundTrips build parse false cfg) :
    SoundConfig buildConfig parse Selected info src ↔ Selected src cfg := by
  obtain ⟨out, hbuild, hparse⟩ := hround
  rw [hbuild] at h
  constructor
  · intro hsound
    obtain ⟨cfg', hparse', hselected⟩ := hsound out h
    rw [hparse] at hparse'
    rw [Except.ok.inj hparse']
    exact hselected
  · intro hselected out' hout'
    rw [h] at hout'
    obtain rfl := Option.some.inj hout'
    exact ⟨cfg, hparse, hselected⟩

end Sound

end EspIdf.A2dp
