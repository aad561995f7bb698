import EspIdf.A2dp.SinkConfig

/-!
# The call-outs of the audio streams

* `Build`, `codecOf` : the decoders of a build, and the codec that an information names;
* `Sep`, `Peer`, `Cb` : the control block, with the tables of the stream end points of each peer;
* `Peer.discRes` … `Peer.close` : what the call-outs do to the record of their peer;
* `step` : the call-outs as events of the control block.

Content protection is not built in.
-/

namespace EspIdf.A2dp.AvCo

/-! ## The codecs of a build -/

/-- The decoders built in beside SBC, from `APTX_DEC_INCLUDED` to `AAC_DEC_INCLUDED`. -/
structure Build where
  aptx : Bool
  ldac : Bool
  opus : Bool
  lc3plus : Bool
  lhdcv5 : Bool
  aac : Bool
  deriving DecidableEq, Repr

/-- `BTC_SV_AV_AA_SOURCE_COUNT`, also `BTC_SV_AV_AA_SINK_COUNT`. -/
def Build.sepCount (build : Build) : Nat :=
  1 + 3 * build.aptx.toNat + build.ldac.toNat + 2 * build.opus.toNat + build.lc3plus.toNat + build.lhdcv5.toNat +
    build.aac.toNat

/-- The vendor codecs with their identifiers, in the order of the checks. -/
def vendorCodecs (build : Build) : List (BitVec 32 × BitVec 16 × Codec) :=
  (if build.aptx then
    [(Aptx.vendorIdAptx, Aptx.codecIdAptx, .aptx), (AptxHd.vendorIdAptxHd, AptxHd.codecIdAptxHd, .aptxHd),
      (AptxLl.vendorIdAptxLl, AptxLl.codecIdAptxLl, .aptxLl)] else []) ++
  (if build.ldac then [(Ldac.vendorIdLdac, Ldac.codecIdLdac, .ldac)] else []) ++
  (if build.opus then
    [(Opus.androidVendorId, Opus.androidCodecId, .opus), (Opus.pipewireVendorId, Opus.pipewireCodecId, .opus)] else []) ++
  (if build.lc3plus then [(Lc3plus.vendorIdLc3plus, Lc3plus.codecIdLc3plus, .lc3plus)] else []) ++
  (if build.lhdcv5 then [(Lhdcv5.vendorIdLhdcv5, Lhdcv5.codecIdLhdcv5, .lhdcv5)] else [])

def vendorCodecOf (build : Build) (info : List Octet) : Option Codec :=
  ((vendorCodecs build).find? fun entry => word32 info 3 = entry.1 ∧ word16 info 7 = entry.2.1).map fun entry => entry.2.2

/-- The branch that the functions of `a2dp_codec_config.c` take. -/
def codecOf (build : Build) (info : List Octet) : Option Codec :=
  if octet info 2 = mediaCtSbc then some .sbc
  else if octet info 2 = mediaCtM24 then if build.aac then some .aac else none
  else if octet info 2 = mediaCtNonA2dp then vendorCodecOf build info
  else none

/-- A status other than `A2D_SUCCESS`; the four not in `Status` come from the comparison with the SBC capabilities. -/
inductive Unsupported
  | status (status : Status)
  | nsSubbands | nsAllocMthd | nsMinBitpool | nsMaxBitpool
  deriving DecidableEq, Repr

/-- `A2DP_CodecInfoMatchesCapabilitySbc`. -/
def codecInfoMatchesCapabilitySbc (cap : Sbc.Cie) (info : List Octet) (isCapability : Bool) : Except Unsupported Unit :=
  match Sbc.parsSbcInfo info isCapability with
  | .error status => .error (.status status)
  | .ok cfg =>
    if cfg.sampFreq &&& cap.sampFreq = 0 then .error (.status .nsSampFreq)
    else if cfg.chMode &&& cap.chMode = 0 then .error (.status .nsChMode)
    else if cfg.blockLen &&& cap.blockLen = 0 then .error (.status .badBlockLen)
    else if cfg.numSubbands &&& cap.numSubbands = 0 then .error .nsSubbands
    else if cfg.allocMthd &&& cap.allocMthd = 0 then .error .nsAllocMthd
    else if cap.maxBitpool < cfg.minBitpool then .error .nsMinBitpool
    else if cfg.maxBitpool < cap.minBitpool then .error .nsMaxBitpool
    else .ok ()

/-- `A2DP_CodecInfoMatchesCapabilityAac`. -/
def codecInfoMatchesCapabilityAac (cap : Aac.Cie) (info : List Octet) (isCapability : Bool) : Except Unsupported Unit :=
  match Aac.parseInfoAac info isCapability with
  | .error status => .error (.status status)
  | .ok cfg =>
    if cfg.objectType &&& cap.objectType = 0 then .error (.status .badObjType)
    else if cfg.sampleRate &&& cap.sampleRate = 0 then .error (.status .badSampFreq)
    else if cfg.channelMode &&& cap.channelMode = 0 then .error (.status .nsChMode)
    else .ok ()

/-- `A2DP_IsVendorPeerSourceCodecValid…`. -/
def isVendorPeerSourceCodecValid (codec : Codec) (info : List Octet) : Except Unsupported Unit :=
  match codec.parse info true, codec.parse info false with
  | .ok _, _ | _, .ok _ => .ok ()
  | _, .error status => .error (.status status)

/-- `A2DP_IsPeerSourceCodecSupported`. -/
def isPeerSourceCodecSupported (build : Build) (info : List Octet) : Except Unsupported Unit :=
  match codecOf build info with
  | some .sbc => codecInfoMatchesCapabilitySbc Sbc.sinkCaps info true
  | some .aac => codecInfoMatchesCapabilityAac Aac.sinkCaps info true
  | some codec => isVendorPeerSourceCodecValid codec info
  | none => .error (.status .fail)

/-- `A2DP_IsSinkCodecSupported`. -/
def isSinkCodecSupported (build : Build) (info : List Octet) : Except Unsupported Unit :=
  match codecOf build info with
  | some .sbc => codecInfoMatchesCapabilitySbc Sbc.sinkCaps info false
  | some .aac => codecInfoMatchesCapabilityAac Aac.sinkCaps info false
  | _ => .error (.status .fail)

/-- `A2DP_IsPeerSinkCodecValid`. -/
def isPeerSinkCodecValid (build : Build) (info : List Octet) : Bool :=
  match codecOf build info with
  | some codec => (codec.parse info false).isOk || (codec.parse info true).isOk
  | none => false

/-- `A2DP_SinkCodecIndex`, with `none` for `BTAV_A2DP_CODEC_INDEX_MAX`; the two variants of Opus are not told apart. -/
def sinkCodecIndex (build : Build) (info : List Octet) : Option Codec :=
  match codecOf build info with
  | some .opus =>
    if (Opus.parseInfoOpus info true).isOk || (Opus.parseInfoOpus info false).isOk then some .opus else none
  | codec => codec

/-- `A2DP_SourceCodecIndex`, with `none` for `BTAV_A2DP_CODEC_INDEX_MAX`. -/
def sourceCodecIndex (build : Build) (info : List Octet) : Option Codec := codecOf build info

/-- `A2DP_CodecTypeEquals`. -/
def codecTypeEquals (build : Build) (a b : List Octet) : Bool :=
  let bothParse := fun codec : Codec => (codec.parse a true).isOk && (codec.parse b true).isOk
  if octet a 2 ≠ octet b 2 then false
  else if octet a 2 = mediaCtSbc then bothParse .sbc
  else if octet a 2 = mediaCtM24 then build.aac && bothParse .aac
  else if octet a 2 = mediaCtNonA2dp then
    if word32 a 3 ≠ word32 b 3 ∨ word16 a 7 ≠ word16 b 7 then false
    else match vendorCodecOf build a with
      | some codec => bothParse codec
      | none => true
  else false

/-- `A2DP_BuildCodecConfig` into a buffer. A failing build may have written to the buffer as well: `torn` is what it leaves. -/
def buildCodecConfig (build : Build) (caps buffer torn : List Octet) : Bool × List Octet :=
  match (codecOf build caps).bind fun codec => codec.buildCodecConfig caps with
  | some written => (true, written ++ buffer.drop written.length)
  | none => (false, torn)

/-! ## The control block -/

/-- `AVDT_CODEC_SIZE`. -/
abbrev codecSize : Nat := 30

/-- `UUID_SERVCLASS_AUDIO_SOURCE` and `UUID_SERVCLASS_AUDIO_SINK`. -/
abbrev uuidAudioSource : BitVec 16 := 0x110A
abbrev uuidAudioSink : BitVec 16 := 0x110B

/-- `AVDT_TSEP_SRC` and `AVDT_TSEP_SNK`. -/
abbrev tsepSrc : Octet := 0
abbrev tsepSnk : Octet := 1

/-- `tBTA_AV_CO_SINK`. -/
structure Sep where
  sepInfoIdx : Octet
  seid : Octet
  codecCaps : List Octet
  numProtect : Octet
  protectInfo : List Octet
  deriving DecidableEq, Repr

/-- An entry after `memset`. -/
def Sep.zero : Sep where
  sepInfoIdx := 0
  seid := 0
  codecCaps := List.replicate codecSize 0
  numProtect := 0
  protectInfo := [0, 0, 0]

/-- `tBTA_AV_CO_PEER`; the two pointers are indices of the tables. -/
structure Peer where
  addr : List Octet
  snks : List Sep
  srcs : List Sep
  numSnks : Octet
  numSrcs : Octet
  numSeps : Octet
  numRxSnks : Octet
  numRxSrcs : Octet
  numSupSnks : Octet
  numSupSrcs : Octet
  pSnk : Option Nat
  pSrc : Option Nat
  codecCfg : List Octet
  acp : Bool
  recfgNeeded : Bool
  opened : Bool
  mtu : BitVec 16
  uuidToConnect : BitVec 16
  gotDiscRes : Bool

/-- A record after `memset`. -/
def Peer.zero (build : Build) : Peer where
  addr := List.replicate 6 0
  snks := List.replicate build.sepCount .zero
  srcs := List.replicate build.sepCount .zero
  numSnks := 0
  numSrcs := 0
  numSeps := 0
  numRxSnks := 0
  numRxSrcs := 0
  numSupSnks := 0
  numSupSrcs := 0
  pSnk := none
  pSrc := none
  codecCfg := List.replicate codecSize 0
  acp := false
  recfgNeeded := false
  opened := false
  mtu := 0
  uuidToConnect := 0
  gotDiscRes := false

/-- `tBTA_AV_CO_CB`. -/
structure Cb where
  peers : List Peer
  codecCfg : List Octet
  codecCfgSetconfig : List Octet

/-- `bta_av_co_init`, with the default SBC configuration of `bta_av_co_audio_codec_reset`; `BTA_AV_NUM_STRS` is 2. -/
def Cb.init (build : Build) : Cb where
  peers := [.zero build, .zero build]
  codecCfg := [6, 0, 0, 0x21, 0x15, 2, 53] ++ List.replicate 23 0
  codecCfgSetconfig := List.replicate codecSize 0

/-- `BTA_AV_CO_AUDIO_HNDL_TO_INDX`. -/
def indexOf (hndl : Octet) : Nat := ((hndl &&& ~~~0xC0) - 1).toNat

/-- `bta_av_co_get_peer`. -/
def Cb.getPeer (cb : Cb) (hndl : Octet) : Option Peer := cb.peers[indexOf hndl]?

def Cb.setPeer (cb : Cb) (hndl : Octet) (peer : Peer) : Cb := { cb with peers := cb.peers.set (indexOf hndl) peer }

/-! ## The call-outs -/

/-- The arguments of `bta_av_co_audio_disc_res` and `bta_av_co_audio_cfg_res`. -/
structure Results where
  hndl : Octet
  numSeps : Octet
  numSnk : Octet
  numSrc : Octet
  addr : List Octet
  uuidLocal : BitVec 16
  deriving DecidableEq, Repr

/-- `uuid_to_connect`, unless the local UUID is neither of the two. -/
def uuidFor (uuidLocal uuidToConnect : BitVec 16) : BitVec 16 :=
  if uuidLocal = uuidAudioSink then uuidAudioSource
  else if uuidLocal = uuidAudioSource then uuidAudioSink
  else uuidToConnect

/-- The copy of the discovery results, which leaves `num_sup_srcs` as it is. -/
def Peer.copyResults (peer : Peer) (results : Results) : Peer :=
  { peer with
    numSnks := results.numSnk
    numSrcs := results.numSrc
    numSeps := results.numSeps
    numRxSnks := 0
    numRxSrcs := 0
    numSupSnks := 0 }

/-- `bta_av_co_audio_disc_res`. -/
def Peer.discRes (peer : Peer) (results : Results) : Peer :=
  { peer.copyResults results with
    addr := results.addr
    uuidToConnect := uuidFor results.uuidLocal peer.uuidToConnect
    gotDiscRes := true }

/-- `bta_av_co_audio_cfg_res`. -/
def Peer.cfgRes (peer : Peer) (results : Results) : Peer :=
  { (if peer.gotDiscRes then peer else peer.copyResults results) with
    addr := results.addr
    uuidToConnect := uuidFor results.uuidLocal peer.uuidToConnect }

/-- The arguments of `bta_av_co_audio_getconfig`. `torn` is what the local buffers hold when the build fails. -/
structure Capability where
  hndl : Octet
  codecInfo : List Octet
  sepInfoIdx : Octet
  seid : Octet
  numProtect : Octet
  protectInfo : List Octet
  torn : List Octet
  deriving DecidableEq, Repr

/-- The end point that a capability is about. -/
def Capability.sep (cap : Capability) : Sep where
  sepInfoIdx := cap.sepInfoIdx
  seid := cap.seid
  codecCaps := cap.codecInfo
  numProtect := cap.numProtect
  protectInfo := cap.protectInfo

/-- What `bta_av_co_audio_getconfig` returns, in its arguments too. -/
structure Reply where
  success : Bool
  codecInfo : List Octet
  sepInfoIdx : Octet
  numProtect : Octet
  deriving DecidableEq, Repr

/-- The arguments as they came. -/
def Capability.reply (cap : Capability) : Reply where
  success := false
  codecInfo := cap.codecInfo
  sepInfoIdx := cap.sepInfoIdx
  numProtect := cap.numProtect

/-- A supported end point is saved, if there is room for a new one. -/
def storeSep (supported : Bool) (table : List Sep) (count : Octet) (sep : Sep) : List Sep × Octet :=
  if supported = true ∧ count.toNat < table.length then (table.set count.toNat sep, count + 1) else (table, count)

/-- `bta_av_co_audio_find_peer_sink` and `bta_av_co_audio_find_peer_src`: the last of the first `count` entries with a codec
index. -/
def findSep (codecIndex : List Octet → Option Codec) (table : List Sep) : Nat → Option Nat
  | 0 => none
  | index + 1 =>
    if (codecIndex (table.getD index .zero).codecCaps).isSome then some index else findSep codecIndex table index

/-- `bta_av_build_src_cfg`, which does not tell its caller that the build failed. -/
def buildSrcCfg (build : Build) (caps torn : List Octet) : List Octet := (buildCodecConfig build caps torn torn).2

/-- `bta_av_audio_sink_getconfig`. -/
def Peer.sinkGetConfig (build : Build) (peer : Peer) (cap : Capability) : Peer × Reply :=
  let stored := storeSep (isPeerSourceCodecSupported build cap.codecInfo).isOk peer.srcs peer.numSupSrcs cap.sep
  let peer := { peer with numRxSrcs := peer.numRxSrcs + 1, srcs := stored.1, numSupSrcs := stored.2 }
  if peer.numRxSrcs = peer.numSrcs ∨ peer.numSupSrcs.toNat = peer.srcs.length then
    match findSep (sourceCodecIndex build) peer.srcs peer.numSupSrcs.toNat with
    | some index =>
      let src := peer.srcs.getD index .zero
      let cfg := buildSrcCfg build src.codecCaps cap.torn
      ({ peer with pSrc := some index, codecCfg := cfg },
        { success := true, codecInfo := cfg, sepInfoIdx := src.sepInfoIdx, numProtect := 0 })
    | none => (peer, cap.reply)
  else (peer, cap.reply)

/-- The calls that the call-outs make. -/
inductive Output
  | config (reply : Reply)
  | avReconfig (hndl sepInfoIdx : Octet) (codecCfg : List Octet) (numProtect : Octet)
  | ciSetconfig (hndl : Octet) (error : Option Unsupported) (category : Octet) (recfgNeeded : Bool) (avdtHandle : Octet)
  | ciSetconfigBusy (hndl : Octet) (category : Octet) (avdtHandle : Octet)
  deriving DecidableEq, Repr

/-- The part of `bta_av_co_audio_getconfig` for a peer that is a sink. -/
def Peer.srcGetConfig (build : Build) (peer : Peer) (cap : Capability) : Peer × List Output :=
  let stored := storeSep (isPeerSinkCodecValid build cap.codecInfo) peer.snks peer.numSupSnks cap.sep
  let peer := { peer with numRxSnks := peer.numRxSnks + 1, snks := stored.1, numSupSnks := stored.2 }
  if peer.numRxSnks = peer.numSnks ∨ peer.numSupSnks.toNat = peer.snks.length then
    match findSep (sinkCodecIndex build) peer.snks peer.numSupSnks.toNat with
    | some index =>
      let snk := peer.snks.getD index .zero
      let built := buildCodecConfig build snk.codecCaps (List.replicate codecSize 0) cap.torn
      let sepInfoIdx := if peer.acp then peer.numSeps else cap.sepInfoIdx
      if built.1 then
        let peer := { peer with pSnk := some index, codecCfg := built.2 }
        if peer.acp then
          (peer, (if peer.recfgNeeded then [.avReconfig cap.hndl snk.sepInfoIdx built.2 0] else []) ++
            [.config { success := true, codecInfo := cap.codecInfo, sepInfoIdx := sepInfoIdx, numProtect := 0 }])
        else
          (peer, [.config { success := true, codecInfo := built.2, sepInfoIdx := snk.sepInfoIdx, numProtect := 0 }])
      else (peer, [.config { cap.reply with sepInfoIdx := sepInfoIdx }])
    | none => (peer, [.config cap.reply])
  else (peer, [.config cap.reply])

/-- `bta_av_co_audio_getconfig`. -/
def Peer.getConfig (build : Build) (peer : Peer) (cap : Capability) : Peer × List Output :=
  if peer.uuidToConnect = uuidAudioSource then
    let got := peer.sinkGetConfig build cap
    (got.1, [.config got.2])
  else peer.srcGetConfig build cap

/-- The arguments of `bta_av_co_audio_setconfig`, without the two that it does not use. -/
structure SetConfig where
  hndl : Octet
  codecInfo : List Octet
  numProtect : Octet
  localSep : Octet
  avdtHandle : Octet
  deriving DecidableEq, Repr

/-- `AVDT_ASC_CODEC` and `AVDT_ASC_PROTECT`. -/
abbrev ascCodec : Octet := 7
abbrev ascProtect : Octet := 4

/-- The status of the codec for the local end point; an end point of neither type is not checked. -/
def codecCfgStatus (build : Build) (set : SetConfig) : Except Unsupported Unit :=
  if set.localSep = tsepSnk then isPeerSourceCodecSupported build set.codecInfo
  else if set.localSep = tsepSrc then isSinkCodecSupported build set.codecInfo
  else .ok ()

/-- `bta_av_co_audio_setconfig`. A wrong content protection is rejected with the status of the codec, a success. -/
def Cb.setConfig (build : Build) (cb : Cb) (set : SetConfig) : Cb × List Output :=
  match cb.getPeer set.hndl with
  | none => (cb, [.ciSetconfigBusy set.hndl ascCodec set.avdtHandle])
  | some peer =>
    if set.numProtect ≠ 0 then (cb, [.ciSetconfig set.hndl none ascProtect false set.avdtHandle])
    else match codecCfgStatus build set with
      | .error status => (cb, [.ciSetconfig set.hndl (some status) ascCodec false set.avdtHandle])
      | .ok _ =>
        let recfgNeeded := if set.localSep = tsepSnk then false
          else !codecTypeEquals build cb.codecCfgSetconfig set.codecInfo
        ({ cb.setPeer set.hndl { peer with acp := true, recfgNeeded := recfgNeeded } with
            codecCfgSetconfig := set.codecInfo
            codecCfg := if set.localSep = tsepSnk then set.codecInfo else cb.codecCfg },
          [.ciSetconfig set.hndl none 0 recfgNeeded set.avdtHandle])

/-- `bta_av_co_audio_open`. -/
def Peer.open (peer : Peer) (mtu : BitVec 16) : Peer := { peer with opened := true, mtu := mtu }

/-- `bta_av_co_audio_close`. -/
def Cb.close (build : Build) (cb : Cb) (hndl : Octet) : Cb :=
  { (match cb.getPeer hndl with
      | some _ => cb.setPeer hndl (.zero build)
      | none => cb) with
    codecCfgSetconfig := List.replicate codecSize 0 }

/-! ## Events -/

inductive Event
  | discRes (results : Results)
  | cfgRes (results : Results)
  | getConfig (cap : Capability)
  | setConfig (set : SetConfig)
  | open (hndl : Octet) (mtu : BitVec 16)
  | close (hndl : Octet)
  deriving DecidableEq, Repr

/-- A change to the record of a peer, if there is one. -/
def Cb.updatePeer (cb : Cb) (hndl : Octet) (f : Peer → Peer) : Cb :=
  match cb.getPeer hndl with
  | some peer => cb.setPeer hndl (f peer)
  | none => cb

def step (build : Build) (cb : Cb) : Event → Cb × List Output
  | .discRes results => (cb.updatePeer results.hndl fun peer => peer.discRes results, [])
  | .cfgRes results => (cb.updatePeer results.hndl fun peer => peer.cfgRes results, [])
  | .getConfig cap =>
    match cb.getPeer cap.hndl with
    | some peer => (cb.setPeer cap.hndl (peer.getConfig build cap).1, (peer.getConfig build cap).2)
    | none => (cb, [.config cap.reply])
  | .setConfig set => cb.setConfig build set
  | .open hndl mtu => (cb.updatePeer hndl fun peer => peer.open mtu, [])
  | .close hndl => (cb.close build hndl, [])

end EspIdf.A2dp.AvCo
