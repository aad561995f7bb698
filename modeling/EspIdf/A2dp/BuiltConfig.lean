import EspIdf.A2dp.AvCoTables
import EspIdf.A2dp.SinkSound

/-!
# A reported configuration was built

* `Codec.Builds` : the capabilities that the build function of a codec takes;
* `Peer.ConfigBuilt` : the stored configuration is what a successful build made of the selected end point;
* `sinkGetConfig_built_iff` : for a source, when it is;
* `srcGetConfig_built` : for a sink it always is;
* `getConfig_built_iff` : both.
-/

namespace EspIdf.A2dp

/-! ## What can be built -/

/-- The capabilities for which a codec builds a configuration. -/
def Codec.Builds (caps : List Octet) : Codec → Prop
  | .sbc => ∃ src, Sbc.parsSbcInfo caps true = .ok src ∧ src.minBitpool ≤ 53#8
  | .aac => True
  | .ldac => ∃ src, Ldac.parseInfoLdac caps true = .ok src ∧ src.sampleRate &&& 0x3C ≠ 0#8 ∧ src.channelMode &&& 0x07 ≠ 0#8
  | .lhdcv5 => ∃ src, Lhdcv5.parseInfoLhdcV5 caps true = .ok src ∧ src.sampleRate &&& 0x35 ≠ 0#8
  | .lc3plus => ∃ src, Lc3plus.parseInfoLc3Plus caps true = .ok src
  | .opus => ∃ src, Opus.parseInfoOpus caps true = .ok src ∧
      match src.variant with
      | .android => 0x02 &&& src.channelMode ≠ 0#8 ∧ 0x10 &&& src.frameSize ≠ 0#8 ∧ 0x80 &&& src.samplingFreq ≠ 0#8
      | .pipewire => 2 * src.coupledStreams.toNat ≤ src.channels.toNat ∧ src.audioLocation &&& 0x3 ≠ 0#32 ∧
          src.frameDuration &&& 0x08 ≠ 0#8
  | .aptx => ∃ src, Aptx.parseInfoAptx caps true = .ok src ∧ src.sampleRate &&& 0x30 ≠ 0#8 ∧ src.channelMode &&& 0x02 ≠ 0#8
  | .aptxHd => ∃ src, AptxHd.parseInfoAptxHd caps true = .ok src ∧ src.sampleRate &&& 0x30 ≠ 0#8 ∧
      src.channelMode &&& 0x03 ≠ 0#8
  | .aptxLl => ∃ src, AptxLl.parseInfoAptxLl caps true = .ok src ∧ src.sampleRate &&& 0x30 ≠ 0#8 ∧
      src.channelMode &&& 0x03 ≠ 0#8

section Builds

variable {α : Type} {caps : List Octet}

/-- A build that takes what parses. -/
theorem isSome_of_parse {parsed : Except Status α} {built : Option (List Octet)} {P : α → Prop}
    (hbad : ∀ status, parsed = .error status → built = none) (hgood : ∀ src, parsed = .ok src → (built.isSome ↔ P src)) :
    built.isSome ↔ ∃ src, parsed = .ok src ∧ P src := by
  cases parsed with
  | error status => simp [hbad status rfl]
  | ok src =>
      rw [hgood src rfl]
      constructor
      · exact fun hp => ⟨src, rfl, hp⟩
      · rintro ⟨src', hsrc, hp⟩
        obtain rfl := Except.ok.inj hsrc
        exact hp

theorem onSuccess_isSome {built : Except Status (List Octet)} (h : built.isOk) : (onSuccess built).isSome := by
  cases built with
  | ok bytes => rfl
  | error status => exact absurd h Bool.false_ne_true

theorem prefer_isSome (ladder : List Octet) (offered : Octet) :
    (prefer ladder offered).isSome ↔ offered &&& options ladder ≠ 0#8 := by
  rw [← Option.ne_none_iff_isSome]
  exact prefer_eq_none_iff.not

/-- Two ladders, and a builder that does not fail. -/
theorem two_ladders {first second : List Octet} {a b : Octet} {build : Octet → Octet → Except Status (List Octet)}
    (hbuild : ∀ x ∈ first, ∀ y ∈ second, (build x y).isOk) :
    ((prefer first a).bind fun x => (prefer second b).bind fun y => onSuccess (build x y)).isSome ↔
      a &&& options first ≠ 0#8 ∧ b &&& options second ≠ 0#8 := by
  rw [← prefer_isSome, ← prefer_isSome]
  cases hx : prefer first a with
  | none => simp
  | some x =>
      cases hy : prefer second b with
      | none => simp
      | some y =>
          have hok := hbuild x (List.mem_of_find?_eq_some hx) y (List.mem_of_find?_eq_some hy)
          simp only [Option.bind_some, Option.isSome_some, onSuccess_isSome hok, and_self]

theorem buildSbc_isSome :
    (Sbc.buildCodecConfigSbc caps).isSome ↔ ∃ src, Sbc.parsSbcInfo caps true = .ok src ∧ src.minBitpool ≤ 53#8 := by
  apply isSome_of_parse
  · intro status h
    unfold Sbc.buildCodecConfigSbc
    rw [h]
  · intro src h
    obtain ⟨-, hpools, -, hsrc⟩ := Sbc.parsSbcInfo_ok_iff.mp h
    rw [hsrc] at hpools
    unfold Sbc.buildCodecConfigSbc
    rw [h]
    dsimp only
    by_cases hmin : src.minBitpool ≤ 53#8
    · refine iff_of_true (onSuccess_isSome ?_) hmin
      obtain ⟨hfreq, hch, hblock, hsub, halloc, hlow, hle, hhigh⟩ := Sbc.prefCap_declared hpools hmin
      unfold Sbc.bldSbcInfo
      rw [if_neg]
      · rfl
      · simp only [hfreq, hch, hblock, hsub, halloc, not_true_eq_false, false_or, not_or, BitVec.not_lt]
        exact ⟨hle, BitVec.le_trans hlow hle, hhigh, hlow, BitVec.le_trans hle hhigh⟩
    · rw [Sbc.bldSbcInfo_fails hpools (BitVec.not_le.mp hmin)]
      exact iff_of_false Bool.false_ne_true hmin

theorem buildLdac_isSome : (Ldac.buildCodecConfigLdac caps).isSome ↔ ∃ src, Ldac.parseInfoLdac caps true = .ok src ∧
    src.sampleRate &&& 0x3C ≠ 0#8 ∧ src.channelMode &&& 0x07 ≠ 0#8 := by
  apply isSome_of_parse
  · intro status h
    unfold Ldac.buildCodecConfigLdac
    rw [h]
  · intro src h
    unfold Ldac.buildCodecConfigLdac
    rw [h]
    exact two_ladders (by decide)

theorem buildLhdcV5_isSome : (Lhdcv5.buildCodecConfigLhdcV5 caps).isSome ↔
    ∃ src, Lhdcv5.parseInfoLhdcV5 caps true = .ok src ∧ src.sampleRate &&& 0x35 ≠ 0#8 := by
  apply isSome_of_parse
  · intro status h
    unfold Lhdcv5.buildCodecConfigLhdcV5
    rw [h]
  · intro src h
    have hprefer := prefer_isSome [0x01, 0x04, 0x10, 0x20] src.sampleRate
    unfold Lhdcv5.buildCodecConfigLhdcV5
    rw [h]
    dsimp only
    cases hrate : prefer [0x01, 0x04, 0x10, 0x20] src.sampleRate with
    | none =>
        rw [hrate] at hprefer
        exact hprefer
    | some rate =>
        rw [hrate] at hprefer
        exact hprefer

theorem buildLc3Plus_isSome : (Lc3plus.buildCodecConfigLc3Plus caps).isSome ↔
    ∃ src, Lc3plus.parseInfoLc3Plus caps true = .ok src := by
  unfold Lc3plus.buildCodecConfigLc3Plus
  cases Lc3plus.parseInfoLc3Plus caps true with
  | error status => simp
  | ok src => exact iff_of_true rfl ⟨src, rfl⟩

theorem buildOpus_isSome : (Opus.buildCodecConfigOpus caps).isSome ↔ ∃ src, Opus.parseInfoOpus caps true = .ok src ∧
    match src.variant with
    | .android => 0x02 &&& src.channelMode ≠ 0#8 ∧ 0x10 &&& src.frameSize ≠ 0#8 ∧ 0x80 &&& src.samplingFreq ≠ 0#8
    | .pipewire => 2 * src.coupledStreams.toNat ≤ src.channels.toNat ∧ src.audioLocation &&& 0x3 ≠ 0#32 ∧
        src.frameDuration &&& 0x08 ≠ 0#8 := by
  apply isSome_of_parse
  · intro status h
    unfold Opus.buildCodecConfigOpus
    rw [h]
  · intro src h
    unfold Opus.buildCodecConfigOpus
    rw [h]
    dsimp only
    cases src.variant with
    | android =>
        simp only [bitsSet_eq_zero_iff, ← not_or]
        split_ifs with hempty
        · exact iff_of_false Bool.false_ne_true (not_not.mpr hempty)
        · exact iff_of_true rfl hempty
    | pipewire =>
        simp only [bitsSet_eq_zero_iff, ← not_or]
        split_ifs with hpairs hempty
        · exact iff_of_false Bool.false_ne_true fun hp => absurd hp.1 (Nat.not_le.mpr hpairs)
        · exact iff_of_false Bool.false_ne_true fun hp => hp.2 hempty
        · exact iff_of_true rfl ⟨Nat.not_lt.mp hpairs, hempty⟩

theorem buildAptx_isSome : (Aptx.buildCodecConfigAptx caps).isSome ↔ ∃ src, Aptx.parseInfoAptx caps true = .ok src ∧
    src.sampleRate &&& 0x30 ≠ 0#8 ∧ src.channelMode &&& 0x02 ≠ 0#8 := by
  apply isSome_of_parse
  · intro status h
    unfold Aptx.buildCodecConfigAptx
    rw [h]
  · intro src h
    have hprefer := prefer_isSome [0x10, 0x20] src.sampleRate
    unfold Aptx.buildCodecConfigAptx
    rw [h]
    dsimp only
    change _ ↔ src.sampleRate &&& options [0x10, 0x20] ≠ 0#8 ∧ _
    rw [← hprefer]
    cases hrate : prefer [0x10, 0x20] src.sampleRate with
    | none => simp
    | some rate =>
        by_cases hmode : src.channelMode &&& 0x02 ≠ 0
        · simp only [if_pos hmode]
          exact iff_of_true rfl ⟨rfl, hmode⟩
        · simp only [if_neg hmode]
          exact iff_of_false Bool.false_ne_true fun hp => hmode hp.2

theorem buildAptxHd_isSome : (AptxHd.buildCodecConfigAptxHd caps).isSome ↔
    ∃ src, AptxHd.parseInfoAptxHd caps true = .ok src ∧ src.sampleRate &&& 0x30 ≠ 0#8 ∧
      src.channelMode &&& 0x03 ≠ 0#8 := by
  apply isSome_of_parse
  · intro status h
    unfold AptxHd.buildCodecConfigAptxHd
    rw [h]
  · intro src h
    unfold AptxHd.buildCodecConfigAptxHd
    rw [h]
    exact two_ladders fun _ _ _ _ => rfl

theorem buildAptxLl_isSome : (AptxLl.buildCodecConfigAptxLl caps).isSome ↔
    ∃ src, AptxLl.parseInfoAptxLl caps true = .ok src ∧ src.sampleRate &&& 0x30 ≠ 0#8 ∧
      src.channelMode &&& 0x03 ≠ 0#8 := by
  apply isSome_of_parse
  · intro status h
    unfold AptxLl.buildCodecConfigAptxLl
    rw [h]
  · intro src h
    unfold AptxLl.buildCodecConfigAptxLl
    rw [h]
    exact two_ladders fun _ _ _ _ => rfl

/-- When a codec builds a configuration. -/
theorem buildCodecConfig_isSome (codec : Codec) (caps : List Octet) :
    (codec.buildCodecConfig caps).isSome ↔ codec.Builds caps := by
  cases codec with
  | sbc => exact buildSbc_isSome
  | aac => exact iff_of_true rfl trivial
  | ldac => exact buildLdac_isSome
  | lhdcv5 => exact buildLhdcV5_isSome
  | lc3plus => exact buildLc3Plus_isSome
  | opus => exact buildOpus_isSome
  | aptx => exact buildAptx_isSome
  | aptxHd => exact buildAptxHd_isSome
  | aptxLl => exact buildAptxLl_isSome

end Builds

/-! ## What is stored -/

namespace AvCo

variable (build : Build)

/-- The end point has a codec of the build, and the codec takes its capabilities. -/
def Sep.Builds (sep : Sep) : Prop := ∃ codec, codecOf build sep.codecCaps = some codec ∧ codec.Builds sep.codecCaps

/-- A successful build made a configuration of the selected end point of a table. -/
def BuiltFrom (selected : Option Nat) (table : List Sep) (cfg : List Octet) : Prop :=
  ∃ index buffer torn, selected = some index ∧
    buildCodecConfig build (table.getD index .zero).codecCaps buffer torn = (true, cfg)

/-- For a source the stored configuration was built from its selected end point, for a sink from its own. -/
def Peer.ConfigBuilt (peer : Peer) : Prop :=
  if peer.uuidToConnect = uuidAudioSource then BuiltFrom build peer.pSrc peer.srcs peer.codecCfg
  else BuiltFrom build peer.pSnk peer.snks peer.codecCfg

/-- A success means that the configuration was built, a failure leaves the configuration as it was. -/
def Peer.ReportsBuilt (before after : Peer) (outputs : List Output) : Prop :=
  ∀ reply, Output.config reply ∈ outputs →
    (reply.success = true → after.ConfigBuilt build) ∧ (reply.success = false → after.codecCfg = before.codecCfg)

/-- The source end point that a capability selects, if it is the last one or fills the table. -/
def Peer.selectsSrc (peer : Peer) (cap : Capability) : Option Sep :=
  let stored := storeSep (isPeerSourceCodecSupported build cap.codecInfo).isOk peer.srcs peer.numSupSrcs cap.sep
  if peer.numRxSrcs + 1 = peer.numSrcs ∨ stored.2.toNat = stored.1.length then
    (findSep (sourceCodecIndex build) stored.1 stored.2.toNat).map fun index => stored.1.getD index .zero
  else none

variable {build}

theorem builtFrom_iff {index : Nat} {table : List Sep} {cfg : List Octet} :
    BuiltFrom build (some index) table cfg ↔ ∃ buffer torn,
      buildCodecConfig build (table.getD index .zero).codecCaps buffer torn = (true, cfg) := by
  constructor
  · rintro ⟨i, buffer, torn, hi, h⟩
    obtain rfl := Option.some.inj hi
    exact ⟨buffer, torn, h⟩
  · rintro ⟨buffer, torn, h⟩
    exact ⟨index, buffer, torn, rfl, h⟩

/-- What was built succeeded exactly if the end point can be built. -/
theorem buildCodecConfig_success {sep : Sep} {buffer torn : List Octet} :
    (buildCodecConfig build sep.codecCaps buffer torn).1 = true ↔ sep.Builds build := by
  unfold buildCodecConfig Sep.Builds
  cases hcodec : codecOf build sep.codecCaps with
  | none => simp
  | some codec =>
      have hsome := buildCodecConfig_isSome codec sep.codecCaps
      simp only [Option.bind_some, Option.some.injEq, exists_eq_left', ← hsome]
      cases codec.buildCodecConfig sep.codecCaps <;> simp

/-- For a peer that is a source, what is reported was built if the end point selected, if any, can be built. -/
theorem sinkGetConfig_built_iff (peer : Peer) (cap : Capability) (h : peer.uuidToConnect = uuidAudioSource) :
    peer.ReportsBuilt build (peer.sinkGetConfig build cap).1 [.config (peer.sinkGetConfig build cap).2] ↔
      ∀ sep, peer.selectsSrc build cap = some sep → sep.Builds build := by
  have hreports : ∀ after reply, peer.ReportsBuilt build after [.config reply] ↔
      (reply.success = true → after.ConfigBuilt build) ∧ (reply.success = false → after.codecCfg = peer.codecCfg) := by
    intro after reply
    unfold Peer.ReportsBuilt
    simp
  rw [hreports]
  unfold Peer.sinkGetConfig Peer.selectsSrc
  dsimp only
  generalize storeSep (isPeerSourceCodecSupported build cap.codecInfo).isOk peer.srcs peer.numSupSrcs cap.sep = stored
  by_cases hlast : peer.numRxSrcs + 1 = peer.numSrcs ∨ stored.2.toNat = stored.1.length
  · rw [if_pos hlast, if_pos hlast]
    cases hfound : findSep (sourceCodecIndex build) stored.1 stored.2.toNat with
    | none => simp [Capability.reply]
    | some index =>
        have hbuilds := @buildCodecConfig_success build (stored.1.getD index .zero) cap.torn cap.torn
        unfold Peer.ConfigBuilt
        dsimp only
        rw [if_pos h, builtFrom_iff]
        simp only [Option.map_some, Option.some.injEq, forall_eq', true_implies, Bool.true_eq_false, false_implies,
          and_true]
        constructor
        · rintro ⟨buffer, torn, hrun⟩
          rw [← @buildCodecConfig_success build (stored.1.getD index .zero) buffer torn, hrun]
        · intro hsep
          exact ⟨cap.torn, cap.torn, Prod.ext (hbuilds.mpr hsep) rfl⟩
  · rw [if_neg hlast, if_neg hlast]
    simp [Capability.reply]

/-- For a peer that is a sink, what is reported was built. -/
theorem srcGetConfig_built (peer : Peer) (cap : Capability) (h : peer.uuidToConnect ≠ uuidAudioSource) :
    peer.ReportsBuilt build (peer.srcGetConfig build cap).1 (peer.srcGetConfig build cap).2 := by
  unfold Peer.srcGetConfig
  dsimp only
  generalize storeSep (isPeerSinkCodecValid build cap.codecInfo) peer.snks peer.numSupSnks cap.sep = stored
  have hsame : ∀ (after : Peer) (reply : Reply), reply.success = false → after.codecCfg = peer.codecCfg →
      peer.ReportsBuilt build after [.config reply] := by
    intro after reply hfail hcfg reply' hmem
    obtain rfl := Output.config.inj (List.mem_singleton.mp hmem)
    exact ⟨fun hs => absurd (hfail.symm.trans hs) Bool.false_ne_true, fun _ => hcfg⟩
  by_cases hlast : peer.numRxSnks + 1 = peer.numSnks ∨ stored.2.toNat = stored.1.length
  · rw [if_pos hlast]
    cases findSep (sinkCodecIndex build) stored.1 stored.2.toNat with
    | none => exact hsame _ _ rfl rfl
    | some index =>
        dsimp only
        cases hrun : buildCodecConfig build (stored.1.getD index .zero).codecCaps (List.replicate codecSize 0)
          cap.torn with
        | mk ok cfg =>
          have hbuilt : ok = true → BuiltFrom build (some index) stored.1 cfg := fun hok =>
            builtFrom_iff.mpr ⟨_, _, hrun.trans (congrArg (·, cfg) hok)⟩
          cases ok with
          | false => exact hsame _ _ rfl rfl
          | true =>
              have hconfig : ∀ after : Peer, after.uuidToConnect = peer.uuidToConnect → after.pSnk = some index →
                  after.snks = stored.1 → after.codecCfg = cfg → after.ConfigBuilt build := by
                intro after huuid hsnk htable hcfg
                unfold Peer.ConfigBuilt
                rw [huuid, if_neg h, hsnk, htable, hcfg]
                exact hbuilt rfl
              rw [if_pos rfl]
              intro reply hmem
              refine ⟨fun _ => ?_, fun hfail => ?_⟩
              · by_cases hacp : peer.acp = true
                · rw [if_pos hacp]
                  exact hconfig _ rfl rfl rfl rfl
                · rw [if_neg hacp]
                  exact hconfig _ rfl rfl rfl rfl
              · by_cases hacp : peer.acp = true
                · rw [if_pos hacp] at hmem
                  rcases List.mem_append.mp hmem with hmem | hmem
                  · split_ifs at hmem <;> simp at hmem
                  · obtain rfl := Output.config.inj (List.mem_singleton.mp hmem)
                    exact absurd hfail.symm Bool.false_ne_true
                · rw [if_neg hacp] at hmem
                  obtain rfl := Output.config.inj (List.mem_singleton.mp hmem)
                  exact absurd hfail.symm Bool.false_ne_true
  · rw [if_neg hlast]
    exact hsame _ _ rfl rfl

/-- A reported configuration was built from the selected end point, if the end point selected for a source can be. -/
theorem getConfig_built_iff (build : Build) (peer : Peer) (cap : Capability) :
    peer.ReportsBuilt build (peer.getConfig build cap).1 (peer.getConfig build cap).2 ↔
      (peer.uuidToConnect = uuidAudioSource → ∀ sep, peer.selectsSrc build cap = some sep → sep.Builds build) := by
  unfold Peer.getConfig
  by_cases h : peer.uuidToConnect = uuidAudioSource
  · rw [if_pos h]
    rw [sinkGetConfig_built_iff peer cap h]
    exact ⟨fun hall _ => hall, fun hall => hall h⟩
  · rw [if_neg h]
    exact iff_of_true (srcGetConfig_built peer cap h) fun h' => absurd h' h

/-- The one source of a peer, with an SBC bit pool of 54 at least. -/
def highBitpool : Capability := capability 1 [6, 0, 0, 0x3F, 0xFF, 54, 250]

/-- Nothing is built for it, and the call-out reports a success. -/
theorem getConfig_not_built :
    (((Peer.zero sbcBuild).discRes oneSource).sinkGetConfig sbcBuild highBitpool).2.success = true ∧
    ¬((Peer.zero sbcBuild).discRes oneSource).ReportsBuilt sbcBuild
      (((Peer.zero sbcBuild).discRes oneSource).getConfig sbcBuild highBitpool).1
      (((Peer.zero sbcBuild).discRes oneSource).getConfig sbcBuild highBitpool).2 := by
  refine ⟨by decide, fun h => ?_⟩
  have hbuilds := (sinkGetConfig_built_iff ((Peer.zero sbcBuild).discRes oneSource) highBitpool rfl).mp h
    highBitpool.sep (by decide)
  have hfails : (buildCodecConfig sbcBuild highBitpool.sep.codecCaps [] []).1 = false := by decide
  rw [buildCodecConfig_success.mpr hbuilds] at hfails
  exact Bool.noConfusion hfails

end AvCo

end EspIdf.A2dp
