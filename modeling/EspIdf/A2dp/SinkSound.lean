import EspIdf.A2dp.SinkConfig

/-!
# When a configuration is sound

* `picks_getD_iff` : what a ladder with a default selects;
* `…Negotiable` : the source capabilities that a codec's build function is sound for;
* `sink_config_sound_iff` : for all codecs.
-/

namespace EspIdf.A2dp

open BitField

/-! ## Ladders -/

section Prefer

variable {ladder : List Octet} {src sink bit dflt : Octet}

/-- The options of a ladder together. -/
def options (ladder : List Octet) : Octet := ladder.foldr (· ||| ·) 0

theorem and_options_eq_zero_iff : src &&& options ladder = 0#8 ↔ ∀ b ∈ ladder, src &&& b = 0#8 := by
  induction ladder with
  | nil => exact iff_of_true BitVec.and_zero (fun b hb => nomatch hb)
  | cons b rest ih =>
      have hsplit : src &&& options (b :: rest) = (src &&& b) ||| (src &&& options rest) :=
        BitVec.and_or_distrib_left
      rw [hsplit, BitVec.or_eq_zero_iff, ih, List.forall_mem_cons]

theorem prefer_eq_none_iff : prefer ladder src = none ↔ src &&& options ladder = 0#8 := by
  unfold prefer
  rw [and_options_eq_zero_iff, List.find?_eq_none]
  simp

theorem within_options (h : bit ∈ ladder) : Within bit (options ladder) := by
  induction ladder with
  | nil => exact nomatch h
  | cons b rest ih =>
      have hsplit : bit &&& options (b :: rest) = (bit &&& b) ||| (bit &&& options rest) :=
        BitVec.and_or_distrib_left
      unfold Within
      rw [hsplit]
      rcases List.mem_cons.mp h with rfl | hrest
      · rw [BitVec.and_self]
        ext i hi
        rw [BitVec.getElem_or, BitVec.getElem_and]
        cases bit[i] with
        | false => rfl
        | true => rfl
      · have hbit : bit &&& options rest = bit := ih hrest
        rw [hbit]
        ext i hi
        rw [BitVec.getElem_or, BitVec.getElem_and]
        cases bit[i] with
        | false => exact Bool.or_false _
        | true => exact Bool.or_true _

theorem picks_of_prefer (h : prefer ladder src = some bit) (hone : ∀ b ∈ ladder, OneHot b) :
    Picks bit src (options ladder) := by
  have hmem := List.mem_of_find?_eq_some h
  have hoffered : src &&& bit ≠ 0 := by simpa using List.find?_some h
  exact ⟨hone bit hmem, (hone bit hmem).within hoffered, within_options hmem⟩

theorem getD_mem (hdflt : dflt ∈ ladder) : (prefer ladder src).getD dflt ∈ ladder := by
  cases hprefer : prefer ladder src with
  | none => exact hdflt
  | some bit => exact List.mem_of_find?_eq_some hprefer

/-- A ladder with a default selects what both sides offer exactly when the source offers some option of the ladder. -/
theorem picks_getD_iff (hone : ∀ b ∈ ladder, OneHot b) (hdflt : dflt ∈ ladder) :
    Picks ((prefer ladder src).getD dflt) src (options ladder) ↔ src &&& options ladder ≠ 0#8 := by
  cases hprefer : prefer ladder src with
  | none =>
      refine iff_of_false ?_ (fun hsome => hsome (prefer_eq_none_iff.mp hprefer))
      rintro ⟨hbit, hsrc, -⟩
      have hzero := and_options_eq_zero_iff.mp (prefer_eq_none_iff.mp hprefer) dflt hdflt
      rw [BitVec.and_comm] at hzero
      have hself : dflt &&& src = dflt := hsrc
      exact hbit.1 (hself.symm.trans hzero)
  | some bit =>
      refine iff_of_true (picks_of_prefer hprefer hone) ?_
      intro hnone
      rw [prefer_eq_none_iff.mpr hnone] at hprefer
      exact nomatch hprefer

end Prefer

/-! ## SBC -/

namespace Sbc

variable {info : List Octet} {src : Cie}

/-- The lowest bit pool is over the preferred one, and nothing is built; or each field has an option of the sink. -/
def Negotiable (src : Cie) : Prop :=
  53#8 < src.minBitpool ∨ (src.sampFreq &&& sinkCaps.sampFreq ≠ 0#8 ∧ src.chMode &&& sinkCaps.chMode ≠ 0#8 ∧
    src.blockLen &&& sinkCaps.blockLen ≠ 0#8 ∧ src.numSubbands &&& sinkCaps.numSubbands ≠ 0#8 ∧
    src.allocMthd &&& sinkCaps.allocMthd ≠ 0#8)

theorem prefCap_bitpools (h : Bitpools src) : (prefCap src).minBitpool = src.minBitpool ∧
    (prefCap src).maxBitpool = if 53#8 < src.maxBitpool then 53#8 else src.maxBitpool := by
  obtain ⟨hmin, hle, hmax⟩ := h
  constructor
  · exact (if_pos ⟨hmin, BitVec.le_trans hle hmax⟩).trans (if_neg (BitVec.not_lt.mpr hmin))
  · exact if_pos ⟨BitVec.le_trans hmin hle, hmax⟩

theorem prefCap_fields (src : Cie) :
    ((prefCap src).sampFreq ∈ ([0x10, 0x20] : List Octet) ∧
      (prefCap src).chMode ∈ ([0x01, 0x02, 0x04, 0x08] : List Octet)) ∧
    (prefCap src).blockLen ∈ ([0x10, 0x20, 0x40, 0x80] : List Octet) ∧
      (prefCap src).numSubbands ∈ ([0x04, 0x08] : List Octet) ∧
      (prefCap src).allocMthd ∈ ([0x01, 0x02] : List Octet) :=
  ⟨⟨getD_mem (by decide), getD_mem (by decide)⟩, getD_mem (by decide), getD_mem (by decide), getD_mem (by decide)⟩

theorem prefCap_declared (h : Bitpools src) (hmin : src.minBitpool ≤ 53#8) : Declared (prefCap src) := by
  obtain ⟨⟨hfreq, hch⟩, hblock, hsub, halloc⟩ := prefCap_fields src
  obtain ⟨hprefMin, hprefMax⟩ := prefCap_bitpools h
  obtain ⟨hlow, hle, hhigh⟩ := h
  have hwithin : ∀ {b m : Octet} {l : List Octet}, b ∈ l → (∀ x ∈ l, Within x m) → Within b m :=
    fun hmem hall => hall _ hmem
  refine ⟨hwithin hfreq (by decide), hwithin hch (by decide), hwithin hblock (by decide), hwithin hsub (by decide),
    hwithin halloc (by decide), ?_⟩
  unfold Bitpools
  rw [hprefMin, hprefMax]
  by_cases hover : 53#8 < src.maxBitpool
  · rw [if_pos hover]
    exact ⟨hlow, hmin, by decide⟩
  · rw [if_neg hover]
    exact ⟨hlow, hle, hhigh⟩

theorem prefCap_offers (src : Cie) : Offers false (prefCap src) := by
  obtain ⟨⟨hfreq, hch⟩, hblock, hsub, halloc⟩ := prefCap_fields src
  have hone : ∀ {b : Octet} {l : List Octet}, b ∈ l → (∀ x ∈ l, OneHot x) → OneHot b := fun hmem hall => hall _ hmem
  exact fun _ => ⟨hone hfreq (by decide), hone hch (by decide), hone hblock (by decide), hone hsub (by decide),
    hone halloc (by decide)⟩

theorem selected_prefCap_iff (h : Bitpools src) (hmin : src.minBitpool ≤ 53#8) :
    Selected src (prefCap src) ↔ Negotiable src := by
  obtain ⟨hprefMin, hprefMax⟩ := prefCap_bitpools h
  obtain ⟨hlow, hle, hhigh⟩ := h
  unfold Selected Negotiable
  rw [hprefMin, hprefMax]
  have hpools : src.minBitpool ≤ src.minBitpool ∧ sinkCaps.minBitpool ≤ src.minBitpool ∧
      src.minBitpool ≤ (if 53#8 < src.maxBitpool then 53#8 else src.maxBitpool) ∧
      (if 53#8 < src.maxBitpool then 53#8 else src.maxBitpool) ≤ src.maxBitpool ∧
      (if 53#8 < src.maxBitpool then 53#8 else src.maxBitpool) ≤ sinkCaps.maxBitpool := by
    by_cases hover : 53#8 < src.maxBitpool
    · rw [if_pos hover]
      exact ⟨BitVec.le_refl _, hlow, hmin, BitVec.le_of_lt hover, by decide⟩
    · rw [if_neg hover]
      exact ⟨BitVec.le_refl _, hlow, hle, BitVec.le_refl _, hhigh⟩
  rw [and_iff_left hpools, or_iff_right (BitVec.not_lt.mpr hmin)]
  exact and_congr (picks_getD_iff (by decide) (by decide)) <| and_congr (picks_getD_iff (by decide) (by decide)) <|
    and_congr (picks_getD_iff (by decide) (by decide)) <| and_congr (picks_getD_iff (by decide) (by decide))
      (picks_getD_iff (by decide) (by decide))

/-- A lowest bit pool over the preferred one is over the highest one too. -/
theorem bldSbcInfo_fails (h : Bitpools src) (hmin : 53#8 < src.minBitpool) :
    bldSbcInfo mediaTypeAudio (prefCap src) = .error .invalidParams := by
  obtain ⟨hprefMin, hprefMax⟩ := prefCap_bitpools h
  have hover : 53#8 < src.maxBitpool := Nat.lt_of_lt_of_le hmin h.2.1
  rw [if_pos hover] at hprefMax
  apply if_pos
  rw [hprefMin, hprefMax]
  exact .inr (.inr (.inr (.inr (.inr (.inl hmin)))))

theorem config_sound_iff (h : parsSbcInfo info true = .ok src) :
    SoundConfig buildCodecConfigSbc parsSbcInfo Selected info src ↔ Negotiable src := by
  obtain ⟨-, hpools, -, hsrc⟩ := parsSbcInfo_ok_iff.mp h
  rw [hsrc] at hpools
  have hbuild : buildCodecConfigSbc info = onSuccess (bldSbcInfo mediaTypeAudio (prefCap src)) := by
    unfold buildCodecConfigSbc
    rw [h]
  by_cases hmin : 53#8 < src.minBitpool
  · have hnone : buildCodecConfigSbc info = none := by
      rw [hbuild, bldSbcInfo_fails hpools hmin]
      rfl
    exact iff_of_true (sound_of_none hnone) (.inl hmin)
  · have hle := BitVec.not_lt.mp hmin
    rw [sound_iff_selected hbuild ((roundTrips_iff (prefCap_declared hpools hle)).mpr (prefCap_offers src))]
    exact selected_prefCap_iff hpools hle

end Sbc

/-! ## AAC -/

namespace Aac

variable {info : List Octet} {src : Cie}

/-- The sink's own capabilities, with two sample rates and two channel modes, are no configuration. -/
theorem config_not_sound : ¬SoundConfig buildCodecConfigAac parseInfoAac Selected info src := by
  intro hsound
  obtain ⟨cfg, hparse, -⟩ := hsound (bytes sinkCaps) rfl
  have hfail : parseInfoAac (bytes sinkCaps) false = .error .badSampFreq := rfl
  rw [hfail] at hparse
  exact nomatch hparse

end Aac

/-! ## Vendor codecs -/

namespace Ldac

variable {info : List Octet} {src : Cie}

theorem config_sound (h : parseInfoLdac info true = .ok src) :
    SoundConfig buildCodecConfigLdac parseInfoLdac Selected info src := by
  have hbuild : buildCodecConfigLdac info =
      (prefer [0x04, 0x08, 0x10, 0x20] src.sampleRate).bind fun rate =>
        (prefer [0x01, 0x02, 0x04] src.channelMode).bind fun mode => onSuccess (buildInfoLdac mediaTypeAudio
          { vendorId := vendorIdLdac, codecId := codecIdLdac, sampleRate := rate, channelMode := mode }) := by
    unfold buildCodecConfigLdac
    rw [h]
    rfl
  cases hrate : prefer [0x04, 0x08, 0x10, 0x20] src.sampleRate with
  | none => exact sound_of_none (by rw [hbuild, hrate]; rfl)
  | some rate =>
      cases hmode : prefer [0x01, 0x02, 0x04] src.channelMode with
      | none => exact sound_of_none (by rw [hbuild, hrate, hmode]; rfl)
      | some mode =>
          have hpicksRate := picks_of_prefer hrate (by decide)
          have hpicksMode := picks_of_prefer hmode (by decide)
          have hrates : Within rate samplingFreqMask := hpicksRate.2.2.mono (by decide)
          have hround : RoundTrips buildInfoLdac parseInfoLdac false
              { vendorId := vendorIdLdac, codecId := codecIdLdac, sampleRate := rate, channelMode := mode } :=
            (roundTrips_iff ⟨rfl, rfl, hrates, hpicksMode.2.2⟩).mpr ⟨hpicksRate.1, hpicksMode.1⟩
          rw [hrate, hmode] at hbuild
          exact (sound_iff_selected hbuild hround).mpr ⟨hpicksRate, hpicksMode⟩

end Ldac

namespace Lhdcv5

variable {info : List Octet} {src : Cie} {rate : Octet}

/-- A sample width of the sink is offered, and no feature that the sink lacks. -/
def Negotiable (src : Cie) : Prop :=
  src.bitsPerSample &&& sinkCaps.bitsPerSample ≠ 0#8 ∧ src.hasFeatureAR = false ∧ src.hasFeatureJAS = false ∧
    src.hasFeatureMETA = false ∧ src.hasFeatureLLESS48K = false ∧ src.hasFeatureLLESSRaw = false

/-- The sink's limits are the widest, and the two limits of a source do not cross. -/
theorem kbps_bounds : ∀ high low : Octet, minKbps 0x00 ≤ minKbps low ∧ minKbps low ≤ maxKbps high ∧
    maxKbps high ≤ maxKbps 0x00 := by
  intro high low
  unfold minKbps maxKbps
  grind

theorem parsed_features : ∀ b : Octet, ¬b &&& featureMask &&& 0x20 ≠ 0 ∧ ¬b &&& featureMask &&& 0x10 ≠ 0 := by
  intro b
  have hfirst : featureMask &&& 0x20 = 0 := by decide
  have hsecond : featureMask &&& 0x10 = 0 := by decide
  rw [BitVec.and_assoc, BitVec.and_assoc, hfirst, hsecond]
  simp

theorem selected_prefCap_iff (hrate : Picks rate src.sampleRate sinkCaps.sampleRate)
    (hmode : src.channelMode = channelModeStereo) (hver : src.version &&& ver1 ≠ 0#8)
    (hframe : Within src.frameLenType frameLenMask ∧ src.frameLenType ≠ 0#8)
    (h24 : src.hasFeatureLLESS24Bit = false) (h96 : src.hasFeatureLLESS96K = false) :
    Selected src (prefCap src rate) ↔ Negotiable src := by
  have hmodePicks : Picks channelModeStereo src.channelMode sinkCaps.channelMode := by
    rw [hmode]
    decide
  have hverPicks : Picks ver1 src.version sinkCaps.version :=
    ⟨by decide, OneHot.within (by decide) hver, by decide⟩
  have hframePicks : Picks 0x10 src.frameLenType 0x10 := by
    have hoffered : src.frameLenType &&& 0x10 ≠ 0#8 := fun hnone => hframe.2 (hframe.1.symm.trans hnone)
    exact ⟨by decide, OneHot.within (by decide) hoffered, by decide⟩
  obtain ⟨hlow, hcross, hhigh⟩ := kbps_bounds src.maxTargetBitrate src.minTargetBitrate
  have hbits : Picks (prefCap src rate).bitsPerSample src.bitsPerSample sinkCaps.bitsPerSample ↔
      src.bitsPerSample &&& sinkCaps.bitsPerSample ≠ 0#8 := picks_getD_iff (by decide) (by decide)
  unfold Selected Negotiable
  rw [hbits, and_iff_right (a := Picks (prefCap src rate).sampleRate _ _) hrate]
  have hfeature : ∀ feature : Bool, (feature = true → feature = true ∧ false = true) ↔ feature = false := by decide
  constructor
  · rintro ⟨⟨hwidth, -⟩, -, har, hjas, hmetadata, -, h48, -, -, hraw⟩
    exact ⟨hwidth, (hfeature _).mp har, (hfeature _).mp hjas, (hfeature _).mp hmetadata, (hfeature _).mp h48,
      (hfeature _).mp hraw⟩
  · rintro ⟨hwidth, har, hjas, hmetadata, h48, hraw⟩
    exact ⟨⟨hwidth, hmodePicks, hverPicks, hframePicks⟩,
      ⟨Nat.le_refl _, hlow, hcross, Nat.le_refl _, hhigh⟩, (hfeature _).mpr har, (hfeature _).mpr hjas,
      (hfeature _).mpr hmetadata, fun hll => ⟨hll, rfl⟩, (hfeature _).mpr h48, (hfeature _).mpr h24, (hfeature _).mpr h96,
      (hfeature _).mpr hraw⟩

theorem config_sound_iff (h : parseInfoLhdcV5 info true = .ok src) :
    SoundConfig buildCodecConfigLhdcV5 parseInfoLhdcV5 Selected info src ↔ Negotiable src := by
  have hbuild : buildCodecConfigLhdcV5 info = (prefer [0x01, 0x04, 0x10, 0x20] src.sampleRate).bind fun rate =>
      onSuccess (buildInfoLhdcV5 mediaTypeAudio (prefCap src rate)) := by
    unfold buildCodecConfigLhdcV5
    rw [h]
    rfl
  obtain ⟨-, hoffers, rfl⟩ := parseInfoLhdcV5_ok_iff.mp h
  obtain ⟨hrates, -, hver, hframe⟩ := hoffers rfl
  have h24 : (cieOf info).hasFeatureLLESS24Bit = false := decide_eq_false (parsed_features _).1
  have h96 : (cieOf info).hasFeatureLLESS96K = false := decide_eq_false (parsed_features _).2
  cases hrate : prefer [0x01, 0x04, 0x10, 0x20] (cieOf info).sampleRate with
  | none =>
      have hnone : (cieOf info).sampleRate &&& samplingFreqMask = 0#8 := prefer_eq_none_iff.mp hrate
      have hwithin : (cieOf info).sampleRate &&& samplingFreqMask = (cieOf info).sampleRate := within_and
      exact absurd (hwithin.symm.trans hnone) hrates
  | some rate =>
      have hpicks := picks_of_prefer hrate (by decide)
      have hwidth : (prefCap (cieOf info) rate).bitsPerSample ∈ ([0x02, 0x04] : List Octet) := getD_mem (by decide)
      have hwidths : ∀ b ∈ ([0x02, 0x04] : List Octet), Within b bitFmtMask := by decide
      have hdeclared : Declared (prefCap (cieOf info) rate) :=
        ⟨rfl, rfl, hpicks.2.2, hwidths _ hwidth, (by decide : Within channelModeStereo _), (by decide : Within ver1 _),
          (by decide : Within 0x10#8 _), within_and, within_and⟩
      have hround := (roundTrips_iff hdeclared).mpr
        ⟨(fun hcap => absurd hcap (by decide) : Offers false _), rfl, h24, h96⟩
      rw [hrate] at hbuild
      rw [sound_iff_selected hbuild hround]
      exact selected_prefCap_iff hpicks rfl hver ⟨within_and, hframe⟩ h24 h96

end Lhdcv5

namespace Lc3plus

variable {info : List Octet} {src : Cie}

/-- The source offers a single option in each field, and the sink has it. -/
def Negotiable (src : Cie) : Prop :=
  (OneHot src.frameDuration ∧ Within src.frameDuration sinkCaps.frameDuration) ∧
    (OneHot src.channels ∧ Within src.channels sinkCaps.channels) ∧
    OneHot src.frequency ∧ Within src.frequency sinkCaps.frequency

theorem picks_self_iff {w : Nat} {x sink : BitVec w} : Picks x x sink ↔ OneHot x ∧ Within x sink := by
  have hself : Within x x := BitVec.and_self
  exact and_congr_right fun _ => and_iff_right hself

theorem config_sound_iff (h : parseInfoLc3Plus info true = .ok src) :
    SoundConfig buildCodecConfigLc3Plus parseInfoLc3Plus Selected info src ↔ Negotiable src := by
  have hbuild : buildCodecConfigLc3Plus info = onSuccess (buildInfoLc3Plus mediaTypeAudio
      { sinkCaps with frameDuration := src.frameDuration, channels := src.channels, frequency := src.frequency }) := by
    unfold buildCodecConfigLc3Plus
    rw [h]
  obtain ⟨-, -, rfl⟩ := parseInfoLc3Plus_ok_iff.mp h
  have hsurvives : (cieOf info).frequency.extractLsb' 0 8 = 0#8 := (extract_append_low ..).trans (shift_octet _)
  have hround : RoundTrips buildInfoLc3Plus parseInfoLc3Plus false { sinkCaps with
      frameDuration := (cieOf info).frameDuration, channels := (cieOf info).channels,
      frequency := (cieOf info).frequency } :=
    (roundTrips_iff ⟨rfl, rfl⟩).mpr ⟨fun hcap => absurd hcap (by decide), hsurvives⟩
  rw [sound_iff_selected hbuild hround]
  exact and_congr picks_self_iff (and_congr picks_self_iff picks_self_iff)

end Lc3plus

namespace Opus

variable {info : List Octet} {src : Cie}

theorem android_picks {mask x : Octet} (hmask : OneHot mask) (h : mask &&& x ≠ 0#8) : Picks (mask &&& x) x mask := by
  have hmaskWithin : Within mask x := hmask.within (by rwa [BitVec.and_comm])
  rw [show mask &&& x = mask from hmaskWithin]
  exact ⟨hmask, hmaskWithin, BitVec.and_self⟩

theorem android_sound (hvariant : src.variant = .android)
    (hmode : (androidPrefCap src).channelMode ≠ 0#8) (hsize : (androidPrefCap src).frameSize ≠ 0#8)
    (hfreq : (androidPrefCap src).samplingFreq ≠ 0#8) :
    RoundTrips buildInfoOpus parseInfoOpus false (androidPrefCap src) ∧ Selected src (androidPrefCap src) := by
  have hmodePicks := android_picks (by decide) hmode
  have hsizePicks := android_picks (by decide) hsize
  have hfreqPicks := android_picks (by decide) hfreq
  have hmodes : Within _ channelModeMask := hmodePicks.2.2.mono (by decide)
  have hsizes : Within _ framesizeMask := hsizePicks.2.2.mono (by decide)
  constructor
  · have hdeclared : Declared (androidPrefCap src) := ⟨rfl, rfl, hmodes, hsizes,
      hfreqPicks.2.2, rfl, rfl, rfl, rfl, rfl, rfl, rfl, rfl, rfl, rfl⟩
    exact (roundTrips_iff hdeclared).mpr ⟨hmodePicks.1, hsizePicks.1, hfreqPicks.1⟩
  · unfold Selected
    rw [hvariant]
    exact ⟨hmodePicks, hsizePicks, hfreqPicks⟩

theorem pipewire_sound (hvariant : src.variant = .pipewire) (hstreams : src.coupledStreams ≠ 0#8)
    (hpairs : 2 * src.coupledStreams.toNat ≤ src.channels.toNat)
    (hlocation : (pipewirePrefCap src).audioLocation ≠ 0#32) (hduration : (pipewirePrefCap src).frameDuration ≠ 0#8) :
    RoundTrips buildInfoOpus parseInfoOpus false (pipewirePrefCap src) ∧ Selected src (pipewirePrefCap src) := by
  have hminLeft : ∀ a b : Octet, minOctet a b ≤ a ∧ minOctet a b ≤ b := by
    intro a b
    unfold minOctet
    by_cases hlt : a < b
    · rw [if_pos hlt]
      exact ⟨BitVec.le_refl _, BitVec.le_of_lt hlt⟩
    · rw [if_neg hlt]
      exact ⟨BitVec.not_lt.mp hlt, BitVec.le_refl _⟩
  have hpos : 0 < src.coupledStreams.toNat := Nat.pos_of_ne_zero fun hzero => hstreams (BitVec.eq_of_toNat_eq hzero)
  have htwo : minOctet src.channels 2 = 2#8 := if_neg fun hlt => by
    have hnat : src.channels.toNat < 2 := hlt
    omega
  have hone : minOctet src.coupledStreams 1 = 1#8 := if_neg fun hlt => by
    have hnat : src.coupledStreams.toNat < 1 := hlt
    omega
  have hdurations : Picks (src.frameDuration &&& 0x08) src.frameDuration 0x1C := by
    have hwithin : Within 0x08 src.frameDuration := OneHot.within (by decide) hduration
    rw [BitVec.and_comm, show 0x08 &&& src.frameDuration = 0x08 from hwithin]
    exact ⟨by decide, hwithin, by decide⟩
  constructor
  · have hdeclared : Declared (pipewirePrefCap src) := ⟨rfl, rfl, rfl, rfl, rfl⟩
    exact (roundTrips_iff hdeclared).mpr fun hcap => absurd hcap (by decide)
  · have hchannelsEq : (pipewirePrefCap src).channels = 2#8 := htwo
    have hstreamsEq : (pipewirePrefCap src).coupledStreams = 1#8 := hone
    unfold Selected
    rw [hvariant]
    refine ⟨⟨?_, (hminLeft _ _).1, (hminLeft _ _).2, (hminLeft _ _).1, (hminLeft _ _).2, ?_⟩, ⟨hlocation, ?_, within_and⟩,
      hdurations, ?_, .inl rfl, rfl⟩
    · rw [hchannelsEq]
      decide
    · rw [hchannelsEq, hstreamsEq]
      decide
    · unfold Within pipewirePrefCap
      rw [BitVec.and_assoc, BitVec.and_comm _ src.audioLocation, ← BitVec.and_assoc, BitVec.and_self]
    · by_cases hlimit : 0 < src.maximumBitrate
      · have hrate : (pipewirePrefCap src).maximumBitrate = src.maximumBitrate := if_pos hlimit
        rw [hrate]
        refine .inr ⟨?_, BitVec.le_refl _⟩
        intro hzero
        rw [hzero] at hlimit
        exact absurd hlimit (by decide)
      · exact .inl (BitVec.le_zero_iff.mp (BitVec.not_lt.mp hlimit))

theorem config_sound (h : parseInfoOpus info true = .ok src) :
    SoundConfig buildCodecConfigOpus parseInfoOpus Selected info src := by
  obtain ⟨-, hoffers, hsrc⟩ := parseInfoOpus_ok_iff.mp h
  rw [hsrc] at hoffers
  unfold Offers at hoffers
  cases hvariant : src.variant with
  | android =>
      have hbuild : buildCodecConfigOpus info = if bitsSet (androidPrefCap src).channelMode = .zero ∨
          bitsSet (androidPrefCap src).frameSize = .zero ∨ bitsSet (androidPrefCap src).samplingFreq = .zero then none
          else onSuccess (buildInfoOpus mediaTypeAudio (androidPrefCap src)) := by
        unfold buildCodecConfigOpus
        rw [h]
        dsimp only
        rw [hvariant]
      simp only [bitsSet_eq_zero_iff] at hbuild
      by_cases hempty : (androidPrefCap src).channelMode = 0#8 ∨ (androidPrefCap src).frameSize = 0#8 ∨
          (androidPrefCap src).samplingFreq = 0#8
      · exact sound_of_none (hbuild.trans (if_pos hempty))
      · simp only [not_or] at hempty
        obtain ⟨hround, hselected⟩ := android_sound hvariant hempty.1 hempty.2.1 hempty.2.2
        have hfull := hbuild.trans (if_neg (by simp only [not_or]; exact hempty))
        exact (sound_iff_selected hfull hround).mpr hselected
  | pipewire =>
      rw [hvariant] at hoffers
      have hbuild : buildCodecConfigOpus info = if src.channels.toNat < 2 * src.coupledStreams.toNat then none
          else if bitsSet (pipewirePrefCap src).audioLocation = .zero ∨
            bitsSet (pipewirePrefCap src).frameDuration = .zero then none
          else onSuccess (buildInfoOpus mediaTypeAudio (pipewirePrefCap src)) := by
        unfold buildCodecConfigOpus
        rw [h]
        dsimp only
        rw [hvariant]
      simp only [bitsSet_eq_zero_iff] at hbuild
      by_cases hpairs : src.channels.toNat < 2 * src.coupledStreams.toNat
      · exact sound_of_none (hbuild.trans (if_pos hpairs))
      · rw [if_neg hpairs] at hbuild
        by_cases hempty : (pipewirePrefCap src).audioLocation = 0#32 ∨ (pipewirePrefCap src).frameDuration = 0#8
        · exact sound_of_none (hbuild.trans (if_pos hempty))
        · have hfull := hbuild.trans (if_neg hempty)
          simp only [not_or] at hempty
          obtain ⟨hround, hselected⟩ := pipewire_sound hvariant (hoffers rfl).2.1
            (Nat.le_of_not_lt hpairs) hempty.1 hempty.2
          exact (sound_iff_selected hfull hround).mpr hselected

end Opus

/-! ### The aptX family -/

namespace Aptx

variable {info : List Octet} {src : Cie}

theorem config_sound (h : parseInfoAptx info true = .ok src) :
    SoundConfig buildCodecConfigAptx parseInfoAptx Selected info src := by
  have hbuild : buildCodecConfigAptx info = (prefer [0x10, 0x20] src.sampleRate).bind fun rate =>
      if src.channelMode &&& 0x02 ≠ 0 then onSuccess (buildInfoAptx mediaTypeAudio
        { sinkCaps with sampleRate := rate, channelMode := 0x02 }) else none := by
    unfold buildCodecConfigAptx
    rw [h]
    dsimp only
    refine congrArg (Option.bind (prefer [0x10, 0x20] src.sampleRate)) (funext fun rate => ?_)
    by_cases hmode : src.channelMode &&& 0x02 ≠ 0
    · exact (if_pos hmode).trans (if_pos hmode).symm
    · exact ((if_neg hmode).trans (if_neg hmode)).trans (if_neg hmode).symm
  cases hrate : prefer [0x10, 0x20] src.sampleRate with
  | none => exact sound_of_none (by rw [hbuild, hrate]; rfl)
  | some rate =>
      rw [hrate] at hbuild
      have hpicks := picks_of_prefer hrate (by decide)
      have hone : OneHot (0x02#8) := by decide
      have hwithin : Within 0x02#8 0x0F#8 ∧ Within 0x02#8 0x02#8 := by decide
      by_cases hmode : src.channelMode &&& 0x02 ≠ 0
      · have hfull := hbuild.trans (if_pos hmode)
        have hrates : Within rate 0xF0 := hpicks.2.2.mono (by decide)
        have hround : RoundTrips buildInfoAptx parseInfoAptx false
            { sinkCaps with sampleRate := rate, channelMode := 0x02 } :=
          (roundTrips_iff ⟨rfl, rfl, hrates, hwithin.1⟩).mpr ⟨hpicks.1, hone⟩
        exact (sound_iff_selected hfull hround).mpr ⟨hpicks, hone, hone.within hmode, hwithin.2⟩
      · exact sound_of_none (hbuild.trans (if_neg hmode))

end Aptx

/-- The ladders of aptX HD and LL have mono too, which their sinks lack: no rate, or stereo, or neither mode. -/
def StereoOrNothing (sampleRate channelMode : Octet) : Prop :=
  sampleRate &&& 0x30 = 0#8 ∨ channelMode &&& 0x02 ≠ 0#8 ∨ channelMode &&& 0x03 = 0#8

section Stereo

variable {rate mode sampleRate channelMode : Octet}

theorem picks_stereo_iff (hrate : prefer [0x10, 0x20] sampleRate = some rate)
    (hmode : prefer [0x02, 0x01] channelMode = some mode) :
    Picks mode channelMode 0x02 ↔ StereoOrNothing sampleRate channelMode := by
  have hsome : sampleRate &&& 0x30 ≠ 0#8 := by
    intro hnone
    have hprefer : prefer [0x10, 0x20] sampleRate = none := prefer_eq_none_iff.mpr hnone
    rw [hprefer] at hrate
    exact nomatch hrate
  have hoffered : channelMode &&& 0x03 ≠ 0#8 := by
    intro hnone
    have hprefer : prefer [0x02, 0x01] channelMode = none := prefer_eq_none_iff.mpr hnone
    rw [hprefer] at hmode
    exact nomatch hmode
  unfold StereoOrNothing
  rw [or_iff_right hsome, or_iff_left hoffered]
  by_cases hstereo : channelMode &&& 0x02 ≠ 0
  · have htwo : prefer [0x02, 0x01] channelMode = some 0x02 := List.find?_cons_of_pos (decide_eq_true hstereo)
    obtain rfl := Option.some.inj (htwo.symm.trans hmode)
    exact iff_of_true ⟨by decide, OneHot.within (by decide) hstereo, by decide⟩ hstereo
  · refine iff_of_false ?_ hstereo
    rintro ⟨hone, hsrc, hsink⟩
    have hnotTwo : mode ≠ 0x02 := by
      rintro rfl
      have hoffers := List.find?_some hmode
      exact hstereo (by simpa using hoffers)
    have hmem := List.mem_of_find?_eq_some hmode
    simp only [List.mem_cons, List.not_mem_nil, or_false] at hmem
    obtain rfl := hmem.resolve_left hnotTwo
    exact absurd hsink (by decide)

theorem stereoOrNothing_of_none (h : prefer [0x10, 0x20] sampleRate = none ∨ prefer [0x02, 0x01] channelMode = none) :
    StereoOrNothing sampleRate channelMode := by
  rcases h with hrate | hmode
  · exact .inl (prefer_eq_none_iff.mp hrate)
  · exact .inr (.inr (prefer_eq_none_iff.mp hmode))

theorem stereo_declared (hrate : prefer [0x10, 0x20] sampleRate = some rate)
    (hmode : prefer [0x02, 0x01] channelMode = some mode) :
    (Picks rate sampleRate 0x30 ∧ OneHot mode) ∧ Within rate 0xF0 ∧ Within mode 0x0F := by
  have hpicks : Picks rate sampleRate 0x30 := picks_of_prefer hrate (by decide)
  have hmodePicks : Picks mode channelMode 0x03 := picks_of_prefer hmode (by decide)
  exact ⟨⟨hpicks, hmodePicks.1⟩, hpicks.2.2.mono (by decide), hmodePicks.2.2.mono (by decide)⟩

end Stereo

namespace AptxHd

variable {info : List Octet} {src : Cie}

def Negotiable (src : Cie) : Prop := StereoOrNothing src.sampleRate src.channelMode

theorem config_sound_iff (h : parseInfoAptxHd info true = .ok src) :
    SoundConfig buildCodecConfigAptxHd parseInfoAptxHd Selected info src ↔ Negotiable src := by
  have hbuild : buildCodecConfigAptxHd info = (prefer [0x10, 0x20] src.sampleRate).bind fun rate =>
      (prefer [0x02, 0x01] src.channelMode).bind fun mode => onSuccess (buildInfoAptxHd mediaTypeAudio
        { sinkCaps with sampleRate := rate, channelMode := mode }) := by
    unfold buildCodecConfigAptxHd
    rw [h]
    rfl
  cases hrate : prefer [0x10, 0x20] src.sampleRate with
  | none =>
      rw [hrate] at hbuild
      exact iff_of_true (sound_of_none hbuild) (stereoOrNothing_of_none (.inl hrate))
  | some rate =>
      cases hmode : prefer [0x02, 0x01] src.channelMode with
      | none =>
          rw [hrate, hmode] at hbuild
          exact iff_of_true (sound_of_none hbuild) (stereoOrNothing_of_none (.inr hmode))
      | some mode =>
          obtain ⟨⟨hpicks, hone⟩, hwithinRate, hwithinMode⟩ := stereo_declared hrate hmode
          have hround : RoundTrips buildInfoAptxHd parseInfoAptxHd false
              { sinkCaps with sampleRate := rate, channelMode := mode } :=
            (roundTrips_iff ⟨rfl, rfl, hwithinRate, hwithinMode⟩).mpr ⟨hpicks.1, hone⟩
          rw [hrate, hmode] at hbuild
          rw [sound_iff_selected hbuild hround]
          exact (and_iff_right hpicks).trans (picks_stereo_iff hrate hmode)

end AptxHd

namespace AptxLl

variable {info : List Octet} {src : Cie}

def Negotiable (src : Cie) : Prop := StereoOrNothing src.sampleRate src.channelMode

theorem config_sound_iff (h : parseInfoAptxLl info true = .ok src) :
    SoundConfig buildCodecConfigAptxLl parseInfoAptxLl Selected info src ↔ Negotiable src := by
  have hbuild : buildCodecConfigAptxLl info = (prefer [0x10, 0x20] src.sampleRate).bind fun rate =>
      (prefer [0x02, 0x01] src.channelMode).bind fun mode => onSuccess (buildInfoAptxLl mediaTypeAudio
        { sinkCaps with sampleRate := rate, channelMode := mode }) := by
    unfold buildCodecConfigAptxLl
    rw [h]
    rfl
  cases hrate : prefer [0x10, 0x20] src.sampleRate with
  | none =>
      rw [hrate] at hbuild
      exact iff_of_true (sound_of_none hbuild) (stereoOrNothing_of_none (.inl hrate))
  | some rate =>
      cases hmode : prefer [0x02, 0x01] src.channelMode with
      | none =>
          rw [hrate, hmode] at hbuild
          exact iff_of_true (sound_of_none hbuild) (stereoOrNothing_of_none (.inr hmode))
      | some mode =>
          obtain ⟨⟨hpicks, hone⟩, hwithinRate, hwithinMode⟩ := stereo_declared hrate hmode
          have hround : RoundTrips buildInfoAptxLl parseInfoAptxLl false
              { sinkCaps with sampleRate := rate, channelMode := mode } :=
            (roundTrips_iff ⟨rfl, rfl, hwithinRate, hwithinMode, within_zero, within_zero⟩).mpr ⟨hpicks.1, hone⟩
          rw [hrate, hmode] at hbuild
          rw [sound_iff_selected hbuild hround]
          refine (and_iff_right hpicks).trans (Iff.trans ?_ (picks_stereo_iff hrate hmode))
          exact and_iff_left ⟨within_zero, within_zero⟩

end AptxLl

/-! ## All codecs -/

/-- The source capabilities that a codec's build function is sound for. -/
def Codec.Negotiable : (c : Codec) → c.Cie → Prop
  | .sbc => Sbc.Negotiable
  | .aac => fun _ => False
  | .ldac => fun _ => True
  | .lhdcv5 => Lhdcv5.Negotiable
  | .lc3plus => Lc3plus.Negotiable
  | .opus => fun _ => True
  | .aptx => fun _ => True
  | .aptxHd => AptxHd.Negotiable
  | .aptxLl => AptxLl.Negotiable

/-- What a codec builds for parsed source capabilities is accepted as a configuration, and selects an option of both sides in
each field, exactly for the negotiable capabilities. -/
theorem sink_config_sound_iff (c : Codec) (info : List Octet) (src : c.Cie) (h : c.parse info true = .ok src) :
    SoundConfig c.buildCodecConfig c.parse c.Selected info src ↔ c.Negotiable src := by
  cases c with
  | sbc => exact Sbc.config_sound_iff h
  | aac => exact iff_of_false Aac.config_not_sound id
  | ldac => exact iff_of_true (Ldac.config_sound h) True.intro
  | lhdcv5 => exact Lhdcv5.config_sound_iff h
  | lc3plus => exact Lc3plus.config_sound_iff h
  | opus => exact iff_of_true (Opus.config_sound h) True.intro
  | aptx => exact iff_of_true (Aptx.config_sound h) True.intro
  | aptxHd => exact AptxHd.config_sound_iff h
  | aptxLl => exact AptxLl.config_sound_iff h

/-- SBC capabilities with a single option in each field, and bit pools from 2 to 53. -/
def sbcOctets (rate : Octet) : List Octet := [6, 0, 0, rate ||| 0x01, 0x15, 2, 53]

theorem sink_config_sound_iff_sbc : SoundConfig Codec.sbc.buildCodecConfig Codec.sbc.parse Codec.sbc.Selected
    (sbcOctets 0x20) (Sbc.cieOf (sbcOctets 0x20)) :=
  (sink_config_sound_iff .sbc (sbcOctets 0x20) (Sbc.cieOf (sbcOctets 0x20)) rfl).mpr
    (.inr ⟨by decide, by decide, by decide, by decide, by decide⟩)

/-- A source with 16 kHz only gets the default of 44.1 kHz; an AAC source gets all that the sink has. -/
theorem config_not_offered :
    (Codec.sbc.parse (sbcOctets 0x80) true = .ok (Sbc.cieOf (sbcOctets 0x80)) ∧
      ¬SoundConfig Codec.sbc.buildCodecConfig Codec.sbc.parse Codec.sbc.Selected (sbcOctets 0x80)
        (Sbc.cieOf (sbcOctets 0x80))) ∧
    (Codec.aac.parse (Aac.bytes Aac.sinkCaps) true = .ok Aac.sinkCaps ∧
      ¬SoundConfig Codec.aac.buildCodecConfig Codec.aac.parse Codec.aac.Selected (Aac.bytes Aac.sinkCaps)
        Aac.sinkCaps) := by
  refine ⟨⟨rfl, fun hsound => ?_⟩, rfl, Aac.config_not_sound⟩
  have hnegotiable := (Sbc.config_sound_iff rfl).mp hsound
  rcases hnegotiable with hpool | hfields
  · exact absurd hpool (by decide)
  · exact absurd hfields.1 (by decide)

end EspIdf.A2dp
