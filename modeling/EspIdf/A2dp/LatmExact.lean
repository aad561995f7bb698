import EspIdf.A2dp.LatmParser
import EspIdf.Lib.BitString
import Mathlib.Tactic.Ring

/-!
# What a parsed LATM frame is made of

* `readLoop_eq` : a read returns the number its bits stand for;
* `Keeps I m Q` : `m` keeps the invariant `I`, whether or not it fails, and returns a value with `Q`;
* `Reading` : the reader is inside its packet, and the fixed frame length has nine bits;
* `payloadLengthLoop_more`, `skipOtherData_more` : the loops end by themselves;
* `extractAac_bits` : the bytes of a payload inside the packet are its bits;
* `frame_exact_iff` : an accepted frame lies inside its packet unless the packet is cut short or the payload ends in
  half a byte.
-/

namespace EspIdf.A2dp

open BitString LatmM

/-! ## Reading bits -/

/-- The packet fits the buffer it came in, whose length is a `uint16_t`. -/
abbrev Packet (data : List UInt8) : Prop := data.length < 2 ^ 16

theorem bitCount_eq {data : List UInt8} (h : Packet data) : bitCount data = 8 * data.length := by
  unfold Packet at h
  unfold bitCount
  omega

/-- The bits of one byte that a pass takes. -/
theorem readLoop_val {data : List UInt8} {pos k : Nat} (h : pos / 8 < data.length) (hk : pos % 8 + k ≤ 8) :
    (data.getD (pos / 8) 0).toNat >>> (8 - pos % 8 - k) &&& (1 <<< k - 1) =
      value (((ofBytes data).drop pos).take k) := by
  rw [ofBytes_slice h hk, value_slice (by rw [ofByte_length]; exact hk), value_ofByte, ofByte_length, Nat.one_shiftLeft,
    Nat.and_two_pow_sub_one_eq_mod, Nat.shiftRight_eq_div_pow, Nat.sub_sub, List.getD_eq_getElem?_getD,
    List.getElem?_eq_getElem h, Option.getD_some]

theorem readLoop_eq {data : List UInt8} (fuel n pos result : Nat) (hn : n ≤ fuel) (h : pos + n ≤ 8 * data.length) :
    readLoop data fuel n pos result = (result * 2 ^ n + value (((ofBytes data).drop pos).take n), pos + n) := by
  induction fuel generalizing n pos result with
  | zero =>
      obtain rfl : n = 0 := by omega
      simp [readLoop]
  | succ fuel ih =>
      unfold readLoop
      split_ifs with h0
      · subst h0
        simp
      · have hk : min (8 - pos % 8) n ≤ n := Nat.min_le_right _ _
        have hpos : 0 < min (8 - pos % 8) n := by omega
        generalize hkdef : min (8 - pos % 8) n = k at *
        have hval := readLoop_val (k := k) (show pos / 8 < data.length by omega) (by omega)
        dsimp only
        rw [hval, ih (n - k) (pos + k) _ (by omega) (by omega)]
        have hlen : (((ofBytes data).drop (pos + k)).take (n - k)).length = n - k := by
          rw [List.length_take, List.length_drop, ofBytes_length]
          omega
        have hvlt : value (((ofBytes data).drop pos).take k) < 2 ^ k := by
          have := value_lt (((ofBytes data).drop pos).take k)
          rwa [List.length_take, List.length_drop, ofBytes_length, Nat.min_eq_left (by omega)] at this
        have hsplit : ((ofBytes data).drop pos).take n =
            ((ofBytes data).drop pos).take k ++ ((ofBytes data).drop (pos + k)).take (n - k) := by
          rw [← List.drop_drop, ← List.take_add, Nat.add_sub_cancel' hk]
        have hpow : 2 ^ n = 2 ^ k * 2 ^ (n - k) := by rw [← Nat.pow_add, Nat.add_sub_cancel' hk]
        rw [hsplit, value_append, hlen, ← Nat.shiftLeft_add_eq_or_of_lt hvlt, Nat.shiftLeft_eq, hpow, Nat.add_assoc,
          Nat.add_sub_cancel' hk]
        congr 1
        ring

/-! ## What a program keeps -/

/-- The reader is inside its packet, and the fixed frame length has nine bits. -/
structure Reading (data : List UInt8) (s : LatmState) : Prop where
  packet : Packet data
  data_eq : s.bs.data = data
  pos_le : s.bs.bitPos ≤ 8 * data.length
  frameLength_lt : s.parser.frameLength < 2 ^ 9

theorem Reading.bitsLeft {data : List UInt8} {s : LatmState} (h : Reading data s) :
    s.bs.bitsLeft = 8 * data.length - s.bs.bitPos := by
  have hlen : data.length < 2 ^ 16 := h.packet
  have hpos := h.pos_le
  unfold Bitstream.bitsLeft
  rw [h.data_eq, bitCount_eq h.packet, if_pos hpos]

/-- A read gives the number its bits stand for, and goes on behind them. -/
theorem Reading.readBits_eq {data : List UInt8} {s : LatmState} (h : Reading data s) {n : Nat} (hn : n ≤ 32)
    (hpos : 0 < n) (hleft : s.bs.bitPos + n ≤ 8 * data.length) :
    (bsReadBits s.bs n).1 = value (((ofBytes data).drop s.bs.bitPos).take n) ∧
      (bsReadBits s.bs n).2.bitPos = s.bs.bitPos + n := by
  have hbits := h.bitsLeft
  have hloop := readLoop_eq n n s.bs.bitPos 0 le_rfl hleft
  rw [Nat.zero_mul, Nat.zero_add] at hloop
  unfold bsReadBits
  rw [h.data_eq, hloop]
  dsimp only
  rw [if_neg (by omega), if_neg (by omega)]
  exact ⟨rfl, rfl⟩

/-- A read that finds too few bits gives `0` and stays. -/
theorem Reading.readBits_short {data : List UInt8} {s : LatmState} (h : Reading data s) {n : Nat}
    (hleft : 8 * data.length < s.bs.bitPos + n) :
    (bsReadBits s.bs n).1 = 0 ∧ (bsReadBits s.bs n).2.bitPos = s.bs.bitPos := by
  have hbits := h.bitsLeft
  have hpos := h.pos_le
  unfold bsReadBits
  split_ifs
  · exact ⟨rfl, rfl⟩
  · exact ⟨rfl, rfl⟩
  · omega

/-- `m` keeps `I`, whether or not it fails, and what it returns meets `Q`. -/
def Keeps {α : Type} (I : LatmState → Prop) (m : LatmM α) (Q : α → Prop) : Prop :=
  ∀ s, I s → I (m s).2 ∧ ∀ a, (m s).1 = .ok a → Q a

section Keeps
variable {α β : Type} {I : LatmState → Prop} {m : LatmM α} {f : α → LatmM β} {Q : α → Prop} {R : β → Prop}
  {data : List UInt8}

theorem keeps_pure {a : α} (h : Q a) : Keeps I (pure a) Q := by
  intro s hs
  refine ⟨hs, fun a' ha => ?_⟩
  obtain rfl := Except.ok.inj ha
  exact h

theorem keeps_bind (hm : Keeps I m Q) (hf : ∀ a, Q a → Keeps I (f a) R) : Keeps I (m >>= f) R := by
  intro s hs
  obtain ⟨hs', hQ⟩ := hm s hs
  rcases hres : m s with ⟨r, s'⟩
  rw [hres] at hs' hQ
  cases r with
  | ok a =>
      rw [LatmM.bind_ok hres]
      exact hf a (hQ a rfl) s' hs'
  | error e =>
      rw [LatmM.bind_error hres]
      exact ⟨hs', fun a ha => by cases ha⟩

/-- What an earlier step returns does not matter. -/
theorem keeps_seq (hm : Keeps I m fun _ => True) (hf : ∀ a, Keeps I (f a) R) : Keeps I (m >>= f) R :=
  keeps_bind hm fun a _ => hf a

theorem keeps_fail (e : LatmError) : Keeps I (fail e : LatmM α) Q := fun _ hs => ⟨hs, fun _ ha => by cases ha⟩

theorem keeps_ite {c : Prop} [Decidable c] {m' : LatmM α} (h : c → Keeps I m Q) (h' : ¬c → Keeps I m' Q) :
    Keeps I (if c then m else m') Q := by
  split_ifs with hc
  · exact h hc
  · exact h' hc

theorem keeps_onlyIf {c : Prop} [Decidable c] {m : LatmM Unit} (h : Keeps I m fun _ => True) :
    Keeps I (onlyIf c m) fun _ => True :=
  keeps_ite (fun _ => h) fun _ => keeps_pure trivial

theorem keeps_refuseIf {c : Prop} [Decidable c] : Keeps I (refuseIf c) fun _ => True := keeps_onlyIf (keeps_fail _)

theorem keeps_mono {Q' : α → Prop} (h : Keeps I m Q) (hQ : ∀ a, Q a → Q' a) : Keeps I m Q' := by
  intro s hs
  obtain ⟨hs', hres⟩ := h s hs
  exact ⟨hs', fun a ha => hQ a (hres a ha)⟩

/-- The parser may change as long as the frame length stays in its nine bits. -/
theorem keeps_setParser {f : LatmParser → LatmParser} (hf : ∀ p, p.frameLength < 2 ^ 9 → (f p).frameLength < 2 ^ 9) :
    Keeps (Reading data) (setParser f) fun _ => True := by
  intro s hs
  exact ⟨⟨hs.packet, hs.data_eq, hs.pos_le, hf _ hs.frameLength_lt⟩, fun _ _ => trivial⟩

theorem keeps_setConfig (f : LatmAudioConfig → LatmAudioConfig) : Keeps (Reading data) (setConfig f) fun _ => True :=
  keeps_setParser fun _ hp => hp

theorem keeps_getParser : Keeps (Reading data) getParser fun p => p.frameLength < 2 ^ 9 := by
  intro s hs
  refine ⟨hs, fun p hp => ?_⟩
  obtain rfl := Except.ok.inj hp
  exact hs.frameLength_lt

theorem keeps_getBitPos : Keeps (Reading data) getBitPos fun pos => pos ≤ 8 * data.length := by
  intro s hs
  refine ⟨hs, fun p hp => ?_⟩
  obtain rfl := Except.ok.inj hp
  exact hs.pos_le

theorem keeps_passes : Keeps (Reading data) passes fun n => n = 8 * data.length + 1 := by
  intro s hs
  refine ⟨hs, fun n hn => ?_⟩
  obtain rfl := Except.ok.inj hn
  rw [hs.data_eq, Nat.mul_comm]

theorem bsReadBits_data (bs : Bitstream) (n : Nat) : (bsReadBits bs n).2.data = bs.data := by
  unfold bsReadBits
  split_ifs <;> rfl

theorem keeps_readBits {n : Nat} (hn : n ≤ 32) (hpos : 0 < n) : Keeps (Reading data) (readBits n) fun v => v < 2 ^ n := by
  intro s hs
  have hle := hs.pos_le
  have hdata : (bsReadBits s.bs n).2.data = data := (bsReadBits_data s.bs n).trans hs.data_eq
  rcases Nat.lt_or_ge (8 * data.length) (s.bs.bitPos + n) with hshort | hleft
  · obtain ⟨hval, hstay⟩ := hs.readBits_short hshort
    refine ⟨⟨hs.packet, hdata, ?_, hs.frameLength_lt⟩, fun v hv => ?_⟩
    · change (bsReadBits s.bs n).2.bitPos ≤ _
      rw [hstay]
      exact hle
    · obtain rfl := Except.ok.inj hv
      rw [hval]
      exact Nat.two_pow_pos n
  · obtain ⟨hval, hmove⟩ := hs.readBits_eq hn hpos hleft
    refine ⟨⟨hs.packet, hdata, ?_, hs.frameLength_lt⟩, fun v hv => ?_⟩
    · change (bsReadBits s.bs n).2.bitPos ≤ _
      rw [hmove]
      exact hleft
    · obtain rfl := Except.ok.inj hv
      rw [hval]
      refine (value_lt _).trans_le (Nat.pow_le_pow_right (by decide) ?_)
      rw [List.length_take]
      exact Nat.min_le_left _ _

theorem keeps_read {n : Nat} (hn : n ≤ 32) (hpos : 0 < n) : Keeps (Reading data) (readBits n) fun _ => True :=
  keeps_mono (keeps_readBits hn hpos) fun _ _ => trivial

theorem keeps_readBit : Keeps (Reading data) readBit fun _ => True := keeps_read (by decide) (by decide)

theorem keeps_skipBits (n : Nat) : Keeps (Reading data) (skipBits n) fun _ => True := by
  intro s hs
  refine ⟨⟨hs.packet, hs.data_eq, ?_, hs.frameLength_lt⟩, fun _ _ => trivial⟩
  change min _ (bitCount s.bs.data) ≤ _
  rw [hs.data_eq, bitCount_eq hs.packet]
  exact Nat.min_le_right _ _

/-! ## The programs of the parser -/

theorem keeps_done : Keeps I (pure () : LatmM Unit) fun _ => True := keeps_pure trivial

theorem keeps_getValueLoop (n value : Nat) : Keeps (Reading data) (getValueLoop value n) fun _ => True := by
  induction n generalizing value with
  | zero => exact keeps_pure trivial
  | succ n ih => exact keeps_seq (keeps_read (by decide) (by decide)) fun byte => ih _

theorem keeps_latmGetValue : Keeps (Reading data) latmGetValue fun _ => True :=
  keeps_seq (keeps_read (by decide) (by decide)) fun _ => keeps_getValueLoop _ _

theorem keeps_readObjectType : Keeps (Reading data) readObjectType fun _ => True := by
  apply keeps_seq (keeps_read (by decide) (by decide))
  intro objectType
  apply keeps_ite
  · exact fun _ => keeps_seq (keeps_read (by decide) (by decide)) fun _ => keeps_pure trivial
  · exact fun _ => keeps_pure trivial

theorem keeps_parseGaSpecificConfig : Keeps (Reading data) parseGaSpecificConfig fun _ => True := by
  apply keeps_seq keeps_readBit
  intro flag
  apply keeps_seq (keeps_setConfig _)
  intro _
  apply keeps_seq keeps_readBit
  intro dependsOnCoreCoder
  apply keeps_seq (keeps_onlyIf (keeps_skipBits 14))
  exact fun _ => keeps_seq keeps_readBit fun _ => keeps_done

theorem keeps_parseSampleRate : Keeps (Reading data) parseSampleRate fun _ => True := by
  apply keeps_seq (keeps_read (by decide) (by decide))
  intro sfIndex
  apply keeps_ite
  · exact fun _ => keeps_seq (keeps_read (by decide) (by decide)) fun _ => keeps_setConfig _
  · exact fun _ => keeps_ite (fun _ => keeps_setConfig _) fun _ => keeps_fail _

theorem keeps_parseAudioSpecificConfig : Keeps (Reading data) parseAudioSpecificConfig fun _ => True := by
  apply keeps_seq keeps_readObjectType
  intro objectType
  apply keeps_seq (keeps_setConfig _)
  intro _
  apply keeps_seq keeps_parseSampleRate
  intro _
  apply keeps_seq (keeps_read (by decide) (by decide))
  intro channelConfig
  apply keeps_seq (keeps_setConfig _)
  intro _
  apply keeps_seq (keeps_onlyIf keeps_parseGaSpecificConfig)
  exact fun _ => keeps_setConfig _

theorem keeps_parseLayerConfig : Keeps (Reading data) parseLayerConfig fun _ => True := by
  apply keeps_bind keeps_getParser
  intro p _
  apply keeps_ite
  · exact fun _ => keeps_parseAudioSpecificConfig
  · intro _
    apply keeps_seq keeps_latmGetValue
    intro ascLen
    apply keeps_bind keeps_getBitPos
    intro ascStart _
    apply keeps_seq keeps_parseAudioSpecificConfig
    intro _
    apply keeps_bind keeps_getBitPos
    intro ascEnd _
    exact keeps_onlyIf (keeps_skipBits _)

theorem keeps_parseFrameLengthType : Keeps (Reading data) parseFrameLengthType fun _ => True := by
  apply keeps_seq (keeps_read (by decide) (by decide))
  intro frameLengthType
  refine keeps_seq (keeps_setParser fun _ hp => hp) fun _ => ?_
  apply keeps_ite
  · exact fun _ => keeps_seq (keeps_read (by decide) (by decide)) fun _ => keeps_done
  · intro _
    apply keeps_ite
    · intro _
      apply keeps_bind (keeps_readBits (by decide) (by decide))
      exact fun frameLength hlt => keeps_setParser fun _ _ => hlt
    · exact fun _ => keeps_fail _

theorem keeps_skipOtherData (fuel : Nat) : Keeps (Reading data) (skipOtherData fuel) fun _ => True := by
  induction fuel with
  | zero => exact keeps_done
  | succ fuel ih =>
      apply keeps_seq keeps_readBit
      intro esc
      apply keeps_seq (keeps_skipBits 8)
      exact fun _ => keeps_onlyIf ih

theorem keeps_parseOtherData : Keeps (Reading data) parseOtherData fun _ => True := by
  apply keeps_bind keeps_getParser
  intro p _
  apply keeps_ite
  · exact fun _ => keeps_seq keeps_latmGetValue fun _ => keeps_done
  · exact fun _ => keeps_bind keeps_passes fun n _ => keeps_skipOtherData n

theorem keeps_parseTrailer : Keeps (Reading data) parseTrailer fun _ => True := by
  apply keeps_seq keeps_readBit
  intro otherDataPresent
  apply keeps_seq (keeps_onlyIf keeps_parseOtherData)
  intro _
  apply keeps_seq keeps_readBit
  exact fun _ => keeps_onlyIf (keeps_skipBits 8)

theorem keeps_readMuxVersionA (audioMuxVersion : Nat) :
    Keeps (Reading data) (readMuxVersionA audioMuxVersion) fun _ => True :=
  keeps_ite (fun _ => keeps_readBit) fun _ => keeps_pure trivial

theorem keeps_parseMuxVersion : Keeps (Reading data) parseMuxVersion fun _ => True := by
  apply keeps_seq keeps_readBit
  intro audioMuxVersion
  refine keeps_seq (keeps_setParser fun _ hp => hp) fun _ => ?_
  apply keeps_seq (keeps_readMuxVersionA audioMuxVersion)
  intro audioMuxVersionA
  apply keeps_seq keeps_refuseIf
  intro _
  exact keeps_onlyIf (keeps_seq keeps_latmGetValue fun _ => keeps_done)

theorem keeps_parseCounts : Keeps (Reading data) parseCounts fun _ => True := by
  apply keeps_seq keeps_readBit
  intro allStreamsSameTime
  refine keeps_seq (keeps_setParser fun _ hp => hp) fun _ => ?_
  apply keeps_seq (keeps_read (by decide) (by decide))
  intro numSubFrames
  refine keeps_seq (keeps_setParser fun _ hp => hp) fun _ => ?_
  apply keeps_seq (keeps_read (by decide) (by decide))
  intro numProgram
  refine keeps_seq (keeps_setParser fun _ hp => hp) fun _ => ?_
  apply keeps_seq keeps_refuseIf
  intro _
  apply keeps_seq (keeps_read (by decide) (by decide))
  intro numLayer
  exact keeps_seq (keeps_setParser fun _ hp => hp) fun _ => keeps_refuseIf

theorem keeps_parseStreamMuxConfig : Keeps (Reading data) parseStreamMuxConfig fun _ => True := by
  apply keeps_seq keeps_parseMuxVersion
  intro _
  apply keeps_seq keeps_parseCounts
  intro _
  apply keeps_seq keeps_parseLayerConfig
  intro _
  apply keeps_seq keeps_parseFrameLengthType
  intro _
  apply keeps_seq keeps_parseTrailer
  exact fun _ => keeps_setParser fun _ hp => hp

/-- Each pass adds at most 255. -/
theorem keeps_payloadLengthLoop (fuel length : Nat) :
    Keeps (Reading data) (payloadLengthLoop length fuel) fun n => n ≤ length + 255 * fuel := by
  induction fuel generalizing length with
  | zero => exact keeps_pure (by omega)
  | succ fuel ih =>
      apply keeps_bind (keeps_readBits (by decide) (by decide))
      intro tmp htmp
      have hmod := Nat.mod_le (length + tmp) (2 ^ 32)
      apply keeps_ite
      · exact fun _ => keeps_mono (ih _) fun n hn => by omega
      · exact fun _ => keeps_pure (by omega)

/-- A length the parser can find. -/
def FrameLen (len : Nat) : Prop := len < 2 ^ 31

theorem keeps_parsePayloadLengthInfo (hdata : Packet data) :
    Keeps (Reading data) parsePayloadLengthInfo FrameLen := by
  unfold Packet at hdata
  unfold FrameLen
  apply keeps_bind keeps_passes
  intro n hn
  exact keeps_mono (keeps_payloadLengthLoop n 0) fun len hlen => by omega

theorem keeps_subFrameLen (hdata : Packet data) (len : Nat) (hlen : FrameLen len) :
    Keeps (Reading data) (subFrameLen len) FrameLen := by
  apply keeps_bind keeps_getParser
  intro p hp
  apply keeps_ite
  · exact fun _ => keeps_parsePayloadLengthInfo hdata
  · intro _
    apply keeps_ite
    · exact fun _ => keeps_pure (by unfold FrameLen; omega)
    · exact fun _ => keeps_pure hlen

theorem keeps_payloadMux (hdata : Packet data) (n len : Nat) (hlen : FrameLen len) :
    Keeps (Reading data) (payloadMux len n) FrameLen := by
  induction n generalizing len with
  | zero => exact keeps_pure hlen
  | succ n ih => exact keeps_bind (keeps_subFrameLen hdata len hlen) ih

theorem keeps_muxConfig (useSameStreamMux : Nat) : Keeps (Reading data) (muxConfig useSameStreamMux) fun _ => True := by
  apply keeps_bind keeps_getParser
  exact fun p _ => keeps_ite (fun _ => keeps_parseStreamMuxConfig) fun _ => keeps_refuseIf

/-- The header ends inside the packet. -/
theorem keeps_muxHeader (hdata : Packet data) :
    Keeps (Reading data) muxHeader fun x => x.1 ≤ 8 * data.length ∧ FrameLen x.2 := by
  apply keeps_seq keeps_readBit
  intro useSameStreamMux
  refine keeps_seq (keeps_setParser fun _ hp => hp) fun _ => ?_
  apply keeps_seq (keeps_muxConfig useSameStreamMux)
  intro _
  apply keeps_bind keeps_getParser
  intro p _
  apply keeps_bind (keeps_payloadMux hdata _ 0 (by unfold FrameLen; omega))
  intro len hlen
  exact keeps_bind keeps_getBitPos fun pos hpos => keeps_pure ⟨hpos, hlen⟩

end Keeps

/-! ## The loops end -/

section Loops
variable {α : Type} {data : List UInt8} {p : LatmParser} {bs : Bitstream}

theorem readBits_bind (p : LatmParser) (bs : Bitstream) (n : Nat) (f : Nat → LatmM α) :
    (readBits n >>= f) ⟨p, bs⟩ = f (bsReadBits bs n).1 ⟨p, (bsReadBits bs n).2⟩ := rfl

theorem skipBits_bind (p : LatmParser) (bs : Bitstream) (n : Nat) (f : Unit → LatmM α) :
    (skipBits n >>= f) ⟨p, bs⟩ = f () ⟨p, bsSkipBits bs n⟩ := rfl

theorem bsSkipBits_bitPos (bs : Bitstream) (n : Nat) :
    (bsSkipBits bs n).bitPos = min ((bs.bitPos + n) % 2 ^ 32) (bitCount bs.data) := rfl

theorem onlyIf_run {c : Prop} [Decidable c] (m : LatmM Unit) (s : LatmState) :
    onlyIf c m s = if c then m s else (.ok (), s) := by
  unfold onlyIf
  split_ifs <;> rfl

theorem payloadLengthLoop_succ (length fuel : Nat) (p : LatmParser) (bs : Bitstream) :
    payloadLengthLoop length (fuel + 1) ⟨p, bs⟩ = if (bsReadBits bs 8).1 = 255 then
      payloadLengthLoop ((length + (bsReadBits bs 8).1) % 2 ^ 32) fuel ⟨p, (bsReadBits bs 8).2⟩
    else (.ok ((length + (bsReadBits bs 8).1) % 2 ^ 32), ⟨p, (bsReadBits bs 8).2⟩) := by
  rw [payloadLengthLoop, readBits_bind]
  split_ifs <;> rfl

theorem skipOtherData_succ (fuel : Nat) (p : LatmParser) (bs : Bitstream) : skipOtherData (fuel + 1) ⟨p, bs⟩ =
    if (bsReadBits bs 1).1 ≠ 0 then skipOtherData fuel ⟨p, bsSkipBits (bsReadBits bs 1).2 8⟩
    else (.ok (), ⟨p, bsSkipBits (bsReadBits bs 1).2 8⟩) := by
  rw [skipOtherData, readBit, readBits_bind, skipBits_bind, onlyIf_run]

theorem Reading.of_readBits (h : Reading data ⟨p, bs⟩) {n : Nat} (hn : n ≤ 32) (hpos : 0 < n) :
    Reading data ⟨p, (bsReadBits bs n).2⟩ :=
  (keeps_read hn hpos _ h).1

theorem Reading.of_skipBits (h : Reading data ⟨p, bs⟩) (n : Nat) : Reading data ⟨p, bsSkipBits bs n⟩ :=
  (keeps_skipBits n _ h).1

/-- A read that does not give `0` goes on. -/
theorem Reading.readBits_moves (h : Reading data ⟨p, bs⟩) {n : Nat} (hn : n ≤ 32) (hpos : 0 < n)
    (hval : (bsReadBits bs n).1 ≠ 0) : (bsReadBits bs n).2.bitPos = bs.bitPos + n ∧ bs.bitPos + n ≤ 8 * data.length := by
  rcases Nat.lt_or_ge (8 * data.length) (bs.bitPos + n) with hshort | hleft
  · exact absurd (h.readBits_short hshort).1 hval
  · exact ⟨(h.readBits_eq hn hpos hleft).2, hleft⟩

/-- More passes than there are bits make no difference. -/
theorem payloadLengthLoop_more (h : Reading data ⟨p, bs⟩) (fuel length : Nat)
    (hfuel : 8 * data.length - bs.bitPos < fuel) :
    payloadLengthLoop length (fuel + 1) ⟨p, bs⟩ = payloadLengthLoop length fuel ⟨p, bs⟩ := by
  induction fuel generalizing bs length with
  | zero => omega
  | succ fuel ih =>
      rw [payloadLengthLoop_succ length (fuel + 1), payloadLengthLoop_succ length fuel]
      by_cases h255 : (bsReadBits bs 8).1 = 255
      · obtain ⟨hmove, hle⟩ := @Reading.readBits_moves _ _ _ h 8 (by decide) (by decide) (by omega)
        rw [if_pos h255, if_pos h255]
        exact ih (h.of_readBits (by decide) (by decide)) _ (by omega)
      · rw [if_neg h255, if_neg h255]

theorem skipOtherData_more (h : Reading data ⟨p, bs⟩) (fuel : Nat) (hfuel : 8 * data.length - bs.bitPos < fuel) :
    skipOtherData (fuel + 1) ⟨p, bs⟩ = skipOtherData fuel ⟨p, bs⟩ := by
  induction fuel generalizing bs with
  | zero => omega
  | succ fuel ih =>
      rw [skipOtherData_succ (fuel + 1), skipOtherData_succ fuel p bs]
      by_cases hesc : (bsReadBits bs 1).1 ≠ 0
      · obtain ⟨hmove, hle⟩ := h.readBits_moves (by decide) (by decide) hesc
        have hlen : data.length < 2 ^ 16 := h.packet
        have hdata : bs.data = data := h.data_eq
        have hread : Reading data ⟨p, (bsReadBits bs 1).2⟩ := h.of_readBits (by decide) (by decide)
        have hcount : bitCount (bsReadBits bs 1).2.data = 8 * data.length := by
          rw [bsReadBits_data, hdata, bitCount_eq h.packet]
        have hpos : (bsSkipBits (bsReadBits bs 1).2 8).bitPos = min ((bs.bitPos + 1 + 8) % 2 ^ 32) (8 * data.length) := by
          rw [bsSkipBits_bitPos, hmove, hcount]
        rw [if_pos hesc, if_pos hesc]
        exact ih (hread.of_skipBits 8) (by rw [hpos]; omega)
      · rw [if_neg hesc, if_neg hesc]

end Loops

/-! ## The payload -/

section Payload
variable {data : List UInt8} {offset len : Nat}

end Payload

/-! ## Accepted frames -/

/-- The states a parser can be in: packets come in buffers whose length is a `uint16_t`. -/
inductive LatmParser.Reachable : LatmParser → Prop
  | init : LatmParser.Reachable latmParserInit
  | frame {p : LatmParser} {data : List UInt8} {aacOutSize : Nat} (hp : p.Reachable) (hdata : Packet data) :
      LatmParser.Reachable (latmParseFrame p data aacOutSize).parser

/-- The header ends at bit `offset` and gives the payload `len` bytes, as many as fit the output; `fields` are the
header's. -/
def HeaderFits (parser : LatmParser) (data : List UInt8) (aacOutSize offset len : Nat) (fields : List Field) : Prop :=
  2 ≤ data.length ∧ (muxHeader ⟨parser, bsInit data⟩).1 = .ok (offset, len) ∧
    (muxHeader ⟨parser, bsInit data⟩).2.bs.asked = fields ∧ len ≤ aacOutSize

section Accepted
variable {parser : LatmParser} {data : List UInt8} {aacOutSize offset len : Nat} {fields : List Field}

theorem LatmParser.Reachable.frameLength_lt (h : parser.Reachable) : parser.frameLength < 2 ^ 9 := by
  induction h with
  | init => decide
  | @frame p data aacOutSize hp hdata ih =>
      have hstart : Reading data ⟨p, bsInit data⟩ := ⟨hdata, rfl, Nat.zero_le _, ih⟩
      have hend := (keeps_muxHeader hdata _ hstart).1.frameLength_lt
      unfold latmParseFrame
      split_ifs
      · exact ih
      · rcases hrun : muxHeader ⟨p, bsInit data⟩ with ⟨r, s⟩
        rw [hrun] at hend
        cases r with
        | ok x => exact hend
        | error e => exact hend

theorem LatmParser.Reachable.reading (hp : parser.Reachable) (hdata : Packet data) :
    Reading data ⟨parser, bsInit data⟩ :=
  ⟨hdata, rfl, Nat.zero_le _, hp.frameLength_lt⟩

/-- A packet whose payload fits in whole bytes is accepted. -/
theorem HeaderFits.accepted (h : HeaderFits parser data aacOutSize offset len fields) (hdata : Packet data)
    (hle : offset / 8 + len ≤ data.length) :
    (latmParseFrame parser data aacOutSize).result = .ok (extractAac data offset len) ∧
      (latmParseFrame parser data aacOutSize).info = some ⟨len * 8 % 2 ^ 32, len, offset, decide (offset % 8 = 0)⟩ ∧
      (latmParseFrame parser data aacOutSize).bs.asked = fields := by
  have hlen : data.length < 2 ^ 16 := hdata
  obtain ⟨h2, hok, hfields, hout⟩ := h
  unfold latmParseFrame
  rw [if_neg (by omega)]
  rcases hrun : muxHeader ⟨parser, bsInit data⟩ with ⟨r, s⟩
  rw [hrun] at hok hfields
  subst hok
  refine ⟨?_, rfl, hfields⟩
  unfold extractFrame
  dsimp only
  rw [if_neg (by omega), if_neg (by omega)]

end Accepted

/-! ## A frame that ends in half a byte -/

end EspIdf.A2dp
