import EspIdf.Ota.OtaRuns

/-!
# Entries whose rewriting was cut

* `bytes_ofBytes` : 32 bytes are an entry;
* `Fades` : an erase that is cut leaves the entry as it is, or unselectable;
* `cut_write` : what a cut of an erase and a write leaves of an entry.
-/

namespace EspIdf.Ota

open Word32 Crc32 NorFlash

namespace OtaSelectEntry

/-! ## The bytes of an entry -/

theorem leBytes_wordsOf {bs : List UInt8} (h : bs.length = 4) : leBytes ((wordsOf bs).getD 0 0) = bs := by
  match bs, h with
  | [b0, b1, b2, b3], _ => exact leBytes_leWord b0 b1 b2 b3

theorem bytes_ofBytes {bs : List UInt8} (h : bs.length = 32) : (ofBytes bs).bytes = bs := by
  obtain ⟨label, hlabel⟩ : ∃ label : Vector UInt8 20, label.toList = (bs.drop 4).take 20 := by
    refine ⟨⟨((bs.drop 4).take 20).toArray, ?_⟩, rfl⟩
    rw [List.size_toArray, List.length_take, List.length_drop]
    omega
  have hseq : leBytes ((wordsOf (bs.take 4)).getD 0 0) = bs.take 4 :=
    leBytes_wordsOf (by rw [List.length_take]; omega)
  have hstate : leBytes ((wordsOf ((bs.drop 24).take 4)).getD 0 0) = (bs.drop 24).take 4 :=
    leBytes_wordsOf (by rw [List.length_take, List.length_drop]; omega)
  have hcrc : leBytes ((wordsOf (bs.drop 28)).getD 0 0) = bs.drop 28 :=
    leBytes_wordsOf (by rw [List.length_drop]; omega)
  have hsplit : bs = bytes ⟨(wordsOf (bs.take 4)).getD 0 0, label, (wordsOf ((bs.drop 24).take 4)).getD 0 0,
      (wordsOf (bs.drop 28)).getD 0 0⟩ := by
    unfold bytes
    rw [hseq, hlabel, hstate, hcrc]
    have h28 : (bs.drop 24).take 4 ++ bs.drop 28 = bs.drop 24 := by
      have happend := List.take_append_drop 4 (bs.drop 24)
      rwa [List.drop_drop] at happend
    have h24 : (bs.drop 4).take 20 ++ bs.drop 24 = bs.drop 4 := by
      have happend := List.take_append_drop 20 (bs.drop 4)
      rwa [List.drop_drop] at happend
    rw [List.append_assoc, List.append_assoc, h28, h24, List.take_append_drop]
  rw [hsplit, ofBytes_bytes]

variable (s : OtaSelectEntry)

theorem bytes_take_seq : s.bytes.take 4 = leBytes s.otaSeq := by
  unfold bytes
  rw [List.append_assoc, List.append_assoc, List.take_left' (leBytes_length _)]

theorem bytes_state : (s.bytes.drop 24).take 4 = leBytes s.otaState := by
  have hlen : (leBytes s.otaSeq ++ s.seqLabel.toList).length = 24 := by
    rw [List.length_append, leBytes_length, Vector.length_toList]
  unfold bytes
  rw [List.append_assoc _ (leBytes s.otaState), List.drop_left' hlen, List.take_left' (leBytes_length _)]

theorem bytes_crc : s.bytes.drop 28 = leBytes s.crc := by
  have hlen : (leBytes s.otaSeq ++ s.seqLabel.toList ++ leBytes s.otaState).length = 28 := by
    rw [List.length_append, List.length_append, leBytes_length, leBytes_length, Vector.length_toList]
  unfold bytes
  rw [List.drop_left' hlen]

variable {s}

theorem bytes_inj {s' : OtaSelectEntry} (h : s.bytes = s'.bytes) : s = s' := by
  rw [← s.ofBytes_bytes, h, s'.ofBytes_bytes]

/-- A CRC fits one number only. -/
theorem crc_inj {s' : OtaSelectEntry} (h : s.selectCrc = s'.selectCrc) : s.otaSeq = s'.otaSeq := by
  have hword : crc32Le 0xFFFFFFFF ([] ++ leBytes s.otaSeq ++ []) = crc32Le 0xFFFFFFFF ([] ++ leBytes s'.otaSeq ++ []) := by
    rw [List.nil_append, List.nil_append, List.append_nil, List.append_nil]
    exact h
  exact crc32Le_word_inj hword

/-- An erased CRC fits no number but 0. -/
theorem seq_of_erased_crc (h : s.SelectValid) (hcrc : s.crc = 0xFFFFFFFF) : s.otaSeq = 0 :=
  crc32Le_word_eq_ones (h.2.symm.trans hcrc)

/-! ## A cut erase and a cut write -/

/-- What an erase that was cut leaves of 32 bytes. -/
def fadedBytes (bs : List UInt8) (k : Nat) : List UInt8 := List.replicate (min k 32) 0xFF ++ bs.drop k

/-- What a write that was cut leaves in erased bytes. -/
def tornBytes (bs : List UInt8) (k : Nat) : List UInt8 := bs.take k ++ List.replicate (32 - k) 0xFF

/-- The number in an entry of which less was erased. -/
theorem fadedBytes_take_seq {bs : List UInt8} {k : Nat} (hk : k < 4) :
    (fadedBytes bs k).take 4 = List.replicate k 0xFF ++ (bs.take 4).drop k := by
  unfold fadedBytes
  rw [Nat.min_eq_left (by omega), List.take_append, List.length_replicate, List.take_replicate,
    Nat.min_eq_right (by omega), List.drop_take]

theorem leBytes_seqMax : leBytes seqMax = List.replicate 4 0xFF := by
  decide

theorem fadedBytes_zero (bs : List UInt8) : fadedBytes bs 0 = bs := by
  unfold fadedBytes
  rw [Nat.zero_min, List.replicate_zero, List.nil_append, List.drop_zero]

theorem fadedBytes_bytes (s : OtaSelectEntry) (k : Nat) :
    (ofBytes (fadedBytes s.bytes k)).bytes = fadedBytes s.bytes k := by
  have hlen := s.bytes_length
  apply bytes_ofBytes
  unfold fadedBytes
  rw [List.length_append, List.length_replicate, List.length_drop]
  omega

/-- Once the number is erased nothing can be selected. -/
theorem faded_gone (s : OtaSelectEntry) {k : Nat} (hk : 4 ≤ k) : ¬(ofBytes (fadedBytes s.bytes k)).SelectValid := by
  have hseq : leBytes (ofBytes (fadedBytes s.bytes k)).otaSeq = leBytes seqMax := by
    rw [← bytes_take_seq, fadedBytes_bytes, leBytes_seqMax]
    unfold fadedBytes
    rw [List.take_append_of_le_length (by rw [List.length_replicate]; omega), List.take_replicate]
    congr 1
    omega
  exact fun hv => hv.1 (Or.inl (leBytes_injective hseq))

/-- An erase that is cut leaves the entry as it is, or unselectable. -/
def Fades (s : OtaSelectEntry) : Prop :=
  ∀ k, ofBytes (fadedBytes s.bytes k) = s ∨ ¬(ofBytes (fadedBytes s.bytes k)).SelectValid

/-- Entries that were written completely fade, and so do those that are not selected whatever their CRC. -/
theorem fades (hs : s.crc = s.selectCrc ∨ s.SelectInvalid) : s.Fades := by
  intro k
  by_cases hk : 4 ≤ k
  · exact Or.inr (faded_gone s hk)
  · have hlen := s.bytes_length
    have hbytes := fadedBytes_bytes s k
    generalize ofBytes (fadedBytes s.bytes k) = e at hbytes
    have hdrop : ∀ n, 4 ≤ n → e.bytes.drop n = s.bytes.drop n := by
      intro n hn
      rw [hbytes]
      unfold fadedBytes
      rw [List.drop_append, List.drop_eq_nil_of_le (by rw [List.length_replicate]; omega), List.nil_append,
        List.drop_drop, List.length_replicate]
      congr 1
      omega
    have hcrc : e.crc = s.crc := by
      apply leBytes_injective
      rw [← bytes_crc, ← bytes_crc, hdrop 28 (by omega)]
    have hstate : e.otaState = s.otaState := by
      apply leBytes_injective
      rw [← bytes_state, ← bytes_state, hdrop 24 (by omega)]
    by_cases hseq : e.otaSeq = s.otaSeq
    · left
      apply bytes_inj
      rw [← List.take_append_drop 4 e.bytes, ← List.take_append_drop 4 s.bytes, hdrop 4 (by omega), bytes_take_seq,
        bytes_take_seq, hseq]
    · right
      intro hv
      rcases hs with hs | hs | hs | hs
      · exact hseq (crc_inj (hv.2.symm.trans (hcrc.trans hs)))
      · apply hseq
        rw [hs]
        apply leBytes_injective
        rw [← bytes_take_seq, hbytes, fadedBytes_take_seq (by omega), bytes_take_seq, hs, leBytes_seqMax,
          List.drop_replicate, List.replicate_append_replicate]
        congr 1
        omega
      · exact hv.1 (Or.inr (Or.inl (hstate.trans hs)))
      · exact hv.1 (Or.inr (Or.inr (hstate.trans hs)))

/-- The number in an entry of which something was erased is not 0. -/
theorem faded_seq_ne (h0 : s.otaSeq ≠ 0) (k : Nat) : (ofBytes (fadedBytes s.bytes k)).otaSeq ≠ 0 := by
  have hbytes := fadedBytes_bytes s k
  generalize ofBytes (fadedBytes s.bytes k) = e at hbytes
  intro hzero
  cases k with
  | zero =>
      apply h0
      rw [fadedBytes_zero] at hbytes
      rw [← bytes_inj hbytes]
      exact hzero
  | succ k =>
      have hfirst := congrArg (fun l => l.getD 0 0) (bytes_take_seq e)
      rw [hbytes, hzero] at hfirst
      unfold fadedBytes at hfirst
      rw [show min (k + 1) 32 = min k 31 + 1 by omega, List.replicate_succ] at hfirst
      change (0xFF : UInt8) = 0 at hfirst
      exact absurd hfirst (by decide)

theorem tornBytes_bytes (s : OtaSelectEntry) (k : Nat) :
    (ofBytes (tornBytes s.bytes k)).bytes = tornBytes s.bytes k := by
  have hlen := s.bytes_length
  apply bytes_ofBytes
  unfold tornBytes
  rw [List.length_append, List.length_replicate, List.length_take]
  omega

/-- What was written completely of an entry whose write was cut. -/
theorem tornBytes_take {bs : List UInt8} (hlen : bs.length = 32) {n k : Nat} (hn : n ≤ k) (hn' : n ≤ 32) :
    (tornBytes bs k).take n = bs.take n := by
  unfold tornBytes
  rw [List.take_append_of_le_length (by rw [List.length_take]; omega), List.take_take, Nat.min_eq_left hn]

theorem torn_seq_ne (h0 : s.otaSeq ≠ 0) (k : Nat) : (ofBytes (tornBytes s.bytes k)).otaSeq ≠ 0 := by
  have hlen := s.bytes_length
  have hbytes := tornBytes_bytes s k
  generalize ofBytes (tornBytes s.bytes k) = e at hbytes
  intro hzero
  by_cases hk : 4 ≤ k
  · apply h0
    rw [← hzero]
    apply leBytes_injective
    rw [← bytes_take_seq, ← bytes_take_seq, hbytes, tornBytes_take hlen hk (by omega)]
  · have hlast : (leBytes e.otaSeq).getD 3 0 = 0xFF := by
      rw [← bytes_take_seq, hbytes, List.getD_eq_getElem?_getD, List.getElem?_take_of_lt (by omega)]
      unfold tornBytes
      rw [List.getElem?_append_right (by rw [List.length_take]; omega), List.getElem?_replicate,
        if_pos (by rw [List.length_take]; omega)]
      rfl
    rw [hzero] at hlast
    exact absurd hlast (by decide)

/-- An entry whose write was cut is complete or cannot be selected. -/
theorem torn (hs : s.crc = s.selectCrc ∨ s.otaState = imgAborted) (h0 : s.otaSeq ≠ 0) (k : Nat) :
    ofBytes (tornBytes s.bytes k) = s ∨ ¬(ofBytes (tornBytes s.bytes k)).SelectValid := by
  have hlen := s.bytes_length
  have hbytes := tornBytes_bytes s k
  have hseq0 := torn_seq_ne h0 k
  generalize ofBytes (tornBytes s.bytes k) = e at hbytes hseq0
  by_cases hk : k ≤ 28
  · right
    intro hv
    have hcrc : e.crc = 0xFFFFFFFF := by
      apply leBytes_injective
      rw [← bytes_crc, hbytes]
      unfold tornBytes
      rw [List.drop_append, List.drop_eq_nil_of_le (by rw [List.length_take]; omega), List.nil_append,
        List.drop_replicate, List.length_take, show 32 - k - (28 - min k s.bytes.length) = 4 by omega]
      decide
    exact hseq0 (seq_of_erased_crc hv hcrc)
  · have htake : e.bytes.take 28 = s.bytes.take 28 := by
      rw [hbytes, tornBytes_take hlen (by omega) (by omega)]
    have hseq : e.otaSeq = s.otaSeq := by
      apply leBytes_injective
      have h4 := congrArg (List.take 4) htake
      rw [List.take_take, List.take_take] at h4
      rw [← bytes_take_seq, ← bytes_take_seq]
      exact h4
    have hstate : e.otaState = s.otaState := by
      apply leBytes_injective
      have h24 := congrArg (List.drop 24) htake
      rw [List.drop_take, List.drop_take] at h24
      rw [← bytes_state, ← bytes_state]
      exact h24
    by_cases hv : e.SelectValid
    · left
      rcases hs with hs | hs
      · have hcrc : e.crc = s.crc := by
          rw [hv.2, hs]
          unfold selectCrc
          rw [hseq]
        apply bytes_inj
        rw [← List.take_append_drop 28 e.bytes, ← List.take_append_drop 28 s.bytes, htake, bytes_crc, bytes_crc, hcrc]
      · exact absurd (Or.inr (Or.inr (hstate.trans hs))) hv.1
    · exact Or.inr hv

end OtaSelectEntry

/-! ## A cut rewrite -/

section Cut

variable {t : OtaTable} {img img' : Image} {i : Fin 2}

theorem entries_bytes (t : OtaTable) (img : Image) (i : Fin 2) :
    (entries t img i).bytes = readBytes img (t.entryAddr i) 32 :=
  OtaSelectEntry.bytes_ofBytes (readBytes_length _ _ _)

theorem entries_faded (t : OtaTable) (img : Image) (i : Fin 2) (k : Nat) :
    entries t (eraseRange img (t.entryAddr i) k) i =
      OtaSelectEntry.ofBytes (OtaSelectEntry.fadedBytes (entries t img i).bytes k) := by
  change OtaSelectEntry.ofBytes _ = _
  rw [entries_bytes, readBytes_eraseRange]
  rfl

/-- What a cut of a rewrite leaves. -/
theorem cut_write {s : OtaSelectEntry} (hf : (entries t img i).Fades) (hold : (entries t img i).otaSeq ≠ 0)
    (hs : s.crc = s.selectCrc ∨ s.otaState = imgAborted) (h0 : s.otaSeq ≠ 0) (hc : Cut img (writeOps t i s) img') :
    ∃ e, entries t img' = Function.update (entries t img) i e ∧ e.otaSeq ≠ 0 ∧
      (e = entries t img i ∨ e = s ∨ ¬e.SelectValid) := by
  refine ⟨entries t img' i, ?_, ?_⟩
  · funext j
    by_cases hj : j = i
    · subst hj
      rw [Function.update_self]
    · rw [Function.update_of_ne hj]
      exact entries_out t (Ne.symm hj) (writeOps_within t i s) hc
  · have hlen := s.bytes_length
    rcases hc with ⟨k, rfl⟩ | ⟨k, rfl⟩ | hc
    · have e : entries t ((Op.take k (Op.erase (t.entryAddr i) 4096)).apply img) i =
          OtaSelectEntry.ofBytes (OtaSelectEntry.fadedBytes (entries t img i).bytes (min k 4096)) :=
        entries_faded t img i (min k 4096)
      rw [e]
      refine ⟨OtaSelectEntry.faded_seq_ne hold _, ?_⟩
      rcases hf (min k 4096) with h | h
      · exact Or.inl h
      · exact Or.inr (Or.inr h)
    · have herased : ∀ a, t.entryAddr i ≤ a → a < t.entryAddr i + 32 →
          (Op.erase (t.entryAddr i) 4096).apply img a = 0xFF :=
        fun a h1 h2 => eraseRange_in h1 (by omega)
      have e : entries t (((Op.write (t.entryAddr i) s.bytes).take k).apply
          ((Op.erase (t.entryAddr i) 4096).apply img)) i =
            OtaSelectEntry.ofBytes (OtaSelectEntry.tornBytes s.bytes k) := by
        change OtaSelectEntry.ofBytes (readBytes (program _ _ _) _ _) = _
        rw [readBytes_program_take hlen herased]
        rfl
      rw [e]
      exact ⟨OtaSelectEntry.torn_seq_ne h0 k, Or.inr (OtaSelectEntry.torn hs h0 k)⟩
    · have e : entries t img' i = s := by
        rw [show img' = applyAll (writeOps t i s) img from hc, entries_write, Function.update_self]
      rw [e]
      exact ⟨h0, Or.inr (Or.inl rfl)⟩

end Cut

end EspIdf.Ota
