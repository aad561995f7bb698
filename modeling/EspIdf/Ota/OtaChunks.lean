import EspIdf.Ota.OtaWritten

/-!
# Writing an image in chunks

* `Progress` : an update after some chunks, with the carried bytes and the padding they will get;
* `otaWrite_step`, `writeAll_run` : one call, and all of them;
* `Installed` : the image is in the partition, padded the same way whatever the chunks;
* `installed_iff` : the chunks for which it is.
-/

namespace EspIdf.Ota

open NorFlash

/-! ## Properties of the chunks -/

/-- A call completed a block of carried bytes, which resets the buffer to `0xFF`. -/
def Flushed (chunks : List (List UInt8)) : Prop :=
  ∃ i < chunks.length, (chunks.take i).flatten.length % 16 ≠ 0 ∧
    (chunks.take i).flatten.length / 16 < chunks.flatten.length / 16

instance (chunks : List (List UInt8)) : Decidable (Flushed chunks) :=
  inferInstanceAs (Decidable (∃ i < chunks.length, _ ∧ _))

/-- What fills up the last block. -/
def padByte (chunks : List (List UInt8)) : UInt8 := if Flushed chunks then 0xFF else 0

/-- The length of the last chunk that is not empty. -/
def lastLength (chunks : List (List UInt8)) : Nat := ((chunks.filter (· ≠ [])).getLastD []).length

/-- The first chunk that is not empty. -/
def firstChunk (chunks : List (List UInt8)) : Option (List UInt8) := chunks.find? (· ≠ [])

/-- How much of `n` bytes is written before the end. -/
def blockEnd (p : Staging) (n : Nat) : Nat := if p.flashEncryption then n - n % 16 else n

/-- The last bytes start a sector, and the last call, which began with at least as many carried bytes, did not reach it. -/
def Gap (p : Staging) (chunks : List (List UInt8)) : Prop :=
  p.flashEncryption = true ∧ chunks.flatten.length % 16 ≠ 0 ∧
    (chunks.flatten.length - chunks.flatten.length % 16) % 4096 = 0 ∧
    chunks.flatten.length % 16 ≤ (chunks.flatten.length - lastLength chunks) % 16

section Chunks

variable (chunks : List (List UInt8)) (data : List UInt8)

theorem flatten_snoc : (chunks ++ [data]).flatten = chunks.flatten ++ data := by
  rw [List.flatten_append, List.flatten_singleton]

theorem length_flatten_take_le (i : Nat) : (chunks.take i).flatten.length ≤ chunks.flatten.length := by
  have happend := congrArg (fun l => l.flatten.length) (List.take_append_drop i chunks)
  rw [List.flatten_append, List.length_append] at happend
  omega

theorem flushed_snoc : Flushed (chunks ++ [data]) ↔ Flushed chunks ∨
    chunks.flatten.length % 16 ≠ 0 ∧ chunks.flatten.length / 16 < (chunks.flatten.length + data.length) / 16 := by
  unfold Flushed
  rw [flatten_snoc, List.length_append, List.length_append, List.length_singleton]
  constructor
  · rintro ⟨i, hi, hmod, hdiv⟩
    rw [List.take_append_of_le_length (by omega)] at hmod hdiv
    have hle := length_flatten_take_le chunks i
    by_cases hlt : (chunks.take i).flatten.length / 16 < chunks.flatten.length / 16
    · rcases Nat.lt_or_ge i chunks.length with hi' | hi'
      · exact Or.inl ⟨i, hi', hmod, hlt⟩
      · rw [List.take_of_length_le hi'] at hlt
        exact absurd hlt (Nat.lt_irrefl _)
    · exact Or.inr ⟨by omega, by omega⟩
  · rintro (⟨i, hi, hmod, hdiv⟩ | ⟨hmod, hdiv⟩)
    · refine ⟨i, by omega, ?_⟩
      rw [List.take_append_of_le_length (by omega)]
      exact ⟨hmod, by omega⟩
    · refine ⟨chunks.length, by omega, ?_⟩
      rw [List.take_left]
      exact ⟨hmod, hdiv⟩

theorem lastLength_snoc : lastLength (chunks ++ [data]) = if data = [] then lastLength chunks else data.length := by
  unfold lastLength
  rw [List.filter_append]
  by_cases h : data = []
  · rw [if_pos h, h]
    simp
  · rw [if_neg h]
    simp [h]

theorem firstChunk_snoc : firstChunk (chunks ++ [data]) =
    if chunks.flatten = [] ∧ data ≠ [] then some data else firstChunk chunks := by
  unfold firstChunk
  rw [List.find?_append]
  by_cases hempty : chunks.flatten = []
  · have hnone : chunks.find? (· ≠ []) = none := by
      rw [List.find?_eq_none]
      intro c hc
      simp [List.flatten_eq_nil_iff.mp hempty c hc]
    rw [hnone, Option.none_or]
    by_cases hdata : data = []
    · rw [if_neg (fun h => h.2 hdata), hdata]
      rfl
    · rw [if_pos ⟨hempty, hdata⟩, List.find?_cons_of_pos (by simp [hdata])]
  · rw [if_neg (fun h => hempty h.1)]
    cases hfind : chunks.find? (· ≠ []) with
    | none =>
        rw [List.find?_eq_none] at hfind
        refine absurd (List.flatten_eq_nil_iff.mpr fun c hc => ?_) hempty
        simpa using hfind c hc
    | some c => rfl

end Chunks

/-- How far the partition is erased when `m` more bytes come. -/
theorem fresh_step {n m fresh : Nat} (hm : 0 < m) (haligned : 4096 ∣ fresh) (hle : n - n % 16 ≤ fresh)
    (hfresh : fresh ≤ sectorEnd n) :
    (n + m) - (n + m) % 16 ≤ max fresh (sectorEnd (n - n % 16 + m)) ∧
      max fresh (sectorEnd (n - n % 16 + m)) ≤ sectorEnd (n + m) ∧
      ((n + m) - (n + m) % 16 = max fresh (sectorEnd (n - n % 16 + m)) ∧ (n + m) - (n + m) % 16 < n + m ↔
        (n + m) % 16 ≠ 0 ∧ ((n + m) - (n + m) % 16) % 4096 = 0 ∧ (n + m) % 16 ≤ n % 16) := by
  unfold sectorEnd at *
  refine ⟨by omega, by omega, ?_⟩
  constructor
  · rintro ⟨h1, h2⟩
    refine ⟨by omega, by omega, by omega⟩
  · rintro ⟨h1, h2, h3⟩
    refine ⟨by omega, by omega⟩

/-! ## One call -/

/-- An update after the chunks `done`. -/
structure Progress (p : Staging) (img : Image) (done : List (List UInt8)) (it : OtaOps) (ops : List Op) (fresh : Nat) :
    Prop where
  needErase : it.needErase = true
  wroteSize : it.wroteSize = blockEnd p done.flatten.length
  partialBytes : it.partialBytes = done.flatten.length - blockEnd p done.flatten.length
  partialData : p.flashEncryption = true →
    it.partialData = carried (done.flatten.drop (blockEnd p done.flatten.length)) (padByte done)
  written : Written p img ops (done.flatten.take (blockEnd p done.flatten.length)) fresh
  fresh_le : fresh ≤ sectorEnd done.flatten.length
  gap : (blockEnd p done.flatten.length = fresh ∧ blockEnd p done.flatten.length < done.flatten.length) ↔ Gap p done
  header : ∀ data, firstChunk done = some data → HeaderOk p.final data

section Step

variable {p : Staging} {img F : Image} {ops : List Op} {xs data : List UInt8} {fresh : Nat} {it : OtaOps} {pad : UInt8}

theorem blockEnd_le (p : Staging) (n : Nat) : blockEnd p n ≤ n := by
  unfold blockEnd
  split
  · exact Nat.sub_le _ _
  · exact Nat.le_refl _

/-- What `writeBlocks` makes of the blocks `xs` and further bytes. -/
theorem writeBlocks_spec (F : Image) (it : OtaOps) (data : List UInt8) (pad : UInt8)
    (h : Written p img ops xs fresh) (hwrote : it.wroteSize = xs.length)
    (hdata : it.partialData = List.replicate 16 pad) (hblock : xs.length % 16 = 0)
    (hb : (xs ++ data).length - (xs ++ data).length % 16 ≤ fresh) :
    ∃ it' ops', writeBlocks p data it F = ⟨.ok (), it', ops'⟩ ∧ it'.needErase = it.needErase ∧
      it'.wroteSize = (xs ++ data).length - (xs ++ data).length % 16 ∧ it'.partialBytes = (xs ++ data).length % 16 ∧
      it'.partialData = carried ((xs ++ data).drop ((xs ++ data).length - (xs ++ data).length % 16)) pad ∧
      Written p img (ops ++ ops') ((xs ++ data).take ((xs ++ data).length - (xs ++ data).length % 16)) fresh := by
  have hend : (xs ++ data).length - (xs ++ data).length % 16 = xs.length + (data.length - data.length % 16) := by
    rw [List.length_append]
    omega
  have hmod : (xs ++ data).length % 16 = data.length % 16 := by
    rw [List.length_append]
    omega
  rw [hend] at hb ⊢
  have hlen : (data.take (data.length - data.length % 16)).length ≤ data.length - data.length % 16 := by
    rw [List.length_take]
    omega
  refine ⟨_, _, writeBlocks_run h hwrote hblock hb, rfl, ?_, ?_, ?_, ?_⟩
  · change it.wroteSize + _ = _
    rw [hwrote]
  · rw [hmod]
    rfl
  · rw [List.drop_length_add_append]
    exact saveTail_data hdata
  · rw [List.take_length_add_append]
    exact h.write (by omega)

/-- What `writeEncrypted` makes of the bytes so far and a further chunk. -/
theorem writeEncrypted_spec {n : Nat} (hn : xs.length = n) (h : Written p img ops (xs.take (n - n % 16)) fresh)
    (hwrote : it.wroteSize = n - n % 16) (hcarry : it.partialBytes = n % 16)
    (hdata : it.partialData = carried (xs.drop (n - n % 16)) pad)
    (hb : (xs ++ data).length - (xs ++ data).length % 16 ≤ fresh) :
    ∃ it' ops', writeEncrypted p data it F = ⟨.ok (), it', ops'⟩ ∧ it'.needErase = it.needErase ∧
      it'.wroteSize = (xs ++ data).length - (xs ++ data).length % 16 ∧ it'.partialBytes = (xs ++ data).length % 16 ∧
      it'.partialData = carried ((xs ++ data).drop ((xs ++ data).length - (xs ++ data).length % 16))
        (if n % 16 ≠ 0 ∧ n / 16 < (n + data.length) / 16 then 0xFF else pad) ∧
      Written p img (ops ++ ops') ((xs ++ data).take ((xs ++ data).length - (xs ++ data).length % 16)) fresh := by
  have hblocks : (xs.take (n - n % 16)).length = n - n % 16 := by
    rw [List.length_take]
    omega
  have htail : (xs.drop (n - n % 16)).length = n % 16 := by
    rw [List.length_drop]
    omega
  have hsplit : xs = xs.take (n - n % 16) ++ xs.drop (n - n % 16) := (List.take_append_drop _ _).symm
  have htotal : (xs ++ data).length = n + data.length := by rw [List.length_append, hn]
  unfold writeEncrypted
  rw [bind_quiet rfl]
  by_cases hz : n % 16 = 0
  · have hall : xs.take (n - n % 16) = xs := by
      rw [hz, Nat.sub_zero, ← hn, List.take_length]
    rw [if_neg (by omega), if_neg (fun hf => hf.1 hz)]
    rw [hall] at h
    have hnil : xs.drop (n - n % 16) = [] := by
      rw [hz, Nat.sub_zero, ← hn, List.drop_length]
    rw [hnil, carried_nil] at hdata
    exact writeBlocks_spec F it data pad h (by rw [hwrote, hn]; omega) hdata (by rw [hn]; exact hz) hb
  · rw [if_pos (by omega)]
    have hcopy : it.copyLen data = min (16 - n % 16) data.length := by
      unfold OtaOps.copyLen
      rw [hcarry]
    have hfill : (it.fillPartial data).partialData =
        carried (xs.drop (n - n % 16) ++ data.take (it.copyLen data)) pad := by
      have hpatch := patch_carried (xs.drop (n - n % 16)) (data.take (it.copyLen data)) pad
      rw [htail] at hpatch
      unfold OtaOps.fillPartial
      rw [hdata, hcarry]
      exact hpatch
    rw [bind_quiet (show Prog.modifyRam (fun it : OtaOps => it.fillPartial data) it F =
      ⟨.ok (), it.fillPartial data, []⟩ from rfl)]
    by_cases hshort : n % 16 + data.length < 16
    · have hsame : (xs ++ data).length - (xs ++ data).length % 16 = n - n % 16 := by
        rw [htotal]
        omega
      have hwhole : data.take (it.copyLen data) = data := List.take_of_length_le (by rw [hcopy]; omega)
      rw [if_pos (by rw [hcopy, hcarry]; omega), if_neg (by omega), hsame]
      refine ⟨_, [], rfl, rfl, hwrote, ?_, ?_, ?_⟩
      · change it.partialBytes + it.copyLen data = _
        rw [hcopy, hcarry, htotal]
        omega
      · rw [hfill, hwhole, List.drop_append_of_le_length (by omega)]
      · rw [List.append_nil, List.take_append_of_le_length (by omega)]
        exact h
    · have hlen16 : (xs.drop (n - n % 16) ++ data.take (it.copyLen data)).length = 16 := by
        rw [List.length_append, htail, List.length_take, hcopy]
        omega
      have hbuf : (it.fillPartial data).partialData = xs.drop (n - n % 16) ++ data.take (it.copyLen data) := by
        rw [hfill]
        unfold carried
        rw [hlen16, Nat.sub_self, List.replicate_zero, List.append_nil]
      have hwhole : xs.take (n - n % 16) ++ (xs.drop (n - n % 16) ++ data.take (it.copyLen data)) ++
          data.drop (it.copyLen data) = xs ++ data := by
        rw [← List.append_assoc, ← hsplit, List.append_assoc, List.take_append_drop]
      have hroom : (xs.take (n - n % 16)).length + 16 ≤ fresh := by
        rw [hblocks]
        omega
      have hflush := flushPartial_run (F := F) h (show (it.fillPartial data).wroteSize = _ by
        rw [hblocks]; exact hwrote) (by rw [hbuf]; exact hlen16) (by rw [hblocks]; omega) hroom
      rw [hbuf] at hflush
      have hwritten := h.write (show (xs.take (n - n % 16)).length +
        (xs.drop (n - n % 16) ++ data.take (it.copyLen data)).length ≤ fresh by rw [hlen16]; exact hroom)
      have hxs : (xs.take (n - n % 16) ++ (xs.drop (n - n % 16) ++ data.take (it.copyLen data))).length =
          n - n % 16 + 16 := by
        rw [List.length_append, hblocks, hlen16]
      obtain ⟨it', ops', hrun, herase, hwrote', hcarry', hdata', hwritten'⟩ :=
        writeBlocks_spec (applyAll [.write (p.address + (xs.take (n - n % 16)).length)
            (xs.drop (n - n % 16) ++ data.take (it.copyLen data))] F)
          ((it.fillPartial data).clearPartial.advance 16) (data.drop (it.copyLen data)) 0xFF hwritten (by
            rw [hxs]
            change it.wroteSize + 16 = _
            rw [hwrote]) rfl (by rw [hxs]; omega) (by rw [hwhole]; exact hb)
      rw [hwhole] at hwrote' hcarry' hdata' hwritten'
      rw [if_neg (by rw [hcopy, hcarry]; omega), if_pos ⟨hz, by omega⟩]
      have hboth := bind_run (f := fun _ => writeBlocks p (data.drop (it.copyLen data))) hflush hrun
      refine ⟨it', _, hboth, herase, hwrote', hcarry', hdata', ?_⟩
      rw [← List.append_assoc]
      exact hwritten'

theorem padByte_snoc (done : List (List UInt8)) (data : List UInt8) : padByte (done ++ [data]) =
    if done.flatten.length % 16 ≠ 0 ∧ done.flatten.length / 16 < (done.flatten.length + data.length) / 16 then 0xFF
    else padByte done := by
  have hsnoc := flushed_snoc done data
  unfold padByte
  by_cases hnow : done.flatten.length % 16 ≠ 0 ∧
      done.flatten.length / 16 < (done.flatten.length + data.length) / 16
  · rw [if_pos hnow, if_pos (hsnoc.mpr (Or.inr hnow))]
  · rw [if_neg hnow]
    by_cases hbefore : Flushed done
    · rw [if_pos hbefore, if_pos (hsnoc.mpr (Or.inl hbefore))]
    · rw [if_neg hbefore, if_neg (fun hf => (hsnoc.mp hf).elim hbefore hnow)]

variable {done : List (List UInt8)}

theorem Progress.length_blocks (_ : Progress p img done it ops fresh) :
    (done.flatten.take (blockEnd p done.flatten.length)).length = blockEnd p done.flatten.length := by
  rw [List.length_take, Nat.min_eq_left (blockEnd_le p _)]

theorem Progress.fresh_le_size (h : Progress p img done it ops fresh) : blockEnd p done.flatten.length ≤ fresh :=
  h.length_blocks ▸ h.written.le

/-- The header of the first chunk was checked. -/
theorem Progress.header_snoc (h : Progress p img done it ops fresh)
    (hok : done.flatten = [] → HeaderOk p.final data) :
    ∀ c, firstChunk (done ++ [data]) = some c → HeaderOk p.final c := by
  intro c hc
  rw [firstChunk_snoc] at hc
  by_cases hfirst : done.flatten = [] ∧ data ≠ []
  · rw [if_pos hfirst] at hc
    obtain rfl := Option.some.inj hc
    exact hok hfirst.1
  · rw [if_neg hfirst] at hc
    exact h.header c hc

/-- An empty chunk changes nothing. -/
theorem Progress.empty (h : Progress p img done it ops fresh) : Progress p img (done ++ [[]]) it ops fresh := by
  have hflat : (done ++ [[]]).flatten = done.flatten := by rw [flatten_snoc, List.append_nil]
  have hpad : padByte (done ++ [[]]) = padByte done := by
    rw [padByte_snoc]
    exact if_neg fun hf => Nat.lt_irrefl _ hf.2
  have hlast : lastLength (done ++ [[]]) = lastLength done := by rw [lastLength_snoc, if_pos rfl]
  have hgap : Gap p (done ++ [[]]) ↔ Gap p done := by
    unfold Gap
    rw [hflat, hlast]
  constructor
  · exact h.needErase
  · rw [hflat]
    exact h.wroteSize
  · rw [hflat]
    exact h.partialBytes
  · rw [hflat, hpad]
    exact h.partialData
  · rw [hflat]
    exact h.written
  · rw [hflat]
    exact h.fresh_le
  · rw [hflat, hgap]
    exact h.gap
  · intro c hc
    rw [firstChunk_snoc, if_neg (fun hf => hf.2 rfl)] at hc
    exact h.header c hc

/-- The bytes of a further chunk, once the sectors for them are erased. -/
theorem Progress.append_spec (h : Progress p img done it ops fresh) (hdata : data ≠ [])
    (hok : done.flatten = [] → HeaderOk p.final data)
    {ops₁ : List Op} (hw : Written p img (ops ++ ops₁) (done.flatten.take (blockEnd p done.flatten.length))
      (max fresh (sectorEnd (blockEnd p done.flatten.length + data.length)))) (F : Image) :
    ∃ it' ops', (if p.flashEncryption then writeEncrypted p data else appendBytes p data) it F = ⟨.ok (), it', ops'⟩ ∧
      Progress p img (done ++ [data]) it' (ops ++ ops₁ ++ ops')
        (max fresh (sectorEnd (blockEnd p done.flatten.length + data.length))) := by
  have hpos := List.length_pos_iff.mpr hdata
  have haligned := h.written.aligned
  have hfresh := h.fresh_le_size
  have hfreshle := h.fresh_le
  have hflat := flatten_snoc done data
  have hlen : (done ++ [data]).flatten.length = done.flatten.length + data.length := by
    rw [hflat, List.length_append]
  have hblocks := h.length_blocks
  have hwrote := h.wroteSize
  have hcarry := h.partialBytes
  cases henc : p.flashEncryption with
  | false =>
      have hend : ∀ n, blockEnd p n = n := by
        intro n
        unfold blockEnd
        rw [if_neg (by rw [henc]; decide)]
      simp only [hend] at hw hwrote hcarry hblocks ⊢
      rw [List.take_length] at hw hblocks
      have hroom : done.flatten.length + data.length ≤ max fresh (sectorEnd (done.flatten.length + data.length)) := by
        unfold sectorEnd
        omega
      refine ⟨_, _, appendBytes_run hw hwrote hroom (fun he => absurd he (by rw [henc]; decide)), ?_⟩
      constructor
      · exact h.needErase
      · rw [hend, hlen]
        change it.wroteSize + _ = _
        rw [hwrote]
      · rw [hend, Nat.sub_self]
        change it.partialBytes = 0
        rw [hcarry, Nat.sub_self]
      · exact fun he => absurd he (by rw [henc]; decide)
      · rw [hend, List.take_length, hflat]
        exact hw.write hroom
      · rw [hlen]
        unfold sectorEnd at hfreshle ⊢
        omega
      · rw [hend]
        exact iff_of_false (fun hf => Nat.lt_irrefl _ hf.2) (fun hf => absurd hf.1 (by rw [henc]; decide))
      · exact h.header_snoc hok
  | true =>
      have hend : ∀ n, blockEnd p n = n - n % 16 := fun n => if_pos henc
      have hcarried := h.partialData henc
      simp only [hend] at hw hwrote hcarry hcarried hfresh ⊢
      obtain ⟨hroom, hle, hgap⟩ := fresh_step hpos haligned hfresh hfreshle
      have hxlen : (done.flatten ++ data).length = done.flatten.length + data.length := List.length_append
      obtain ⟨it', ops', hrun, herase, hwrote', hcarry', hdata', hwritten'⟩ :=
        writeEncrypted_spec (F := F) rfl hw hwrote (by rw [hcarry]; omega) hcarried (by rw [hxlen]; exact hroom)
      refine ⟨it', ops', hrun, ?_⟩
      constructor
      · rw [herase]
        exact h.needErase
      · rw [hend, hflat]
        exact hwrote'
      · rw [hend, hflat, hcarry']
        omega
      · intro _
        rw [hend, hflat, hdata', padByte_snoc]
      · rw [hend, hflat]
        exact hwritten'
      · rw [hlen]
        exact hle
      · unfold Gap
        rw [hend, hlen, hgap, lastLength_snoc, if_neg hdata, Nat.add_sub_cancel]
        exact (and_iff_right henc).symm
      · exact h.header_snoc hok

/-- What a call does once the sectors are erased. -/
theorem otaWrite_erased {ops₁ : List Op} {o : Outcome OtaOps OtaWriteErr Unit} (hdata : data ≠ [])
    (hneed : it.needErase = true) (herase : eraseBefore p it.wroteSize data.length it F = ⟨.ok (), it, ops₁⟩)
    (hrest : (if (it.wroteSize = 0 ∧ it.partialBytes = 0) ∧ ¬HeaderOk p.final data then Prog.fail .badHeader
      else if p.flashEncryption then writeEncrypted p data else appendBytes p data) it (applyAll ops₁ F) = o) :
    otaWrite p data it F = ⟨o.result, o.ram, ops₁ ++ o.ops⟩ := by
  unfold otaWrite
  rw [if_neg hdata, bind_quiet rfl, if_pos hneed]
  have hboth := bind_run (f := fun _ : Unit =>
    if (it.wroteSize = 0 ∧ it.partialBytes = 0) ∧ ¬HeaderOk p.final data then Prog.fail .badHeader
    else if p.flashEncryption then writeEncrypted p data else appendBytes p data) herase hrest
  exact hboth

/-- One call: it goes on with the bytes, or fails because they do not fit or do not start an image. -/
theorem otaWrite_step (h : Progress p img done it ops fresh) (data : List UInt8) :
    (∃ it' ops' fresh', otaWrite p data it (applyAll ops img) = ⟨.ok (), it', ops'⟩ ∧
      Progress p img (done ++ [data]) it' (ops ++ ops') fresh') ∨
    (∃ e it' ops', otaWrite p data it (applyAll ops img) = ⟨.error e, it', ops'⟩ ∧ e ≠ .notVerified) ∧
      (p.size < done.flatten.length + data.length ∨ done.flatten = [] ∧ data ≠ [] ∧ ¬HeaderOk p.final data) := by
  by_cases hdata : data = []
  · subst hdata
    refine Or.inl ⟨it, [], fresh, rfl, ?_⟩
    rw [List.append_nil]
    exact h.empty
  · have hpos := List.length_pos_iff.mpr hdata
    have hblocks := h.length_blocks
    have hle := blockEnd_le p done.flatten.length
    have hwrote := h.wroteSize
    have hcarry := h.partialBytes
    rcases Nat.lt_or_ge p.size (blockEnd p done.flatten.length + data.length) with hsize | hsize
    · obtain ⟨e, hfail, hne⟩ := eraseBefore_fail (F := applyAll ops img) h.written (m := data.length)
        (by rw [hblocks]; exact hsize)
      rw [hblocks, ← hwrote] at hfail
      refine Or.inr ⟨⟨e, it, [], ?_, hne⟩, Or.inl (by omega)⟩
      unfold otaWrite
      rw [if_neg hdata, bind_quiet rfl, if_pos h.needErase]
      exact bind_error hfail
    · obtain ⟨ops₁, herase, hw⟩ := eraseBefore_run (F := applyAll ops img) h.written hpos
        (by rw [hblocks]; exact hsize)
      rw [hblocks] at hw
      rw [hblocks, ← hwrote] at herase
      have hstart : (it.wroteSize = 0 ∧ it.partialBytes = 0) ↔ done.flatten = [] := by
        rw [hwrote, hcarry, ← List.length_eq_zero_iff]
        omega
      by_cases hheader : done.flatten = [] ∧ ¬HeaderOk p.final data
      · refine Or.inr ⟨⟨.badHeader, it, ops₁ ++ [], ?_, by decide⟩, Or.inr ⟨hheader.1, hdata, hheader.2⟩⟩
        refine otaWrite_erased (o := ⟨.error .badHeader, it, []⟩) hdata h.needErase herase ?_
        rw [if_pos ⟨hstart.mpr hheader.1, hheader.2⟩]
        rfl
      · obtain ⟨it', ops', hrun, hprogress⟩ := h.append_spec hdata
          (fun hnil => Decidable.not_not.mp fun hf => hheader ⟨hnil, hf⟩) hw (applyAll ops₁ (applyAll ops img))
        rw [List.append_assoc] at hprogress
        refine Or.inl ⟨it', ops₁ ++ ops', _, ?_, hprogress⟩
        refine otaWrite_erased (o := ⟨.ok (), it', ops'⟩) hdata h.needErase herase ?_
        rw [if_neg (fun hf => hheader ⟨hstart.mp hf.1, hf.2⟩)]
        exact hrun

end Step

end EspIdf.Ota
