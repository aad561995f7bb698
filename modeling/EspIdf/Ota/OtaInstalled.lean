import EspIdf.Ota.OtaChunks

/-!
# A whole update

* `Installed` : an image is in the partition, with its last block filled up, and every sector was erased before;
* `installed_iff` : the chunks for which it is;
* `chunking_independent_iff` : two ways of cutting an image leave the same contents exactly when neither gap nor padding
  tells them apart.
-/

namespace EspIdf.Ota

open NorFlash

/-- Where the padding of the last block ends. -/
def padEnd (p : Staging) (n : Nat) : Nat := if p.flashEncryption then (n + 15) / 16 * 16 else n

/-- The partition with the image `xs`, its last block filled up with `pad`, the rest of its last sector blank. -/
def imageAt (p : Staging) (img : Image) (xs : List UInt8) (pad : UInt8) (i : Nat) : UInt8 :=
  if i < xs.length then xs.getD i 0 else if i < padEnd p xs.length then pad
  else if i < sectorEnd xs.length then 0xFF else img (p.address + i)

/-- The session ends with the result of the verification, the image is in the partition, and nothing was programmed that
had not been erased. -/
structure Installed (p : Staging) (img : Image) (pad : UInt8) (chunks : List (List UInt8)) (verified : Bool) : Prop where
  result : (otaSession p chunks verified .sequential img).result = if verified then .ok () else .error .notVerified
  contents : ∀ i, applyAll (otaSession p chunks verified .sequential img).ops img (p.address + i) =
    imageAt p img chunks.flatten pad i
  erasedFirst : ErasedFirst (fun _ => False) (otaSession p chunks verified .sequential img).ops

/-- The checks of the calls pass: there is something to write, it starts an image, and it fits. -/
def Accepted (p : Staging) (chunks : List (List UInt8)) : Prop :=
  (∀ data, firstChunk chunks = some data → HeaderOk p.final data) ∧ blockEnd p chunks.flatten.length ≠ 0 ∧
    chunks.flatten.length ≤ p.size

section Run

variable {p : Staging} {img : Image} {ops : List Op} {fresh : Nat} {it : OtaOps} {done : List (List UInt8)}

theorem Progress.start (p : Staging) (img : Image) : Progress p img [] .sequential [] 0 := by
  have hend : blockEnd p ([] : List (List UInt8)).flatten.length = 0 := Nat.le_zero.mp (blockEnd_le p 0)
  constructor
  · rfl
  · rw [hend]
    rfl
  · rw [hend]
    rfl
  · intro _
    have hpad : padByte [] = 0 := by decide
    rw [hend, hpad]
    rfl
  · rw [hend]
    exact Written.start p img
  · exact Nat.zero_le _
  · rw [hend]
    exact iff_of_false (fun h => Nat.lt_irrefl _ h.2) (fun h => h.2.1 rfl)
  · intro data h
    exact absurd h (by simp [firstChunk])

/-- All calls: they go on with the bytes, or one fails because they do not fit or do not start an image. -/
theorem writeAll_run (chunks : List (List UInt8)) (h : Progress p img done it ops fresh) :
    (∃ it' ops' fresh', writeAll p chunks it (applyAll ops img) = ⟨.ok (), it', ops'⟩ ∧
      Progress p img (done ++ chunks) it' (ops ++ ops') fresh') ∨
    (∃ e it' ops', writeAll p chunks it (applyAll ops img) = ⟨.error e, it', ops'⟩ ∧ e ≠ .notVerified) ∧
      (p.size < (done ++ chunks).flatten.length ∨
        ∃ data, firstChunk (done ++ chunks) = some data ∧ ¬HeaderOk p.final data) := by
  induction chunks generalizing done it ops fresh with
  | nil =>
      refine Or.inl ⟨it, [], fresh, rfl, ?_⟩
      rw [List.append_nil, List.append_nil]
      exact h
  | cons data chunks ih =>
      have hcons : done ++ data :: chunks = done ++ [data] ++ chunks := (List.append_cons done data chunks)
      have hflat : (done ++ data :: chunks).flatten.length =
          done.flatten.length + data.length + chunks.flatten.length := by
        rw [hcons, List.flatten_append, flatten_snoc, List.length_append, List.length_append]
      unfold writeAll
      rcases otaWrite_step h data with ⟨it', ops', fresh', hrun, hnext⟩ | ⟨⟨e, it', ops', hrun, hne⟩, hwhy⟩
      · rw [hcons]
        rcases ih hnext with ⟨it'', ops'', fresh'', hrest, hlast⟩ | ⟨⟨e, it'', ops'', hrest, hne⟩, hwhy⟩
        · rw [applyAll_append] at hrest
          rw [List.append_assoc ops] at hlast
          have hboth := bind_run (f := fun _ => writeAll p chunks) hrun hrest
          exact Or.inl ⟨it'', ops' ++ ops'', fresh'', hboth, hlast⟩
        · rw [applyAll_append] at hrest
          have hboth := bind_run (f := fun _ => writeAll p chunks) hrun hrest
          exact Or.inr ⟨⟨e, it'', ops' ++ ops'', hboth, hne⟩, hwhy⟩
      · refine Or.inr ⟨⟨e, it', ops', bind_error hrun, hne⟩, ?_⟩
        rcases hwhy with hsize | ⟨hnil, hdata, hheader⟩
        · exact Or.inl (by omega)
        · have hnone : firstChunk done = none := by
            unfold firstChunk
            rw [List.find?_eq_none]
            intro c hc
            simp [List.flatten_eq_nil_iff.mp hnil c hc]
          refine Or.inr ⟨data, ?_, hheader⟩
          have hsome : firstChunk (done ++ [data]) = some data := by rw [firstChunk_snoc, if_pos ⟨hnil, hdata⟩]
          rw [hcons]
          unfold firstChunk at hsome ⊢
          rw [List.find?_append, hsome, Option.some_or]

/-- The end of an update without carried bytes. -/
theorem otaEnd_whole {F : Image} (verified : Bool) (hsome : it.wroteSize ≠ 0) (hpart : it.partialBytes = 0) :
    (otaEnd p verified it F).result = (if verified then .ok () else .error .notVerified) ∧
      (otaEnd p verified it F).ops = [] := by
  unfold otaEnd
  rw [bind_quiet rfl, if_neg hsome, if_neg (by omega)]
  cases verified
  · exact ⟨rfl, rfl⟩
  · exact ⟨rfl, rfl⟩

/-- The end of an update with carried bytes that can be written. -/
theorem otaEnd_partial {F : Image} {ops' : List Op} (verified : Bool) (hsome : it.wroteSize ≠ 0)
    (hpart : 0 < it.partialBytes)
    (hwrite : partitionWrite p it.wroteSize it.partialData it F = ⟨.ok (), it, ops'⟩) :
    (otaEnd p verified it F).result = (if verified then .ok () else .error .notVerified) ∧
      (otaEnd p verified it F).ops = ops' := by
  have horFail : (partitionWrite p it.wroteSize it.partialData).orFail .invalidState it F = ⟨.ok (), it, ops'⟩ := by
    unfold Prog.orFail
    rw [hwrite]
  have hrest : (Prog.modifyRam (·.padded) >>= fun _ : Unit =>
      if verified then pure () else Prog.fail OtaWriteErr.notVerified) it (applyAll ops' F) = ⟨if verified then .ok () else .error .notVerified, it.padded, []⟩ := by
    rw [bind_quiet rfl]
    cases verified
    · rfl
    · rfl
  have hall := bind_run (f := fun _ : Unit =>
    Prog.modifyRam (·.padded) >>= fun _ : Unit => if verified then pure () else Prog.fail OtaWriteErr.notVerified) horFail hrest
  unfold otaEnd
  rw [bind_quiet rfl, if_neg hsome, if_pos hpart]
  exact ⟨congrArg Outcome.result hall, (congrArg Outcome.ops hall).trans (List.append_nil _)⟩

/-- The end of an update with carried bytes that cannot be written. -/
theorem otaEnd_partial_fail {F : Image} {e : OtaWriteErr} (verified : Bool) (hsome : it.wroteSize ≠ 0)
    (hpart : 0 < it.partialBytes)
    (hwrite : partitionWrite p it.wroteSize it.partialData it F = ⟨.error e, it, []⟩) :
    (otaEnd p verified it F).result = .error .invalidState := by
  have horFail : (partitionWrite p it.wroteSize it.partialData).orFail .invalidState it F =
      ⟨.error .invalidState, it, []⟩ := by
    unfold Prog.orFail
    rw [hwrite]
  have hall := bind_error (f := fun _ : Unit =>
    Prog.modifyRam (·.padded) >>= fun _ : Unit => if verified then pure () else Prog.fail OtaWriteErr.notVerified) horFail
  unfold otaEnd
  rw [bind_quiet rfl, if_neg hsome, if_pos hpart]
  exact congrArg Outcome.result hall

/-- The call that ends an update: it returns the result of the verification with the last block filled up, or the block
starts a sector that was not erased. -/
theorem otaEnd_run (h : Progress p img done it ops fresh) (verified : Bool) (hsome : blockEnd p done.flatten.length ≠ 0) :
    (¬Gap p done ∧ (otaEnd p verified it (applyAll ops img)).result = (if verified then .ok () else .error .notVerified) ∧
      Written p img (ops ++ (otaEnd p verified it (applyAll ops img)).ops) (done.flatten ++
        List.replicate (padEnd p done.flatten.length - done.flatten.length) (padByte done)) (sectorEnd done.flatten.length)) ∨
    Gap p done ∧ (p.size < done.flatten.length ∧
      (otaEnd p verified it (applyAll ops img)).result = .error .invalidState ∨
      ¬ErasedFirst (fun _ => False) (ops ++ (otaEnd p verified it (applyAll ops img)).ops)) := by
  have hle := blockEnd_le p done.flatten.length
  have hfresh := h.fresh_le_size
  have hfreshle := h.fresh_le
  have haligned := h.written.aligned
  have hwrote : it.wroteSize ≠ 0 := by rw [h.wroteSize]; exact hsome
  have hcarry := h.partialBytes
  by_cases hwhole : blockEnd p done.flatten.length = done.flatten.length
  · have hend : padEnd p done.flatten.length - done.flatten.length = 0 := by
      unfold blockEnd at hwhole
      unfold padEnd
      split
      · rename_i henc
        rw [if_pos henc] at hwhole
        omega
      · exact Nat.sub_self _
    have hsector : fresh = sectorEnd done.flatten.length := by
      unfold sectorEnd at *
      omega
    obtain ⟨hresult, hops⟩ := otaEnd_whole (p := p) (F := applyAll ops img) verified hwrote (by omega)
    have hw := h.written
    rw [hwhole, List.take_length, hsector] at hw
    refine Or.inl ⟨fun hgap => ?_, hresult, ?_⟩
    · have := (h.gap.mpr hgap).2
      omega
    · rw [hops, hend, List.replicate_zero, List.append_nil, List.append_nil]
      exact hw
  · have henc : p.flashEncryption = true := by
      cases henc : p.flashEncryption with
      | false => exact absurd (if_neg (by rw [henc]; decide)) hwhole
      | true => rfl
    have hend : blockEnd p done.flatten.length = done.flatten.length - done.flatten.length % 16 := if_pos henc
    have hpad : padEnd p done.flatten.length = (done.flatten.length + 15) / 16 * 16 := if_pos henc
    have hdata := h.partialData henc
    have htail : (done.flatten.drop (blockEnd p done.flatten.length)).length = done.flatten.length % 16 := by
      rw [List.length_drop]
      omega
    have hlen : it.partialData.length = 16 := by
      rw [hdata]
      unfold carried
      rw [List.length_append, List.length_replicate, htail]
      omega
    have hblocks := h.length_blocks
    by_cases hgap : blockEnd p done.flatten.length = fresh
    · refine Or.inr ⟨h.gap.mp ⟨hgap, by omega⟩, ?_⟩
      rcases Nat.lt_or_ge p.size (blockEnd p done.flatten.length + 16) with hsize | hsize
      · have hfits := h.written.fits
        have hdvd := p.size_dvd
        refine Or.inl ⟨by omega, otaEnd_partial_fail (e := .invalidSize) verified hwrote (by omega) ?_⟩
        unfold partitionWrite
        rw [h.wroteSize, hlen, if_neg (by omega), if_pos (by omega)]
        rfl
      · have hrun : partitionWrite p it.wroteSize it.partialData it (applyAll ops img) = ⟨.ok (), it, _⟩ :=
          partitionWrite_run (by rw [h.wroteSize, hlen]; exact hsize)
            (fun _ => ⟨by rw [h.wroteSize]; omega, by rw [hlen]⟩)
        obtain ⟨-, hops⟩ := otaEnd_partial verified hwrote (by omega) hrun
        have hbad : ¬ErasedFirst (fun _ => False) (ops ++ [.write (p.address + _) it.partialData]) :=
          h.written.write_unerased (by rw [hblocks]; exact hgap) (by omega)
        rw [hblocks, ← h.wroteSize] at hbad
        rw [hops]
        exact Or.inr hbad
    · have hsector : fresh = sectorEnd done.flatten.length := by
        unfold sectorEnd at *
        omega
      have hfits := h.written.fits
      have hrun : partitionWrite p it.wroteSize it.partialData it (applyAll ops img) = ⟨.ok (), it, _⟩ :=
        partitionWrite_run (by rw [h.wroteSize, hlen]; omega)
          (fun _ => ⟨by rw [h.wroteSize]; omega, by rw [hlen]⟩)
      obtain ⟨hresult, hops⟩ := otaEnd_partial verified hwrote (by omega) hrun
      have hw : Written p img (ops ++ [.write (p.address + _) it.partialData]) (_ ++ it.partialData) fresh :=
        h.written.write (by rw [hblocks, hlen]; omega)
      have hbytes : done.flatten.take (blockEnd p done.flatten.length) ++ it.partialData = done.flatten ++
          List.replicate (padEnd p done.flatten.length - done.flatten.length) (padByte done) := by
        rw [hdata]
        unfold carried
        rw [← List.append_assoc, List.take_append_drop, htail, hpad]
        congr 2
        omega
      rw [hblocks, hbytes, ← h.wroteSize, hsector] at hw
      refine Or.inl ⟨fun hf => hgap (h.gap.mpr hf).1, hresult, ?_⟩
      rw [hops]
      exact hw

/-- The image with its padding, as `Written` leaves it. -/
theorem Written.imageAt_iff {F : List UInt8} {used pad : UInt8} (h : Written p img ops
      (F ++ List.replicate (padEnd p F.length - F.length) used) (sectorEnd F.length)) :
    (∀ i, applyAll ops img (p.address + i) = imageAt p img F pad i) ↔ (F.length < padEnd p F.length → pad = used) := by
  have hle : F.length ≤ padEnd p F.length := by
    unfold padEnd
    split
    · omega
    · exact Nat.le_refl _
  have hlen : (F ++ List.replicate (padEnd p F.length - F.length) used).length = padEnd p F.length := by
    rw [List.length_append, List.length_replicate]
    omega
  have hbytes := h.bytes
  rw [hlen] at hbytes
  have hpadding : ∀ i, ¬i < F.length → i < padEnd p F.length →
      (F ++ List.replicate (padEnd p F.length - F.length) used).getD i 0 = used := by
    intro i hx hpad
    rw [List.getD_append_right _ _ _ _ (by omega), List.getD_eq_getElem _ _ (by rw [List.length_replicate]; omega),
      List.getElem_replicate]
  constructor
  · intro hall hpad
    have hat := hall F.length
    unfold imageAt at hat
    rw [hbytes, if_pos hpad, hpadding _ (Nat.lt_irrefl _) hpad, if_neg (Nat.lt_irrefl _), if_pos hpad] at hat
    exact hat.symm
  · intro hpad i
    unfold imageAt
    rw [hbytes]
    by_cases hx : i < F.length
    · rw [if_pos (by omega), if_pos hx, List.getD_append _ _ _ _ hx]
    · rw [if_neg hx]
      by_cases hi : i < padEnd p F.length
      · rw [if_pos hi, if_pos hi, hpadding i hx hi, hpad (by omega)]
      · rw [if_neg hi, if_neg hi]

end Run

variable (p : Staging) (img : Image) (pad : UInt8) (chunks : List (List UInt8)) (verified : Bool)

theorem padEnd_lt_iff (n : Nat) : n < padEnd p n ↔ p.flashEncryption = true ∧ n % 16 ≠ 0 := by
  unfold padEnd
  split
  · rename_i henc
    rw [and_iff_right henc]
    omega
  · rename_i henc
    exact iff_of_false (Nat.lt_irrefl _) (fun hf => henc hf.1)

/-- Only the verification reports `notVerified`. -/
theorem error_ne_verdict {e : OtaWriteErr} (verified : Bool) (hne : e ≠ .notVerified) :
    (.error e : Except OtaWriteErr Unit) ≠ if verified then .ok () else .error .notVerified := by
  cases verified with
  | false => exact fun h => hne (Except.error.inj h)
  | true => exact fun h => nomatch h

/-- The chunks after which the image is in the partition. -/
theorem installed_iff : Installed p img pad chunks verified ↔ Accepted p chunks ∧
    (p.flashEncryption = true → chunks.flatten.length % 16 ≠ 0 → pad = padByte chunks ∧ ¬Gap p chunks) := by
  have hall := writeAll_run chunks (Progress.start p img)
  rw [List.nil_append] at hall
  rcases hall with ⟨it, ops, fresh, hrun, hprogress⟩ | ⟨⟨e, it, ops, hrun, hne⟩, hwhy⟩
  · rw [List.nil_append] at hprogress
    have hsession : otaSession p chunks verified .sequential img = ⟨(otaEnd p verified it (applyAll ops img)).result,
        (otaEnd p verified it (applyAll ops img)).ram, ops ++ (otaEnd p verified it (applyAll ops img)).ops⟩ :=
      bind_run (f := fun _ => otaEnd p verified) hrun rfl
    by_cases hsome : blockEnd p chunks.flatten.length = 0
    · refine iff_of_false (fun hinst => ?_) (fun hf => hf.1.2.1 hsome)
      have hresult := hinst.result
      have hzero : otaEnd p verified it (applyAll ops img) = ⟨.error .invalidArg, it, []⟩ := by
        unfold otaEnd
        rw [bind_quiet rfl, if_pos (by rw [hprogress.wroteSize]; exact hsome)]
        rfl
      rw [hsession, hzero] at hresult
      exact error_ne_verdict verified (by decide) hresult
    · rcases otaEnd_run hprogress verified hsome with ⟨hgap, hresult, hwritten⟩ | ⟨hgap, hwhy⟩
      · have hcontents : (∀ i, _ = imageAt p img chunks.flatten pad i) ↔ _ := hwritten.imageAt_iff
        rw [padEnd_lt_iff] at hcontents
        constructor
        · intro hinst
          have hsize := Nat.le_trans hwritten.le hwritten.fits
          rw [List.length_append] at hsize
          have hat := hinst.contents
          rw [hsession] at hat
          exact ⟨⟨hprogress.header, hsome, by omega⟩, fun henc hmod => ⟨hcontents.mp hat ⟨henc, hmod⟩, hgap⟩⟩
        · rintro ⟨-, hpad⟩
          refine ⟨?_, ?_, ?_⟩
          · rw [hsession]
            exact hresult
          · rw [hsession]
            exact hcontents.mpr fun h => (hpad h.1 h.2).1
          · rw [hsession]
            have hfirst := (hwritten.first []).mpr True.intro
            rw [List.append_nil] at hfirst
            exact hfirst
      · refine iff_of_false (fun hinst => ?_) (fun hf => (hf.2 hgap.1 hgap.2.1).2 hgap)
        have hresult := hinst.result
        have hfirst := hinst.erasedFirst
        rw [hsession] at hresult hfirst
        rcases hwhy with ⟨-, hstate⟩ | hunerased
        · rw [hstate] at hresult
          exact error_ne_verdict verified (by decide) hresult
        · exact hunerased hfirst
  · have hsession : otaSession p chunks verified .sequential img = ⟨.error e, it, ops⟩ :=
      bind_error (f := fun _ => otaEnd p verified) hrun
    refine iff_of_false (fun hinst => ?_) (fun hf => ?_)
    · have hresult := hinst.result
      rw [hsession] at hresult
      exact error_ne_verdict verified hne hresult
    · rcases hwhy with hsize | ⟨data, hfirst, hheader⟩
      · exact absurd hf.1.2.2 (by omega)
      · exact hheader (hf.1.1 data hfirst)

/-- With a gap, the end programs a sector that was not erased. -/
theorem gap_unerased (haccepted : Accepted p chunks) (hgap : Gap p chunks) :
    ¬ErasedFirst (fun _ => False) (otaSession p chunks verified .sequential img).ops := by
  have hall := writeAll_run chunks (Progress.start p img)
  rw [List.nil_append] at hall
  rcases hall with ⟨it, ops, fresh, hrun, hprogress⟩ | ⟨-, hsize | ⟨data, hfirst, hheader⟩⟩
  · rw [List.nil_append] at hprogress
    have hsession : otaSession p chunks verified .sequential img = ⟨(otaEnd p verified it (applyAll ops img)).result,
        (otaEnd p verified it (applyAll ops img)).ram, ops ++ (otaEnd p verified it (applyAll ops img)).ops⟩ :=
      bind_run (f := fun _ => otaEnd p verified) hrun rfl
    rw [hsession]
    rcases otaEnd_run hprogress verified haccepted.2.1 with ⟨hno, -⟩ | ⟨-, ⟨hsize, -⟩ | hunerased⟩
    · exact absurd hgap hno
    · exact absurd haccepted.2.2 (by omega)
    · exact hunerased
  · exact absurd haccepted.2.2 (by omega)
  · exact absurd (haccepted.1 data hfirst) hheader

/-- Two ways of cutting an image: both sessions leave it in the partition with the same padding, and program erased sectors
only, exactly when the calls take it both ways and, if carried bytes remain, both or neither way completed a block of
carried bytes before and the last block is in an erased sector both ways. -/
theorem chunking_independent_iff (chunks' : List (List UInt8)) (h : chunks.flatten = chunks'.flatten) :
    (∃ pad, Installed p img pad chunks verified ∧ Installed p img pad chunks' verified) ↔
      Accepted p chunks ∧ Accepted p chunks' ∧ (p.flashEncryption = true → chunks.flatten.length % 16 ≠ 0 →
        (Flushed chunks ↔ Flushed chunks') ∧ ¬Gap p chunks ∧ ¬Gap p chunks') := by
  have hpad : padByte chunks = padByte chunks' ↔ (Flushed chunks ↔ Flushed chunks') := by
    unfold padByte
    by_cases h₁ : Flushed chunks
    · rw [if_pos h₁]
      by_cases h₂ : Flushed chunks'
      · rw [if_pos h₂]
        exact iff_of_true rfl (iff_of_true h₁ h₂)
      · rw [if_neg h₂]
        exact iff_of_false (by decide) (fun hf => h₂ (hf.mp h₁))
    · rw [if_neg h₁]
      by_cases h₂ : Flushed chunks'
      · rw [if_pos h₂]
        exact iff_of_false (by decide) (fun hf => h₁ (hf.mpr h₂))
      · rw [if_neg h₂]
        exact iff_of_true rfl (iff_of_false h₁ h₂)
  constructor
  · rintro ⟨pad, h₁, h₂⟩
    rw [installed_iff] at h₁ h₂
    refine ⟨h₁.1, h₂.1, fun henc hmod => ?_⟩
    obtain ⟨hpad₁, hgap₁⟩ := h₁.2 henc hmod
    obtain ⟨hpad₂, hgap₂⟩ := h₂.2 henc (h ▸ hmod)
    exact ⟨hpad.mp (hpad₁.symm.trans hpad₂), hgap₁, hgap₂⟩
  · rintro ⟨h₁, h₂, hrest⟩
    refine ⟨padByte chunks, (installed_iff ..).mpr ⟨h₁, fun henc hmod => ⟨rfl, (hrest henc hmod).2.1⟩⟩,
      (installed_iff ..).mpr ⟨h₂, fun henc hmod => ?_⟩⟩
    obtain ⟨hflushed, -, hgap⟩ := hrest henc (h ▸ hmod)
    exact ⟨hpad.mpr hflushed, hgap⟩

/-- Two sectors for an application, under flash encryption. -/
def stagingTwo : Staging where
  address := 0x10000
  size := 0x2000
  final := .app
  flashEncryption := true
  address_dvd := by decide
  size_dvd := by decide

/-- Bytes that start like an image. -/
def imageBytes (n : Nat) : List UInt8 := List.replicate n 0xE9

theorem length_imageBytes (n : Nat) : (imageBytes n).length = n := List.length_replicate

instance (p : Staging) (chunks : List (List UInt8)) : Decidable (Gap p chunks) := by
  unfold Gap
  infer_instance

theorem chunking_independent_iff_halves :
    (∃ pad, Installed stagingTwo (fun _ => 0xFF) pad [imageBytes 8, imageBytes 9, imageBytes 7] true ∧
      Installed stagingTwo (fun _ => 0xFF) pad [imageBytes 9, imageBytes 8, imageBytes 7] true) := by
  refine (chunking_independent_iff stagingTwo (fun _ => 0xFF) [imageBytes 8, imageBytes 9, imageBytes 7] true
    [imageBytes 9, imageBytes 8, imageBytes 7] (by decide)).mpr ⟨⟨?_, by decide, by decide⟩, ⟨?_, by decide, by decide⟩,
      fun _ _ => by decide⟩
  · intro data hdata
    obtain rfl := Option.some.inj hdata
    decide
  · intro data hdata
    obtain rfl := Option.some.inj hdata
    decide

/-- Seventeen bytes in one call are padded with `0x00`, in two calls with `0xFF`; and 8 bytes followed by 4096 end with a
write to a sector that was not erased. -/
theorem chunking_dependent :
    (∃ i, applyAll (otaSession stagingTwo [imageBytes 17] true .sequential fun _ => 0xFF).ops (fun _ => 0xFF)
        (stagingTwo.address + i) ≠
      applyAll (otaSession stagingTwo [imageBytes 8, imageBytes 9] true .sequential fun _ => 0xFF).ops (fun _ => 0xFF)
        (stagingTwo.address + i)) ∧
      ¬ErasedFirst (fun _ => False)
        (otaSession stagingTwo [imageBytes 8, imageBytes 4096] true .sequential fun _ => 0xFF).ops := by
  constructor
  · exact ⟨17, by decide +kernel⟩
  · have hlen : [imageBytes 8, imageBytes 4096].flatten.length = 4104 := by
      rw [List.flatten_cons, List.flatten_singleton, List.length_append, length_imageBytes, length_imageBytes]
    refine gap_unerased _ _ _ _ ⟨?_, ?_, ?_⟩ ⟨rfl, ?_⟩
    · intro data hdata
      obtain rfl := Option.some.inj hdata
      decide
    · rw [hlen]
      decide
    · rw [hlen]
      decide
    · have hlast : lastLength [imageBytes 8, imageBytes 4096] = 4096 := by
        have hne : imageBytes 4096 ≠ [] := List.ne_nil_of_length_pos (by rw [length_imageBytes]; decide)
        rw [← List.singleton_append, lastLength_snoc, if_neg hne, length_imageBytes]
      rw [hlen, hlast]
      decide

end EspIdf.Ota
