import EspIdf.Nvs.Compare
import EspIdf.Nvs.Numbers

/-!
# NVS: writing, page by page

* `Grown` : items are written, and pages are requested for them;
* `blobLoop_grown` : the chunks of a blob; a chunk behind the first fills a page, so that there are not too many of them;
* `writeNew_spec`, `eraseOld_spec` : the new value is written, and the old one is erased where it is by then;
* `writeItem_moved` : both.
-/

namespace EspIdf.Nvs

open Spans PageManager

/-! ## Pages that are filled -/

section page
variable {p : Page} {vs : List Value}

theorem tailroom_eq (h : p.getVarDataTailroom ≠ 0) :
    p.getVarDataTailroom = (ENTRY_COUNT - p.freeEntry - 1) * ENTRY_SIZE ∧ p.freeEntry < ENTRY_COUNT - 1 := by
  unfold Page.getVarDataTailroom Page.freeEntry at *
  by_cases huninit : p.state = .uninitialized
  · rw [if_pos huninit, if_pos huninit]
    exact ⟨rfl, by decide⟩
  · rw [if_neg huninit] at h ⊢
    rw [if_neg huninit]
    split_ifs at h ⊢ with hfull hroom
    · exact absurd rfl h
    · exact ⟨rfl, hroom⟩
    · exact absurd rfl h

theorem PageManager.Compacted.used (hc : Compacted p) (h : Holds p vs) : p.usedEntryCount = p.freeEntry := by
  unfold Page.freeEntry
  rcases hc with ⟨hactive, hused⟩ | huninit
  · rw [if_neg (by rw [hactive]; decide), hused]
  · rw [if_pos huninit]
    exact (h.fresh_of_uninitialized huninit).used

theorem Wrote.used {v : Value} {key : CString} {out : EspErr × Page} (hw : Wrote p vs v key out) (h : Holds p vs) :
    p.usedEntryCount ≤ out.2.usedEntryCount := by
  by_cases hok : out.1 = ESP_OK
  · rw [(hw.done hok).2.2.2.used, h.used, total_append]
    exact Nat.le_add_right _ _
  · rw [(hw.failed hok).2.used, h.used]

/-- A chunk as long as the room on a page whose values are one behind the other leaves no entry that is not used. -/
theorem Wrote.filled {nsIndex chunkIdx : UInt8} {key : CString} {data : List UInt8} {out : EspErr × Page}
    (hw : Wrote p vs (writtenValue p.freeEntry nsIndex .blobData key data chunkIdx) key out) (h : Holds p vs)
    (hc : Compacted p) (hok : out.1 = ESP_OK) (hroom : p.getVarDataTailroom ≠ 0) (hlength : data.length = p.getVarDataTailroom) :
    ENTRY_COUNT ≤ out.2.usedEntryCount := by
  obtain ⟨htail, hlt⟩ := tailroom_eq hroom
  have hused := hc.used h
  have hstop := @writtenValue_stop p.freeEntry nsIndex chunkIdx .blobData key data
  have hvar : ItemType.blobData.isVariableLength = true := rfl
  rw [if_pos hvar, hlength, htail] at hstop
  have hspan : Span.start (writtenValue p.freeEntry nsIndex .blobData key data chunkIdx) = p.freeEntry := writtenValue_index
  have hstop' : Span.stop (writtenValue p.freeEntry nsIndex .blobData key data chunkIdx) = _ := hstop
  rw [(hw.done hok).2.2.2.used, total_concat, ← h.used, hused, hstop', hspan]
  unfold ENTRY_COUNT ENTRY_SIZE at *
  omega

end page

namespace Storage
variable {s s' s'' : Storage} {nsIndex chunkStart : UInt8} {key : CString} {data : List UInt8} {datatype : ItemType}
  {purge : Bool}

/-- Items are written, and pages are requested. -/
structure Grown (s s' : Storage) : Prop where
  grows : s.manager.Grows s'.manager
  active : s'.active = s.active

theorem Grown.refl (s : Storage) : Grown s s := ⟨.refl, rfl⟩

theorem Grown.trans (h : Grown s s') (h' : Grown s' s'') : Grown s s'' :=
  ⟨h.grows.trans h'.grows, h'.active.trans h.active⟩

theorem Grown.moved (h : Grown s s') : Moved s s' := ⟨Grows.moves h.grows, h.active⟩

theorem Grown.sound (h : Grown s s') (hs : s.manager.Sound) : s'.manager.Sound := h.moved.sound hs

/-! ## Chunks -/

theorem markFullUnlessFull_grown :
    Grown s s.markFullUnlessFull.2 ∧ s.markFullUnlessFull.2.manager.roomy ⊆ s.manager.roomy := by
  unfold markFullUnlessFull
  split_ifs with hfull
  · exact ⟨⟨.single .markFull, rfl⟩, roomy_setPage (markFull_kept _).2.2.ge⟩
  · exact ⟨.refl s, subset_rfl⟩

/-- The current page is left, and the next one has its values one behind the other. -/
theorem fillPage_spec (h : s.manager.Sound) :
    Grown s s.fillPage.2 ∧ s.fillPage.2.manager.roomy ⊆ s.manager.roomy ∧
      (s.fillPage.1 = ESP_OK →
        Compacted (s.fillPage.2.page s.fillPage.2.manager.back) ∧ s.fillPage.2.manager.freePageList ≠ []) := by
  obtain ⟨hgrown, hroomy⟩ := @markFullUnlessFull_grown s
  have hsound := hgrown.sound h
  have hrequest := requestNewPage_spec hsound
  unfold fillPage
  dsimp only
  split_ifs with hmark
  · exact ⟨hgrown, hroomy, fun hok => absurd hok hmark⟩
  · exact ⟨hgrown.trans ⟨.single .request, rfl⟩, (hrequest.roomy hsound).subset.trans hroomy, hrequest.back hsound⟩

/-- The number of a chunk behind the first is bounded by the pages with room. -/
structure Numerable (s : Storage) (chunkCount : UInt8) : Prop where
  first : chunkCount = 0 → s.manager.roomy.card ≤ 127
  behind : chunkCount ≠ 0 → Compacted (s.page s.manager.back) ∧ s.manager.freePageList ≠ [] ∧
    s.manager.roomy.card + chunkCount.toNat ≤ 128

theorem Numerable.lt (h : s.manager.Sound) (hn : Numerable s chunkCount) (hroom : (s.page s.manager.back).getVarDataTailroom ≠ 0) :
    chunkCount.toNat < 127 := by
  by_cases hzero : chunkCount = 0
  · rw [hzero]
    decide
  · obtain ⟨hc, hfree, hcard⟩ := hn.behind hzero
    obtain ⟨f, hf⟩ := List.exists_mem_of_ne_nil _ hfree
    have hback := h.back_mem
    have hroomy : s.manager.back ∈ s.manager.roomy := by
      refine mem_roomy.mpr ⟨h.lt_of_used hback, ?_⟩
      have hused := hc.used (h.holds _ (h.lt_of_used hback))
      have hlt := (tailroom_eq hroom).2
      change (s.page s.manager.back).usedEntryCount < ENTRY_COUNT
      omega
    have htwo : ({s.manager.back, f} : Finset Nat).card ≤ s.manager.roomy.card := Finset.card_le_card (by
      intro k hk
      rcases Finset.mem_insert.mp hk with rfl | hk
      · exact hroomy
      · exact Finset.mem_singleton.mp hk ▸ h.fresh_roomy hf)
    rw [Finset.card_pair (h.ne_of_used_free hback hf)] at htwo
    omega

theorem Numerable.index (hstart : chunkStart = VER_0_OFFSET ∨ chunkStart = VER_1_OFFSET) {chunkCount : UInt8}
    (hlt : chunkCount.toNat < 127) : chunkStart + chunkCount ≠ CHUNK_ANY := by
  intro heq
  have hnat := congrArg UInt8.toNat heq
  rw [UInt8.toNat_add] at hnat
  rcases hstart with rfl | rfl
  · have : (VER_0_OFFSET.toNat + chunkCount.toNat) % 2 ^ 8 = 255 := hnat
    have hzero : VER_0_OFFSET.toNat = 0 := rfl
    omega
  · have : (VER_1_OFFSET.toNat + chunkCount.toNat) % 2 ^ 8 = 255 := hnat
    have hhalf : VER_1_OFFSET.toNat = 128 := rfl
    omega

/-- A chunk that is written: only the last leaves room on its page. -/
theorem writeChunk_spec (h : s.manager.Sound) {chunkCount : UInt8} (hn : Numerable s chunkCount)
    (hroom : (s.page s.manager.back).getVarDataTailroom ≠ 0) (hchunk : chunkStart + chunkCount ≠ CHUNK_ANY) (chunk : List UInt8) :
    Grown s (s.onPage s.manager.back (·.writeItem nsIndex .blobData key chunk (chunkStart + chunkCount))).2 ∧
      ((s.onPage s.manager.back (·.writeItem nsIndex .blobData key chunk (chunkStart + chunkCount))).1 = ESP_OK →
        chunk.length = (s.page s.manager.back).getVarDataTailroom →
          (s.onPage s.manager.back
            (·.writeItem nsIndex .blobData key chunk (chunkStart + chunkCount))).2.manager.roomy.card + (chunkCount.toNat + 1) ≤
              128) := by
  have hw : Writable .blobData chunk (chunkStart + chunkCount) := .chunk hchunk
  have hholds := h.holds _ (h.lt_of_used h.back_mem)
  have hwrote := @Sound.written s.manager h nsIndex _ _ key _ hw
  have hsubset := roomy_setPage (hwrote.used hholds)
  have hmanager : (s.onPage s.manager.back
      (·.writeItem nsIndex .blobData key chunk (chunkStart + chunkCount))).2.manager = s.manager.setPage s.manager.back
        ((s.manager.page s.manager.back).writeItem nsIndex .blobData key chunk (chunkStart + chunkCount)).2 := rfl
  refine ⟨⟨.single (.write hw), rfl⟩, fun hok hlength => ?_⟩
  rw [hmanager]
  by_cases hzero : chunkCount = 0
  · have hcard := Nat.le_trans (Finset.card_le_card hsubset) (hn.first hzero)
    have hnat : chunkCount.toNat = 0 := congrArg UInt8.toNat hzero
    omega
  · obtain ⟨hc, -, hcard⟩ := hn.behind hzero
    have hfilled := roomy_filled (h.lt_of_used h.back_mem) (hwrote.filled hholds hc hok hroom hlength)
    have hback : s.manager.back ∈ s.manager.roomy := by
      refine mem_roomy.mpr ⟨h.lt_of_used h.back_mem, ?_⟩
      have hused := hc.used hholds
      have hlt := (tailroom_eq hroom).2
      change (s.page s.manager.back).usedEntryCount < ENTRY_COUNT
      omega
    have hless : (s.manager.setPage s.manager.back
        ((s.manager.page s.manager.back).writeItem nsIndex .blobData key chunk (chunkStart + chunkCount)).2).roomy.card <
          s.manager.roomy.card := Finset.card_lt_card ⟨hsubset, fun hsuper => hfilled (hsuper hback)⟩
    omega

/-- The loop writes chunks and an index, and requests pages. -/
theorem blobLoop_grown (hsize : data.length ≤ 255 / 2 * (ENTRY_COUNT - 1) * ENTRY_SIZE)
    (hstart : chunkStart = VER_0_OFFSET ∨ chunkStart = VER_1_OFFSET) (fuel : Nat) {chunkCount : UInt8} {offset : Nat}
    (h : s.manager.Sound) (hn : Numerable s chunkCount) (hoffset : offset ≤ data.length) :
    Grown s (blobLoop nsIndex key data chunkStart fuel chunkCount offset s).storage := by
  induction fuel generalizing s chunkCount offset with
  | zero => exact .refl s
  | succ fuel ih =>
    unfold blobLoop
    dsimp only
    by_cases hsmall : chunkCount = 0 ∧ ((s.page s.manager.back).getVarDataTailroom < data.length ∨
        (s.page s.manager.back).getVarDataTailroom = 0 ∧ data.length = 0) ∧
          (s.page s.manager.back).getVarDataTailroom < CHUNK_MAX_SIZE / 10
    · obtain ⟨hgrown, hroomy, -⟩ := fillPage_spec h
      rw [if_pos hsmall]
      split_ifs
      · exact hgrown
      · exact hgrown
      · refine hgrown.trans (ih (hgrown.sound h) ⟨fun hzero => ?_, fun hne => absurd hsmall.1 hne⟩ hoffset)
        exact Nat.le_trans (Finset.card_le_card hroomy) (hn.first hzero)
    rw [if_neg hsmall]
    by_cases hroom : (s.page s.manager.back).getVarDataTailroom = 0
    · rw [if_pos hroom]
      exact .refl s
    rw [if_neg hroom]
    have hlt := hn.lt h hroom
    obtain ⟨chunk, hchunk⟩ : ∃ chunk, chunk = (data.drop offset).take
        (min (data.length - offset) (s.page s.manager.back).getVarDataTailroom) := ⟨_, rfl⟩
    have hlength : chunk.length = min (data.length - offset) (s.page s.manager.back).getVarDataTailroom := by
      rw [hchunk, List.length_take, List.length_drop]
      omega
    obtain ⟨hgrown, hcard⟩ := @writeChunk_spec s nsIndex chunkStart key h chunkCount hn hroom
      (Numerable.index hstart hlt) chunk
    rw [← hchunk]
    obtain ⟨out, hout⟩ : ∃ out, out = s.onPage s.manager.back
        (·.writeItem nsIndex .blobData key chunk (chunkStart + chunkCount)) := ⟨_, rfl⟩
    rw [← hout] at hgrown hcard ⊢
    by_cases herr : out.1 ≠ ESP_OK
    · rw [if_pos herr]
      exact hgrown
    rw [if_neg herr]
    have hsound := hgrown.sound h
    obtain ⟨hfill, hroomy, hback⟩ := fillPage_spec hsound
    have hcount : (chunkCount + 1).toNat = chunkCount.toNat + 1 := by
      rw [UInt8.toNat_add]
      change (chunkCount.toNat + 1) % 2 ^ 8 = _
      omega
    have hindex : ∀ t : Storage, Grown t (t.onPage t.manager.back
        (·.writeItem nsIndex .blobIdx key (Item.blobIndexData data.length (chunkCount + 1) chunkStart) CHUNK_ANY)).2 :=
      fun t => ⟨.single (.write (.index hsize)), rfl⟩
    by_cases hmore : data.length - offset - min (data.length - offset) (s.page s.manager.back).getVarDataTailroom ≠ 0 ∨
        (s.page s.manager.back).getVarDataTailroom -
          min (data.length - offset) (s.page s.manager.back).getVarDataTailroom < ENTRY_SIZE
    · rw [if_pos hmore]
      by_cases hfillerr : out.2.fillPage.1 ≠ ESP_OK
      · rw [if_pos hfillerr]
        exact hgrown.trans hfill
      rw [if_neg hfillerr]
      split_ifs with hdone
      · exact hgrown.trans (hfill.trans (hindex _))
      · refine hgrown.trans (hfill.trans (ih (hfill.sound hsound) ⟨fun hzero => ?_, fun _ => ?_⟩ ?_))
        · have hnat := congrArg UInt8.toNat hzero
          rw [hcount] at hnat
          exact absurd hnat (Nat.succ_ne_zero _)
        · obtain ⟨hc, hfree⟩ := hback (not_not.mp hfillerr)
          refine ⟨hc, hfree, ?_⟩
          have hle := hcard (not_not.mp herr) (by omega)
          have hfewer := Finset.card_le_card hroomy
          omega
        · omega
    · rw [if_neg hmore]
      rw [not_or, not_not] at hmore
      dsimp only
      rw [if_neg (not_not.mpr rfl), if_pos hmore.1]
      exact hgrown.trans (hindex _)

/-! ## Values -/

theorem writeMultiPageBlob_spec (h : s.manager.Sound) (hroom : s.manager.roomy.card ≤ 127)
    (hstart : chunkStart = VER_0_OFFSET ∨ chunkStart = VER_1_OFFSET) :
    Moved s (s.writeMultiPageBlob nsIndex key data chunkStart purge).2 ∧
      ((s.writeMultiPageBlob nsIndex key data chunkStart purge).1 = ESP_OK →
        Grown s (s.writeMultiPageBlob nsIndex key data chunkStart purge).2) := by
  unfold writeMultiPageBlob
  dsimp only
  by_cases hlong : data.length > min (s.manager.pages.length - 1) ((CHUNK_ANY.toNat - 1) / 2) * CHUNK_MAX_SIZE
  · rw [if_pos hlong]
    exact ⟨.refl s, fun _ => .refl s⟩
  rw [if_neg hlong]
  have hsize : data.length ≤ 255 / 2 * (ENTRY_COUNT - 1) * ENTRY_SIZE := by
    refine Nat.le_trans (Nat.not_lt.mp hlong) (Nat.le_trans (Nat.mul_le_mul_right _ (Nat.min_le_right _ _)) ?_)
    decide
  have hgrown := @blobLoop_grown s nsIndex chunkStart key data hsize hstart (data.length + 4) 0 0 h
    ⟨fun _ => hroom, fun hne => absurd rfl hne⟩ (Nat.zero_le _)
  split_ifs with hreturned herr
  · exact ⟨hgrown.moved, fun _ => hgrown⟩
  · exact ⟨hgrown.moved.trans (cleanUp_trimmed (hgrown.sound h) _ _).toMoved, fun hok => absurd hok herr⟩
  · exact ⟨hgrown.moved, fun _ => hgrown⟩

/-- What is no blob is written with any chunk index. -/
theorem IsValue.writable (hvalue : IsValue datatype data) (hblob : datatype ≠ .blob) : Writable datatype data CHUNK_ANY := by
  cases hvalue with
  | blob data => exact absurd rfl hblob
  | text htext => exact .text htext
  | primitive htype hlength =>
    refine .primitive htype (hlength ▸ ?_)
    revert htype
    exact (by decide : ∀ t ∈ ItemType.primitive, t.alignment ≤ 8) datatype

theorem writeSingle_grown (h : s.manager.Sound) (hw : Writable datatype data CHUNK_ANY) :
    Grown s (s.writeSingle nsIndex datatype key data).2 := by
  have hwrite : ∀ t : Storage, Grown t (t.onPage t.manager.back (·.writeItem nsIndex datatype key data CHUNK_ANY)).2 :=
    fun t => ⟨.single (.write hw), rfl⟩
  have hfill := (fillPage_spec ((hwrite s).sound h)).1
  unfold writeSingle
  dsimp only
  split_ifs
  · exact (hwrite s).trans hfill
  · exact (hwrite s).trans (hfill.trans (hwrite _))
  · exact (hwrite s).trans (hfill.trans (hwrite _))
  · exact hwrite s

theorem writeNew_spec (h : s.manager.Sound) (hvalue : IsValue datatype data)
    (hroom : datatype = .blob → s.manager.roomy.card ≤ 127) (old : Option OldValue) (matched : Bool) :
    Moved s (s.writeNew nsIndex datatype key data purge old matched).2 ∧
      ((s.writeNew nsIndex datatype key data purge old matched).1 = ESP_OK →
        Grown s (s.writeNew nsIndex datatype key data purge old matched).2) := by
  have hfull : ESP_ERR_NVS_NOT_ENOUGH_SPACE ≠ ESP_OK := by decide
  unfold writeNew
  dsimp only
  by_cases hblob : datatype = .blob
  · rw [if_pos hblob]
    have hstart : ∀ prevStart : UInt8, (if prevStart = VER_1_OFFSET then VER_0_OFFSET else VER_1_OFFSET) = VER_0_OFFSET ∨
        (if prevStart = VER_1_OFFSET then VER_0_OFFSET else VER_1_OFFSET) = VER_1_OFFSET := by
      intro prevStart
      split_ifs
      · exact .inl rfl
      · exact .inr rfl
    have hall : ∀ (prevStart : UInt8) (out : EspErr × Storage),
        out = (if ¬(prevStart = VER_0_OFFSET ∨ prevStart = VER_1_OFFSET) then (ESP_FAIL, s)
          else
            let nextStart := if prevStart = VER_1_OFFSET then VER_0_OFFSET else VER_1_OFFSET
            let done := s.writeMultiPageBlob nsIndex key data nextStart purge
            (if done.1 = ESP_ERR_NVS_PAGE_FULL then ESP_ERR_NVS_NOT_ENOUGH_SPACE else done.1, done.2)) →
          Moved s out.2 ∧ (out.1 = ESP_OK → Grown s out.2) := by
      rintro prevStart out rfl
      by_cases hprev : ¬(prevStart = VER_0_OFFSET ∨ prevStart = VER_1_OFFSET)
      · rw [if_pos hprev]
        exact ⟨.refl s, fun _ => .refl s⟩
      rw [if_neg hprev]
      have hnext := hstart prevStart
      revert hnext
      generalize (if prevStart = VER_1_OFFSET then VER_0_OFFSET else VER_1_OFFSET) = nextStart
      intro hnext
      obtain ⟨hmoved, hgrown⟩ := @writeMultiPageBlob_spec s nsIndex _ key data purge h (hroom hblob) hnext
      refine ⟨hmoved, fun hok => hgrown ?_⟩
      dsimp only at hok
      by_cases hpage : (s.writeMultiPageBlob nsIndex key data nextStart purge).1 = ESP_ERR_NVS_PAGE_FULL
      · rw [if_pos hpage] at hok
        exact absurd hok hfull
      · rwa [if_neg hpage] at hok
    exact hall _ _ rfl
  · rw [if_neg hblob]
    have hgrown := @writeSingle_grown s nsIndex key data datatype h (hvalue.writable hblob)
    exact ⟨hgrown.moved, fun _ => hgrown⟩

/-! ## The old value -/

/-- Where an old value was found. -/
def OldValue.At (old : OldValue) (s : Storage) : Prop :=
  (∃ q v, FoundAt s q old.place old.item v) ∧ old.seqNumber = (s.page old.place.page).seqNumber

theorem findOld_spec (h : s.manager.Sound) :
    (s.findOld nsIndex datatype key).1 = s ∧ ∀ old, (s.findOld nsIndex datatype key).2.1 = some old → old.At s := by
  unfold findOld
  dsimp only
  rw [findItem_storage h]
  cases hplace : (s.findItem (query nsIndex (if datatype = .blob then .blobIdx else datatype) key)).place with
  | some found =>
    refine ⟨rfl, fun old hold => ?_⟩
    obtain rfl := Option.some.inj hold
    exact ⟨⟨_, findItem_place h hplace⟩, rfl⟩
  | none =>
    dsimp only
    rw [findItem_storage h]
    refine ⟨rfl, fun old hold => ?_⟩
    obtain ⟨found, hfound, rfl⟩ := Option.map_eq_some_iff.mp hold
    exact ⟨⟨_, findItem_place h hfound⟩, rfl⟩

theorem isStored_old {garbage : UInt32} :
    (isStored garbage s nsIndex datatype key data).2.2 = (s.findOld nsIndex datatype key).2 := by
  unfold isStored
  generalize s.findOld nsIndex datatype key = out
  obtain ⟨t, old, matched⟩ := out
  cases old with
  | none => rfl
  | some old => cases matched <;> rfl

theorem eraseOld_seqNumber (h : s.manager.Sound) (old : OldValue) :
    (s.eraseOld nsIndex key old purge).2.manager.seqNumber = s.manager.seqNumber := by
  unfold eraseOld
  dsimp only
  split_ifs
  · exact (eraseMultiPageBlob_trimmed h _).seqNumber
  · obtain ⟨hstorage, hplace⟩ := eraseFound_trimmed h (query nsIndex old.item.datatype key) purge
    rw [hstorage]
    cases hfound : (s.findItem (query nsIndex old.item.datatype key)).place with
    | none => rfl
    | some found => exact (hplace found.1 found.2 hfound).2.seqNumber
  · rfl

/-- After the new value was written, the old one is erased where it is. -/
theorem eraseOld_trimmed (h : s.manager.Sound) (hn : s.manager.Numbered) {old : OldValue} (hold : old.At s)
    (hgrown : Grown s s') (hlt : s'.manager.seqNumber < 2 ^ 32) : Trimmed s' (s'.eraseOld nsIndex key old purge).2 := by
  have hsound := hgrown.sound h
  obtain ⟨⟨q, v, hv⟩, hseq⟩ := hold
  have hkept : Kept old.place.page old.seqNumber s.manager.seqNumber v s'.manager :=
    hgrown.grows.kept h hlt (.still hv.page hv.value hseq.symm)
  have hbelow : old.seqNumber < s.manager.seqNumber :=
    hseq ▸ (hn (Nat.lt_of_le_of_lt (hgrown.grows.seq_le h) hlt)).2 _ hv.page
  unfold eraseOld
  dsimp only
  split_ifs with hindex hmoved
  · exact eraseMultiPageBlob_trimmed hsound _
  · obtain ⟨hstorage, hplace⟩ := eraseFound_trimmed hsound (query nsIndex old.item.datatype key) purge
    rw [hstorage]
    cases hfound : (s'.findItem (query nsIndex old.item.datatype key)).place with
    | none => exact .refl s'
    | some found => exact (hplace found.1 found.2 hfound).2
  · rw [not_or, not_not] at hmoved
    cases hkept with
    | still hi hv' _ =>
      have hplace : old.place = ⟨old.place.page, v.index⟩ := by rw [← hv.index]
      rw [hplace]
      exact (erase_spec hsound hi hv' purge).2.1
    | renumbered _ hle => exact absurd (hmoved.2 ▸ hle) (Nat.not_le.mpr hbelow)
    | freed hi =>
      have hstate : (s'.page old.place.page).state = .uninitialized := hsound.free _ hi
      rw [hstate] at hmoved
      exact absurd ⟨PageState.noConfusion, PageState.noConfusion⟩ hmoved.1

/-- A value is written as a sequence of moves, unless a number wraps. -/
theorem writeItem_moved {garbage : UInt32} (h : s.manager.Sound) (hn : s.manager.Numbered) (hvalue : IsValue datatype data)
    (hroom : datatype = .blob → s.manager.roomy.card ≤ 127)
    (hlt : (writeItem garbage s nsIndex datatype key data purge).2.manager.seqNumber < 2 ^ 32) :
    Moved s (writeItem garbage s nsIndex datatype key data purge).2 := by
  unfold writeItem at hlt ⊢
  by_cases hactive : (!s.active) = true
  · rw [if_pos hactive]
    exact .refl s
  rw [if_neg hactive] at hlt ⊢
  have hactive' : s.active = true := by simpa using hactive
  have hstorage := (@isStored_spec s nsIndex key datatype data garbage h hactive' hvalue).1
  have hold : ∀ old, (isStored garbage s nsIndex datatype key data).2.2.1 = some old → old.At s := fun old heq =>
    (findOld_spec h).2 old (by rwa [← isStored_old])
  dsimp only at hlt ⊢
  rw [hstorage] at hlt ⊢
  obtain ⟨hmoved, hgrown⟩ := @writeNew_spec s nsIndex key data datatype purge h hvalue hroom
    (isStored garbage s nsIndex datatype key data).2.2.1 (isStored garbage s nsIndex datatype key data).2.2.2
  by_cases hstored : (isStored garbage s nsIndex datatype key data).1 = true
  · rw [if_pos hstored]
    exact .refl s
  rw [if_neg hstored] at hlt ⊢
  by_cases herr : (s.writeNew nsIndex datatype key data purge (isStored garbage s nsIndex datatype key data).2.2.1
      (isStored garbage s nsIndex datatype key data).2.2.2).1 ≠ ESP_OK
  · rw [if_pos herr]
    exact hmoved
  rw [if_neg herr] at hlt ⊢
  cases hfound : (isStored garbage s nsIndex datatype key data).2.2.1 with
  | none =>
    rw [hfound] at hmoved
    exact hmoved
  | some old =>
    rw [hfound] at hgrown hlt herr
    dsimp only at hlt ⊢
    have hnew := hgrown (not_not.mp herr)
    rw [eraseOld_seqNumber (hnew.sound h)] at hlt
    exact hnew.moved.trans (eraseOld_trimmed h hn (hold old hfound) hnew hlt).toMoved

/-! ## Namespaces -/

theorem createOrOpenNamespace_moved {garbage : UInt32} {nsName : CString} {canCreate : Bool} (h : s.manager.Sound)
    (hn : s.manager.Numbered) (hlt : (createOrOpenNamespace garbage s nsName canCreate).2.2.manager.seqNumber < 2 ^ 32) :
    Moved s (createOrOpenNamespace garbage s nsName canCreate).2.2 := by
  unfold createOrOpenNamespace at hlt ⊢
  by_cases hactive : (!s.active) = true
  · rw [if_pos hactive]
    exact .refl s
  rw [if_neg hactive] at hlt ⊢
  cases hfind : s.namespaces.find? fun e => nsName.chars.take MAX_KEY_LENGTH = e.name.take MAX_KEY_LENGTH with
  | some e => exact .refl s
  | none =>
    rw [hfind] at hlt
    dsimp only at hlt ⊢
    have hvalue : IsValue .u8 [.ofNat (freeNamespace s.namespaceUsage 1 254)] := .primitive (by decide) rfl
    have hmoved := @writeItem_moved s NS_INDEX nsName _ .u8 true garbage h hn hvalue nofun
    by_cases hcreate : (!canCreate) = true
    · rw [if_pos hcreate]
      exact .refl s
    rw [if_neg hcreate] at hlt ⊢
    by_cases hnone : freeNamespace s.namespaceUsage 1 254 = 255
    · rw [if_pos hnone]
      exact .refl s
    rw [if_neg hnone] at hlt ⊢
    by_cases herr : (writeItem garbage s NS_INDEX .u8 nsName [.ofNat (freeNamespace s.namespaceUsage 1 254)] true).1 ≠ ESP_OK
    · rw [if_pos herr] at hlt ⊢
      exact hmoved hlt
    · rw [if_neg herr] at hlt ⊢
      exact ⟨(hmoved hlt).moves, (hmoved hlt).active⟩

/-! ## Purging -/

theorem purgePages_trimmed {l : List Nat} (h : s.manager.Sound) (hl : ∀ i ∈ l, i ∈ s.manager.pageList) (hnodup : l.Nodup)
    (hsafe : ∀ i ∈ l, (s.page i).PurgeSafe nsIndex 0) :
    Trimmed s (onPages (fun i s => s.onPage i (·.purgeErasedItems nsIndex)) l s).2 := by
  induction l generalizing s with
  | nil => exact .refl s
  | cons i l ih =>
    have hi := hl i List.mem_cons_self
    obtain ⟨hnot, hnodup'⟩ := List.nodup_cons.mp hnodup
    have hfirst : Trimmed s (s.onPage i (·.purgeErasedItems nsIndex)).2 :=
      ⟨⟨.single (.purge hi (hsafe i List.mem_cons_self)), rfl⟩, rfl, rfl⟩
    unfold onPages
    dsimp only
    split_ifs
    · exact hfirst
    · refine hfirst.trans (ih (hfirst.sound h) (fun j hj => hl j (List.mem_cons_of_mem i hj)) hnodup' fun j hj => ?_)
      have hpage : (s.onPage i (·.purgeErasedItems nsIndex)).2.page j = s.page j :=
        page_setPage_ne fun heq => hnot (heq ▸ hj)
      rw [hpage]
      exact hsafe j (List.mem_cons_of_mem i hj)

theorem purgeNamespace_trimmed (h : s.manager.Sound) (hsafe : ∀ i ∈ s.manager.pageList, (s.page i).PurgeSafe nsIndex 0) :
    Trimmed s (s.purgeNamespace nsIndex).2 := by
  unfold purgeNamespace
  split_ifs
  · exact .refl s
  · exact purgePages_trimmed h (fun i hi => hi) (List.nodup_append.mp h.nodup).1 hsafe

/-! ## Reading -/

theorem FoundAt.readItem_page {q : Query} {place : Place} {item : Item} {v : Value} (hv : FoundAt s q place item v)
    (h : s.manager.Sound) (dataSize : Nat) : ((s.page place.page).readItem q dataSize).2.1 = s.page place.page := by
  have hlayout := hv.layout h
  cases hvar : q.datatype.isVariableLength with
  | true =>
    rw [hlayout.readItem_variable hv.value (hv.variable_length hvar) hvar hv.again]
    split_ifs <;> rfl
  | false =>
    rw [hlayout.readItem_primitive hvar hv.again]
    split_ifs <;> rfl

theorem readItem_trimmed (h : s.manager.Sound) (dataSize : Nat) : Trimmed s (s.readItem nsIndex datatype key dataSize).2.1 := by
  cases hactive : s.active with
  | false =>
    unfold readItem
    rw [hactive]
    exact .refl s
  | true =>
    by_cases hblob : datatype = .blob
    · subst hblob
      rw [(@readItem_blob s nsIndex key [] h hactive dataSize).2]
      exact readMultiPageBlob_trimmed h dataSize
    · rw [readItem_single h hactive hblob]
      cases hplace : (s.findItem (query nsIndex datatype key)).place with
      | none => exact .refl s
      | some found =>
        obtain ⟨v, hv⟩ := findItem_place h hplace
        dsimp only
        rw [hv.readItem_page h, setPage_page]
        exact .refl s

end Storage

end EspIdf.Nvs
