import EspIdf.Nvs.Manager
import EspIdf.Nvs.Storage
import Mathlib.Logic.Relation

/-!
# NVS: the storage's operations, page by page

* `Move`, `Moves` : what an operation does to one page, and one after the other; `Grow` : what a write does;
* `Move.sound` : the pages are kept;
* `findItem_storage`, `findItem_place` : a search changes nothing, and what it finds is a value of a page;
* `Trimmed` : items are erased; `eraseItem_trimmed`, `eraseNamespace_trimmed` and the like.
-/

namespace EspIdf.Nvs

open Spans

namespace PageManager
variable {m m' : PageManager}

/-- A change that adds. -/
inductive Grow (m : PageManager) : PageManager → Prop
  | write {nsIndex chunkIdx : UInt8} {datatype : ItemType} {key : CString} {data : List UInt8}
      (hw : Writable datatype data chunkIdx) :
      Grow m (m.setPage m.back ((m.page m.back).writeItem nsIndex datatype key data chunkIdx).2)
  | markFull : Grow m (m.setPage m.back (m.page m.back).markFull.2)
  | request : Grow m m.requestNewPage.2

/-- A change that an operation makes. -/
inductive Move (m : PageManager) : PageManager → Prop
  | grow {m' : PageManager} (h : Grow m m') : Move m m'
  | erase {i : Nat} {v : Value} (hi : i ∈ m.pageList) (hv : v ∈ (m.page i).values) (purge : Bool) :
      Move m (m.setPage i ((m.page i).eraseEntryAndSpan v.index purge).2)
  | purge {i : Nat} {nsIndex : UInt8} (hi : i ∈ m.pageList) (hsafe : (m.page i).PurgeSafe nsIndex 0) :
      Move m (m.setPage i ((m.page i).purgeErasedItems nsIndex).2)

abbrev Grows := Relation.ReflTransGen Grow

abbrev Moves := Relation.ReflTransGen Move

theorem Sound.layout_of_value (h : m.Sound) {i : Nat} {v : Value} (hi : i ∈ m.pageList) (hv : v ∈ (m.page i).values) :
    Layout (m.page i) (m.page i).values := by
  have hholds := h.holds i (h.lt_of_used hi)
  refine hholds.layout_of_ne fun hstate => ?_
  rw [(Holds.fresh (hholds.fresh_of_uninitialized hstate)).values_eq] at hv
  exact absurd hv List.not_mem_nil

theorem Sound.written (h : m.Sound) {nsIndex chunkIdx : UInt8} {datatype : ItemType} {key : CString} {data : List UInt8}
    (hw : Writable datatype data chunkIdx) :
    Wrote (m.page m.back) (m.page m.back).values
      (writtenValue (m.page m.back).freeEntry nsIndex datatype key data chunkIdx) key
      ((m.page m.back).writeItem nsIndex datatype key data chunkIdx) :=
  (h.holds m.back (h.lt_of_used h.back_mem)).write (h.used m.back h.back_mem) hw

theorem Wrote.state {p : Page} {vs : List Value} {v : Value} {key : CString} {out : EspErr × Page}
    (h : Wrote p vs v key out) (hstate : p.state ≠ .freeing) : out.2.state ≠ .freeing ∧ ∃ vs', Holds out.2 vs' := by
  by_cases hok : out.1 = ESP_OK
  · obtain ⟨-, hactive, -, hlayout⟩ := h.done hok
    exact ⟨by rw [hactive]; decide, _, .layout hlayout⟩
  · obtain ⟨hs, hholds⟩ := h.failed hok
    refine ⟨?_, _, hholds⟩
    rcases hs with hs | ⟨-, hs⟩
    · rwa [hs]
    · rw [hs]
      decide

theorem Sound.markedFull (h : m.Sound) : (m.setPage m.back (m.page m.back).markFull.2).Sound := by
  unfold Page.markFull
  by_cases hactive : (m.page m.back).state = .active
  · rw [if_neg (not_not.mpr hactive)]
    have hlayout := (h.holds m.back (h.lt_of_used h.back_mem)).layout_of_ne (by rw [hactive]; decide)
    exact h.setPage h.back_mem (.layout (hlayout.altered (.inl rfl))) PageState.noConfusion
  · rw [if_pos hactive, setPage_page]
    exact h

theorem Grow.sound (hm : Grow m m') (h : m.Sound) : m'.Sound := by
  cases hm with
  | write hw =>
    obtain ⟨hstate, vs', hholds⟩ := Wrote.state (h.written hw) (h.used _ h.back_mem)
    exact h.setPage h.back_mem hholds hstate
  | markFull => exact h.markedFull
  | request => exact (requestNewPage_spec h).sound h

/-- The pages are kept. -/
theorem Move.sound (hm : Move m m') (h : m.Sound) : m'.Sound := by
  cases hm with
  | grow hgrow => exact hgrow.sound h
  | erase hi hv purge =>
    obtain ⟨p', herase, hp', hstate, -, -⟩ := (h.layout_of_value hi hv).erase hv purge
    rw [herase]
    exact h.setPage hi (.layout hp') (hstate ▸ h.used _ hi)
  | purge hi hsafe =>
    obtain ⟨out, hpurge, hout, hstate, -⟩ := (h.holds _ (h.lt_of_used hi)).purge hsafe
    rw [hpurge]
    exact h.setPage hi hout (hstate ▸ h.used _ hi)

theorem Grows.moves (hm : Grows m m') : Moves m m' := by
  induction hm with
  | refl => exact .refl
  | tail _ hgrow ih => exact ih.tail (.grow hgrow)

theorem Moves.sound (hm : Moves m m') (h : m.Sound) : m'.Sound := by
  induction hm with
  | refl => exact h
  | tail _ hmove ih => exact hmove.sound ih

end PageManager

namespace Storage
variable {s s' s'' : Storage} {q : Query}

@[simp] theorem setPage_page (i : Nat) : s.setPage i (s.page i) = s := by
  unfold setPage page
  rw [PageManager.setPage_page]

/-! ## Searches -/

/-- What a search finds: a value on a page. -/
structure FoundAt (s : Storage) (q : Query) (place : Place) (item : Item) (v : Value) : Prop where
  page : place.page ∈ s.manager.pageList
  value : v ∈ (s.page place.page).values
  index : place.itemIndex = v.index
  header : item = v.header
  judged : q.judge v.header = .found
  again : (s.page place.page).findItem q 0 blankEntry = ⟨ESP_OK, s.page place.page, v.index, v.header⟩

theorem findOn_spec (h : s.manager.Sound) {l : List Nat} (hl : ∀ i ∈ l, i ∈ s.manager.pageList) :
    (findOn q l s).storage = s ∧
      ∀ place item, (findOn q l s).place = some (place, item) → ∃ v, FoundAt s q place item v := by
  induction l with
  | nil => exact ⟨rfl, fun place item h => by cases h⟩
  | cons i l ih =>
    have hi := hl i List.mem_cons_self
    have hholds := h.holds i (h.lt_of_used hi)
    have hpage : ((s.page i).findItem q 0 blankEntry).page = s.page i := hholds.findItem_page between_zero
    have hset : s.setPage i ((s.page i).findItem q 0 blankEntry).page = s := by rw [hpage, setPage_page]
    unfold findOn
    dsimp only
    rw [hset]
    split_ifs with hok
    · obtain ⟨v, hv, -, hjudge, hfound⟩ := hholds.findItem_ok between_zero hok
      refine ⟨rfl, fun place item hplace => ?_⟩
      have hpair := Option.some.inj hplace
      have hfound' : (s.page i).findItem q 0 blankEntry = ⟨ESP_OK, s.page i, v.index, v.header⟩ := hfound
      rw [hfound'] at hpair
      obtain ⟨rfl, rfl⟩ := Prod.mk.inj hpair
      exact ⟨v, hi, hv, rfl, rfl, hjudge, hfound'⟩
    · exact ih fun j hj => hl j (List.mem_cons_of_mem i hj)

/-- A search changes nothing. -/
theorem findItem_storage (h : s.manager.Sound) : (s.findItem q).storage = s := (findOn_spec h fun _ hi => hi).1

theorem findItem_place (h : s.manager.Sound) {place : Place} {item : Item} (hplace : (s.findItem q).place = some (place, item)) :
    ∃ v, FoundAt s q place item v := (findOn_spec h fun _ hi => hi).2 place item hplace

/-! ## Moves -/

/-- The pages of a storage move, and nothing else of it. -/
structure Moved (s s' : Storage) : Prop where
  moves : s.manager.Moves s'.manager
  active : s'.active = s.active

theorem Moved.refl (s : Storage) : Moved s s := ⟨.refl, rfl⟩

theorem Moved.trans (h : Moved s s') (h' : Moved s' s'') : Moved s s'' :=
  ⟨h.moves.trans h'.moves, h'.active.trans h.active⟩

theorem Moved.sound (h : Moved s s') (hs : s.manager.Sound) : s'.manager.Sound := PageManager.Moves.sound h.moves hs

/-- Items are erased or purged, and the lists stay as they are. -/
structure Trimmed (s s' : Storage) : Prop extends Moved s s' where
  pageList : s'.manager.pageList = s.manager.pageList
  seqNumber : s'.manager.seqNumber = s.manager.seqNumber

theorem Trimmed.refl (s : Storage) : Trimmed s s := ⟨.refl s, rfl, rfl⟩

theorem Trimmed.trans (h : Trimmed s s') (h' : Trimmed s' s'') : Trimmed s s'' :=
  ⟨h.toMoved.trans h'.toMoved, h'.pageList.trans h.pageList, h'.seqNumber.trans h.seqNumber⟩

/-! ## Items that are erased -/

section erase
variable {nsIndex : UInt8} {key : CString} {purge : Bool} {i : Nat} {v : Value}

theorem onPage_snd (i : Nat) (f : Page → EspErr × Page) : (s.onPage i f).2 = s.setPage i (f (s.page i)).2 := rfl

theorem page_setPage_self (hi : i < s.manager.pages.length) (p : Page) : (s.setPage i p).page i = p :=
  PageManager.page_setPage_self hi

/-- A value of a page is erased. -/
theorem erase_spec (h : s.manager.Sound) (hi : i ∈ s.manager.pageList) (hv : v ∈ (s.page i).values) (purge : Bool) :
    (s.eraseAt ⟨i, v.index⟩ purge).1 = ESP_OK ∧ Trimmed s (s.eraseAt ⟨i, v.index⟩ purge).2 ∧
      ((s.eraseAt ⟨i, v.index⟩ purge).2.page i).values = without (s.page i).values v.index := by
  obtain ⟨p', herase, hp', -⟩ := (h.layout_of_value hi hv).erase hv purge
  have hmove : Trimmed s (s.eraseAt ⟨i, v.index⟩ purge).2 := ⟨⟨.single (.erase hi hv purge), rfl⟩, rfl, rfl⟩
  refine ⟨congrArg Prod.fst herase, hmove, ?_⟩
  unfold eraseAt
  rw [onPage_snd, page_setPage_self (h.lt_of_used hi)]
  have hpage : ((s.page i).eraseEntryAndSpan v.index purge).2 = p' := congrArg Prod.snd herase
  dsimp only
  rw [hpage, hp'.values_eq]
  rfl

/-- An item that is found is erased. -/
theorem eraseAt_spec (h : s.manager.Sound) {place : Place} {item : Item} (hv : FoundAt s q place item v)
    (purge : Bool) : (s.eraseAt place purge).1 = ESP_OK ∧ Trimmed s (s.eraseAt place purge).2 := by
  have hplace : place = ⟨place.page, v.index⟩ := by
    rw [← hv.index]
  have herase := erase_spec h hv.page hv.value purge
  rw [hplace]
  exact ⟨herase.1, herase.2.1⟩

/-- A walk over the pages, each of which is trimmed. -/
theorem onPages_trimmed {f : Nat → Storage → EspErr × Storage} {P : Storage → Prop}
    (hf : ∀ i s, s.manager.Sound → P s → i ∈ s.manager.pageList → Trimmed s (f i s).2 ∧ P (f i s).2)
    (h : s.manager.Sound) (hP : P s) {l : List Nat} (hl : ∀ i ∈ l, i ∈ s.manager.pageList) : Trimmed s (onPages f l s).2 := by
  induction l generalizing s with
  | nil => exact .refl s
  | cons i l ih =>
    obtain ⟨htrimmed, hP'⟩ := hf i s h hP (hl i List.mem_cons_self)
    unfold onPages
    dsimp only
    split_ifs
    · exact htrimmed
    · exact htrimmed.trans (ih (htrimmed.sound h) hP' fun j hj => htrimmed.pageList.symm ▸ hl j (List.mem_cons_of_mem i hj))

/-- A page's search from an index on. -/
theorem findOnPage (h : s.manager.Sound) (hi : i ∈ s.manager.pageList) {itemIndex : Nat}
    (hb : Between (s.page i).values itemIndex) :
    s.setPage i ((s.page i).findItem q itemIndex blankEntry).page = s ∧
      (((s.page i).findItem q itemIndex blankEntry).err = ESP_OK → ∃ v ∈ (s.page i).values, itemIndex ≤ v.index ∧
        q.judge v.header = .found ∧
          (s.page i).findItem q itemIndex blankEntry = ⟨ESP_OK, s.page i, v.index, v.header⟩) := by
  have hholds := h.holds i (h.lt_of_used hi)
  have hpage : ((s.page i).findItem q itemIndex blankEntry).page = s.page i := hholds.findItem_page hb
  exact ⟨by rw [hpage, setPage_page], hholds.findItem_ok hb⟩

theorem eraseChunksOn_trimmed (h : s.manager.Sound) (hi : i ∈ s.manager.pageList) {itemIndex : Nat}
    (hb : Between (s.page i).values itemIndex) (fuel : Nat) :
    Trimmed s (eraseChunksOn q purge i fuel itemIndex s).2 := by
  induction fuel generalizing s itemIndex with
  | zero => exact .refl s
  | succ fuel ih =>
    obtain ⟨hset, hfound⟩ := findOnPage (q := q) h hi hb
    unfold eraseChunksOn
    dsimp only
    rw [hset]
    by_cases hnone : ((s.page i).findItem q itemIndex blankEntry).err = ESP_ERR_NVS_NOT_FOUND
    · rw [if_pos hnone]
      exact .refl s
    · rw [if_neg hnone]
      by_cases hok : ((s.page i).findItem q itemIndex blankEntry).err ≠ ESP_OK
      · rw [if_pos hok]
        exact .refl s
      · obtain ⟨v, hv, -, -, heq⟩ := hfound (not_not.mp hok)
        obtain ⟨herr, htrimmed, hvalues⟩ := erase_spec h hi hv purge
        rw [if_neg hok, heq]
        dsimp only
        rw [if_neg (not_not.mpr herr)]
        split_ifs
        · have hlayout := h.layout_of_value hi hv
          have hspan : v.index + v.header.span = Span.stop v := (hlayout.flash.fits v hv).span_eq
          refine htrimmed.trans (ih (htrimmed.sound h) (htrimmed.pageList.symm ▸ hi) ?_)
          rw [hvalues, hspan]
          exact fun w hw => hlayout.flash.ordered.between_stop hv w (mem_without.mp hw).1
        · exact htrimmed

theorem eraseAllChunks_trimmed (h : s.manager.Sound) {l : List Nat} (hl : ∀ i ∈ l, i ∈ s.manager.pageList) :
    Trimmed s (eraseAllChunks q purge l s).2 := by
  induction l generalizing s with
  | nil => exact .refl s
  | cons i l ih =>
    have htrimmed := @eraseChunksOn_trimmed s q purge i h (hl i List.mem_cons_self) 0 between_zero (ENTRY_COUNT + 1)
    unfold eraseAllChunks
    dsimp only
    split_ifs
    · exact htrimmed
    · exact htrimmed.trans (ih (htrimmed.sound h) fun j hj => htrimmed.pageList.symm ▸ hl j (List.mem_cons_of_mem i hj))

/-- What is found is erased. -/
theorem eraseFound_trimmed (h : s.manager.Sound) (q : Query) (purge : Bool) :
    (s.findItem q).storage = s ∧ ∀ place item, (s.findItem q).place = some (place, item) →
      (s.eraseAt place purge).1 = ESP_OK ∧ Trimmed s (s.eraseAt place purge).2 :=
  ⟨findItem_storage h, fun _ _ hplace => (findItem_place h hplace).elim fun _ hv => eraseAt_spec h hv purge⟩

theorem eraseChunks_trimmed (h : s.manager.Sound) (n : Nat) (chunkIndex : UInt8) :
    Trimmed s (eraseChunks nsIndex key purge n chunkIndex s).2 := by
  induction n generalizing s chunkIndex with
  | zero => exact .refl s
  | succ n ih =>
    obtain ⟨hstorage, hplace⟩ := eraseFound_trimmed h (chunkQuery nsIndex key chunkIndex) purge
    unfold eraseChunks
    dsimp only
    rw [hstorage]
    cases hfound : (s.findItem (chunkQuery nsIndex key chunkIndex)).place with
    | none => exact .refl s
    | some found =>
      obtain ⟨herr, htrimmed⟩ := hplace found.1 found.2 hfound
      dsimp only
      rw [if_neg (not_not.mpr herr)]
      exact htrimmed.trans (ih (htrimmed.sound h) _)

theorem cleanUp_trimmed (h : s.manager.Sound) (n : Nat) (chunkIndex : UInt8) :
    Trimmed s (cleanUp nsIndex key purge n chunkIndex s) := by
  induction n generalizing s chunkIndex with
  | zero => exact .refl s
  | succ n ih =>
    obtain ⟨hstorage, hplace⟩ := eraseFound_trimmed h (chunkQuery nsIndex key chunkIndex) purge
    unfold cleanUp
    dsimp only
    rw [hstorage]
    cases hfound : (s.findItem (chunkQuery nsIndex key chunkIndex)).place with
    | none => exact ih h _
    | some found =>
      obtain ⟨-, htrimmed⟩ := hplace found.1 found.2 hfound
      exact htrimmed.trans (ih (htrimmed.sound h) _)

theorem eraseMultiPageBlob_trimmed (h : s.manager.Sound) (chunkStart : UInt8) :
    Trimmed s (s.eraseMultiPageBlob nsIndex key purge chunkStart).2 := by
  obtain ⟨hstorage, hplace⟩ := eraseFound_trimmed h ⟨nsIndex, .blobIdx, some key, CHUNK_ANY, chunkStart⟩ purge
  unfold eraseMultiPageBlob
  by_cases hactive : (!s.active) = true
  · rw [if_pos hactive]
    exact .refl s
  rw [if_neg hactive]
  dsimp only
  rw [hstorage]
  cases hfound : (s.findItem ⟨nsIndex, .blobIdx, some key, CHUNK_ANY, chunkStart⟩).place with
  | none => exact .refl s
  | some found =>
    obtain ⟨herr, htrimmed⟩ := hplace found.1 found.2 hfound
    dsimp only
    rw [if_neg (not_not.mpr herr)]
    by_cases hany : chunkStart = VER_ANY
    · have hsound := htrimmed.sound h
      obtain ⟨hstorage', hplace'⟩ := eraseFound_trimmed hsound ⟨nsIndex, .blobIdx, some key, CHUNK_ANY, chunkStart⟩ purge
      rw [if_pos hany, hstorage']
      cases hfound' : ((s.eraseAt found.1 purge).2.findItem ⟨nsIndex, .blobIdx, some key, CHUNK_ANY, chunkStart⟩).place with
      | none =>
        dsimp only
        rw [if_neg (not_not.mpr rfl)]
        exact htrimmed.trans (eraseAllChunks_trimmed hsound fun i hi => hi)
      | some found' =>
        obtain ⟨herr', htrimmed'⟩ := hplace' found'.1 found'.2 hfound'
        dsimp only
        rw [if_neg (not_not.mpr herr')]
        exact (htrimmed.trans htrimmed').trans (eraseAllChunks_trimmed (htrimmed'.sound hsound) fun i hi => hi)
    · rw [if_neg hany]
      split_ifs
      · exact htrimmed.trans (eraseChunks_trimmed (htrimmed.sound h) _ _)
      · exact htrimmed

theorem eraseItem_trimmed (h : s.manager.Sound) (datatype : ItemType) :
    Trimmed s (s.eraseItem nsIndex datatype key purge).2 := by
  obtain ⟨hstorage, hplace⟩ := eraseFound_trimmed h (query nsIndex datatype key) purge
  unfold eraseItem
  by_cases hactive : (!s.active) = true
  · rw [if_pos hactive]
    exact .refl s
  rw [if_neg hactive]
  dsimp only
  rw [hstorage]
  cases hfound : (s.findItem (query nsIndex datatype key)).place with
  | none => exact .refl s
  | some found =>
    obtain ⟨-, htrimmed⟩ := hplace found.1 found.2 hfound
    dsimp only
    split_ifs
    · exact eraseMultiPageBlob_trimmed h _
    · exact htrimmed

/-- The first item of a page that is found is erased. -/
theorem pageEraseItem_trimmed (h : s.manager.Sound) (hi : i ∈ s.manager.pageList) :
    Trimmed s (s.onPage i (·.eraseItem q purge)).2 := by
  have hholds := h.holds i (h.lt_of_used hi)
  rw [onPage_snd]
  unfold Page.eraseItem
  dsimp only
  by_cases hok : ((s.page i).findItem q 0 blankEntry).err ≠ ESP_OK
  · have hpage : ((s.page i).findItem q 0 blankEntry).page = s.page i := hholds.findItem_page between_zero
    rw [if_pos hok, hpage, setPage_page]
    exact .refl s
  · obtain ⟨v, hv, -, -, hfound⟩ := hholds.findItem_ok between_zero (not_not.mp hok)
    have hfound' : (s.page i).findItem q 0 blankEntry = ⟨ESP_OK, s.page i, v.index, v.header⟩ := hfound
    rw [if_neg hok, hfound']
    exact (erase_spec h hi hv purge).2.1

/-- Nothing is added to the page. -/
theorem pageEraseItem_values (h : s.manager.Sound) (hi : i ∈ s.manager.pageList) :
    ((s.onPage i (·.eraseItem q purge)).2.page i).values ⊆ (s.page i).values := by
  have hholds := h.holds i (h.lt_of_used hi)
  rw [onPage_snd]
  unfold Page.eraseItem
  dsimp only
  by_cases hok : ((s.page i).findItem q 0 blankEntry).err ≠ ESP_OK
  · have hpage : ((s.page i).findItem q 0 blankEntry).page = s.page i := hholds.findItem_page between_zero
    rw [if_pos hok, hpage, setPage_page]
    exact fun _ => id
  · obtain ⟨v, hv, -, -, hfound⟩ := hholds.findItem_ok between_zero (not_not.mp hok)
    have hfound' : (s.page i).findItem q 0 blankEntry = ⟨ESP_OK, s.page i, v.index, v.header⟩ := hfound
    rw [if_neg hok, hfound']
    have hvalues : ((s.setPage i ((s.page i).eraseEntryAndSpan v.index purge).2).page i).values =
        without (s.page i).values v.index := (erase_spec h hi hv purge).2.2
    rw [hvalues]
    exact List.filter_sublist.subset

theorem eraseNamespaceOn_trimmed (h : s.manager.Sound) (hi : i ∈ s.manager.pageList) (fuel : Nat) :
    Trimmed s (eraseNamespaceOn q purge i fuel s).2 := by
  induction fuel generalizing s with
  | zero => exact .refl s
  | succ fuel ih =>
    have htrimmed := @pageEraseItem_trimmed s q purge i h hi
    unfold eraseNamespaceOn
    dsimp only
    split_ifs
    · exact htrimmed
    · exact htrimmed
    · exact htrimmed.trans (ih (htrimmed.sound h) (htrimmed.pageList.symm ▸ hi))

theorem eraseNamespace_trimmed (h : s.manager.Sound) : Trimmed s (s.eraseNamespace nsIndex purge).2 := by
  unfold eraseNamespace
  split_ifs
  · exact .refl s
  · exact onPages_trimmed (P := fun _ => True) (fun i s hs _ hi => ⟨eraseNamespaceOn_trimmed hs hi _, trivial⟩) h trivial
      fun i hi => hi

end erase

end Storage

end EspIdf.Nvs
