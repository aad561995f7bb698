import EspIdf.Nvs.Updates

/-!
# NVS: a page that is loaded again

* `loadCounts_eq` : the counts, from the table;
* `loadFull_eq` : a page that is full holds what it held;
* `loadActive_holds` : so does one that is active, but for items that are taken for older ones;
* `load_holds` : the object that is made from the flash.
-/

namespace EspIdf.Nvs

open Spans

/-! ## Counts -/

section counts
variable {p : Page} {vs : List Value} {x : Sector} {n : Nat}

theorem count_written (h : OnFlash x vs n) : x.table.count .written = total vs := by
  have htable : x.table = (List.range' 0 ENTRY_COUNT).map fun k => x.table.getD k .empty := by
    refine List.ext_getElem (by simp [h.states]) fun k h0 h1 => ?_
    simp [List.getD_eq_getElem?_getD, h0]
  have hcount := Ordered.countP_range' h.ordered (n := ENTRY_COUNT) (i := 0)
    (p := fun k => x.table.getD k EntryState.empty == EntryState.written) (fun k _ => by
      rw [← h.written k, List.getD_eq_getElem?_getD, beq_iff_eq]
      cases hk : x.table[k]? <;> simp)
    (fun v hv => ⟨Nat.zero_le _, by
      rw [Nat.zero_add]
      exact Nat.le_trans (h.within v hv) h.le⟩)
  rw [← hcount, htable, List.count_eq_countP, List.countP_map, ← htable]
  rfl

/-- The object of a page that is in use, before its items are looked at. -/
def opened (x : Sector) (state : PageState) (seqNumber : Nat) : Page :=
  { Page.created x with state := state, seqNumber := seqNumber }

theorem loadCounts_eq (h : OnFlash x vs n) (state : PageState) (seqNumber : Nat) :
    (opened x state seqNumber).loadCounts = { opened x state seqNumber with
      entryTable := x.table
      firstUsedEntry := firstIndex vs
      usedEntryCount := total vs
      erasedEntryCount := x.table.count .erased } := by
  have hlast : ∀ v ∈ vs, v.index < ENTRY_COUNT := fun v hv =>
    Nat.lt_of_lt_of_le (Nat.lt_of_lt_of_le (Span.start_lt_stop v) (h.within v hv)) h.le
  have hfirst : Page.firstWritten x.table 0 ENTRY_COUNT ENTRY_COUNT = firstIndex vs := by
    rw [firstWritten_eq h.ordered between_zero h.written hlast (Nat.le_add_left _ _), since_zero]
  unfold Page.loadCounts
  rw [← hfirst, ← count_written h]
  rfl

end counts

/-! ## Pages that are full -/

/-- Whether the entries behind a header are written. -/
theorem allWritten_iff {table : List EntryState} {j n : Nat} (h : ∀ k, j ≤ k → k < j + n → table[k]? = some .written) :
    Page.allWritten table j n = true := by
  unfold Page.allWritten
  refine decide_eq_true (List.ext_getElem? fun k => ?_)
  by_cases hk : k < n
  · rw [List.getElem?_take_of_lt hk, List.getElem?_drop, List.getElem?_replicate_of_lt hk]
    exact h (j + k) (Nat.le_add_right _ _) (Nat.add_lt_add_left hk _)
  · rw [List.getElem?_take_eq_none (Nat.not_lt.mp hk), List.getElem?_eq_none (by simpa using hk)]

section full
variable {p : Page} {vs : List Value} {n i : Nat}

theorem Value.Fits.span_eq {v : Value} (h : v.Fits) : Span.start v + v.header.span = Span.stop v := by
  rw [h.span]
  rfl

/-- An entry in front of the end is covered, or has another state. -/
theorem OnFlash.entry_other {x : Sector} (h : OnFlash x vs n) (hi : i < ENTRY_COUNT) (hcover : ¬Covers vs i) :
    ∃ state item, x.table[i]? = some state ∧ x.entries[i]? = some item ∧ (state = .empty ∨ state = .erased) := by
  have htable : i < x.table.length := h.states ▸ hi
  have hentries : i < x.entries.length := h.places ▸ hi
  refine ⟨x.table[i], x.entries[i], List.getElem?_eq_getElem htable, List.getElem?_eq_getElem hentries, ?_⟩
  have hwritten : x.table[i] ≠ .written := fun heq => hcover ((h.written i).mp (heq ▸ List.getElem?_eq_getElem htable))
  have hlegal : x.table[i] ≠ .illegal := fun heq => h.legal i (heq ▸ List.getElem?_eq_getElem htable)
  cases hstate : x.table[i] with
  | empty => exact .inl rfl
  | written => exact absurd hstate hwritten
  | erased => exact .inr rfl
  | illegal => exact absurd hstate hlegal

theorem loadFull_eq (h : OnFlash p.sector vs n) (htable : p.entryTable = p.sector.table) (hb : Between vs i) {fuel : Nat}
    (hfuel : ENTRY_COUNT ≤ i + fuel) :
    p.loadFull fuel i = (ESP_OK, { p with hashList := p.hashList ++ (since vs i).map Value.node }) := by
  have hlast : ∀ v ∈ vs, v.index < ENTRY_COUNT := fun v hv =>
    Nat.lt_of_lt_of_le (Nat.lt_of_lt_of_le (Span.start_lt_stop v) (h.within v hv)) h.le
  induction fuel generalizing i p with
  | zero =>
    have hnone : since vs i = [] := since_of_lt fun v hv => Nat.lt_of_lt_of_le (hlast v hv) hfuel
    rw [hnone, List.map_nil, List.append_nil]
    rfl
  | succ fuel ih =>
    unfold Page.loadFull
    by_cases hi : i < ENTRY_COUNT
    · rw [if_neg (not_not.mpr hi)]
      by_cases hcover : Covers vs i
      · obtain ⟨v, hv, rfl, hsince, hnext⟩ := since_covered h.ordered hb hcover
        have hfits := h.fits v hv
        have hread : p.readEntry (Span.start v) = some v.header := h.stored v hv 0 v.header rfl
        have hconsistent : v.header.checkHeaderConsistency (Span.start v) = true := hfits.consistent
        have hpos : ¬¬v.header.span > 0 := not_not.mpr (hfits.span ▸ Nat.succ_pos _)
        have hall : Page.allWritten p.entryTable (Span.start v + 1) (v.header.span - 1) = true :=
          allWritten_iff fun k h0 h1 => htable ▸ (h.written k).mpr ⟨v, hv, Nat.le_of_succ_le h0, by
            have hstop := hfits.span_eq
            omega⟩
        have hwritten : p.entryTable[Span.start v]? = some .written := htable ▸ (h.written _).mpr hcover
        rw [hwritten, hread]
        have hrest := @ih { p with hashList := p.hashList ++ [v.node] } (Span.start v + v.header.span) h htable
          (hfits.span_eq ▸ hnext) (by omega)
        simp only [hconsistent, Bool.not_true, Bool.false_eq_true, if_false, hpos, hall, and_false]
        rw [hsince, List.map_cons, List.append_cons p.hashList v.node]
        rw [hfits.span_eq] at hrest ⊢
        exact hrest
      · obtain ⟨state, item, hstate, hitem, hkinds⟩ := h.entry_other hi hcover
        have hread : p.readEntry i = some item := hitem
        have hstep : p.loadFull fuel (i + 1) = (ESP_OK, { p with hashList := p.hashList ++ (since vs i).map Value.node }) := by
          rw [ih h htable (between_succ hcover) (by omega), since_uncovered hcover]
        have hentry : p.entryTable[i]? = some state := htable ▸ hstate
        rw [hentry, hread]
        rcases hkinds with rfl | rfl
        · exact hstep
        · exact hstep
    · have hnone : since vs i = [] := since_of_lt fun v hv => Nat.lt_of_lt_of_le (hlast v hv) (Nat.not_lt.mp hi)
      rw [if_pos hi, hnone, List.map_nil, List.append_nil]

theorem OnFlash.widen {x : Sector} {m : Nat} (h : OnFlash x vs n) (hle : n ≤ m) (hm : m ≤ ENTRY_COUNT) : OnFlash x vs m :=
  { h with
    within := fun v hv => Nat.le_trans (h.within v hv) hle
    le := hm
    blank := fun k hk => h.blank k (Nat.le_trans hle hk) }

theorem since_firstIndex (h : Ordered vs) : Between vs (firstIndex vs) ∧ since vs (firstIndex vs) = vs := by
  cases vs with
  | nil => exact ⟨fun v hv => absurd hv List.not_mem_nil, rfl⟩
  | cons v vs => exact ⟨h.between_start List.mem_cons_self, since_of_le fun w hw => h.start_le hw⟩

/-- A page that is full is loaded as it was. -/
theorem load_full {x : Sector} {state : PageState} {seqNumber : Nat} (h : OnFlash x vs n)
    (hheader : x.header = some ⟨state, seqNumber⟩) (hstate : state = .full ∨ state = .freeing) :
    ∃ p, Page.load x = (ESP_OK, p) ∧ Layout p vs ∧ p.state = state ∧ p.seqNumber = seqNumber := by
  have hcounts := loadCounts_eq h state seqNumber
  have hload : Page.load x = (opened x state seqNumber).loadCounts.loadFull ENTRY_COUNT
      (opened x state seqNumber).loadCounts.firstUsedEntry := by
    unfold Page.load
    rw [hheader]
    rcases hstate with rfl | rfl <;> rfl
  obtain ⟨hbetween, hsince⟩ := since_firstIndex h.ordered
  rw [hload, hcounts, loadFull_eq h rfl hbetween (Nat.le_add_left _ _)]
  refine ⟨_, rfl, ?_, rfl, rfl⟩
  exact
    { state := .inr hstate
      flash := h.widen h.le (Nat.le_refl _)
      header := hheader
      table := rfl
      first := rfl
      used := rfl
      hashed := by
        rw [hsince]
        rfl
      filled := fun hactive => by
        have hactive' : state = .active := hactive
        rcases hstate with rfl | rfl <;> cases hactive' }

end full

/-! ## Pages that are active -/

section active
variable {p : Page} {vs : List Value} {n i : Nat} {last : Option (Nat × Item)}

theorem loadTail_eq (h : p.nextFreeEntry < ENTRY_COUNT → p.readEntry p.nextFreeEntry = some blankEntry)
    (hlength : p.entryTable.length = ENTRY_COUNT) (fuel : Nat) : p.loadTail (fuel + 1) = (ESP_OK, p) := by
  unfold Page.loadTail
  by_cases hnext : p.nextFreeEntry < ENTRY_COUNT
  · obtain ⟨state, hstate⟩ : ∃ state, p.entryTable[p.nextFreeEntry]? = some state :=
      ⟨_, List.getElem?_eq_getElem (hlength.symm ▸ hnext)⟩
    have hblank : blankEntry.wordAt 0 = 0xffffffff := by decide
    rw [if_neg (not_not.mpr hnext), h hnext, hstate]
    exact if_pos hblank
  · exact if_pos hnext

/-- An item before the end of an active page that is covered by none is erased. -/
theorem Indexed.entry_erased {indexed : List Value} (h : Indexed p vs indexed) (hactive : p.state = .active)
    (hi : i < min p.nextFreeEntry ENTRY_COUNT) (hcover : ¬Covers vs i) :
    ∃ item, p.entryTable[i]? = some .erased ∧ p.readEntry i = some item := by
  obtain ⟨state, item, hstate, hitem, hkinds⟩ := h.flash.entry_other (Nat.lt_of_lt_of_le hi (Nat.min_le_right _ _)) hcover
  rcases hkinds with rfl | rfl
  · exact absurd hstate (h.filled hactive i hi)
  · exact ⟨item, h.table ▸ hstate, hitem⟩

/-- What becomes of the values of an active page: of two with one hash, the earlier one may be lost. -/
structure Survive (vs kept : List Value) : Prop where
  sublist : kept.Sublist vs
  lost : ∀ v ∈ vs, v ∈ kept ∨ ∃ w ∈ vs, v.index < w.index ∧ hash24 v.header = hash24 w.header

theorem Survive.refl (vs : List Value) : Survive vs vs := ⟨List.Sublist.refl vs, fun _ hv => .inl hv⟩

theorem Survive.trans {kept kept' : List Value} (h : Survive vs kept) (h' : Survive kept kept') : Survive vs kept' :=
  ⟨h'.sublist.trans h.sublist, fun v hv => (h.lost v hv).elim
    (fun hkept => (h'.lost v hkept).imp_right fun ⟨w, hw, hlater⟩ => ⟨w, h.sublist.subset hw, hlater⟩) .inr⟩

/-- The older item with the hash of the one at `i` is erased. -/
def Page.dropOlder (p : Page) (i : Nat) (item : Item) : Page :=
  match hashFind p.hashList 0 item with
  | some j => if j < i then (p.eraseEntryAndSpan j true).2 else p
  | none => p

theorem dropOlder_spec {v : Value} (h : Indexed p vs (before vs v.stop)) (hv : v ∈ vs) :
    ∃ kept, Indexed (p.dropOlder v.index v.header) kept (before kept v.stop) ∧ Survive vs kept ∧
      (p.dropOlder v.index v.header).state = p.state ∧ (p.dropOlder v.index v.header).seqNumber = p.seqNumber ∧
      (p.dropOlder v.index v.header).nextFreeEntry = p.nextFreeEntry := by
  by_cases hdrop : ∃ j < v.index, hashFind p.hashList 0 v.header = some j
  · obtain ⟨j, hj, hfind⟩ := hdrop
    have hnode := hfind
    unfold hashFind at hnode
    rw [h.hashed, List.find?_map, Option.map_map] at hnode
    obtain ⟨w, hw, rfl⟩ := Option.map_eq_some_iff.mp hnode
    have hhash : hash24 w.header = hash24 v.header := by
      have hsome := List.find?_some hw
      change decide (w.index ≥ 0 ∧ hash24 w.header = hash24 v.header) = true at hsome
      exact (of_decide_eq_true hsome).2
    have hwv : w ∈ vs := (mem_before.mp (List.mem_of_find?_eq_some hw)).1
    obtain ⟨out, herase, hout, hstate, hseq, hnext⟩ := h.erase (h.flash.ordered.filter _) hwv true
    have hdrop : p.dropOlder v.index v.header = out := by
      unfold Page.dropOlder
      rw [hfind]
      change (if w.index < v.index then (p.eraseEntryAndSpan w.index true).2 else p) = out
      rw [if_pos (show w.index < v.index from hj), herase]
    rw [hdrop]
    refine ⟨without vs w.index, @before_without _ _ vs _ w.index ▸ hout, ⟨List.filter_sublist, fun x hx => ?_⟩, hstate, hseq,
      hnext⟩
    by_cases hx' : x.index = w.index
    · rw [h.flash.ordered.eq_of_start hx hwv hx']
      exact .inr ⟨v, hv, hj, hhash⟩
    · exact .inl (mem_without.mpr ⟨hx, hx'⟩)
  · have hkeep : p.dropOlder v.index v.header = p := by
      unfold Page.dropOlder
      split
      · next j hfind => exact if_neg fun hj => hdrop ⟨j, hj, hfind⟩
      · rfl
    rw [hkeep]
    exact ⟨vs, h, .refl vs, rfl, rfl, rfl⟩

theorem loadItems_spec (h : Indexed p vs (before vs i)) (hactive : p.state = .active) (hb : Between vs i) {fuel : Nat}
    (hfuel : ENTRY_COUNT ≤ i + fuel) :
    ∃ out last' kept, p.loadItems (min p.nextFreeEntry ENTRY_COUNT) fuel i last = ⟨ESP_OK, out, last'⟩ ∧
      Layout out kept ∧ Survive vs kept ∧ out.state = .active ∧ out.seqNumber = p.seqNumber := by
  have hend : ∀ {p vs i}, Indexed p vs (before vs i) → min p.nextFreeEntry ENTRY_COUNT ≤ i → Layout p vs := fun h hi => by
    have hall := before_eq fun v hv => Nat.lt_of_lt_of_le (h.index_lt hv) hi
    rwa [hall] at h
  induction fuel generalizing p vs i last with
  | zero =>
    exact ⟨p, last, vs, rfl, hend h (Nat.le_trans (Nat.min_le_right _ _) hfuel),
      Survive.refl vs, hactive, rfl⟩
  | succ fuel ih =>
    unfold Page.loadItems
    by_cases hi : i < min p.nextFreeEntry ENTRY_COUNT
    · rw [if_neg (not_not.mpr hi)]
      by_cases hcover : Covers vs i
      · obtain ⟨v, hv, rfl, hsince, hnext⟩ := since_covered h.flash.ordered hb hcover
        have hfits := h.flash.fits v hv
        have hread : p.readEntry (Span.start v) = some v.header := h.readEntry_header hv
        have hconsistent : v.header.checkHeaderConsistency (Span.start v) = true := hfits.consistent
        have hspan : Span.start v + (if v.header.datatype.isVariableLength then v.header.span else 1) = Span.stop v := by
          have hstop : v.header.next (Span.start v) = Span.stop v := hfits.next_eq
          unfold Item.next at hstop
          split_ifs at hstop ⊢ <;> exact hstop
        have hall : Page.allWritten p.entryTable (Span.start v)
            (if v.header.datatype.isVariableLength then v.header.span else 1) = true :=
          allWritten_iff fun k h0 h1 => h.entry_written ⟨v, hv, h0, hspan ▸ h1⟩
        have h1 : Indexed { p with hashList := p.hashList ++ [v.node] } vs (before vs v.stop) :=
          { h with
            hashed := by
              have hstop : before vs v.stop = before vs v.index ++ [v] := h.flash.ordered.before_stop hv
              have hhashed : p.hashList = (before vs v.index).map Value.node := h.hashed
              rw [hstop, List.map_append, ← hhashed]
              rfl }
        obtain ⟨kept, hkept, hsurvive, hstate, hseq, hnextFree⟩ := dropOlder_spec h1 hv
        have hbetween : Between kept (Span.stop v) := fun w hw => hnext w (hsurvive.sublist.subset hw)
        obtain ⟨out, last', kept', hloop, hout, hsurvive', hactive', hseq'⟩ :=
          @ih _ kept (Span.stop v) (some (Span.start v, v.header)) hkept (hstate.trans hactive) hbetween (by
            have hlt := Span.start_lt_stop v
            omega)
        refine ⟨out, last', kept', ?_, hout, hsurvive.trans hsurvive', hactive', hseq'.trans hseq⟩
        rw [hnextFree] at hloop
        rw [h.entry_written hcover, hread]
        simp only [hconsistent, Bool.not_true, Bool.false_eq_true, if_false, hall, and_false]
        rw [hspan]
        exact hloop
      · obtain ⟨item, hstate, hitem⟩ := h.entry_erased hactive hi hcover
        rw [hstate, hitem]
        exact ih (before_uncovered hcover ▸ h) hactive (between_succ hcover) (by omega)
    · rw [if_pos hi]
      exact ⟨p, last, vs, rfl, hend h (Nat.not_lt.mp hi), Survive.refl vs, hactive, rfl⟩

theorem firstEmpty_eq {x : Sector} (h : OnFlash x vs n) (hfilled : ∀ k < n, x.table[k]? ≠ some EntryState.empty) :
    min (Page.firstEmpty x.table) ENTRY_COUNT = n ∧
      (Page.firstEmpty x.table < ENTRY_COUNT → Page.firstEmpty x.table = n) := by
  have hbefore : ∀ k < n, ∀ hk : k < x.table.length, x.table[k] ≠ .empty := fun k hk hlt heq =>
    hfilled k hk (heq ▸ List.getElem?_eq_getElem hlt)
  unfold Page.firstEmpty
  by_cases hn : n < ENTRY_COUNT
  · have hfind : (x.table.findIdx? (· = .empty)) = some n := by
      refine List.findIdx?_eq_some_iff_getElem.mpr ⟨h.states ▸ hn, ?_, fun j hj => ?_⟩
      · have hempty := (h.blank n (Nat.le_refl n) hn).1
        rw [List.getElem?_eq_getElem (h.states ▸ hn)] at hempty
        exact decide_eq_true (Option.some.inj hempty)
      · exact fun htrue => hbefore j hj _ (of_decide_eq_true htrue)
    rw [hfind]
    exact ⟨Nat.min_eq_left h.le, fun _ => rfl⟩
  · have heq : n = ENTRY_COUNT := Nat.le_antisymm h.le (Nat.not_lt.mp hn)
    have hfind : (x.table.findIdx? (· = .empty)) = none := by
      refine List.findIdx?_eq_none_iff.mpr fun state hstate => ?_
      obtain ⟨k, hk, rfl⟩ := List.getElem_of_mem hstate
      exact decide_eq_false (hbefore k (heq ▸ h.states ▸ hk) hk)
    rw [hfind, heq]
    exact ⟨rfl, fun hlt => absurd hlt (by decide)⟩

/-- The item that was written last, where it is found before, is erased there. -/
def Page.dropPrevious (p : Page) : Option (Nat × Item) → EspErr × Page
  | none => (ESP_OK, p)
  | some (i, item) =>
    let found := p.findItem ⟨item.nsIndex, item.datatype, some item.keyString, CHUNK_ANY, VER_ANY⟩ 0 item
    if found.err = ESP_OK ∧ found.itemIndex < i then
      let (err, p) := found.page.eraseEntryAndSpan found.itemIndex true
      if err ≠ ESP_OK then (err, { p with state := .invalid }) else (ESP_OK, p)
    else (ESP_OK, found.page)

theorem loadActive_eq {p₀ out : Page} (hp : ({ p₀ with nextFreeEntry := Page.firstEmpty p₀.entryTable } : Page) = p)
    (htail : p.loadTail ENTRY_COUNT = (ESP_OK, p))
    (hitems : p.loadItems (min p.nextFreeEntry ENTRY_COUNT) ENTRY_COUNT 0 none = ⟨ESP_OK, out, last⟩) :
    p₀.loadActive = out.dropPrevious last := by
  unfold Page.loadActive
  rw [hp, htail]
  simp only [ne_eq, not_true, if_false, hitems]
  rfl

theorem dropPrevious_spec (h : Layout p vs) (last : Option (Nat × Item)) :
    ∃ out kept, p.dropPrevious last = (ESP_OK, out) ∧ Layout out kept ∧ kept.Sublist vs ∧ out.state = p.state ∧
      out.seqNumber = p.seqNumber := by
  match last with
  | none => exact ⟨p, vs, rfl, h, List.Sublist.refl vs, rfl, rfl⟩
  | some (i, item) =>
    unfold Page.dropPrevious
    dsimp only
    by_cases hdrop : (p.findItem ⟨item.nsIndex, item.datatype, some item.keyString, CHUNK_ANY, VER_ANY⟩ 0 item).err = ESP_OK ∧
        (p.findItem ⟨item.nsIndex, item.datatype, some item.keyString, CHUNK_ANY, VER_ANY⟩ 0 item).itemIndex < i
    · obtain ⟨v, hv, -, -, hfound⟩ := (Holds.layout h).findItem_ok between_zero hdrop.1
      obtain ⟨out, herase, hout, hstate, hseq, -⟩ := h.erase hv true
      refine ⟨out, without vs v.index, ?_, hout, List.filter_sublist, hstate, hseq⟩
      rw [if_pos hdrop, hfound]
      simp only [herase, ne_eq, not_true, if_false]
    · refine ⟨p, vs, ?_, h, List.Sublist.refl vs, rfl, rfl⟩
      rw [if_neg hdrop, (Holds.layout h).findItem_page between_zero]

/-- A page that is active is loaded with what survives. -/
theorem load_active {x : Sector} {seqNumber : Nat} (h : OnFlash x vs n)
    (hfilled : ∀ k < n, x.table[k]? ≠ some EntryState.empty) (hheader : x.header = some ⟨.active, seqNumber⟩) :
    ∃ p kept, Page.load x = (ESP_OK, p) ∧ Layout p kept ∧ kept.Sublist vs ∧ p.state = .active ∧ p.seqNumber = seqNumber := by
  obtain ⟨hmin, hnext⟩ := firstEmpty_eq h hfilled
  have hload : Page.load x = (opened x .active seqNumber).loadCounts.loadActive := by
    unfold Page.load
    rw [hheader]
    rfl
  rw [hload, loadCounts_eq h]
  generalize hp : ({ opened x .active seqNumber with
    entryTable := x.table
    firstUsedEntry := firstIndex vs
    usedEntryCount := total vs
    erasedEntryCount := x.table.count .erased
    nextFreeEntry := Page.firstEmpty x.table } : Page) = p
  have hindexed : Indexed p vs (before vs 0) := by
    subst hp
    exact
      { state := .inl rfl
        flash := hmin.symm ▸ h
        header := hheader
        table := rfl
        first := rfl
        used := rfl
        hashed := by
          have hnone : before vs 0 = [] := List.filter_eq_nil_iff.mpr fun v _ => by simp
          rw [hnone]
          rfl
        filled := fun _ => hmin.symm ▸ hfilled }
  have hblank : p.nextFreeEntry < ENTRY_COUNT → p.readEntry p.nextFreeEntry = some blankEntry := by
    subst hp
    intro hlt
    have heq := hnext hlt
    exact heq ▸ (h.blank _ (Nat.le_of_eq heq.symm) hlt).2
  have htail : p.loadTail ENTRY_COUNT = (ESP_OK, p) := loadTail_eq hblank (hindexed.table ▸ hindexed.flash.states) 125
  have hactive : p.state = .active := by
    subst hp
    rfl
  have hseq : p.seqNumber = seqNumber := by
    subst hp
    rfl
  obtain ⟨out, last, kept, hitems, hout, hsurvive, hstate, hseq'⟩ :=
    @loadItems_spec p vs 0 none hindexed hactive between_zero ENTRY_COUNT (Nat.le_add_left _ _)
  obtain ⟨out', kept', hdrop, hout', hsublist, hstate', hseq''⟩ := dropPrevious_spec hout last
  refine ⟨out', kept', ?_, hout', hsublist.trans hsurvive.sublist, hstate'.trans hstate, hseq''.trans (hseq'.trans hseq)⟩
  rw [loadActive_eq hp htail hitems, hdrop]

end active

/-- The object that is made from the flash holds what the one before did, or less. -/
theorem load_holds {p : Page} {vs : List Value} (h : Holds p vs) :
    ∃ p' kept, Page.load p.sector = (ESP_OK, p') ∧ Holds p' kept ∧ kept.Sublist vs ∧ p'.state = p.state ∧
      (p.state ≠ .uninitialized → p'.seqNumber = p.seqNumber) := by
  cases h with
  | fresh h =>
    have hload : Page.load p.sector = (ESP_OK, { Page.created .erased with state := .uninitialized }) := by
      rw [h.sector]
      unfold Page.load
      exact congrArg (fun state => (ESP_OK, { Page.created .erased with state := state })) (if_pos rfl)
    exact ⟨_, [], hload, .fresh ⟨rfl, rfl, rfl, rfl, rfl, rfl⟩, List.Sublist.refl [], h.state.symm,
      fun hne => absurd h.state hne⟩
  | layout h =>
    by_cases hactive : p.state = .active
    · obtain ⟨p', kept, hload, hlayout, hsublist, hstate, hseq⟩ :=
        load_active h.flash (h.filled hactive) (hactive ▸ h.header)
      exact ⟨p', kept, hload, .layout hlayout, hsublist, hstate.trans hactive.symm, fun _ => hseq⟩
    · obtain ⟨p', hload, hlayout, hstate, hseq⟩ := load_full h.flash h.header (h.state.resolve_left hactive)
      exact ⟨p', vs, hload, .layout hlayout, List.Sublist.refl vs, hstate, fun _ => hseq⟩

end EspIdf.Nvs
