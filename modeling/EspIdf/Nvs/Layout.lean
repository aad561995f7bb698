import EspIdf.Nvs.PageLoad
import EspIdf.Lib.Spans

/-!
# NVS: the values of a page

* `Value` : a header with the entries behind it, `Value.Fits`, `Value.Sound` : what the writes make sure of;
* `OnFlash` : a page on flash that holds given values;
* `Indexed`, `Layout` : the object that manages it agrees, with some of them in its hash list, or with all;
* `Page.values`, `Indexed.values_eq` : the values, as they are found on a page;
* `Page.scan`, `candidates` : a search, as a walk over the values;
* `findItem_eq` : a search is that, and leaves the page as it is.
-/

namespace EspIdf.Nvs

open Spans Crc32

structure Value where
  index : Nat
  header : Item
  body : List Item
deriving Repr, DecidableEq

/-- A text with its NUL. -/
def IsText (data : List UInt8) : Prop := ∃ chars, (∀ c ∈ chars, c ≠ 0) ∧ data = chars ++ [0]

namespace Value
variable (v : Value)

def stop : Nat := v.index + (v.body.length + 1)

instance : Span Value := ⟨index, stop, fun _ => Nat.lt_add_of_pos_right (Nat.succ_pos _)⟩

def items : List Item := v.header :: v.body

/-- The octets of a value of variable length. -/
def content : List UInt8 := (v.body.flatMap Item.rawData).take v.header.dataSize

def node : HashNode := ⟨hash24 v.header, v.index⟩

structure Fits : Prop where
  consistent : v.header.checkHeaderConsistency v.index = true
  span : v.header.span = v.body.length + 1
  octets : ∀ item ∈ v.items, item.rawData.length = ENTRY_SIZE

/-- What is written has a CRC of its octets, and is no blob without an index. -/
structure Sound : Prop where
  indexed : v.header.datatype ≠ .blob
  checked : v.header.datatype.isVariableLength → crc32Le 0xffffffff v.content = v.header.dataCrc32
  text : v.header.datatype = .sz → IsText v.content

end Value

/-- The table has the values' entries written, and nothing is behind the first `n` entries. -/
structure OnFlash (x : Sector) (vs : List Value) (n : Nat) : Prop where
  ordered : Ordered vs
  within : ∀ v ∈ vs, v.stop ≤ n
  le : n ≤ ENTRY_COUNT
  states : x.table.length = ENTRY_COUNT
  places : x.entries.length = ENTRY_COUNT
  written : ∀ k : Nat, x.table[k]? = some .written ↔ Covers vs k
  legal : ∀ k : Nat, x.table[k]? ≠ some EntryState.illegal
  blank : ∀ k : Nat, n ≤ k → k < ENTRY_COUNT → x.table[k]? = some .empty ∧ x.entries[k]? = some blankEntry
  stored : ∀ v ∈ vs, ∀ (j : Nat) item, v.items[j]? = some item → x.entries[v.index + j]? = some item
  fits : ∀ v ∈ vs, v.Fits
  sound : ∀ v ∈ vs, v.Sound

def firstIndex : List Value → Nat
  | [] => INVALID_ENTRY
  | v :: _ => v.index

structure Indexed (p : Page) (vs indexed : List Value) : Prop where
  state : p.state = .active ∨ p.state = .full ∨ p.state = .freeing
  flash : OnFlash p.sector vs (min p.nextFreeEntry ENTRY_COUNT)
  header : p.sector.header = some ⟨p.state, p.seqNumber⟩
  table : p.entryTable = p.sector.table
  first : p.firstUsedEntry = firstIndex vs
  used : p.usedEntryCount = total vs
  hashed : p.hashList = indexed.map Value.node
  filled : p.state = .active → ∀ k < min p.nextFreeEntry ENTRY_COUNT, p.sector.table[k]? ≠ some EntryState.empty

abbrev Layout (p : Page) (vs : List Value) : Prop := Indexed p vs vs

/-- A page that was erased, or never used. -/
structure Fresh (p : Page) : Prop where
  state : p.state = .uninitialized
  states : p.entryTable.length = ENTRY_COUNT
  sector : p.sector = .erased
  first : p.firstUsedEntry = INVALID_ENTRY
  used : p.usedEntryCount = 0
  hashed : p.hashList = []

theorem Fresh.numbered {p : Page} (h : Fresh p) (seqNumber : Nat) : Fresh { p with seqNumber := seqNumber } :=
  ⟨h.state, h.states, h.sector, h.first, h.used, h.hashed⟩

/-- What a page holds. -/
inductive Holds (p : Page) : List Value → Prop
  | fresh (h : Fresh p) : Holds p []
  | layout {vs : List Value} (h : Layout p vs) : Holds p vs

/-! ## Headers -/

section header
variable {v : Value} {q : Query} {item : Item} {i : Nat}

theorem Value.Fits.next_eq (h : v.Fits) : v.header.next v.index = v.stop := by
  have hspan := h.span
  have hcons := h.consistent
  unfold Item.next Value.stop
  by_cases hvar : v.header.datatype.isVariableLength
  · rw [if_pos hvar, hspan]
  · rw [if_neg hvar]
    unfold Item.checkHeaderConsistency at hcons
    have hone : v.header.span = 1 := by
      split_ifs at hcons with h1 h2 h3 h4 h5 <;> simp_all
    omega

end header

/-- The values of a page, as its hash list leads to them. -/
def Page.values (p : Page) : List Value :=
  p.hashList.map fun node =>
    let header := (p.readEntry node.index).getD blankEntry
    ⟨node.index, header, (List.range (header.span - 1)).map fun j => (p.readEntry (node.index + (j + 1))).getD blankEntry⟩

namespace Indexed
variable {p : Page} {vs indexed : List Value} {v : Value} {i : Nat}

theorem index_lt (h : Indexed p vs indexed) (hv : v ∈ vs) : v.index < min p.nextFreeEntry ENTRY_COUNT :=
  Nat.lt_of_lt_of_le (Span.start_lt_stop v) (h.flash.within v hv)

theorem since_end (h : Indexed p vs indexed) (hi : ENTRY_COUNT ≤ i) : since vs i = [] := since_of_lt fun _ hv =>
  Nat.lt_of_lt_of_le (h.index_lt hv) (Nat.le_trans (Nat.min_le_right _ _) hi)

theorem readEntry_header (h : Indexed p vs indexed) (hv : v ∈ vs) : p.readEntry v.index = some v.header :=
  h.flash.stored v hv 0 v.header rfl

theorem entry_written (h : Indexed p vs indexed) (hcover : Covers vs i) : p.entryTable[i]? = some .written :=
  h.table ▸ (h.flash.written i).mpr hcover

theorem entry_other (h : Indexed p vs indexed) (hi : i < ENTRY_COUNT) (hcover : ¬Covers vs i) :
    ∃ state, p.entryTable[i]? = some state ∧ state ≠ .written := by
  rw [h.table]
  have hplace : i < p.sector.table.length := h.flash.states ▸ hi
  refine ⟨p.sector.table[i], List.getElem?_eq_getElem hplace, fun heq => hcover ?_⟩
  exact (h.flash.written i).mp (heq ▸ List.getElem?_eq_getElem hplace)

theorem values_eq (h : Layout p vs) : p.values = vs := by
  unfold Page.values
  rw [h.hashed, List.map_map]
  refine (List.map_congr_left fun v hv => ?_).trans (List.map_id vs)
  have hheader : (p.readEntry v.index).getD blankEntry = v.header := by
    rw [h.readEntry_header hv]
    rfl
  have hbody : (List.range (v.header.span - 1)).map (fun j => (p.readEntry (v.index + (j + 1))).getD blankEntry) = v.body := by
    have hlength : v.header.span - 1 = v.body.length := by
      rw [(h.flash.fits v hv).span, Nat.add_sub_cancel]
    refine List.ext_getElem (by simp [hlength]) fun j h0 h1 => ?_
    have hread : p.readEntry (v.index + (j + 1)) = some v.body[j] :=
      h.flash.stored v hv (j + 1) _ (List.getElem?_eq_getElem h1)
    simp [hread]
  change (⟨v.index, (p.readEntry v.index).getD blankEntry,
    (List.range (((p.readEntry v.index).getD blankEntry).span - 1)).map fun j =>
      (p.readEntry (v.index + (j + 1))).getD blankEntry⟩ : Value) = v
  rw [hheader, hbody]

end Indexed

theorem Holds.fresh_of_uninitialized {p : Page} {vs : List Value} (h : Holds p vs) (hstate : p.state = .uninitialized) :
    Fresh p := by
  cases h with
  | fresh h => exact h
  | layout h => rcases h.state with hs | hs | hs <;> rw [hs] at hstate <;> cases hstate

theorem Holds.layout_of_ne {p : Page} {vs : List Value} (h : Holds p vs) (hstate : p.state ≠ .uninitialized) :
    Layout p vs := by
  cases h with
  | fresh h => exact absurd h.state hstate
  | layout h => exact h

theorem Holds.values_eq {p : Page} {vs : List Value} (h : Holds p vs) : p.values = vs := by
  cases h with
  | fresh h => exact congrArg (List.map _) h.hashed
  | layout h => exact h.values_eq

/-! ## Searches -/

/-- A search, over the values that it meets. -/
def Page.scan (q : Query) (p : Page) : List Value → (itemIndex : Nat) → Item → Found
  | [], itemIndex, item => ⟨ESP_ERR_NVS_NOT_FOUND, p, itemIndex, item⟩
  | v :: vs, itemIndex, _ =>
    match q.judge v.header with
    | .skip => Page.scan q p vs itemIndex v.header
    | .mismatch indexed => ⟨ESP_ERR_NVS_TYPE_MISMATCH, p, if indexed then v.index else itemIndex, v.header⟩
    | .found => ⟨ESP_OK, p, v.index, v.header⟩

section find
variable {p : Page} {vs : List Value} {q : Query} {i itemIndex : Nat} {item : Item}

theorem findLoop_eq (h : Layout p vs) (hb : Between vs i) {fuel : Nat}
    (hfuel : min p.nextFreeEntry ENTRY_COUNT ≤ i + fuel) :
    Page.findLoop q (min p.nextFreeEntry ENTRY_COUNT) fuel p i itemIndex item =
      Page.scan q p (since vs i) itemIndex item := by
  induction fuel generalizing i item with
  | zero =>
    have hnone : since vs i = [] := since_of_lt fun v hv => Nat.lt_of_lt_of_le (h.index_lt hv) hfuel
    rw [hnone]
    rfl
  | succ fuel ih =>
    unfold Page.findLoop
    by_cases hi : i < min p.nextFreeEntry ENTRY_COUNT
    · rw [if_neg (not_not.mpr hi)]
      by_cases hcover : Covers vs i
      · obtain ⟨v, hv, rfl, hsince, hnext⟩ := since_covered h.flash.ordered hb hcover
        have hfits := h.flash.fits v hv
        have hstop := hfits.next_eq
        have hlt := Span.start_lt_stop v
        have hread : p.readEntry (Span.start v) = some v.header := h.readEntry_header hv
        have hconsistent : v.header.checkHeaderConsistency (Span.start v) = true := hfits.consistent
        have hih : ∀ item, Page.findLoop q (min p.nextFreeEntry ENTRY_COUNT) fuel p (v.header.next (Span.start v))
            itemIndex item = Page.scan q p (since vs (Span.stop v)) itemIndex item := fun item => by
          have hstop' : v.header.next (Span.start v) = Span.stop v := hstop
          rw [hstop', ih hnext (by omega)]
        rw [h.entry_written hcover, hsince]
        simp only [hread, hconsistent, Bool.not_true, Bool.false_eq_true, if_false, Page.scan]
        cases q.judge v.header with
        | skip => exact hih v.header
        | mismatch indexed => rfl
        | found => rfl
      · obtain ⟨state, hstate, hne⟩ := h.entry_other (Nat.lt_of_lt_of_le hi (Nat.min_le_right _ _)) hcover
        rw [hstate]
        have hstep : Page.findLoop q (min p.nextFreeEntry ENTRY_COUNT) fuel p (i + 1) itemIndex item =
            Page.scan q p (since vs i) itemIndex item := by
          rw [ih (between_succ hcover) (by omega), since_uncovered hcover]
        cases state with
        | written => exact absurd rfl hne
        | empty => exact hstep
        | erased => exact hstep
        | illegal => exact hstep
    · have hnone : since vs i = [] := since_of_lt fun v hv => Nat.lt_of_lt_of_le (h.index_lt hv) (Nat.not_lt.mp hi)
      rw [if_pos hi, hnone]
      rfl

/-- The header whose hash is searched for, where the hash list is used. -/
def Query.target (q : Query) : Option Item :=
  q.key.bind fun key =>
    if q.nsIndex ≠ NS_ANY ∧ (q.datatype ≠ .blobData ∨ q.chunkIdx ≠ CHUNK_ANY) then
      some (Item.new q.nsIndex q.datatype 0 key q.chunkIdx)
    else none

/-- The values that a search meets: from the first with the hash on. -/
def candidates (q : Query) (vs : List Value) : List Value :=
  match q.target with
  | some target => vs.dropWhile fun v => hash24 v.header ≠ hash24 target
  | none => vs

/-- The place where a search begins has the same values behind it. -/
theorem since_findBegin (h : Layout p vs) (hb : Between vs itemIndex) (hi : itemIndex < ENTRY_COUNT) :
    let start := if itemIndex > p.firstUsedEntry ∧ itemIndex < ENTRY_COUNT then itemIndex else p.firstUsedEntry
    Between vs start ∧ since vs start = since vs itemIndex := by
  intro start
  by_cases hgt : itemIndex > p.firstUsedEntry
  · have hstart : start = itemIndex := if_pos ⟨hgt, hi⟩
    rw [hstart]
    exact ⟨hb, rfl⟩
  · have hstart : start = firstIndex vs := (if_neg fun hand => hgt hand.1).trans h.first
    rw [hstart]
    cases vs with
    | nil => exact ⟨fun v hv => absurd hv List.not_mem_nil, rfl⟩
    | cons v vs =>
      have hle : ∀ w ∈ v :: vs, v.index ≤ w.index := fun w hw => h.flash.ordered.start_le hw
      have hbegin : itemIndex ≤ v.index := by
        have hfirst : p.firstUsedEntry = v.index := h.first
        omega
      exact ⟨h.flash.ordered.between_start List.mem_cons_self,
        (since_of_le hle).trans (since_of_le fun w hw => Nat.le_trans hbegin (hle w hw)).symm⟩

theorem hashFind_eq (h : Layout p vs) (start : Nat) :
    hashFind p.hashList start item =
      ((since vs start).find? fun v => hash24 v.header = hash24 item).map Value.index := by
  unfold hashFind since
  rw [h.hashed, List.find?_map, Option.map_map, List.find?_filter]
  exact congrArg (Option.map Value.index) (congrArg (List.find? · vs) (funext fun v => by
    simp only [Function.comp_apply, Value.node, Bool.decide_and, Bool.decide_eq_true]
    rfl))

/-- Where the walk begins. -/
theorem findStart_eq (h : Layout p vs) (hb : Between vs itemIndex) (hi : itemIndex < ENTRY_COUNT) :
    (candidates q (since vs itemIndex) = [] ∧ p.findStart q itemIndex = none) ∨
      ∃ start, p.findStart q itemIndex = some start ∧ Between vs start ∧
        since vs start = candidates q (since vs itemIndex) := by
  obtain ⟨hstart, hsince⟩ := since_findBegin h hb hi
  have hcases : p.findStart q itemIndex =
      match q.target with
      | some target => (hashFind p.hashList (if itemIndex > p.firstUsedEntry ∧ itemIndex < ENTRY_COUNT then itemIndex
          else p.firstUsedEntry) target).filter (· < ENTRY_COUNT)
      | none => some (if itemIndex > p.firstUsedEntry ∧ itemIndex < ENTRY_COUNT then itemIndex else p.firstUsedEntry) := by
    unfold Page.findStart Query.target
    cases q.key with
    | none => rfl
    | some key =>
      simp only [Option.bind_some]
      split_ifs <;> rfl
  rw [hcases]
  unfold candidates
  cases q.target with
  | none => exact .inr ⟨_, rfl, hstart, hsince⟩
  | some target =>
    simp only [hashFind_eq h, hsince]
    have hfind := (since vs itemIndex).find?_eq_head?_dropWhile_not fun v => hash24 v.header = hash24 target
    have hnot : (fun v : Value => !decide (hash24 v.header = hash24 target)) =
        fun v => decide (hash24 v.header ≠ hash24 target) := funext fun v => by simp
    rw [hnot] at hfind
    cases hdrop : (since vs itemIndex).dropWhile fun v => hash24 v.header ≠ hash24 target with
    | nil =>
      rw [hdrop] at hfind
      exact .inl ⟨rfl, by rw [hfind]; rfl⟩
    | cons v ws =>
      rw [hdrop] at hfind
      obtain ⟨hv, hws⟩ := h.flash.ordered.since_dropWhile hdrop
      have hlt : v.index < ENTRY_COUNT := Nat.lt_of_lt_of_le (h.index_lt hv) (Nat.min_le_right _ _)
      refine .inr ⟨v.index, ?_, ?_, hws⟩
      · rw [hfind]
        simp [hlt]
      · exact h.flash.ordered.between_start hv

/-- A search, by the values alone: the page stays as it is. -/
theorem Layout.findItem_eq (h : Layout p vs) (hb : Between vs itemIndex) :
    p.findItem q itemIndex item = p.scan q (candidates q (since vs itemIndex)) itemIndex item := by
  have hstate : ¬(p.state = .corrupt ∨ p.state = .invalid ∨ p.state = .uninitialized) := by
    rcases h.state with hs | hs | hs <;> simp [hs]
  unfold Page.findItem
  rw [if_neg hstate]
  by_cases hi : itemIndex ≥ ENTRY_COUNT
  · have hnone := h.since_end hi
    have hcand : candidates q ([] : List Value) = [] := by
      unfold candidates
      cases q.target <;> rfl
    rw [if_pos hi, hnone, hcand]
    rfl
  · rw [if_neg hi]
    rcases findStart_eq (q := q) h hb (Nat.not_le.mp hi) with ⟨hcand, hstart⟩ | ⟨start, hstart, hbetween, hsince⟩
    · rw [hstart, hcand]
      rfl
    · rw [hstart, ← hsince]
      exact findLoop_eq h hbetween (Nat.le_trans (Nat.min_le_right _ _) (Nat.le_add_left _ _))

theorem Holds.findItem_eq (h : Holds p vs) (hb : Between vs itemIndex) :
    p.findItem q itemIndex item = p.scan q (candidates q (since vs itemIndex)) itemIndex item := by
  cases h with
  | fresh h =>
    have hcand : candidates q ([] : List Value) = [] := by
      unfold candidates
      cases q.target <;> rfl
    unfold Page.findItem
    rw [if_pos (.inr (.inr h.state))]
    change _ = p.scan q (candidates q []) itemIndex item
    rw [hcand]
    rfl
  | layout h => exact h.findItem_eq hb

theorem scan_page : (Page.scan q p vs itemIndex item).page = p := by
  induction vs generalizing item with
  | nil => rfl
  | cons v vs ih =>
    unfold Page.scan
    cases q.judge v.header with
    | skip => exact ih
    | mismatch indexed => rfl
    | found => rfl

theorem scan_ok (h : (Page.scan q p vs itemIndex item).err = ESP_OK) :
    ∃ v ∈ vs, q.judge v.header = .found ∧ Page.scan q p vs itemIndex item = ⟨ESP_OK, p, v.index, v.header⟩ := by
  induction vs generalizing item with
  | nil => cases h
  | cons v vs ih =>
    unfold Page.scan at h ⊢
    cases hjudge : q.judge v.header with
    | skip =>
      rw [hjudge] at h
      obtain ⟨w, hw, hfound, hscan⟩ := ih h
      exact ⟨w, List.mem_cons_of_mem v hw, hfound, hscan⟩
    | mismatch indexed =>
      rw [hjudge] at h
      cases h
    | found => exact ⟨v, List.mem_cons_self, hjudge, rfl⟩

theorem candidates_subset : candidates q vs ⊆ vs := by
  unfold candidates
  cases q.target with
  | none => exact fun v hv => hv
  | some target => exact (List.dropWhile_sublist _).subset

/-- The page stays as it is. -/
theorem Holds.findItem_page (h : Holds p vs) (hb : Between vs itemIndex) : (p.findItem q itemIndex item).page = p := by
  rw [h.findItem_eq hb, scan_page]

theorem Holds.findItem_ok (h : Holds p vs) (hb : Between vs itemIndex)
    (hok : (p.findItem q itemIndex item).err = ESP_OK) :
    ∃ v ∈ vs, itemIndex ≤ v.index ∧ q.judge v.header = .found ∧
      p.findItem q itemIndex item = ⟨ESP_OK, p, v.index, v.header⟩ := by
  rw [h.findItem_eq hb] at hok ⊢
  obtain ⟨v, hv, hfound, hscan⟩ := scan_ok hok
  obtain ⟨hmem, hle⟩ := mem_since.mp (candidates_subset hv)
  exact ⟨v, hmem, hle, hfound, hscan⟩

end find

end EspIdf.Nvs
