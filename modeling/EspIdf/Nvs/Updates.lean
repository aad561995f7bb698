import EspIdf.Nvs.Layout
import EspIdf.Nvs.Headers

/-!
# NVS: changes to the values of a page

* `overwrite` : entries that are changed one behind the other;
* `Indexed.erase` : an item that is erased is gone, and nothing else is;
* `Holds.write` : an item that is written is behind the others;
* `copyItems_eq` : what is live on one page, behind each other on another.
-/

namespace EspIdf.Nvs

open Spans Crc32

/-! ## Ranges of entries -/

/-- `xs` in the place of what is from `i` on. -/
def overwrite {α : Type} (l : List α) (i : Nat) : List α → List α
  | [] => l
  | x :: xs => overwrite (l.set i x) (i + 1) xs

section overwrite
variable {α : Type} {l xs : List α} {i k : Nat}

@[simp] theorem overwrite_length : (overwrite l i xs).length = l.length := by
  induction xs generalizing l i with
  | nil => rfl
  | cons x xs ih => rw [overwrite, ih, List.length_set]

theorem overwrite_before (h : k < i) : (overwrite l i xs)[k]? = l[k]? := by
  induction xs generalizing l i with
  | nil => rfl
  | cons x xs ih => rw [overwrite, ih (by omega), List.getElem?_set_ne (by omega)]

theorem overwrite_behind (h : i + xs.length ≤ k) : (overwrite l i xs)[k]? = l[k]? := by
  induction xs generalizing l i with
  | nil => rfl
  | cons x xs ih =>
    rw [List.length_cons] at h
    rw [overwrite, ih (by omega), List.getElem?_set_ne (by omega)]

theorem overwrite_inside {j : Nat} (hj : j < xs.length) (hi : i + xs.length ≤ l.length) :
    (overwrite l i xs)[i + j]? = xs[j]? := by
  induction xs generalizing l i j with
  | nil => exact absurd hj (Nat.not_lt_zero _)
  | cons x xs ih =>
    rw [List.length_cons] at hj hi
    cases j with
    | zero =>
      change (overwrite (l.set i x) (i + 1) xs)[i]? = some x
      rw [overwrite_before (by omega), List.getElem?_set_self (by omega)]
    | succ j =>
      rw [overwrite]
      have hstep : i + (j + 1) = i + 1 + j := by omega
      rw [hstep, ih (by omega) (by rw [List.length_set]; omega)]
      rfl

theorem overwrite_outside (h : ¬(i ≤ k ∧ k < i + xs.length)) : (overwrite l i xs)[k]? = l[k]? := by
  by_cases hk : k < i
  · exact overwrite_before hk
  · exact overwrite_behind (by omega)

theorem overwrite_replicate {x : α} {n : Nat} (hi : i + n ≤ l.length) :
    (overwrite l i (List.replicate n x))[k]? = if i ≤ k ∧ k < i + n then some x else l[k]? := by
  split_ifs with hin
  · have hk : k = i + (k - i) := by omega
    rw [hk, overwrite_inside (by rw [List.length_replicate]; omega) (by rw [List.length_replicate]; omega),
      List.getElem?_replicate_of_lt (by omega)]
  · exact overwrite_outside (by rwa [List.length_replicate])

theorem overwrite_set {x : α} (h : i + xs.length ≤ k) : overwrite (l.set k x) i xs = (overwrite l i xs).set k x := by
  induction xs generalizing l i with
  | nil => rfl
  | cons y xs ih =>
    rw [List.length_cons] at h
    rw [overwrite, overwrite, List.set_comm _ _ (by omega), ih (by omega)]

theorem overwrite_append {ys : List α} : overwrite l i (xs ++ ys) = overwrite (overwrite l i xs) (i + xs.length) ys := by
  induction xs generalizing l i with
  | nil => rfl
  | cons x xs ih =>
    rw [List.cons_append, overwrite, overwrite, ih, List.length_cons, Nat.add_right_comm, Nat.add_assoc]

theorem overwrite_replicate_succ {x : α} {n : Nat} :
    overwrite l i (List.replicate (n + 1) x) = overwrite (l.set (i + n) x) i (List.replicate n x) := by
  rw [List.replicate_succ', overwrite_append, List.length_replicate, overwrite_set (by rw [List.length_replicate])]
  rfl

theorem overwrite_replicate_add {x : α} {m n : Nat} :
    overwrite (overwrite l i (List.replicate m x)) (i + m) (List.replicate n x) =
      overwrite l i (List.replicate (m + n) x) := by
  rw [← List.replicate_append_replicate, overwrite_append, List.length_replicate]

end overwrite

namespace Page

def withTables (p : Page) (f : List EntryState → List EntryState) : Page :=
  { p with entryTable := f p.entryTable, sector := { p.sector with table := f p.sector.table } }

def withEntries (p : Page) (f : List Item → List Item) : Page :=
  { p with sector := { p.sector with entries := f p.sector.entries } }

variable (p : Page)

theorem setRange_eq (first : Nat) (state : EntryState) (n : Nat) :
    p.setRange first state n = p.withTables (overwrite · first (List.replicate n state)) := by
  induction n generalizing p with
  | zero => rfl
  | succ n ih =>
    simp only [setRange, ih, withTables, overwrite_replicate_succ]
    rfl

theorem purgeRange_eq (first n : Nat) :
    p.purgeRange first n = p.withEntries (overwrite · first (List.replicate n ⟨List.replicate ENTRY_SIZE 0⟩)) := by
  induction n with
  | zero => rfl
  | succ n ih =>
    simp only [purgeRange, ih, withEntries, List.replicate_succ', overwrite_append, List.length_replicate]
    rfl

theorem alterEntryRangeState_eq {index span : Nat} (hspan : 0 < span) (hlast : index + span ≤ ENTRY_COUNT)
    (state : EntryState) : p.alterEntryRangeState index (index + span) state =
      (ESP_OK, p.withTables (overwrite · index (List.replicate span state))) := by
  unfold alterEntryRangeState
  rw [if_neg (not_not.mpr hlast), if_neg (by omega), setRange_eq, Nat.add_sub_cancel_left]

theorem purgeEntryRange_eq {index span : Nat} (hspan : 0 < span) (hlast : index + span ≤ ENTRY_COUNT) :
    p.purgeEntryRange index (index + span) =
      (ESP_OK, p.withEntries (overwrite · index (List.replicate span ⟨List.replicate ENTRY_SIZE 0⟩))) := by
  unfold purgeEntryRange
  rw [if_neg (not_not.mpr hlast), if_neg (by omega), purgeRange_eq, Nat.add_sub_cancel_left]

/-- The span of an item that is erased is marked, and maybe purged. -/
theorem eraseSpan_eq {index span : Nat} (hspan : 0 < span) (hlast : index + span ≤ ENTRY_COUNT) (purge : Bool) :
    p.eraseSpan index span purge =
      (ESP_OK, (p.withTables (overwrite · index (List.replicate span .erased))).withEntries fun entries =>
        if purge then overwrite entries index (List.replicate span ⟨List.replicate ENTRY_SIZE 0⟩) else entries) := by
  have hmark : (if span = 1 then p.alterEntryState index .erased
      else p.alterEntryRangeState index (index + span) .erased) =
        (ESP_OK, p.withTables (overwrite · index (List.replicate span .erased))) := by
    split_ifs with hone
    · unfold alterEntryState
      rw [if_pos (by omega), hone]
      rfl
    · exact p.alterEntryRangeState_eq hspan hlast .erased
  unfold eraseSpan
  rw [hmark]
  cases purge with
  | false => rfl
  | true =>
    simp only [ne_eq, not_true, if_false, if_true, purgeEntryRange_eq _ hspan hlast]

theorem countErased_eq {first n : Nat} (h : ∀ k, first ≤ k → k < first + n → p.entryTable[k]? = some .written) :
    p.countErased first n =
      (ESP_OK, { p with usedEntryCount := p.usedEntryCount - n, erasedEntryCount := p.erasedEntryCount + n }) := by
  induction n generalizing p with
  | zero => rfl
  | succ n ih =>
    unfold countErased
    rw [h (first + n) (Nat.le_add_right _ _) (by omega)]
    simp only [if_true]
    rw [ih]
    · simp only [Nat.sub_sub, Nat.add_assoc, Nat.add_comm 1 n]
    · exact fun k h0 h1 => h k h0 (by omega)

end Page

/-! ## Items that are erased -/

section erase
variable {p : Page} {vs : List Value} {v : Value}

/-- The walk that looks for the first used entry. -/
theorem firstWritten_eq {table : List EntryState} {i last : Nat} (hordered : Ordered vs) (hb : Between vs i)
    (hwritten : ∀ k : Nat, table[k]? = some .written ↔ Covers vs k) (hlast : ∀ v ∈ vs, v.index < last) {fuel : Nat}
    (hfuel : last ≤ i + fuel) : Page.firstWritten table i last fuel = firstIndex (since vs i) := by
  induction fuel generalizing i with
  | zero =>
    have hnone : since vs i = [] := since_of_lt fun v hv => Nat.lt_of_lt_of_le (hlast v hv) hfuel
    rw [hnone]
    rfl
  | succ fuel ih =>
    unfold Page.firstWritten
    split_ifs with hi hentry
    · obtain ⟨v, hv, hstart, hsince, -⟩ := since_covered hordered hb ((hwritten i).mp hentry)
      rw [hsince]
      exact hstart.symm
    · have hfree : ¬Covers vs i := fun hcover => hentry ((hwritten i).mpr hcover)
      rw [ih (between_succ hfree) (by omega), since_uncovered hfree]
    · have hnone : since vs i = [] := since_of_lt fun v hv => Nat.lt_of_lt_of_le (hlast v hv) (Nat.not_lt.mp hi)
      rw [hnone]
      rfl

/-- The sector without an item. -/
def Sector.erasing (x : Sector) (index span : Nat) (purge : Bool) : Sector :=
  { x with
    table := overwrite x.table index (List.replicate span .erased)
    entries := if purge then overwrite x.entries index (List.replicate span ⟨List.replicate ENTRY_SIZE 0⟩) else x.entries }

theorem erasing_entry {x : Sector} {index span k : Nat} {purge : Bool} (h : ¬(index ≤ k ∧ k < index + span)) :
    (x.erasing index span purge).entries[k]? = x.entries[k]? := by
  unfold Sector.erasing
  cases purge with
  | false => rfl
  | true => exact overwrite_outside (by rwa [List.length_replicate])

theorem OnFlash.erase {x : Sector} {n : Nat} (h : OnFlash x vs n) (hv : v ∈ vs) (purge : Bool) :
    OnFlash (x.erasing v.index (v.body.length + 1) purge) (without vs v.index) n := by
  have hwithin := h.within v hv
  have hle := h.le
  have htable : ∀ k, (x.erasing v.index (v.body.length + 1) purge).table[k]? =
      if v.index ≤ k ∧ k < v.index + (v.body.length + 1) then some .erased else x.table[k]? := fun k =>
    overwrite_replicate (by rw [h.states]; exact Nat.le_trans hwithin hle)
  have hsub : ∀ w ∈ without vs v.index, w ∈ vs := fun w hw => (mem_without.mp hw).1
  refine
    { ordered := h.ordered.filter _
      within := fun w hw => h.within w (hsub w hw)
      le := hle
      states := overwrite_length.trans h.states
      places := ?_
      written := fun k => ?_
      legal := fun k => ?_
      blank := fun k h0 h1 => ?_
      stored := fun w hw j item hitem => ?_
      fits := fun w hw => h.fits w (hsub w hw)
      sound := fun w hw => h.sound w (hsub w hw) }
  · unfold Sector.erasing
    cases purge with
    | false => exact h.places
    | true => exact overwrite_length.trans h.places
  · have hcovers : Covers (without vs v.index) k ↔ Covers vs k ∧ ¬(v.index ≤ k ∧ k < v.index + (v.body.length + 1)) :=
      covers_without h.ordered hv
    rw [htable, hcovers, ← h.written k]
    split_ifs with hin
    · simp [hin]
    · simp [hin]
  · rw [htable]
    split_ifs with hin
    · simp
    · exact h.legal k
  · have hout : ¬(v.index ≤ k ∧ k < v.index + (v.body.length + 1)) := fun hin =>
      absurd (Nat.lt_of_lt_of_le hin.2 hwithin) (Nat.not_lt.mpr h0)
    rw [htable, if_neg hout, erasing_entry hout]
    exact h.blank k h0 h1
  · obtain ⟨hw, hne⟩ := mem_without.mp hw
    have hj : j < w.items.length := (List.getElem?_eq_some_iff.mp hitem).1
    have hout : ¬(v.index ≤ w.index + j ∧ w.index + j < v.index + (v.body.length + 1)) := fun hin => by
      have heq := h.ordered.eq_of_covers (k := w.index + j) hw hv ⟨Nat.le_add_right _ _, Nat.add_lt_add_left hj _⟩ hin
      exact hne (congrArg Value.index heq)
    rw [erasing_entry hout]
    exact h.stored w hw j item hitem

theorem hashErase_eq (h : Ordered vs) (i : Nat) :
    hashErase (vs.map Value.node) i = (without vs i).map Value.node := by
  induction vs with
  | nil => rfl
  | cons w vs ih =>
    unfold hashErase at ih ⊢
    by_cases hi : w.index = i
    · subst hi
      rw [List.map_cons, List.eraseP_cons_of_pos (by exact decide_eq_true rfl)]
      exact congrArg (List.map Value.node) (without_cons_self h).symm
    · have hcons : without (w :: vs) i = w :: without vs i :=
        List.filter_cons_of_pos (decide_eq_true hi)
      rw [List.map_cons, List.eraseP_cons_of_neg (by exact fun heq => hi (of_decide_eq_true heq)), ih h.tail, hcons]
      rfl

theorem firstIndex_without (h : Ordered vs) (hv : v ∈ vs) :
    firstIndex (without vs v.index) =
      if v.index = firstIndex vs then firstIndex (since (without vs v.index) v.stop) else firstIndex vs := by
  cases vs with
  | nil => exact absurd hv List.not_mem_nil
  | cons w vs =>
    split_ifs with hfirst
    · have heq : v = w := h.eq_of_start hv List.mem_cons_self hfirst
      subst heq
      have hwithout : without (v :: vs) v.index = vs := without_cons_self h
      have hsince : since vs v.stop = vs := since_of_le fun x hx => h.head_le hx
      rw [hwithout, hsince]
    · have hcons : without (w :: vs) v.index = w :: without vs v.index :=
        List.filter_cons_of_pos (decide_eq_true fun heq => hfirst heq.symm)
      rw [hcons]
      rfl

/-- An item that is erased is gone, and nothing else is. -/
theorem Indexed.erase {indexed : List Value} (h : Indexed p vs indexed) (hindexed : Ordered indexed) (hv : v ∈ vs)
    (purge : Bool) :
    ∃ p', p.eraseEntryAndSpan v.index purge = (ESP_OK, p') ∧
      Indexed p' (without vs v.index) (without indexed v.index) ∧ p'.state = p.state ∧ p'.seqNumber = p.seqNumber ∧
      p'.nextFreeEntry = p.nextFreeEntry := by
  have hfits := h.flash.fits v hv
  have hwithin : v.index + (v.body.length + 1) ≤ min p.nextFreeEntry ENTRY_COUNT := h.flash.within v hv
  have hcovered : ∀ k, v.index ≤ k → k < v.index + (v.body.length + 1) → p.entryTable[k]? = some .written :=
    fun k h0 h1 => h.entry_written ⟨v, hv, h0, h1⟩
  have hflash := h.flash.erase hv purge
  have hnext : max p.nextFreeEntry (v.index + (v.body.length + 1)) = p.nextFreeEntry := by omega
  have hby : p.eraseByState v.index purge = (ESP_OK, v.body.length + 1, { p with
      hashList := (without indexed v.index).map Value.node
      usedEntryCount := p.usedEntryCount - (v.body.length + 1)
      erasedEntryCount := p.erasedEntryCount + (v.body.length + 1)
      entryTable := overwrite p.entryTable v.index (List.replicate (v.body.length + 1) .erased)
      sector := p.sector.erasing v.index (v.body.length + 1) purge }) := by
    unfold Page.eraseByState
    rw [hcovered v.index (Nat.le_refl _) (by omega)]
    simp only [h.readEntry_header hv, hfits.consistent, Bool.not_true, Bool.false_eq_true, if_false, hfits.span]
    have hcount := Page.countErased_eq { p with hashList := hashErase p.hashList v.index } hcovered
    rw [hcount]
    simp only [ne_eq, not_true, if_false]
    rw [Page.eraseSpan_eq _ (Nat.succ_pos _) (by omega), h.hashed, hashErase_eq hindexed]
    cases purge <;> rfl
  have htable : overwrite p.entryTable v.index (List.replicate (v.body.length + 1) .erased) =
      (p.sector.erasing v.index (v.body.length + 1) purge).table := by
    rw [h.table]
    rfl
  have hfirst : firstIndex (without vs v.index) =
      if v.index = p.firstUsedEntry then
        Page.firstWritten (overwrite p.entryTable v.index (List.replicate (v.body.length + 1) .erased))
          (v.index + (v.body.length + 1)) (min p.nextFreeEntry ENTRY_COUNT) ENTRY_COUNT
      else p.firstUsedEntry := by
    have hbetween : Between (without vs v.index) v.stop := fun w hw =>
      h.flash.ordered.between_stop hv w (mem_without.mp hw).1
    rw [firstIndex_without h.flash.ordered hv, h.first, htable]
    refine if_congr Iff.rfl (Eq.symm ?_) rfl
    exact firstWritten_eq hflash.ordered hbetween hflash.written
      (fun w hw => h.index_lt (mem_without.mp hw).1) (by omega)
  have htotal : total (without vs v.index) + (v.body.length + 1) = total vs := by
    have hall := total_without h.flash.ordered hv
    have hsize : Span.stop v - Span.start v = v.body.length + 1 := Nat.add_sub_cancel_left _ _
    rwa [hsize] at hall
  have hresult : p.eraseEntryAndSpan v.index purge = (ESP_OK, { p with
      hashList := (without indexed v.index).map Value.node
      firstUsedEntry := firstIndex (without vs v.index)
      usedEntryCount := p.usedEntryCount - (v.body.length + 1)
      erasedEntryCount := p.erasedEntryCount + (v.body.length + 1)
      entryTable := overwrite p.entryTable v.index (List.replicate (v.body.length + 1) .erased)
      sector := p.sector.erasing v.index (v.body.length + 1) purge }) := by
    unfold Page.eraseEntryAndSpan
    rw [hby, hfirst]
    simp only [ne_eq, not_true, if_false]
    split_ifs with hidx <;> simp only [Page.updateFirstUsedEntry, hnext]
  refine ⟨_, hresult, ?_, rfl, rfl, rfl⟩
  exact
    { state := h.state
      flash := hflash
      header := h.header
      table := htable
      first := rfl
      used := by
        have hused := h.used
        change p.usedEntryCount - (v.body.length + 1) = total (without vs v.index)
        omega
      hashed := rfl
      filled := fun hactive => by
        intro k hk
        change (overwrite p.sector.table v.index _)[k]? ≠ some EntryState.empty
        rw [overwrite_replicate (by rw [h.flash.states]; omega)]
        split_ifs
        · simp
        · exact h.filled hactive k hk }

theorem Layout.erase (h : Layout p vs) (hv : v ∈ vs) (purge : Bool) :
    ∃ p', p.eraseEntryAndSpan v.index purge = (ESP_OK, p') ∧ Layout p' (without vs v.index) ∧ p'.state = p.state ∧
      p'.seqNumber = p.seqNumber ∧ p'.nextFreeEntry = p.nextFreeEntry := Indexed.erase h h.flash.ordered hv purge

end erase

/-! ## Entries that are purged -/

/-- What is erased and reads as a header of the namespace has nothing but erased entries in its span. -/
def Page.PurgeSafe (p : Page) (nsIndex : UInt8) (index : Nat) : Prop :=
  ∀ k item, index ≤ k → p.entryTable[k]? = some .erased → p.readEntry k = some item →
    item.checkHeaderConsistency k = true → item.nsIndex = nsIndex →
    ∀ j < item.span, p.entryTable[k + j]? = some .erased

section purge
variable {p : Page} {vs : List Value} {nsIndex : UInt8} {index : Nat}

/-- Entries that are erased hold no value. -/
theorem Layout.purge {span : Nat} (h : Layout p vs)
    (herased : ∀ j < span, p.entryTable[index + j]? = some .erased) :
    Layout (p.withEntries (overwrite · index (List.replicate span ⟨List.replicate ENTRY_SIZE 0⟩))) vs := by
  have hother : ∀ k : Nat, (∃ state, p.sector.table[k]? = some state ∧ state ≠ EntryState.erased) →
      (overwrite p.sector.entries index (List.replicate span ⟨List.replicate ENTRY_SIZE 0⟩))[k]? = p.sector.entries[k]? := by
    rintro k ⟨state, hstate, hne⟩
    refine overwrite_outside fun hin => hne ?_
    rw [List.length_replicate] at hin
    have hk := herased (k - index) (by omega)
    rw [h.table, Nat.add_sub_cancel' hin.1, hstate] at hk
    exact Option.some.inj hk
  exact
    { h with
      flash :=
        { h.flash with
          places := overwrite_length.trans h.flash.places
          blank := fun k h0 h1 => by
            obtain ⟨hempty, hblank⟩ := h.flash.blank k h0 h1
            exact ⟨hempty, (hother k ⟨.empty, hempty, by decide⟩).trans hblank⟩
          stored := fun v hv j item hitem => by
            have hj : j < v.items.length := (List.getElem?_eq_some_iff.mp hitem).1
            have hwritten := (h.flash.written (v.index + j)).mpr ⟨v, hv, Nat.le_add_right _ _, Nat.add_lt_add_left hj _⟩
            exact (hother _ ⟨.written, hwritten, by decide⟩).trans (h.flash.stored v hv j item hitem) } }

theorem Page.PurgeSafe.next {span : Nat} (h : p.PurgeSafe nsIndex index) :
    (p.withEntries (overwrite · index (List.replicate span ⟨List.replicate ENTRY_SIZE 0⟩))).PurgeSafe nsIndex
      (index + span) := by
  intro k item hk hstate hitem
  refine h k item (Nat.le_trans (Nat.le_add_right _ _) hk) hstate ?_
  have houtside : (overwrite p.sector.entries index (List.replicate span ⟨List.replicate ENTRY_SIZE 0⟩))[k]? =
      p.sector.entries[k]? := overwrite_behind (by rwa [List.length_replicate])
  exact houtside.symm.trans hitem

theorem purgeLoop_spec (h : Layout p vs) (hsafe : p.PurgeSafe nsIndex index) (fuel : Nat) :
    ∃ out, Page.purgeLoop nsIndex fuel index p = (ESP_OK, out) ∧ Layout out vs ∧ out.state = p.state ∧
      out.seqNumber = p.seqNumber ∧ out.nextFreeEntry = p.nextFreeEntry := by
  induction fuel generalizing p index with
  | zero => exact ⟨p, rfl, h, rfl, rfl, rfl⟩
  | succ fuel ih =>
    have hskip := @ih p (index + 1) h fun k item hk => hsafe k item (Nat.le_of_succ_le hk)
    unfold Page.purgeLoop
    by_cases hi : index < ENTRY_COUNT
    · rw [if_neg (not_not.mpr hi)]
      have hplace : index < p.sector.entries.length := h.flash.places ▸ hi
      obtain ⟨item, hentry⟩ : ∃ item, p.readEntry index = some item := ⟨_, List.getElem?_eq_getElem hplace⟩
      cases hstate : p.entryTable[index]? with
      | none =>
        rw [h.table] at hstate
        exact absurd (List.getElem?_eq_none_iff.mp hstate) (by rw [h.flash.states]; omega)
      | some state =>
        cases state with
        | erased =>
          simp only [hentry]
          by_cases hconsistent : item.checkHeaderConsistency index = true
          · by_cases hns : item.nsIndex = nsIndex
            · have hspan := hsafe index _ (Nat.le_refl _) hstate hentry hconsistent hns
              have hpos := Item.consistent_span hconsistent
              have hlast : index + item.span ≤ ENTRY_COUNT := by
                have hend := hspan (item.span - 1) (by omega)
                have hlt := (List.getElem?_eq_some_iff.mp hend).1
                rw [h.table, h.flash.states] at hlt
                omega
              simp only [hconsistent, Bool.not_true, Bool.false_eq_true, if_false, hns, ne_eq, not_true,
                Page.purgeEntryRange_eq _ hpos hlast]
              exact ih (h.purge hspan) hsafe.next
            · simp only [hconsistent, Bool.not_true, Bool.false_eq_true, if_false, ne_eq, hns, not_false_eq_true, if_true]
              exact hskip
          · simp only [Bool.not_eq_true] at hconsistent
            simp only [hconsistent, Bool.not_false, if_true]
            exact hskip
        | empty => exact hskip
        | written => exact hskip
        | illegal => exact hskip
    · rw [if_pos hi]
      exact ⟨p, rfl, h, rfl, rfl, rfl⟩

/-- On an erased page there is no header. -/
theorem purgeLoop_fresh (h : Fresh p) (fuel : Nat) : Page.purgeLoop nsIndex fuel index p = (ESP_OK, p) := by
  induction fuel generalizing index with
  | zero => rfl
  | succ fuel ih =>
    unfold Page.purgeLoop
    by_cases hi : index < ENTRY_COUNT
    · have hentry : p.readEntry index = some blankEntry := by
        unfold Page.readEntry
        rw [h.sector]
        exact List.getElem?_replicate_of_lt hi
      obtain ⟨state, hstate⟩ : ∃ state, p.entryTable[index]? = some state :=
        ⟨_, List.getElem?_eq_getElem (h.states.symm ▸ hi)⟩
      rw [if_neg (not_not.mpr hi), hstate]
      cases state with
      | erased =>
        simp only [hentry, blankEntry_inconsistent, Bool.not_false, if_true]
        exact ih
      | empty => exact ih
      | written => exact ih
      | illegal => exact ih
    · exact if_pos hi

/-- Values stay as they are where the erased items of a namespace are purged. -/
theorem Holds.purge (h : Holds p vs) (hsafe : p.PurgeSafe nsIndex 0) :
    ∃ out, p.purgeErasedItems nsIndex = (ESP_OK, out) ∧ Holds out vs ∧ out.state = p.state ∧
      out.seqNumber = p.seqNumber := by
  unfold Page.purgeErasedItems
  cases h with
  | fresh h =>
    rw [if_neg (by rw [h.state]; decide), purgeLoop_fresh h]
    exact ⟨p, rfl, .fresh h, rfl, rfl⟩
  | layout h =>
    have hstate : p.state ≠ .invalid := by
      rcases h.state with hs | hs | hs <;> simp [hs]
    obtain ⟨out, hloop, hout, hstate', hseq, -⟩ := purgeLoop_spec h hsafe ENTRY_COUNT
    rw [if_neg hstate, hloop]
    exact ⟨out, rfl, .layout hout, hstate', hseq⟩

end purge

/-! ## The page as a whole -/

section whole
variable {p : Page} {vs : List Value}

theorem Holds.states (h : Holds p vs) : p.entryTable.length = ENTRY_COUNT := by
  cases h with
  | fresh h => exact h.states
  | layout h => exact h.table ▸ h.flash.states

theorem Holds.erased (h : Holds p vs) : Fresh p.erase := ⟨rfl, h.states, rfl, rfl, rfl, rfl⟩

theorem Layout.altered (h : Layout p vs) {state : PageState} (hstate : state = .full ∨ state = .freeing) :
    Layout (p.alterPageState state) vs :=
  { h with
    state := .inr hstate
    flash :=
      { h.flash with }
    header := by
      change p.sector.header.map _ = _
      rw [h.header]
      rfl
    filled := fun hactive => by
      have hactive' : state = .active := hactive
      rcases hstate with rfl | rfl <;> cases hactive' }

end whole

/-! ## Items that are written -/

/-- Entries are written behind those there are. -/
def Page.appended (p : Page) (items : List Item) : Page :=
  { p with
    entryTable := overwrite p.entryTable p.nextFreeEntry (List.replicate items.length .written)
    sector := { p.sector with
      table := overwrite p.sector.table p.nextFreeEntry (List.replicate items.length .written)
      entries := overwrite p.sector.entries p.nextFreeEntry items }
    firstUsedEntry := if items ≠ [] ∧ p.firstUsedEntry = INVALID_ENTRY then p.nextFreeEntry else p.firstUsedEntry
    usedEntryCount := p.usedEntryCount + items.length
    nextFreeEntry := p.nextFreeEntry + items.length }

section write
variable {p : Page} {vs : List Value} {v : Value} {x : Sector} {n : Nat}

theorem appended_appended {xs ys : List Item} (hnext : p.nextFreeEntry < ENTRY_COUNT) :
    (p.appended xs).appended ys = p.appended (xs ++ ys) := by
  have hne : p.nextFreeEntry ≠ INVALID_ENTRY := Nat.ne_of_lt (Nat.lt_trans hnext (by decide))
  have hfirst : (if ys ≠ [] ∧ (p.appended xs).firstUsedEntry = INVALID_ENTRY then p.nextFreeEntry + xs.length
      else (p.appended xs).firstUsedEntry) = (p.appended (xs ++ ys)).firstUsedEntry := by
    unfold Page.appended
    by_cases hxs : xs = []
    · simp [hxs]
    · by_cases hfirst : p.firstUsedEntry = INVALID_ENTRY
      · simp [hxs, hfirst, hne]
      · simp [hfirst]
  have happ : (p.appended xs).appended ys = { p.appended (xs ++ ys) with
      firstUsedEntry := if ys ≠ [] ∧ (p.appended xs).firstUsedEntry = INVALID_ENTRY then p.nextFreeEntry + xs.length
        else (p.appended xs).firstUsedEntry } := by
    unfold Page.appended
    simp only [overwrite_replicate_add, List.length_append, overwrite_append, Nat.add_assoc]
  rw [happ, hfirst]

theorem writeEntry_eq (hnext : p.nextFreeEntry < ENTRY_COUNT) (item : Item) :
    p.writeEntry item = (ESP_OK, p.appended [item]) := by
  unfold Page.writeEntry Page.appended
  rw [if_pos hnext]
  simp only [ne_eq, List.cons_ne_nil, not_false_eq_true, true_and, List.length_singleton]
  rfl

/-- A value is put behind those on flash. -/
theorem OnFlash.append (h : OnFlash x vs n) (hindex : v.index = n) (hstop : v.stop ≤ ENTRY_COUNT) (hfits : v.Fits)
    (hsound : v.Sound) :
    OnFlash { x with
      table := overwrite x.table n (List.replicate v.items.length .written)
      entries := overwrite x.entries n v.items } (vs ++ [v]) v.stop := by
  subst hindex
  have hend : v.index + v.items.length ≤ ENTRY_COUNT := hstop
  have htable : ∀ k, (overwrite x.table v.index (List.replicate v.items.length .written))[k]? =
      if v.index ≤ k ∧ k < v.stop then some EntryState.written else x.table[k]? := fun k =>
    overwrite_replicate (by rwa [h.states])
  have hmem : ∀ w ∈ vs ++ [v], w ∈ vs ∨ w = v := fun w hw => by simpa using hw
  refine
    { ordered := h.ordered.concat fun w hw => h.within w hw
      within := fun w hw => ?_
      le := hstop
      states := overwrite_length.trans h.states
      places := overwrite_length.trans h.places
      written := fun k => ?_
      legal := fun k => ?_
      blank := fun k h0 h1 => ?_
      stored := fun w hw j item hitem => ?_
      fits := fun w hw => ?_
      sound := fun w hw => ?_ }
  · rcases hmem w hw with hw | rfl
    · exact Nat.le_trans (h.within w hw) (Nat.le_add_right _ _)
    · exact Nat.le_refl _
  · have hcovers : Covers (vs ++ [v]) k ↔ Covers vs k ∨ v.index ≤ k ∧ k < v.stop := by
      rw [covers_append]
      exact or_congr_right ⟨fun ⟨w, hw, hk⟩ => List.mem_singleton.mp hw ▸ hk, fun hk => ⟨v, List.mem_singleton.mpr rfl, hk⟩⟩
    rw [htable, hcovers, ← h.written k]
    split_ifs with hin
    · simp [hin]
    · simp [hin]
  · rw [htable]
    split_ifs with hin
    · simp
    · exact h.legal k
  · have hout : ¬(v.index ≤ k ∧ k < v.stop) := fun hin => Nat.not_lt.mpr h0 hin.2
    have hn : v.index ≤ k := Nat.le_trans (Nat.le_add_right _ _) h0
    rw [htable, if_neg hout, overwrite_outside hout]
    exact h.blank k hn h1
  · have hj : j < w.items.length := (List.getElem?_eq_some_iff.mp hitem).1
    rcases hmem w hw with hw | rfl
    · have hbefore : w.index + j < v.index := Nat.lt_of_lt_of_le (Nat.add_lt_add_left hj _) (h.within w hw)
      rw [overwrite_before hbefore]
      exact h.stored w hw j item hitem
    · rw [overwrite_inside hj (by rwa [h.places]), hitem]
  · rcases hmem w hw with hw | rfl
    · exact h.fits w hw
    · exact hfits
  · rcases hmem w hw with hw | rfl
    · exact h.sound w hw
    · exact hsound

/-- A value is put behind those on a page that is active. -/
theorem Layout.append (h : Layout p vs) (hactive : p.state = .active) (hindex : v.index = p.nextFreeEntry)
    (hstop : v.stop ≤ ENTRY_COUNT) (hfits : v.Fits) (hsound : v.Sound) :
    Layout (({ p with hashList := p.hashList ++ [v.node] } : Page).appended v.items) (vs ++ [v]) := by
  have hnext : p.nextFreeEntry ≤ ENTRY_COUNT := hindex ▸ Nat.le_trans (Nat.le_add_right _ _) hstop
  have hflash : OnFlash p.sector vs p.nextFreeEntry := Nat.min_eq_left hnext ▸ h.flash
  have happ := hflash.append hindex hstop hfits hsound
  have hend : p.nextFreeEntry + v.items.length = v.stop := hindex ▸ rfl
  have hlast : min v.stop ENTRY_COUNT = v.stop := Nat.min_eq_left hstop
  refine
    { state := h.state
      flash := ?_
      header := h.header
      table := congrArg (overwrite · p.nextFreeEntry _) h.table
      first := ?_
      used := ?_
      hashed := ?_
      filled := fun _ k hk => ?_ }
  · change OnFlash _ (vs ++ [v]) (min (p.nextFreeEntry + v.items.length) ENTRY_COUNT)
    rw [hend, hlast]
    exact happ
  · change (if v.items ≠ [] ∧ p.firstUsedEntry = INVALID_ENTRY then p.nextFreeEntry else p.firstUsedEntry) =
      firstIndex (vs ++ [v])
    have hne : v.items ≠ [] := List.cons_ne_nil _ _
    have hfirst := h.first
    cases vs with
    | nil => rw [if_pos ⟨hne, hfirst⟩, ← hindex]; rfl
    | cons w vs =>
      have hlt : w.index < ENTRY_COUNT := Nat.lt_of_lt_of_le (h.index_lt List.mem_cons_self) (Nat.min_le_right _ _)
      have hused : p.firstUsedEntry ≠ INVALID_ENTRY := fun heq =>
        absurd (heq ▸ hfirst : INVALID_ENTRY = w.index) (Nat.ne_of_gt (Nat.lt_trans hlt (by decide)))
      rw [if_neg fun hand => hused hand.2]
      exact hfirst
  · change p.usedEntryCount + v.items.length = total (vs ++ [v])
    have hsize : Span.stop v - Span.start v = v.items.length := Nat.add_sub_cancel_left _ _
    rw [total_concat, hsize, h.used]
  · change p.hashList ++ [v.node] = (vs ++ [v]).map Value.node
    rw [h.hashed, List.map_append]
    rfl
  · change (overwrite p.sector.table p.nextFreeEntry _)[k]? ≠ some EntryState.empty
    have hk' : k < p.nextFreeEntry + v.items.length := Nat.lt_of_lt_of_le hk (Nat.min_le_left _ _)
    rw [overwrite_replicate (by rw [h.flash.states, hend]; exact hstop)]
    split_ifs with hin
    · simp
    · exact h.filled hactive k (by omega)

end write

/-! ## The entries behind a header -/

/-- `n` whole entries of data. -/
def blocks : (n : Nat) → List UInt8 → List Item
  | 0, _ => []
  | n + 1, data => ⟨data.take ENTRY_SIZE⟩ :: blocks n (data.drop ENTRY_SIZE)

def bodyOf (data : List UInt8) : List Item :=
  blocks (data.length / ENTRY_SIZE) data ++
    if data.length % ENTRY_SIZE > 0 then
      [⟨data.drop (data.length - data.length % ENTRY_SIZE) ++ List.replicate (ENTRY_SIZE - data.length % ENTRY_SIZE) 0xff⟩]
    else []

section body
variable {data : List UInt8} {n : Nat} {p : Page}

@[simp] theorem blocks_length : (blocks n data).length = n := by
  induction n generalizing data with
  | zero => rfl
  | succ n ih => rw [blocks, List.length_cons, ih]

theorem blocks_octets (h : n * ENTRY_SIZE ≤ data.length) : ∀ item ∈ blocks n data, item.rawData.length = ENTRY_SIZE := by
  induction n generalizing data with
  | zero => exact fun item hitem => absurd hitem List.not_mem_nil
  | succ n ih =>
    rw [Nat.succ_mul] at h
    intro item hitem
    rcases List.mem_cons.mp hitem with rfl | hitem
    · exact List.length_take_of_le (by omega)
    · exact ih (by rw [List.length_drop]; omega) item hitem

theorem blocks_flatMap : (blocks n data).flatMap Item.rawData = data.take (n * ENTRY_SIZE) := by
  induction n generalizing data with
  | zero => rw [Nat.zero_mul, List.take_zero]; rfl
  | succ n ih => rw [blocks, List.flatMap_cons, ih, Nat.succ_mul, Nat.add_comm, List.take_add]

theorem blocks_take {m : Nat} (h : n * ENTRY_SIZE ≤ m) : blocks n (data.take m) = blocks n data := by
  induction n generalizing data m with
  | zero => rfl
  | succ n ih =>
    rw [Nat.succ_mul] at h
    rw [blocks, blocks, List.take_take, Nat.min_eq_left (by omega), List.drop_take, ih (by omega)]

theorem bodyOf_length : (bodyOf data).length = (data.length + ENTRY_SIZE - 1) / ENTRY_SIZE := by
  unfold bodyOf ENTRY_SIZE
  rw [List.length_append, blocks_length]
  split_ifs with hrest
  · rw [List.length_singleton]
    omega
  · rw [List.length_nil]
    omega

theorem bodyOf_octets : ∀ item ∈ bodyOf data, item.rawData.length = ENTRY_SIZE := by
  intro item hitem
  rcases List.mem_append.mp hitem with hblock | hrest
  · exact blocks_octets (Nat.div_mul_le_self _ _) item hblock
  · split_ifs at hrest
    · rw [List.mem_singleton.mp hrest, List.length_append, List.length_drop, List.length_replicate]
      unfold ENTRY_SIZE
      omega
    · exact absurd hrest List.not_mem_nil

theorem bodyOf_content : ((bodyOf data).flatMap Item.rawData).take data.length = data := by
  have hleft : data.length / ENTRY_SIZE * ENTRY_SIZE = data.length - data.length % ENTRY_SIZE := by
    have := Nat.div_add_mod' data.length ENTRY_SIZE
    omega
  unfold bodyOf
  rw [List.flatMap_append, blocks_flatMap, hleft]
  split_ifs with hrest
  · rw [List.flatMap_singleton, ← List.append_assoc, List.take_append_drop, List.take_left]
  · have hzero : data.length % ENTRY_SIZE = 0 := by omega
    rw [hzero, Nat.sub_zero, List.take_length, List.flatMap_nil, List.append_nil, List.take_length]

theorem storeEntries_eq (i : Nat) : p.storeEntries i data n = p.withEntries (overwrite · i (blocks n data)) := by
  induction n generalizing p data i with
  | zero => rfl
  | succ n ih =>
    rw [Page.storeEntries, ih]
    rfl

@[simp] theorem appended_nil : p.appended [] = p := by
  simp [Page.appended, overwrite]

theorem writeEntryData_eq (hlen : data.length = n * ENTRY_SIZE) (hn : 0 < n) (hfirst : p.firstUsedEntry ≠ INVALID_ENTRY)
    (hfit : p.nextFreeEntry + n ≤ ENTRY_COUNT) : p.writeEntryData data = (ESP_OK, p.appended (blocks n data)) := by
  have hnext : p.nextFreeEntry < ENTRY_COUNT := by omega
  have hne : p.nextFreeEntry ≠ INVALID_ENTRY := Nat.ne_of_lt (Nat.lt_trans hnext (by decide))
  have hcount : data.length / ENTRY_SIZE = n := hlen ▸ Nat.mul_div_cancel n (by decide)
  have hmod : data.length % ENTRY_SIZE = 0 := hlen ▸ Nat.mul_mod_left n ENTRY_SIZE
  unfold Page.writeEntryData
  rw [if_neg (not_not.mpr hmod), if_neg hne, if_neg hfirst, if_neg (not_not.mpr hnext), hcount]
  simp only [Page.alterEntryRangeState_eq _ hn hfit, storeEntries_eq]
  rw [if_neg (not_not.mpr rfl)]
  simp only [Page.appended, blocks_length, hfirst, and_false, if_false]
  rfl

theorem writeVarLength_eq (hfirst : p.firstUsedEntry ≠ INVALID_ENTRY)
    (hfit : p.nextFreeEntry + (bodyOf data).length ≤ ENTRY_COUNT) :
    p.writeVarLength data = (ESP_OK, p.appended (bodyOf data)) := by
  have hleft : data.length / ENTRY_SIZE * ENTRY_SIZE = data.length - data.length % ENTRY_SIZE := by
    have := Nat.div_add_mod' data.length ENTRY_SIZE
    omega
  have hlen : data.length / ENTRY_SIZE * ENTRY_SIZE ≤ data.length := Nat.div_mul_le_self _ _
  have hwhole : (if data.length - data.length % ENTRY_SIZE > 0 then
      p.writeEntryData (data.take (data.length - data.length % ENTRY_SIZE)) else (ESP_OK, p)) =
        (ESP_OK, p.appended (blocks (data.length / ENTRY_SIZE) data)) := by
    rw [← hleft]
    split_ifs with hpos
    · rw [writeEntryData_eq (List.length_take_of_le hlen) (Nat.pos_of_mul_pos_right hpos) hfirst, blocks_take (Nat.le_refl _)]
      rw [bodyOf_length] at hfit
      unfold ENTRY_SIZE at hfit ⊢
      omega
    · have hzero : data.length / ENTRY_SIZE = 0 := by
        unfold ENTRY_SIZE at hpos ⊢
        omega
      rw [hzero, blocks, appended_nil]
  unfold Page.writeVarLength bodyOf
  simp only [hwhole]
  rw [if_neg (not_not.mpr rfl)]
  split_ifs with hrest
  · have hnext : p.nextFreeEntry + data.length / ENTRY_SIZE < ENTRY_COUNT := by
      rw [bodyOf_length] at hfit
      unfold ENTRY_SIZE at hfit hrest ⊢
      omega
    have hnext' : (p.appended (blocks (data.length / ENTRY_SIZE) data)).nextFreeEntry < ENTRY_COUNT := by
      change p.nextFreeEntry + (blocks (data.length / ENTRY_SIZE) data).length < ENTRY_COUNT
      rwa [blocks_length]
    rw [writeEntry_eq hnext', appended_appended (Nat.lt_of_le_of_lt (Nat.le_add_right _ _) hnext)]
  · rw [List.append_nil]

end body

/-! ## Values that are written -/

/-- What the storage writes to a page. -/
inductive Writable : ItemType → List UInt8 → UInt8 → Prop
  | primitive {datatype : ItemType} {data : List UInt8} {chunkIdx : UInt8} (htype : datatype ∈ ItemType.primitive)
      (hlength : data.length ≤ 8) : Writable datatype data chunkIdx
  | text {data : List UInt8} {chunkIdx : UInt8} (htext : IsText data) : Writable .sz data chunkIdx
  | chunk {data : List UInt8} {chunkIdx : UInt8} (hchunk : chunkIdx ≠ CHUNK_ANY) : Writable .blobData data chunkIdx
  | index {dataSize : Nat} {chunkCount chunkStart : UInt8}
      (hsize : dataSize ≤ 255 / 2 * (ENTRY_COUNT - 1) * ENTRY_SIZE) :
      Writable .blobIdx (Item.blobIndexData dataSize chunkCount chunkStart) CHUNK_ANY

/-- The entry where the next item is put. -/
def Page.freeEntry (p : Page) : Nat := if p.state = .uninitialized then 0 else p.nextFreeEntry

/-- The value that `writeItem` writes at an entry. -/
def writtenValue (index : Nat) (nsIndex : UInt8) (datatype : ItemType) (key : CString) (data : List UInt8)
    (chunkIdx : UInt8) : Value :=
  if datatype.isVariableLength then
    ⟨index, ((Item.new nsIndex datatype (1 + (data.length + ENTRY_SIZE - 1) / ENTRY_SIZE) key chunkIdx).withData
      (Item.varLengthData data)).sealed, bodyOf data⟩
  else ⟨index, ((Item.new nsIndex datatype 1 key chunkIdx).withData data).sealed, []⟩

section value
variable {index : Nat} {nsIndex chunkIdx : UInt8} {datatype : ItemType} {key : CString} {data : List UInt8}
  {p : Page} {vs : List Value}

theorem primitive_kinds (h : datatype ∈ ItemType.primitive) :
    datatype.isVariableLength = false ∧ datatype ∈ ItemType.all ∧ datatype ≠ .blob ∧ datatype ≠ .sz := by
  revert datatype
  decide

@[simp] theorem writtenValue_index : (writtenValue index nsIndex datatype key data chunkIdx).index = index := by
  unfold writtenValue
  split <;> rfl

theorem writtenValue_stop : (writtenValue index nsIndex datatype key data chunkIdx).stop =
    index + (1 + if datatype.isVariableLength then (data.length + ENTRY_SIZE - 1) / ENTRY_SIZE else 0) := by
  unfold writtenValue Value.stop
  split_ifs
  · rw [bodyOf_length, Nat.add_comm 1]
  · rfl

/-- A value of variable length fits, and is as it was given. -/
theorem writtenValue_varLength (htype : datatype = .sz ∧ IsText data ∨ datatype = .blobData ∧ chunkIdx ≠ CHUNK_ANY)
    (hstop : (writtenValue index nsIndex datatype key data chunkIdx).stop ≤ ENTRY_COUNT) :
    (writtenValue index nsIndex datatype key data chunkIdx).Fits ∧
      (writtenValue index nsIndex datatype key data chunkIdx).Sound ∧
      (writtenValue index nsIndex datatype key data chunkIdx).content = data := by
  have hvar : datatype.isVariableLength = true := by
    rcases htype with ⟨rfl, -⟩ | ⟨rfl, -⟩ <;> decide
  have hall : datatype ∈ ItemType.all := by
    rcases htype with ⟨rfl, -⟩ | ⟨rfl, -⟩ <;> decide
  have hlen := Nat.le_of_eq (@Item.varLengthData_length data)
  rw [writtenValue_stop, if_pos hvar] at hstop
  have hsize : data.length < 2 ^ 16 := by
    unfold ENTRY_SIZE ENTRY_COUNT at hstop
    omega
  have hcontent : (writtenValue index nsIndex datatype key data chunkIdx).content = data := by
    unfold writtenValue Value.content
    rw [if_pos hvar]
    change ((bodyOf data).flatMap Item.rawData).take _ = data
    rw [Item.varLength_dataSize hsize, bodyOf_content]
  have hdatatype : (writtenValue index nsIndex datatype key data chunkIdx).header.datatype = datatype := by
    unfold writtenValue
    rw [if_pos hvar]
    exact Item.sealed_datatype hlen hall
  refine ⟨⟨?_, ?_, ?_⟩, ⟨?_, fun _ => ?_, fun htext => ?_⟩, hcontent⟩
  · unfold writtenValue
    rw [if_pos hvar]
    exact Item.consistent_varLength (htype.imp And.left id) hstop
  · unfold writtenValue
    rw [if_pos hvar]
    change ((Item.new nsIndex datatype _ key chunkIdx).withData (Item.varLengthData data)).sealed.span = (bodyOf data).length + 1
    rw [bodyOf_length, Item.sealed_span hlen (by unfold ENTRY_SIZE ENTRY_COUNT at *; omega), Nat.add_comm]
  · unfold writtenValue
    rw [if_pos hvar]
    intro item hitem
    rcases List.mem_cons.mp hitem with rfl | hitem
    · exact Item.sealed_length hlen
    · exact bodyOf_octets item hitem
  · rw [hdatatype]
    rcases htype with ⟨rfl, -⟩ | ⟨rfl, -⟩ <;> decide
  · rw [hcontent]
    unfold writtenValue
    rw [if_pos hvar]
    exact Item.varLength_dataCrc32.symm
  · rw [hdatatype] at htext
    rw [hcontent]
    rcases htype with ⟨-, h⟩ | ⟨rfl, -⟩
    · exact h
    · cases htext

/-- A value in its header fits. -/
theorem writtenValue_header (htype : datatype ∈ ItemType.primitive ∨ datatype = .blobIdx) (hlen : data.length ≤ 8)
    (hconsistent : ((Item.new nsIndex datatype 1 key chunkIdx).withData data).sealed.checkHeaderConsistency index = true) :
    (writtenValue index nsIndex datatype key data chunkIdx).Fits ∧
      (writtenValue index nsIndex datatype key data chunkIdx).Sound := by
  have hkinds : datatype.isVariableLength = false ∧ datatype ∈ ItemType.all ∧ datatype ≠ .blob ∧ datatype ≠ .sz := by
    rcases htype with hprim | rfl
    · exact primitive_kinds hprim
    · decide
  obtain ⟨hvar, hall, hblob, hsz⟩ := hkinds
  have hvalue : writtenValue index nsIndex datatype key data chunkIdx =
      ⟨index, ((Item.new nsIndex datatype 1 key chunkIdx).withData data).sealed, []⟩ :=
    if_neg (by rw [hvar]; exact Bool.false_ne_true)
  have hdatatype := @Item.sealed_datatype nsIndex chunkIdx datatype 1 key data hlen hall
  rw [hvalue]
  refine ⟨⟨hconsistent, Item.sealed_span hlen (by decide), fun item hitem => ?_⟩, ⟨?_, fun h => ?_, fun h => ?_⟩⟩
  · rw [List.mem_singleton.mp hitem]
    exact Item.sealed_length hlen
  · exact fun h => hblob (hdatatype.symm.trans h)
  · rw [hdatatype, hvar] at h
    cases h
  · exact absurd (hdatatype.symm.trans h) hsz

theorem writtenValue_sound (hw : Writable datatype data chunkIdx)
    (hstop : (writtenValue index nsIndex datatype key data chunkIdx).stop ≤ ENTRY_COUNT) :
    (writtenValue index nsIndex datatype key data chunkIdx).Fits ∧
      (writtenValue index nsIndex datatype key data chunkIdx).Sound := by
  cases hw with
  | primitive htype hlength =>
    exact writtenValue_header (.inl htype) hlength (Item.consistent_primitive hlength htype)
  | text htext =>
    have hall := writtenValue_varLength (.inl ⟨rfl, htext⟩) hstop
    exact ⟨hall.1, hall.2.1⟩
  | chunk hchunk =>
    have hall := writtenValue_varLength (.inr ⟨rfl, hchunk⟩) hstop
    exact ⟨hall.1, hall.2.1⟩
  | index hsize =>
    exact writtenValue_header (.inr rfl) (Nat.le_of_eq Item.blobIndexData_length) (Item.consistent_blobIdx hsize)

theorem Writable.short (hw : Writable datatype data chunkIdx) : ¬(!datatype.isVariableLength ∧ data.length > 8) := by
  cases hw with
  | primitive _ hlength => exact fun h => absurd h.2 (Nat.not_lt.mpr hlength)
  | text _ => exact fun h => absurd h.1 (by decide)
  | chunk _ => exact fun h => absurd h.1 (by decide)
  | index _ => exact fun h => absurd h.2 (Nat.lt_irrefl _)

theorem writtenValue_hash (hw : Writable datatype data chunkIdx) (datatype' : ItemType) (span' : Nat) :
    hash24 (writtenValue index nsIndex datatype key data chunkIdx).header =
      hash24 (Item.new nsIndex datatype' span' key chunkIdx) := by
  unfold writtenValue
  split_ifs with hvar
  · dsimp only
    rw [Item.hash24_sealed (Nat.le_of_eq Item.varLengthData_length) datatype' span']
  · have hlen : data.length ≤ 8 := Nat.not_lt.mp fun hlt => hw.short ⟨by rw [Bool.not_eq_true] at hvar; rw [hvar]; rfl, hlt⟩
    dsimp only
    rw [Item.hash24_sealed hlen datatype' span']

/-- The entries behind a header that was just written. -/
theorem writeVarLength_behind {header : Item} (hnext : p.nextFreeEntry < ENTRY_COUNT)
    (hfirst : p.firstUsedEntry = INVALID_ENTRY ∨ p.firstUsedEntry < ENTRY_COUNT)
    (hfit : p.nextFreeEntry + (1 + (bodyOf data).length) ≤ ENTRY_COUNT) :
    (p.appended [header]).writeVarLength data = (ESP_OK, p.appended (header :: bodyOf data)) := by
  have hused : (p.appended [header]).firstUsedEntry ≠ INVALID_ENTRY := by
    change (if [header] ≠ [] ∧ p.firstUsedEntry = INVALID_ENTRY then p.nextFreeEntry else p.firstUsedEntry) ≠ INVALID_ENTRY
    rcases hfirst with hnone | hlt
    · rw [if_pos ⟨List.cons_ne_nil _ _, hnone⟩]
      exact Nat.ne_of_lt (Nat.lt_trans hnext (by decide))
    · have hne : p.firstUsedEntry ≠ INVALID_ENTRY := Nat.ne_of_lt (Nat.lt_trans hlt (by decide))
      rwa [if_neg fun hand => hne hand.2]
  have hroom : (p.appended [header]).nextFreeEntry + (bodyOf data).length ≤ ENTRY_COUNT := by
    change p.nextFreeEntry + 1 + (bodyOf data).length ≤ ENTRY_COUNT
    omega
  rw [writeVarLength_eq hused hroom, appended_appended hnext, List.singleton_append]

/-- A value that is written to a page that is active. -/
theorem writeItem_active (hactive : p.state = .active)
    (hfirst : p.firstUsedEntry = INVALID_ENTRY ∨ p.firstUsedEntry < ENTRY_COUNT) (hw : Writable datatype data chunkIdx) :
    p.writeItem nsIndex datatype key data chunkIdx =
      if key.chars.length > MAX_KEY_LENGTH then (ESP_ERR_NVS_KEY_TOO_LONG, p)
      else if data.length > CHUNK_MAX_SIZE then (ESP_ERR_NVS_VALUE_TOO_LONG, p)
      else if (writtenValue p.nextFreeEntry nsIndex datatype key data chunkIdx).stop > ENTRY_COUNT then
        (ESP_ERR_NVS_PAGE_FULL, p)
      else
        (ESP_OK, ({ p with
          hashList := p.hashList ++ [(writtenValue p.nextFreeEntry nsIndex datatype key data chunkIdx).node] } : Page).appended
            (writtenValue p.nextFreeEntry nsIndex datatype key data chunkIdx).items) := by
  have hstate : p.state ≠ .invalid ∧ p.state ≠ .uninitialized ∧ p.state ≠ .full := by
    rw [hactive]
    decide
  unfold Page.writeItem
  rw [if_neg hstate.1, if_neg hstate.2.1]
  simp only [ne_eq, not_true, if_false]
  rw [if_neg hstate.2.2, if_neg hw.short, writtenValue_stop]
  by_cases hkey : key.chars.length > MAX_KEY_LENGTH
  · rw [if_pos hkey, if_pos hkey]
  by_cases hlong : data.length > CHUNK_MAX_SIZE
  · rw [if_neg hkey, if_neg hkey, if_pos hlong, if_pos hlong]
  rw [if_neg hkey, if_neg hkey, if_neg hlong, if_neg hlong]
  by_cases hfull : p.nextFreeEntry + (1 + if datatype.isVariableLength then
      (data.length + ENTRY_SIZE - 1) / ENTRY_SIZE else 0) > ENTRY_COUNT
  · rw [if_pos hfull, if_pos (.inr hfull)]
  · have hlt : p.nextFreeEntry < ENTRY_COUNT := by omega
    have hinvalid : p.nextFreeEntry ≠ INVALID_ENTRY := Nat.ne_of_lt (Nat.lt_trans hlt (by decide))
    rw [if_neg hfull, if_neg (not_or.mpr ⟨hinvalid, hfull⟩)]
    have hinsert : ∀ span, p.hashInsert (Item.new nsIndex datatype span key chunkIdx) = { p with
        hashList := p.hashList ++ [(writtenValue p.nextFreeEntry nsIndex datatype key data chunkIdx).node] } := fun span => by
      unfold Page.hashInsert Value.node
      rw [writtenValue_hash hw datatype span, writtenValue_index]
    rw [hinsert]
    generalize hv : writtenValue p.nextFreeEntry nsIndex datatype key data chunkIdx = v
    have hwrite := @writeEntry_eq { p with hashList := p.hashList ++ [v.node] } hlt
    by_cases hvar : datatype.isVariableLength = true
    · have hitems : v.items = ((Item.new nsIndex datatype (1 + (data.length + ENTRY_SIZE - 1) / ENTRY_SIZE) key
          chunkIdx).withData (Item.varLengthData data)).sealed :: bodyOf data := by
        rw [← hv]
        unfold writtenValue
        rw [if_pos hvar]
        rfl
      simp only [hvar, Bool.not_true, Bool.false_eq_true, if_false, if_true, hwrite, not_true] at hfull ⊢
      have hroom : p.nextFreeEntry + (1 + (bodyOf data).length) ≤ ENTRY_COUNT := by
        rw [bodyOf_length]
        exact Nat.not_lt.mp hfull
      have hbehind := @writeVarLength_behind data { p with hashList := p.hashList ++ [v.node] }
        ((Item.new nsIndex datatype (1 + (data.length + ENTRY_SIZE - 1) / ENTRY_SIZE) key chunkIdx).withData
          (Item.varLengthData data)).sealed hlt hfirst hroom
      rw [hbehind, hitems]
    · have hitems : v.items = [((Item.new nsIndex datatype 1 key chunkIdx).withData data).sealed] := by
        rw [← hv]
        unfold writtenValue
        rw [if_neg hvar]
        rfl
      simp only [Bool.not_eq_true] at hvar
      simp only [hvar, Bool.not_false, if_true, Bool.false_eq_true, if_false, hwrite, hitems, Nat.add_zero]

/-- A page that is free, once it is activated. -/
theorem Fresh.initialize (h : Fresh p) :
    p.initializePage = (ESP_OK, p.initializePage.2) ∧ Layout p.initializePage.2 [] ∧
      p.initializePage.2.state = .active ∧ p.initializePage.2.nextFreeEntry = 0 ∧
      p.initializePage.2.seqNumber = p.seqNumber := by
  have hinit : p.initializePage = (ESP_OK, { p with
      state := .active
      sector := { p.sector with header := some ⟨.active, p.seqNumber⟩ }
      nextFreeEntry := 0
      entryTable := List.replicate ENTRY_COUNT .empty }) := if_neg (not_not.mpr h.state)
  have hblank : ∀ k < ENTRY_COUNT, Sector.erased.table[k]? = some .empty ∧ Sector.erased.entries[k]? = some blankEntry :=
    fun k hk => ⟨List.getElem?_replicate_of_lt hk, List.getElem?_replicate_of_lt hk⟩
  rw [hinit]
  refine ⟨rfl, ?_, rfl, rfl, rfl⟩
  exact
    { state := .inl rfl
      flash :=
        { ordered := Ordered.nil
          within := fun v hv => absurd hv List.not_mem_nil
          le := Nat.min_le_right _ _
          states := by rw [h.sector]; exact List.length_replicate
          places := by rw [h.sector]; exact List.length_replicate
          written := fun k => by
            rw [h.sector]
            refine iff_of_false (fun hk => ?_) not_covers_nil
            have hmem := List.eq_of_mem_replicate (List.mem_of_getElem? hk)
            cases hmem
          legal := fun k hk => by
            rw [h.sector] at hk
            have hmem := List.eq_of_mem_replicate (List.mem_of_getElem? hk)
            cases hmem
          blank := fun k _ hk => by
            rw [h.sector]
            exact hblank k hk
          stored := fun v hv => absurd hv List.not_mem_nil
          fits := fun v hv => absurd hv List.not_mem_nil
          sound := fun v hv => absurd hv List.not_mem_nil }
      header := rfl
      table := by rw [h.sector]; rfl
      first := h.first
      used := h.used
      hashed := h.hashed
      filled := fun _ k hk => absurd (Nat.lt_of_lt_of_le hk (Nat.min_le_left _ _)) (Nat.not_lt_zero k) }

theorem writeItem_uninitialized (h : p.state = .uninitialized) :
    p.writeItem nsIndex datatype key data chunkIdx = p.initializePage.2.writeItem nsIndex datatype key data chunkIdx := by
  have hinit : p.initializePage = (ESP_OK, p.initializePage.2) := by
    unfold Page.initializePage
    rw [if_neg (not_not.mpr h)]
  have hactive : p.initializePage.2.state = .active := by
    unfold Page.initializePage
    rw [if_neg (not_not.mpr h)]
  unfold Page.writeItem
  rw [h, hinit, hactive]
  simp only [reduceCtorEq, if_false, if_true]

/-- What a page is behind a write, by the result. -/
structure Wrote (p : Page) (vs : List Value) (v : Value) (key : CString) (out : EspErr × Page) : Prop where
  seq : out.2.seqNumber = p.seqNumber
  done : out.1 = ESP_OK → key.chars.length ≤ MAX_KEY_LENGTH ∧ out.2.state = .active ∧ out.2.nextFreeEntry = v.stop ∧
    Layout out.2 (vs ++ [v])
  failed : out.1 ≠ ESP_OK → (out.2.state = p.state ∨ p.state = .uninitialized ∧ out.2.state = .active) ∧ Holds out.2 vs
  full : out.1 = ESP_ERR_NVS_PAGE_FULL → p.state = .full ∨ v.stop > ENTRY_COUNT

theorem Wrote.of_err {err : EspErr} {v : Value} (h : Holds p vs) (hne : err ≠ ESP_OK)
    (hfull : err = ESP_ERR_NVS_PAGE_FULL → p.state = .full ∨ v.stop > ENTRY_COUNT) : Wrote p vs v key (err, p) :=
  ⟨rfl, fun hok => absurd hok hne, fun _ => ⟨.inl rfl, h⟩, hfull⟩

theorem Layout.write (h : Layout p vs) (hactive : p.state = .active) (hw : Writable datatype data chunkIdx) :
    Wrote p vs (writtenValue p.nextFreeEntry nsIndex datatype key data chunkIdx) key
      (p.writeItem nsIndex datatype key data chunkIdx) := by
  have hfirst : p.firstUsedEntry = INVALID_ENTRY ∨ p.firstUsedEntry < ENTRY_COUNT := by
    rw [h.first]
    cases vs with
    | nil => exact .inl rfl
    | cons v vs => exact .inr (Nat.lt_of_lt_of_le (h.index_lt List.mem_cons_self) (Nat.min_le_right _ _))
  rw [writeItem_active hactive hfirst hw]
  split_ifs with hkey hlong hfull
  · exact .of_err (.layout h) (by decide) fun hfull => absurd hfull (by decide)
  · exact .of_err (.layout h) (by decide) fun hfull => absurd hfull (by decide)
  · exact .of_err (.layout h) (by decide) fun _ => .inr hfull
  · have hstop := Nat.not_lt.mp hfull
    obtain ⟨hfits, hsound⟩ := writtenValue_sound hw hstop
    refine ⟨rfl, fun _ => ⟨Nat.not_lt.mp hkey, hactive, ?_, h.append hactive writtenValue_index hstop hfits hsound⟩,
      fun hne => absurd rfl hne, fun hfull => absurd hfull (by exact (by decide : ESP_OK ≠ ESP_ERR_NVS_PAGE_FULL))⟩
    change p.nextFreeEntry + (writtenValue p.nextFreeEntry nsIndex datatype key data chunkIdx).items.length = _
    unfold Value.stop
    rw [writtenValue_index]
    rfl

/-- An item that is written is behind the others. -/
theorem Holds.write (h : Holds p vs) (hstate : p.state ≠ .freeing) (hw : Writable datatype data chunkIdx) :
    Wrote p vs (writtenValue p.freeEntry nsIndex datatype key data chunkIdx) key
      (p.writeItem nsIndex datatype key data chunkIdx) := by
  unfold Page.freeEntry
  cases h with
  | fresh h =>
    obtain ⟨-, hlayout, hactive, hnext, hseq⟩ := h.initialize
    have hwrote := @Layout.write nsIndex chunkIdx datatype key data _ _ hlayout hactive hw
    rw [hnext] at hwrote
    rw [if_pos h.state, writeItem_uninitialized h.state]
    exact
      { seq := hwrote.seq.trans hseq
        done := hwrote.done
        failed := fun hne => ⟨.inr ⟨h.state, (hwrote.failed hne).1.elim (·.trans hactive) And.right⟩, (hwrote.failed hne).2⟩
        full := fun hfull => (hwrote.full hfull).imp (fun hf => by rw [hactive] at hf; cases hf) id }
  | layout h =>
    rcases h.state with hactive | hfull | hfreeing
    · rw [if_neg (by rw [hactive]; decide)]
      exact h.write hactive hw
    · have hout : p.writeItem nsIndex datatype key data chunkIdx = (ESP_ERR_NVS_PAGE_FULL, p) := by
        unfold Page.writeItem
        rw [hfull, if_neg (by decide), if_neg (by decide)]
        simp only [ne_eq, not_true, if_false]
        rw [hfull, if_pos rfl]
      rw [hout]
      exact .of_err (.layout h) (by decide) fun _ => .inl hfull
    · exact absurd hfreeing hstate

end value

/-! ## Values that are copied -/

def Value.movedTo (v : Value) (index : Nat) : Value := { v with index := index }

/-- The values one behind the other, from an entry on. -/
def compact : List Value → (index : Nat) → List Value
  | [], _ => []
  | v :: vs, index => v.movedTo index :: compact vs (index + v.items.length)

section copy
variable {p other : Page} {vs ws : List Value} {v : Value} {i : Nat}

theorem Value.Fits.earlier (h : v.Fits) {index : Nat} (hle : index ≤ v.index) : (v.movedTo index).Fits :=
  ⟨Item.consistent_earlier h.consistent hle, h.span, h.octets⟩

theorem Value.Sound.moved (h : v.Sound) (index : Nat) : (v.movedTo index).Sound := ⟨h.indexed, h.checked, h.text⟩

/-- The entries behind a header. -/
theorem copyRest_eq {items : List Item} (hitems : ∀ (j : Nat) item, items[j]? = some item → p.readEntry (i + j) = some item)
    (hroom : other.nextFreeEntry + items.length ≤ ENTRY_COUNT) :
    p.copyRest i items.length other = (ESP_OK, other.appended items) := by
  induction items generalizing i other with
  | nil =>
    rw [appended_nil]
    rfl
  | cons item items ih =>
    rw [List.length_cons] at hroom ⊢
    have hnext : other.nextFreeEntry < ENTRY_COUNT := by omega
    have hread : p.readEntry i = some item := hitems 0 item rfl
    have hrest := @ih (other.appended [item]) (i + 1) (fun j entry hentry => by
      have hj := hitems (j + 1) entry hentry
      rwa [Nat.add_comm j 1, ← Nat.add_assoc] at hj) (by
      change other.nextFreeEntry + 1 + items.length ≤ ENTRY_COUNT
      omega)
    rw [appended_appended hnext] at hrest
    unfold Page.copyRest
    simp only [hread, writeEntry_eq hnext, ne_eq, not_true, if_false]
    exact hrest

/-- The first used entry is one that is written. -/
theorem Layout.firstUsed_covered (h : Layout p vs) (hi : i < ENTRY_COUNT) (hfirst : i = p.firstUsedEntry) : Covers vs i := by
  rw [h.first] at hfirst
  cases vs with
  | nil => exact absurd hfirst (Nat.ne_of_lt (Nat.lt_trans hi (by decide)))
  | cons v vs =>
    subst hfirst
    exact ⟨v, List.mem_cons_self, Nat.le_refl _, Span.start_lt_stop v⟩

theorem copyLoop_eq (h : Layout p vs) (hb : Between vs i) (hother : Layout other ws) (hactive : other.state = .active)
    (hle : other.nextFreeEntry ≤ i) {fuel : Nat} (hfuel : ENTRY_COUNT ≤ i + fuel) :
    ∃ out, p.copyLoop fuel i other = (ESP_OK, out) ∧ Layout out (ws ++ compact (since vs i) other.nextFreeEntry) ∧
      out.state = .active ∧ out.seqNumber = other.seqNumber ∧
      out.nextFreeEntry = other.nextFreeEntry + total (since vs i) := by
  induction fuel generalizing i other ws with
  | zero =>
    refine ⟨other, rfl, ?_, hactive, rfl, ?_⟩
    · rw [@Indexed.since_end p vs vs i h hfuel, compact, List.append_nil]
      exact hother
    · rw [@Indexed.since_end p vs vs i h hfuel]
      rfl
  | succ fuel ih =>
    unfold Page.copyLoop
    by_cases hi : i < ENTRY_COUNT
    · rw [if_neg (not_not.mpr hi)]
      by_cases hcover : Covers vs i
      · obtain ⟨v, hv, rfl, hsince, hnext⟩ := since_covered h.flash.ordered hb hcover
        have hfits := h.flash.fits v hv
        have hwithin : v.index + (v.body.length + 1) ≤ ENTRY_COUNT :=
          Nat.le_trans (h.flash.within v hv) (Nat.min_le_right _ _)
        have hindex : Span.start v = v.index := rfl
        have hfree : (other.hashInsert v.header).nextFreeEntry < ENTRY_COUNT := Nat.lt_of_le_of_lt hle hi
        have hread : p.readEntry (Span.start v) = some v.header := h.readEntry_header hv
        have hrest := @copyRest_eq p ((other.hashInsert v.header).appended [v.header]) (Span.start v + 1) v.body
          (fun j item hitem => by
            have hj := h.flash.stored v hv (j + 1) item hitem
            rwa [Nat.add_comm j 1, ← Nat.add_assoc] at hj)
          (by
            change other.nextFreeEntry + 1 + v.body.length ≤ ENTRY_COUNT
            omega)
        rw [appended_appended hfree] at hrest
        have hlayout := hother.append hactive (v := v.movedTo other.nextFreeEntry) rfl
          (by
            change other.nextFreeEntry + (v.body.length + 1) ≤ ENTRY_COUNT
            omega)
          (hfits.earlier hle) ((h.flash.sound v hv).moved _)
        have hfits' : ¬¬Span.start v + (v.body.length + 1) ≤ ENTRY_COUNT := not_not.mpr hwithin
        obtain ⟨out, hloop, hout, hstate, hseq, hnextFree⟩ := @ih _ _ (Span.start v + (v.body.length + 1)) hnext hlayout hactive
          (Nat.add_le_add_right hle _) (by omega)
        refine ⟨out, ?_, ?_, hstate, hseq, ?_⟩
        · rw [h.entry_written hcover]
          simp only [hread, writeEntry_eq hfree, ne_eq, not_true, if_false, hfits.span, hfits', Nat.add_sub_cancel, hrest]
          exact hloop
        · rw [hsince, compact, List.append_cons]
          exact hout
        · have hsize : Span.stop v - Span.start v = (v.movedTo other.nextFreeEntry).items.length :=
            Nat.add_sub_cancel_left _ _
          rw [hnextFree, hsince, total, hsize]
          exact Nat.add_assoc _ _ _
      · obtain ⟨state, hstate, hne⟩ := h.entry_other hi hcover
        have hfirst : i ≠ p.firstUsedEntry := fun heq => hcover (h.firstUsed_covered hi heq)
        have hstep : ∃ out, p.copyLoop fuel (i + 1) other = (ESP_OK, out) ∧
            Layout out (ws ++ compact (since vs i) other.nextFreeEntry) ∧ out.state = .active ∧
              out.seqNumber = other.seqNumber ∧ out.nextFreeEntry = other.nextFreeEntry + total (since vs i) := by
          rw [since_uncovered hcover]
          exact ih (between_succ hcover) hother hactive (Nat.le_succ_of_le hle) (by omega)
        rw [hstate]
        simp only [if_neg hfirst]
        cases state with
        | written => exact absurd rfl hne
        | empty => exact hstep
        | erased => exact hstep
        | illegal => exact hstep
    · rw [if_pos hi, h.since_end (Nat.not_lt.mp hi), compact, List.append_nil]
      exact ⟨other, rfl, hother, hactive, rfl, rfl⟩

/-- What is live on a page, behind each other on one that was free. -/
theorem copyItems_eq (h : Layout p vs) (hother : Fresh other) :
    (vs = [] ∧ p.copyItems other = (ESP_ERR_NVS_NOT_FOUND, other)) ∨
      ∃ out, p.copyItems other = (ESP_OK, out) ∧ Layout out (compact vs 0) ∧ out.state = .active ∧
        out.seqNumber = other.seqNumber ∧ out.nextFreeEntry = total vs := by
  unfold Page.copyItems
  cases vs with
  | nil =>
    have hfirst : p.firstUsedEntry = INVALID_ENTRY := h.first
    exact .inl ⟨rfl, if_pos hfirst⟩
  | cons v vs =>
    have hfirst : p.firstUsedEntry = v.index := h.first
    have hlt : v.index < ENTRY_COUNT := Nat.lt_of_lt_of_le (h.index_lt List.mem_cons_self) (Nat.min_le_right _ _)
    have hne : v.index ≠ INVALID_ENTRY := Nat.ne_of_lt (Nat.lt_trans hlt (by decide))
    obtain ⟨hinit, hlayout, hactive, hnext, hseq⟩ := hother.initialize
    have hfrom : since (v :: vs) (Span.start v) = v :: vs := since_of_le fun w hw => h.flash.ordered.start_le hw
    obtain ⟨out, hloop, hout, hstate, hseq', hend⟩ := copyLoop_eq h (h.flash.ordered.between_start List.mem_cons_self) hlayout hactive
      (hnext.trans_le (Nat.zero_le _)) (Nat.le_add_left ENTRY_COUNT _)
    rw [hnext] at hout
    rw [hnext, hfrom, Nat.zero_add] at hend
    refine .inr ⟨out, ?_, ?_, hstate, hseq'.trans hseq, hend⟩
    · rw [hfirst, if_neg hne, if_pos hother.state, hinit]
      exact hloop
    · rw [← hfrom]
      exact hout

theorem total_compact (index : Nat) : total (compact vs index) = total vs := by
  induction vs generalizing index with
  | nil => rfl
  | cons v vs ih =>
    have hsize : ∀ w : Value, Span.stop w - Span.start w = w.body.length + 1 := fun w => Nat.add_sub_cancel_left _ _
    rw [compact, total, total, ih, hsize, hsize]
    rfl

end copy

end EspIdf.Nvs
