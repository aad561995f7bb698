import EspIdf.Nvs.Reload
import EspIdf.Nvs.PageManager

/-!
# NVS: what the page manager keeps

* `PageManager.Sound` : each page is in one of the lists, and holds values;
* `Sound.setPage` : a page that changes;
* `Relocated`, `relocate_eq` : a page is freed, and its values are on the one that replaces it;
* `requestNewPage_spec` : a page for new items.
-/

namespace EspIdf.Nvs

open Spans

namespace PageManager
variable {m : PageManager} {i j : Nat} {p : Page}

theorem page_setPage_self (h : i < m.pages.length) : (m.setPage i p).page i = p := by
  unfold page setPage
  rw [List.getD_eq_getElem?_getD, List.getElem?_set_self h]
  rfl

theorem page_setPage_ne (h : i ≠ j) : (m.setPage i p).page j = m.page j := by
  unfold page setPage
  rw [List.getD_eq_getElem?_getD, List.getElem?_set_ne h, ← List.getD_eq_getElem?_getD]

@[simp] theorem setPage_page : m.setPage i (m.page i) = m := by
  have hset : m.pages.set i (m.pages.getD i (.created .erased)) = m.pages := by
    refine List.ext_getElem? fun k => ?_
    by_cases hk : i = k
    · subst hk
      by_cases hi : i < m.pages.length
      · rw [List.getElem?_set_self hi, List.getD_eq_getElem?_getD, List.getElem?_eq_getElem hi]
        rfl
      · rw [List.getElem?_eq_none (by rw [List.length_set]; omega), List.getElem?_eq_none (by omega)]
    · rw [List.getElem?_set_ne hk]
  unfold setPage page
  rw [hset]

/-- Each page is in one of the lists, and holds values. -/
structure Sound (m : PageManager) : Prop where
  nonempty : m.pageList ≠ []
  lists : (m.pageList ++ m.freePageList).Perm (List.range m.pages.length)
  holds : ∀ i < m.pages.length, Holds (m.page i) (m.page i).values
  used : ∀ i ∈ m.pageList, (m.page i).state ≠ .freeing
  free : ∀ i ∈ m.freePageList, (m.page i).state = .uninitialized

namespace Sound

theorem nodup (h : m.Sound) : (m.pageList ++ m.freePageList).Nodup := h.lists.nodup_iff.mpr List.nodup_range

theorem lt_of_used (h : m.Sound) (hi : i ∈ m.pageList) : i < m.pages.length :=
  List.mem_range.mp (h.lists.mem_iff.mp (List.mem_append_left _ hi))

theorem lt_of_free (h : m.Sound) (hi : i ∈ m.freePageList) : i < m.pages.length :=
  List.mem_range.mp (h.lists.mem_iff.mp (List.mem_append_right _ hi))

theorem ne_of_used_free (h : m.Sound) (hi : i ∈ m.pageList) (hj : j ∈ m.freePageList) : i ≠ j := fun heq =>
  (List.nodup_append.mp h.nodup).2.2 i hi j hj heq

/-- A page in use that changes. -/
theorem setPage (h : m.Sound) (hi : i ∈ m.pageList) {vs : List Value} (hholds : Holds p vs) (hstate : p.state ≠ .freeing) :
    (m.setPage i p).Sound := by
  have hlength : (m.setPage i p).pages.length = m.pages.length := List.length_set
  refine ⟨h.nonempty, hlength.symm ▸ h.lists, fun k hk => ?_, fun k hk => ?_, fun k hk => ?_⟩
  · by_cases hik : i = k
    · subst hik
      rw [page_setPage_self (h.lt_of_used hi), hholds.values_eq]
      exact hholds
    · rw [page_setPage_ne hik]
      exact h.holds k (hlength ▸ hk)
  · by_cases hik : i = k
    · subst hik
      rwa [page_setPage_self (h.lt_of_used hi)]
    · rw [page_setPage_ne hik]
      exact h.used k hk
  · rw [page_setPage_ne (h.ne_of_used_free hi hk)]
    exact h.free k hk

theorem back_mem (h : m.Sound) : m.back ∈ m.pageList := by
  unfold PageManager.back
  obtain hnil | ⟨l, i, hl⟩ := List.eq_nil_or_concat m.pageList
  · exact absurd hnil h.nonempty
  · rw [hl, List.concat_eq_append, List.getLastD_concat]
    exact List.mem_append_right _ List.mem_cons_self

theorem fresh (h : m.Sound) (hi : i ∈ m.freePageList) : Fresh (m.page i) :=
  (h.holds i (h.lt_of_free hi)).fresh_of_uninitialized (h.free i hi)

end Sound

/-! ## Pages that are activated -/

/-- The first of the free pages is put behind the others. -/
structure Activated (m m' : PageManager) (f : Nat) : Prop where
  pageList : m'.pageList = m.pageList ++ [f]
  freePageList : m'.freePageList = m.freePageList.tail
  seqNumber : m'.seqNumber = m.seqNumber + 1
  length : m'.pages.length = m.pages.length
  page : m'.page f = { m.page f with seqNumber := m.seqNumber % 2 ^ 32 }
  others : ∀ k, k ≠ f → m'.page k = m.page k

theorem Activated.back {m' : PageManager} {f : Nat} (h : Activated m m' f) : m'.back = f := by
  unfold PageManager.back
  rw [h.pageList]
  exact List.getLastD_concat

theorem activatePage_spec {f : Nat} {rest : List Nat} (hfree : m.freePageList = f :: rest)
    (hlt : f < m.pages.length) (hstate : (m.page f).state = .uninitialized) :
    ∃ m', m.activatePage = (ESP_OK, m') ∧ Activated m m' f := by
  have hcorrupt : (m.page f).state ≠ .corrupt := by
    rw [hstate]
    decide
  have hseq : (m.page f).setSeqNumber (m.seqNumber % 2 ^ 32) = { m.page f with seqNumber := m.seqNumber % 2 ^ 32 } :=
    if_neg (not_not.mpr hstate)
  have hactivate : m.activatePage = (ESP_OK, { m.setPage f { m.page f with seqNumber := m.seqNumber % 2 ^ 32 } with
      pageList := m.pageList ++ [f]
      freePageList := rest
      seqNumber := m.seqNumber + 1 }) := by
    unfold activatePage
    rw [hfree]
    dsimp only
    rw [if_neg hcorrupt, hseq]
  refine ⟨_, hactivate, rfl, ?_, rfl, List.length_set, page_setPage_self hlt, fun k hk => page_setPage_ne hk.symm⟩
  rw [hfree]
  rfl

theorem Sound.activate {m' : PageManager} {f : Nat} (h : m.Sound) (hf : m.freePageList = f :: m'.freePageList)
    (hactivated : Activated m m' f) : m'.Sound := by
  have hfree : f ∈ m.freePageList := hf ▸ List.mem_cons_self
  have hfresh := (h.fresh hfree).numbered (m.seqNumber % 2 ^ 32)
  rw [← hactivated.page] at hfresh
  refine ⟨by simp [hactivated.pageList], ?_, fun k hk => ?_, fun k hk => ?_, fun k hk => ?_⟩
  · rw [hactivated.pageList, hactivated.length, List.append_assoc, List.singleton_append, ← hf]
    exact h.lists
  · by_cases hfk : k = f
    · rw [hfk, (Holds.fresh hfresh).values_eq]
      exact .fresh hfresh
    · rw [hactivated.others k hfk]
      exact h.holds k (hactivated.length ▸ hk)
  · by_cases hfk : k = f
    · rw [hfk, hfresh.state]
      decide
    · rw [hactivated.others k hfk]
      rw [hactivated.pageList] at hk
      exact h.used k ((List.mem_append.mp hk).resolve_right fun hk' => hfk (List.mem_singleton.mp hk'))
  · by_cases hfk : k = f
    · rw [hfk, hfresh.state]
    · rw [hactivated.others k hfk]
      exact h.free k (hf ▸ List.mem_cons_of_mem f hk)

/-! ## Pages that are freed -/

/-- The page `new` takes over what is live on the page `old`, which is then free. -/
structure Relocated (m m' : PageManager) (old new : Nat) : Prop where
  pageList : m'.pageList = m.pageList.erase old ++ [new]
  freePageList : m'.freePageList = m.freePageList.tail ++ [old]
  seqNumber : m'.seqNumber = m.seqNumber + 1
  length : m'.pages.length = m.pages.length
  values : (m'.page new).values = compact (m.page old).values 0
  holds : Holds (m'.page new) (compact (m.page old).values 0)
  state : (m'.page new).state = .active ∧ (m'.page new).nextFreeEntry = (m'.page new).usedEntryCount ∨
    (m'.page new).state = .uninitialized ∧ (m.page old).values = []
  used : (m'.page new).usedEntryCount = (m.page old).usedEntryCount
  seq : (m'.page new).seqNumber = m.seqNumber % 2 ^ 32
  freed : Fresh (m'.page old)
  others : ∀ k, k ≠ old → k ≠ new → m'.page k = m.page k

theorem markFreeing_eq (h : p.state = .full ∨ p.state = .active) :
    p.markFreeing = (ESP_OK, p.alterPageState .freeing) := by
  unfold Page.markFreeing
  rw [if_neg]
  rintro ⟨hfull, hactive⟩
  exact h.elim hfull hactive

/-- The copy of what is live, with the counts that are compared. -/
theorem copied {other : Page} {vs : List Value} (h : Layout p vs) (hother : Fresh other) :
    ∃ err out, p.copyItems other = (err, out) ∧ ¬(err ≠ ESP_OK ∧ err ≠ ESP_ERR_NVS_NOT_FOUND) ∧
      Holds out (compact vs 0) ∧
      (out.state = .active ∧ out.nextFreeEntry = out.usedEntryCount ∨ out.state = .uninitialized ∧ vs = []) ∧
      out.seqNumber = other.seqNumber ∧ out.usedEntryCount = p.usedEntryCount := by
  rcases copyItems_eq h hother with ⟨rfl, hcopy⟩ | ⟨out, hcopy, hout, hstate, hseq, hnext⟩
  · exact ⟨_, other, hcopy, fun hne => hne.2 rfl, .fresh hother, .inr ⟨hother.state, rfl⟩, rfl, hother.used.trans h.used.symm⟩
  · have hused : out.usedEntryCount = total vs := hout.used.trans (total_compact 0)
    exact ⟨_, out, hcopy, fun hne => hne.1 rfl, .layout hout, .inl ⟨hstate, hnext.trans hused.symm⟩, hseq,
      hused.trans h.used.symm⟩

theorem relocate_spec (h : m.Sound) {old new : Nat} {rest : List Nat} (hold : old ∈ m.pageList)
    (hstate : (m.page old).state ≠ .uninitialized) (hfree : m.freePageList = new :: rest) :
    ∃ m', m.relocate old = (ESP_OK, m') ∧ Relocated m m' old new := by
  have hnew : new ∈ m.freePageList := hfree ▸ List.mem_cons_self
  have hne : old ≠ new := h.ne_of_used_free hold hnew
  have holdlt := h.lt_of_used hold
  have hnewlt := h.lt_of_free hnew
  have hlayout := (h.holds old holdlt).layout_of_ne hstate
  have hmark := markFreeing_eq (hlayout.state.elim .inr fun hs => hs.elim .inl fun hs => absurd hs (h.used old hold))
  have hfresh := h.fresh hnew
  obtain ⟨m1, hm1⟩ : ∃ m1, m1 = m.setPage old ((m.page old).alterPageState .freeing) := ⟨_, rfl⟩
  have hlength1 : m1.pages.length = m.pages.length := hm1 ▸ List.length_set
  have hold1 : m1.page old = (m.page old).alterPageState .freeing := hm1 ▸ page_setPage_self holdlt
  have hne1 : ∀ k, k ≠ old → m1.page k = m.page k := fun k hk => hm1 ▸ page_setPage_ne hk.symm
  have hlists1 : m1.pageList = m.pageList ∧ m1.freePageList = m.freePageList ∧ m1.seqNumber = m.seqNumber := by
    subst hm1
    exact ⟨rfl, rfl, rfl⟩
  have hnew1 := hne1 new hne.symm
  have hfree1 : m1.freePageList = new :: rest := hlists1.2.1.trans hfree
  obtain ⟨m2, hactivate, hm2⟩ := activatePage_spec hfree1 (hlength1.symm ▸ hnewlt) (hnew1 ▸ hfresh.state)
  have hold2 : m2.page old = (m.page old).alterPageState .freeing := (hm2.others old hne).trans hold1
  have hfresh2 : Fresh (m2.page new) := by
    rw [hm2.page, hnew1]
    exact hfresh.numbered _
  have hlayout2 : Layout (m2.page old) (m.page old).values := hold2 ▸ hlayout.altered (.inr rfl)
  obtain ⟨err, out, hcopy, herr, hout, houtstate, houtseq, hused⟩ := copied hlayout2 hfresh2
  have hnewlt2 : new < m2.pages.length := (hm2.length.trans hlength1).symm ▸ hnewlt
  have holdlt2 : old < (m2.setPage new out).pages.length :=
    (List.length_set.trans (hm2.length.trans hlength1)).symm ▸ holdlt
  have hnew3 : ((m2.setPage new out).setPage old ((m2.setPage new out).page old).erase).page new = out :=
    (page_setPage_ne hne).trans (page_setPage_self hnewlt2)
  have hcount : ¬(m.page old).usedEntryCount ≠ out.usedEntryCount := not_not.mpr (by
    rw [hused, hold2]
    rfl)
  refine ⟨{ (m2.setPage new out).setPage old ((m2.setPage new out).page old).erase with
    pageList := m2.pageList.erase old
    freePageList := m2.freePageList ++ [old] }, ?_, ?_⟩
  · unfold relocate onPage
    simp only [hmark, ← hm1, hactivate, hm2.back, hcopy, ne_eq, not_true, if_false]
    rw [if_neg herr]
    simp only [hnew3]
    rw [if_neg hcount]
    rfl
  · exact
      { pageList := by
          change m2.pageList.erase old = _
          rw [hm2.pageList, hlists1.1, List.erase_append_left _ hold]
        freePageList := by
          change m2.freePageList ++ [old] = _
          rw [hm2.freePageList, hlists1.2.1]
        seqNumber := hm2.seqNumber.trans (congrArg (· + 1) hlists1.2.2)
        length := by
          change ((m2.setPage new out).setPage old _).pages.length = m.pages.length
          exact List.length_set.trans (List.length_set.trans (hm2.length.trans hlength1))
        values := by
          change (((m2.setPage new out).setPage old _).page new).values = _
          rw [hnew3, hout.values_eq]
        holds := by
          change Holds (((m2.setPage new out).setPage old _).page new) _
          rw [hnew3]
          exact hout
        state := by
          change (((m2.setPage new out).setPage old _).page new).state = _ ∧
            (((m2.setPage new out).setPage old _).page new).nextFreeEntry =
              (((m2.setPage new out).setPage old _).page new).usedEntryCount ∨
            (((m2.setPage new out).setPage old _).page new).state = _ ∧ _
          rw [hnew3]
          exact houtstate
        used := by
          change (((m2.setPage new out).setPage old _).page new).usedEntryCount = _
          rw [hnew3, hused, hold2]
          rfl
        seq := by
          change (((m2.setPage new out).setPage old _).page new).seqNumber = _
          rw [hnew3, houtseq, hm2.page, hlists1.2.2]
        freed := by
          change Fresh (((m2.setPage new out).setPage old _).page old)
          rw [page_setPage_self holdlt2, page_setPage_ne hne.symm]
          exact (Holds.layout hlayout2).erased
        others := fun k hk0 hk1 => by
          change ((m2.setPage new out).setPage old _).page k = _
          rw [page_setPage_ne (Ne.symm hk0), page_setPage_ne (Ne.symm hk1), hm2.others k hk1, hne1 k hk0] }

/-- The lists hold the same pages, and the ones that changed hold values. -/
theorem Relocated.sound {m' : PageManager} {old new : Nat} (hr : Relocated m m' old new) (h : m.Sound)
    (hold : old ∈ m.pageList) (hfree : m.freePageList = new :: m.freePageList.tail) : m'.Sound := by
  have hnew : new ∈ m.freePageList := hfree ▸ List.mem_cons_self
  have hne : old ≠ new := h.ne_of_used_free hold hnew
  have hnodup := h.nodup
  refine ⟨by simp [hr.pageList], ?_, fun k hk => ?_, fun k hk => ?_, fun k hk => ?_⟩
  · have hsplit : m.pageList.erase old ++ [new] ++ (m.freePageList.tail ++ [old]) =
        m.pageList.erase old ++ m.freePageList ++ [old] := by
      conv => rhs; rw [hfree]
      simp only [List.append_assoc, List.cons_append, List.nil_append]
    have hperm : (m.pageList.erase old ++ m.freePageList ++ [old]).Perm (m.pageList ++ m.freePageList) :=
      (List.perm_append_singleton old _).trans ((List.perm_cons_erase hold).symm.append_right m.freePageList)
    rw [hr.pageList, hr.freePageList, hr.length, hsplit]
    exact hperm.trans h.lists
  · by_cases hk0 : k = old
    · rw [hk0, (Holds.fresh hr.freed).values_eq]
      exact .fresh hr.freed
    · by_cases hk1 : k = new
      · rw [hk1, hr.values]
        exact hr.holds
      · rw [hr.others k hk0 hk1]
        exact h.holds k (hr.length ▸ hk)
  · rw [hr.pageList] at hk
    rcases List.mem_append.mp hk with hk | hk
    · obtain ⟨hk0, hk⟩ := ((List.nodup_append.mp hnodup).1.mem_erase_iff).mp hk
      rw [hr.others k hk0 (h.ne_of_used_free hk hnew)]
      exact h.used k hk
    · rw [List.mem_singleton.mp hk]
      rcases hr.state with ⟨hs, -⟩ | ⟨hs, -⟩ <;> rw [hs] <;> decide
  · rw [hr.freePageList] at hk
    rcases List.mem_append.mp hk with hk | hk
    · have hfreeNodup : (new :: m.freePageList.tail).Nodup := hfree ▸ (List.nodup_append.mp hnodup).2.1
      have hk1 : k ≠ new := fun heq => (List.nodup_cons.mp hfreeNodup).1 (heq ▸ hk)
      have hkfree : k ∈ m.freePageList := List.mem_of_mem_tail hk
      rw [hr.others k (h.ne_of_used_free hold hkfree).symm hk1]
      exact h.free k hkfree
    · rw [List.mem_singleton.mp hk]
      exact hr.freed.state

/-! ## Pages that are requested -/

theorem maxUnused_mem {l : List Nat} {best : Option Nat} {count : Nat} (h : (m.maxUnused l best count).1 = some i) :
    i ∈ l ∧ (m.page i).usedEntryCount < ENTRY_COUNT ∨ best = some i := by
  induction l generalizing best count with
  | nil => exact .inr h
  | cons k l ih =>
    unfold maxUnused at h
    dsimp only at h
    split_ifs at h with hgt
    · refine .inl ((ih h).elim (fun hi => ⟨List.mem_cons_of_mem k hi.1, hi.2⟩) fun heq => ?_)
      obtain rfl := Option.some.inj heq
      exact ⟨List.mem_cons_self, by omega⟩
    · exact (ih h).imp_left fun hi => ⟨List.mem_cons_of_mem k hi.1, hi.2⟩

theorem maxUnused_none {l : List Nat} {count : Nat} (h : (m.maxUnused l none count).1 = none) :
    ∀ k ∈ l, ENTRY_COUNT - (m.page k).usedEntryCount ≤ count := by
  have hsome : ∀ (l : List Nat) (j count : Nat), (m.maxUnused l (some j) count).1 ≠ none := by
    intro l
    induction l with
    | nil => exact fun j count => Option.some_ne_none j
    | cons k l ih =>
      intro j count
      unfold maxUnused
      dsimp only
      split_ifs
      · exact ih k _
      · exact ih j _
  induction l generalizing count with
  | nil => exact fun k hk => absurd hk List.not_mem_nil
  | cons k l ih =>
    unfold maxUnused at h
    dsimp only at h
    split_ifs at h with hgt
    · exact absurd h (hsome _ _ _)
    · intro j hj
      rcases List.mem_cons.mp hj with rfl | hj
      · exact Nat.not_lt.mp hgt
      · exact ih h j hj

/-- What a request for a page comes to. -/
inductive Requested (m : PageManager) : EspErr × PageManager → Prop
  | activated {m' : PageManager} {f : Nat} (hspare : m.freePageList.tail ≠ []) (hfree : m.freePageList = f :: m.freePageList.tail)
      (h : Activated m m' f) : Requested m (ESP_OK, m')
  | relocated {m' : PageManager} {old new : Nat} (hold : old ∈ m.pageList)
      (hroom : (m.page old).usedEntryCount < ENTRY_COUNT) (hfree : m.freePageList = [new])
      (h : Relocated m m' old new) : Requested m (ESP_OK, m')
  | full (hfull : ∀ i ∈ m.pageList, ENTRY_COUNT ≤ (m.page i).usedEntryCount) : Requested m (ESP_ERR_NVS_NOT_ENOUGH_SPACE, m)
  | refused (hrefused : m.freePageList = [] ∨ ∃ i ∈ m.pageList, (m.page i).state = .uninitialized) :
      Requested m (ESP_ERR_NVS_INVALID_STATE, m)

theorem relocate_uninitialized {old : Nat} (hstate : (m.page old).state = .uninitialized) :
    m.relocate old = (ESP_ERR_NVS_INVALID_STATE, m) := by
  have hmark : (m.page old).markFreeing = (ESP_ERR_NVS_INVALID_STATE, m.page old) := by
    unfold Page.markFreeing
    rw [if_pos]
    rw [hstate]
    decide
  unfold relocate onPage
  simp only [hmark, setPage_page]
  rfl

theorem requestNewPage_spec (h : m.Sound) : Requested m m.requestNewPage := by
  unfold requestNewPage
  cases hfree : m.freePageList with
  | nil => exact .refused (.inl hfree)
  | cons f rest =>
    have hf : f ∈ m.freePageList := hfree ▸ List.mem_cons_self
    have htail : m.freePageList.tail = rest := by
      rw [hfree]
      rfl
    rw [if_neg (List.cons_ne_nil f rest)]
    by_cases hspare : (f :: rest).length ≥ 2
    · rw [if_pos hspare]
      obtain ⟨m', hactivate, hm'⟩ := activatePage_spec hfree (h.lt_of_free hf) (h.free f hf)
      rw [hactivate]
      refine .activated (fun hnil => ?_) (htail.symm ▸ hfree) hm'
      rw [htail] at hnil
      rw [hnil] at hspare
      exact absurd hspare (Nat.not_succ_le_self 1)
    · have hrest : rest = [] := List.length_eq_zero_iff.mp (by
        rw [List.length_cons] at hspare
        omega)
      subst hrest
      rw [if_neg hspare]
      cases hbest : m.maxUnused m.pageList none 0 with
      | mk best count =>
        cases best with
        | none =>
          have hnone := maxUnused_none (congrArg Prod.fst hbest)
          exact .full fun i hi => Nat.le_of_sub_eq_zero (Nat.le_zero.mp (hnone i hi))
        | some old =>
          obtain ⟨hold, hroom⟩ := (maxUnused_mem (congrArg Prod.fst hbest)).resolve_right nofun
          by_cases hstate : (m.page old).state = .uninitialized
          · dsimp only
            rw [relocate_uninitialized hstate]
            exact .refused (.inr ⟨old, hold, hstate⟩)
          · obtain ⟨m', hrelocate, hm'⟩ := relocate_spec h hold hstate hfree
            dsimp only
            rw [hrelocate]
            exact .relocated hold hroom hfree hm'

theorem Requested.sound {out : EspErr × PageManager} (hr : Requested m out) (h : m.Sound) : out.2.Sound := by
  cases hr with
  | activated hspare hfree hm' => exact h.activate (hm'.freePageList.symm ▸ hfree) hm'
  | relocated hold hroom hfree hm' => exact hm'.sound h hold (hfree.trans (by rw [hfree]; rfl))
  | full hfull => exact h
  | refused hrefused => exact h

end PageManager

end EspIdf.Nvs
