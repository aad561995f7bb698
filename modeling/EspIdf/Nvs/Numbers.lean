import EspIdf.Nvs.Moves
import Mathlib.Data.Finset.Card

/-!
# NVS: what moves keep

* `Numbered` : the numbers grow along the list of the pages;
* `Move.numbered`, `Move.spare` : they still do, and a free page is left;
* `roomy` : the pages with an entry that is not used; a request for a page leaves them as they are;
* `Kept` : a value that is still where it was, as the number of its page tells.
-/

namespace EspIdf.Nvs

open Spans

theorem Holds.used {p : Page} {vs : List Value} (h : Holds p vs) : p.usedEntryCount = total vs := by
  cases h with
  | fresh h => exact h.used
  | layout h => exact h.used

/-- A page that is full keeps what it holds. -/
theorem markFull_kept (p : Page) :
    p.markFull.2.seqNumber = p.seqNumber ∧ p.markFull.2.values = p.values ∧ p.markFull.2.usedEntryCount = p.usedEntryCount := by
  unfold Page.markFull
  split_ifs
  · exact ⟨rfl, rfl, rfl⟩
  · exact ⟨rfl, rfl, rfl⟩

namespace PageManager
variable {m m' : PageManager} {i : Nat} {p : Page}

/-- The numbers grow along the list, and the next is greater, until that number wraps. -/
def Numbered (m : PageManager) : Prop :=
  m.seqNumber < 2 ^ 32 →
    m.pageList.Pairwise (fun i j => (m.page i).seqNumber < (m.page j).seqNumber) ∧
      ∀ i ∈ m.pageList, (m.page i).seqNumber < m.seqNumber

theorem seqNumber_setPage (hseq : p.seqNumber = (m.page i).seqNumber) (k : Nat) :
    ((m.setPage i p).page k).seqNumber = (m.page k).seqNumber := by
  by_cases hik : i = k
  · subst hik
    by_cases hi : i < m.pages.length
    · rw [page_setPage_self hi, hseq]
    · have hset : m.setPage i p = m := by
        unfold setPage
        rw [List.set_eq_of_length_le (Nat.not_lt.mp hi)]
      rw [hset]
  · rw [page_setPage_ne hik]

theorem Numbered.setPage (h : m.Numbered) (hseq : p.seqNumber = (m.page i).seqNumber) : (m.setPage i p).Numbered := by
  intro hlt
  obtain ⟨hsorted, hbelow⟩ := h hlt
  refine ⟨hsorted.imp fun hab => ?_, fun k hk => ?_⟩
  · rwa [seqNumber_setPage hseq, seqNumber_setPage hseq]
  · rw [seqNumber_setPage hseq]
    exact hbelow k hk

/-- A page with the next number is put behind the others. -/
theorem Numbered.append (h : m.Numbered) {l : List Nat} {f : Nat} (hl : l.Sublist m.pageList)
    (hlist : m'.pageList = l ++ [f]) (hnext : m'.seqNumber = m.seqNumber + 1)
    (hseq : (m'.page f).seqNumber = m.seqNumber % 2 ^ 32) (hothers : ∀ k ∈ l, m'.page k = m.page k) : m'.Numbered := by
  intro hlt
  rw [hnext] at hlt
  obtain ⟨hsorted, hbelow⟩ := h (Nat.lt_of_succ_lt hlt)
  rw [Nat.mod_eq_of_lt (Nat.lt_of_succ_lt hlt)] at hseq
  have hbelow' : ∀ k ∈ l, (m'.page k).seqNumber < m.seqNumber := fun k hk => by
    rw [hothers k hk]
    exact hbelow k (hl.subset hk)
  rw [hlist, hnext]
  refine ⟨List.pairwise_append.mpr ⟨?_, List.pairwise_singleton _ _, fun a ha b hb => ?_⟩, fun k hk => ?_⟩
  · refine (hsorted.sublist hl).imp_of_mem fun ha hb hab => ?_
    rwa [hothers _ ha, hothers _ hb]
  · rw [List.mem_singleton.mp hb, hseq]
    exact hbelow' a ha
  · rcases List.mem_append.mp hk with hk | hk
    · exact Nat.lt_succ_of_lt (hbelow' k hk)
    · rw [List.mem_singleton.mp hk, hseq]
      exact Nat.lt_succ_self _

theorem Requested.numbered {out : EspErr × PageManager} (hr : Requested m out) (h : m.Sound) (hn : m.Numbered) :
    out.2.Numbered := by
  cases hr with
  | full hfull => exact hn
  | refused hrefused => exact hn
  | activated hspare hfree hm' =>
    refine hn.append (List.Sublist.refl _) hm'.pageList hm'.seqNumber (congrArg Page.seqNumber hm'.page) fun k hk => ?_
    exact hm'.others k (h.ne_of_used_free hk (hfree ▸ List.mem_cons_self))
  | relocated hold hroom hfree hm' =>
    refine hn.append List.erase_sublist hm'.pageList hm'.seqNumber hm'.seq fun k hk => ?_
    obtain ⟨hne, hk⟩ := ((List.nodup_append.mp h.nodup).1.mem_erase_iff).mp hk
    exact hm'.others k hne (h.ne_of_used_free hk (hfree ▸ List.mem_cons_self))

theorem Grow.numbered (hm : Grow m m') (h : m.Sound) (hn : m.Numbered) : m'.Numbered := by
  cases hm with
  | write hw => exact hn.setPage (h.written hw).seq
  | markFull => exact hn.setPage (markFull_kept _).1
  | request => exact (requestNewPage_spec h).numbered h hn

theorem Move.numbered (hm : Move m m') (h : m.Sound) (hn : m.Numbered) : m'.Numbered := by
  cases hm with
  | grow hgrow => exact hgrow.numbered h hn
  | erase hi hv purge =>
    obtain ⟨p', herase, -, -, hseq, -⟩ := (h.layout_of_value hi hv).erase hv purge
    rw [herase]
    exact hn.setPage hseq
  | purge hi hsafe =>
    obtain ⟨out, hpurge, -, -, hseq⟩ := (h.holds _ (h.lt_of_used hi)).purge hsafe
    rw [hpurge]
    exact hn.setPage hseq

theorem Requested.seq_le {out : EspErr × PageManager} (hr : Requested m out) : m.seqNumber ≤ out.2.seqNumber := by
  cases hr with
  | full hfull => exact Nat.le_refl _
  | refused hrefused => exact Nat.le_refl _
  | activated hspare hfree hm' => exact hm'.seqNumber ▸ Nat.le_succ _
  | relocated hold hroom hfree hm' => exact hm'.seqNumber ▸ Nat.le_succ _

theorem Grow.seq_le (hm : Grow m m') (h : m.Sound) : m.seqNumber ≤ m'.seqNumber := by
  cases hm with
  | write hw => exact Nat.le_refl _
  | markFull => exact Nat.le_refl _
  | request => exact (requestNewPage_spec h).seq_le

/-- A free page is left. -/
theorem Requested.spare {out : EspErr × PageManager} (hr : Requested m out) (hfree : m.freePageList ≠ []) :
    out.2.freePageList ≠ [] := by
  cases hr with
  | full hfull => exact hfree
  | refused hrefused => exact hfree
  | activated hspare hfree' hm' => exact hm'.freePageList ▸ hspare
  | relocated hold hroom hfree' hm' => simp [hm'.freePageList]

theorem Move.spare (hm : Move m m') (h : m.Sound) (hfree : m.freePageList ≠ []) : m'.freePageList ≠ [] := by
  cases hm with
  | erase hi hv purge => exact hfree
  | purge hi hsafe => exact hfree
  | grow hgrow =>
    cases hgrow with
    | write hw => exact hfree
    | markFull => exact hfree
    | request => exact (requestNewPage_spec h).spare hfree

theorem Moves.numbered (hm : Moves m m') (h : m.Sound) (hn : m.Numbered) : m'.Numbered := by
  induction hm with
  | refl => exact hn
  | tail hms hmove ih => exact hmove.numbered (Moves.sound hms h) ih

theorem Moves.spare (hm : Moves m m') (h : m.Sound) (hfree : m.freePageList ≠ []) : m'.freePageList ≠ [] := by
  induction hm with
  | refl => exact hfree
  | tail hms hmove ih => exact hmove.spare (Moves.sound hms h) ih

theorem Requested.length {out : EspErr × PageManager} (hr : Requested m out) : out.2.pages.length = m.pages.length := by
  cases hr with
  | full hfull => rfl
  | refused hrefused => rfl
  | activated hspare hfree hm' => exact hm'.length
  | relocated hold hroom hfree hm' => exact hm'.length

theorem Move.length (hm : Move m m') (h : m.Sound) : m'.pages.length = m.pages.length := by
  cases hm with
  | erase hi hv purge => exact List.length_set
  | purge hi hsafe => exact List.length_set
  | grow hgrow =>
    cases hgrow with
    | write hw => exact List.length_set
    | markFull => exact List.length_set
    | request => exact (requestNewPage_spec h).length

theorem Moves.length (hm : Moves m m') (h : m.Sound) : m'.pages.length = m.pages.length := by
  induction hm with
  | refl => rfl
  | tail hms hmove ih => exact (hmove.length (Moves.sound hms h)).trans ih

/-! ## Pages with room -/

/-- The pages with an entry that is not used. -/
def roomy (m : PageManager) : Finset Nat :=
  (Finset.range m.pages.length).filter fun i => (m.page i).usedEntryCount < ENTRY_COUNT

theorem mem_roomy : i ∈ m.roomy ↔ i < m.pages.length ∧ (m.page i).usedEntryCount < ENTRY_COUNT := by
  unfold roomy
  rw [Finset.mem_filter, Finset.mem_range]

theorem roomy_card_le : m.roomy.card ≤ m.pages.length :=
  Nat.le_trans (Finset.card_le_card (Finset.filter_subset _ _)) (Finset.card_range _).le

theorem Sound.fresh_roomy (h : m.Sound) (hi : i ∈ m.freePageList) : i ∈ m.roomy := by
  refine mem_roomy.mpr ⟨h.lt_of_free hi, ?_⟩
  rw [(h.fresh hi).used]
  decide

theorem roomy_setPage (hle : (m.page i).usedEntryCount ≤ p.usedEntryCount) : (m.setPage i p).roomy ⊆ m.roomy := by
  intro k hk
  obtain ⟨hlt, hused⟩ := mem_roomy.mp hk
  have hlt' : k < m.pages.length := Nat.lt_of_lt_of_eq hlt List.length_set
  refine mem_roomy.mpr ⟨hlt', ?_⟩
  by_cases hik : i = k
  · subst hik
    rw [page_setPage_self hlt'] at hused
    exact Nat.lt_of_le_of_lt hle hused
  · rwa [page_setPage_ne hik] at hused

theorem roomy_filled (hi : i < m.pages.length) (hfull : ENTRY_COUNT ≤ p.usedEntryCount) : i ∉ (m.setPage i p).roomy := by
  intro hmem
  have hused := (mem_roomy.mp hmem).2
  rw [page_setPage_self hi] at hused
  exact absurd hused (Nat.not_lt.mpr hfull)

/-- A page that is relocated has room, before and behind. -/
theorem Requested.roomy {out : EspErr × PageManager} (hr : Requested m out) (h : m.Sound) : out.2.roomy = m.roomy := by
  cases hr with
  | full hfull => rfl
  | refused hrefused => rfl
  | @activated m' f hspare hfree hm' =>
    refine Finset.ext fun k => ?_
    rw [mem_roomy, mem_roomy, hm'.length]
    by_cases hk : k = f
    · rw [hk, hm'.page]
    · rw [hm'.others k hk]
  | @relocated m' old new hold hroom hfree hm' =>
    have hnew : new ∈ m.freePageList := hfree ▸ List.mem_cons_self
    refine Finset.ext fun k => ?_
    rw [mem_roomy, mem_roomy, hm'.length]
    by_cases hk0 : k = old
    · rw [hk0, hm'.freed.used]
      exact and_congr_right fun _ => iff_of_true (by decide) hroom
    · by_cases hk1 : k = new
      · rw [hk1, hm'.used, (h.fresh hnew).used]
        exact and_congr_right fun _ => iff_of_true hroom (by decide)
      · rw [hm'.others k hk0 hk1]

/-- A page whose values are one behind the other. -/
def Compacted (p : Page) : Prop := p.state = .active ∧ p.nextFreeEntry = p.usedEntryCount ∨ p.state = .uninitialized

/-- A page that was requested, and the pages behind it. -/
theorem Requested.back {out : EspErr × PageManager} (hr : Requested m out) (h : m.Sound) (hok : out.1 = ESP_OK) :
    Compacted (out.2.page out.2.back) ∧ out.2.freePageList ≠ [] := by
  cases hr with
  | full hfull => exact absurd hok (by exact (by decide : ESP_ERR_NVS_NOT_ENOUGH_SPACE ≠ ESP_OK))
  | refused hrefused => exact absurd hok (by exact (by decide : ESP_ERR_NVS_INVALID_STATE ≠ ESP_OK))
  | @activated m' f hspare hfree hm' =>
    refine ⟨.inr ?_, hm'.freePageList ▸ hspare⟩
    rw [hm'.back, hm'.page]
    exact h.free f (hfree ▸ List.mem_cons_self)
  | @relocated m' old new hold hroom hfree hm' =>
    have hback : m'.back = new := by
      unfold PageManager.back
      rw [hm'.pageList]
      exact List.getLastD_concat
    refine ⟨?_, by simp [hm'.freePageList]⟩
    rw [hback]
    exact hm'.state.imp id And.left

/-! ## Values that stay -/

/-- A value that was on the page `i` with the number `x`, before the number `next` was given. -/
inductive Kept (i x next : Nat) (v : Value) (m : PageManager) : Prop
  | still (hi : i ∈ m.pageList) (hv : v ∈ (m.page i).values) (hseq : (m.page i).seqNumber = x)
  | renumbered (hi : i ∈ m.pageList) (hseq : next ≤ (m.page i).seqNumber)
  | freed (hi : i ∈ m.freePageList)

section kept
variable {x next : Nat} {v : Value}

/-- The current page gets more values. -/
theorem Kept.setPage (hk : Kept i x next v m) (h : m.Sound) {b : Nat} (hb : b ∈ m.pageList)
    (hseq : p.seqNumber = (m.page b).seqNumber) (hvalues : (m.page b).values ⊆ p.values) : Kept i x next v (m.setPage b p) := by
  have hpage : ∀ k, ((m.setPage b p).page k).seqNumber = (m.page k).seqNumber := seqNumber_setPage hseq
  cases hk with
  | still hi hv hx =>
    refine .still hi ?_ ((hpage i).trans hx)
    by_cases hbi : b = i
    · subst hbi
      rw [page_setPage_self (h.lt_of_used hb)]
      exact hvalues hv
    · rwa [page_setPage_ne hbi]
  | renumbered hi hx => exact .renumbered hi ((hpage i).symm ▸ hx)
  | freed hi => exact .freed hi

theorem Grow.kept (hm : Grow m m') (h : m.Sound) (hlt : m'.seqNumber < 2 ^ 32) (hle : next ≤ m.seqNumber)
    (hk : Kept i x next v m) : Kept i x next v m' := by
  cases hm with
  | @write nsIndex chunkIdx datatype key data hw =>
    have hwrote := @Sound.written m h nsIndex chunkIdx datatype key data hw
    refine hk.setPage h h.back_mem hwrote.seq ?_
    by_cases hok : ((m.page m.back).writeItem nsIndex datatype key data chunkIdx).1 = ESP_OK
    · rw [(hwrote.done hok).2.2.2.values_eq]
      exact List.subset_append_left _ _
    · rw [(hwrote.failed hok).2.values_eq]
      exact fun _ => id
  | markFull => exact hk.setPage h h.back_mem (markFull_kept _).1 ((markFull_kept _).2.1.symm ▸ fun _ => id)
  | request =>
    have hr := requestNewPage_spec h
    revert hlt hr
    generalize m.requestNewPage = out
    intro hlt hr
    cases hr with
    | full hfull => exact hk
    | refused hrefused => exact hk
    | @activated m' f hspare hfree hm' =>
      have hf : f ∈ m.freePageList := hfree ▸ List.mem_cons_self
      have hused : ∀ k ∈ m.pageList, k ∈ m'.pageList ∧ m'.page k = m.page k := fun k hk =>
        ⟨hm'.pageList ▸ List.mem_append_left _ hk, hm'.others k (h.ne_of_used_free hk hf)⟩
      cases hk with
      | still hi hv hx => exact .still (hused i hi).1 ((hused i hi).2.symm ▸ hv) ((hused i hi).2.symm ▸ hx)
      | renumbered hi hx => exact .renumbered (hused i hi).1 ((hused i hi).2.symm ▸ hx)
      | freed hi =>
        by_cases hif : i = f
        · subst hif
          refine .renumbered (hm'.pageList ▸ List.mem_append_right _ List.mem_cons_self) ?_
          have hlt' : m.seqNumber < 2 ^ 32 := Nat.lt_of_le_of_lt (hm'.seqNumber ▸ Nat.le_succ _) hlt
          have hseq : (m'.page i).seqNumber = m.seqNumber % 2 ^ 32 := congrArg Page.seqNumber hm'.page
          rwa [hseq, Nat.mod_eq_of_lt hlt']
        · rw [hfree] at hi
          exact .freed (hm'.freePageList ▸ (List.mem_cons.mp hi).resolve_left hif)
    | @relocated m' old new hold hroom hfree hm' =>
      have hnew : new ∈ m.freePageList := hfree ▸ List.mem_cons_self
      have hused : ∀ k ∈ m.pageList, k ≠ old → k ∈ m'.pageList ∧ m'.page k = m.page k := fun k hk hne =>
        ⟨hm'.pageList ▸ List.mem_append_left _ ((List.mem_erase_of_ne hne).mpr hk),
          hm'.others k hne (h.ne_of_used_free hk hnew)⟩
      have hold' : old ∈ m'.freePageList := hm'.freePageList ▸ List.mem_append_right _ List.mem_cons_self
      by_cases hio : i = old
      · exact .freed (hio ▸ hold')
      · cases hk with
        | still hi hv hx =>
          exact .still (hused i hi hio).1 ((hused i hi hio).2.symm ▸ hv) ((hused i hi hio).2.symm ▸ hx)
        | renumbered hi hx => exact .renumbered (hused i hi hio).1 ((hused i hi hio).2.symm ▸ hx)
        | freed hi =>
          obtain rfl : i = new := List.mem_singleton.mp (hfree ▸ hi)
          refine .renumbered (hm'.pageList ▸ List.mem_append_right _ List.mem_cons_self) ?_
          have hlt' : m.seqNumber < 2 ^ 32 := Nat.lt_of_le_of_lt (hm'.seqNumber ▸ Nat.le_succ _) hlt
          rwa [hm'.seq, Nat.mod_eq_of_lt hlt']

theorem Grows.seq_le (hm : Grows m m') (h : m.Sound) : m.seqNumber ≤ m'.seqNumber := by
  induction hm with
  | refl => exact Nat.le_refl _
  | tail hms hgrow ih => exact Nat.le_trans ih (hgrow.seq_le (Moves.sound (Grows.moves hms) h))

theorem Grows.kept (hm : Grows m m') (h : m.Sound) (hlt : m'.seqNumber < 2 ^ 32) (hk : Kept i x m.seqNumber v m) :
    Kept i x m.seqNumber v m' := by
  induction hm with
  | refl => exact hk
  | tail hms hgrow ih =>
    have hsound := Moves.sound (Grows.moves hms) h
    exact hgrow.kept hsound hlt (Grows.seq_le hms h) (ih (Nat.lt_of_le_of_lt (hgrow.seq_le hsound) hlt))

end kept

end PageManager

end EspIdf.Nvs
