import EspIdf.Nvs.Writes

/-!
# NVS: a restart, page by page

* `Sector.Loadable` : a page on flash that can be loaded;
* `insertBySeq_perm`, `insertBySeq_sorted` : a page is put where its number belongs;
* `load_spec` : the lists are those of the pages in use and of the free ones;
* `init_spec` : the storage, from flash.
-/

namespace EspIdf.Nvs

open Spans PageManager

/-- A page on flash, as it is left by an object that manages it. -/
def Sector.Loadable (x : Sector) : Prop := ∃ p vs, Holds p vs ∧ p.state ≠ .freeing ∧ p.sector = x

theorem Sector.erased_loadable : Sector.erased.Loadable :=
  ⟨{ Page.created .erased with state := .uninitialized }, [], .fresh ⟨rfl, rfl, rfl, rfl, rfl, rfl⟩,
    PageState.noConfusion, rfl⟩

/-- What a page that is loaded is. -/
structure LoadedPage (x : Sector) (p : Page) : Prop where
  holds : Holds p p.values
  unused : x.header = none → p.state = .uninitialized
  used : ∀ header, x.header = some header → (p.state = .active ∨ p.state = .full) ∧ p.seqNumber = header.seqNumber

theorem Sector.Loadable.load {x : Sector} (h : x.Loadable) : ∃ p, Page.load x = (ESP_OK, p) ∧ LoadedPage x p := by
  obtain ⟨p, vs, hholds, hfreeing, rfl⟩ := h
  obtain ⟨p', kept, hload, hkept, -, hstate, hseq⟩ := load_holds hholds
  have hvalues : Holds p' p'.values := by rwa [hkept.values_eq]
  refine ⟨p', hload, hvalues, fun hnone => ?_, fun header hheader => ?_⟩
  · cases hholds with
    | fresh h => rw [hstate, h.state]
    | layout h =>
      rw [h.header] at hnone
      cases hnone
  · cases hholds with
    | fresh h =>
      rw [h.sector] at hheader
      cases hheader
    | layout h =>
      rw [h.header] at hheader
      obtain rfl := Option.some.inj hheader
      have hne : p.state ≠ .uninitialized := by
        rcases h.state with hs | hs | hs <;> rw [hs] <;> decide
      refine ⟨?_, hseq hne⟩
      rw [hstate]
      exact h.state.imp_right fun hs => hs.resolve_right hfreeing

theorem LoadedPage.getSeqNumber {x : Sector} {p : Page} (h : LoadedPage x p) :
    p.getSeqNumber = x.header.map Header.seqNumber := by
  unfold Page.getSeqNumber
  cases hheader : x.header with
  | none =>
    rw [if_neg fun hand => hand.1 (h.unused hheader)]
    rfl
  | some header =>
    obtain ⟨hstate, hseq⟩ := h.used header hheader
    rw [if_pos (by rcases hstate with hs | hs <;> rw [hs] <;> decide), hseq]
    rfl

namespace PageManager
variable {m : PageManager} {i seqNumber : Nat} {l : List Nat}

/-! ## The lists -/

theorem insertBySeq_perm : (m.insertBySeq seqNumber i l).Perm (i :: l) := by
  induction l with
  | nil => exact .refl _
  | cons j l ih =>
    have hbehind : (j :: m.insertBySeq seqNumber i l).Perm (i :: j :: l) := (ih.cons j).trans (.swap i j l)
    unfold insertBySeq
    cases (m.page j).getSeqNumber with
    | none => exact hbehind
    | some other =>
      dsimp only
      split_ifs
      · exact .refl _
      · exact hbehind

theorem insertBySeq_sorted (hl : ∀ j ∈ l, (m.page j).getSeqNumber = some (m.page j).seqNumber)
    (hsorted : l.Pairwise fun j k => (m.page j).seqNumber < (m.page k).seqNumber)
    (hi : (m.page i).seqNumber = seqNumber) (hne : ∀ j ∈ l, (m.page j).seqNumber ≠ seqNumber) :
    (m.insertBySeq seqNumber i l).Pairwise fun j k => (m.page j).seqNumber < (m.page k).seqNumber := by
  induction l with
  | nil => exact List.pairwise_singleton _ _
  | cons j l ih =>
    obtain ⟨hfirst, hrest⟩ := List.pairwise_cons.mp hsorted
    unfold insertBySeq
    rw [hl j List.mem_cons_self]
    dsimp only
    split_ifs with hgt
    · refine List.pairwise_cons.mpr ⟨fun k hk => ?_, hsorted⟩
      rw [hi]
      rcases List.mem_cons.mp hk with rfl | hk
      · exact hgt
      · exact Nat.lt_trans hgt (hfirst k hk)
    · refine List.pairwise_cons.mpr ⟨fun k hk => ?_, ih (fun k hk => hl k (List.mem_cons_of_mem j hk)) hrest
        fun k hk => hne k (List.mem_cons_of_mem j hk)⟩
      rcases List.mem_cons.mp (insertBySeq_perm.mem_iff.mp hk) with rfl | hk
      · rw [hi]
        exact Nat.lt_of_le_of_ne (Nat.not_lt.mp hgt) (hne j List.mem_cons_self)
      · exact hfirst k hk

/-- The pages before the `i`th are loaded. -/
structure Listed (sectors : List Sector) (m : PageManager) : Prop where
  length : m.pages.length = sectors.length
  loaded : ∀ k x, sectors[k]? = some x → LoadedPage x (m.page k)
  lists : (m.pageList ++ m.freePageList).Perm (List.range sectors.length)
  used : ∀ k ∈ m.pageList, ∃ x header, sectors[k]? = some x ∧ x.header = some header
  free : ∀ k ∈ m.freePageList, ∃ x, sectors[k]? = some x ∧ x.header = none

/-- The numbers of the pages in use are different. -/
def Distinct (sectors : List Sector) : Prop :=
  ∀ (j k : Nat) (x y : Sector) (header other : Header), sectors[j]? = some x → sectors[k]? = some y → x.header = some header → y.header = some other →
    header.seqNumber = other.seqNumber → j = k

def Sorted (m : PageManager) : Prop := m.pageList.Pairwise fun j k => (m.page j).seqNumber < (m.page k).seqNumber

theorem Listed.page_used {sectors : List Sector} (h : Listed sectors m) {k : Nat} (hk : k ∈ m.pageList) :
    ((m.page k).state = .active ∨ (m.page k).state = .full) ∧ (m.page k).getSeqNumber = some (m.page k).seqNumber := by
  obtain ⟨x, header, hx, hheader⟩ := h.used k hk
  have hloaded := h.loaded k x hx
  obtain ⟨hstate, hseq⟩ := hloaded.used header hheader
  refine ⟨hstate, ?_⟩
  rw [hloaded.getSeqNumber, hheader, Option.map_some, hseq]

theorem page_append_ne {p : Page} {k : Nat} (hk : k < m.pages.length) :
    PageManager.page { m with pages := m.pages ++ [p] } k = m.page k := by
  unfold page
  rw [List.getD_eq_getElem?_getD, List.getD_eq_getElem?_getD, List.getElem?_append_left hk]

theorem page_append_self {p : Page} : PageManager.page { m with pages := m.pages ++ [p] } m.pages.length = p := by
  unfold page
  rw [List.getD_eq_getElem?_getD, List.getElem?_concat_length]
  rfl

/-- One more page is loaded. -/
theorem Listed.concat {sectors : List Sector} (h : Listed sectors m) {x : Sector} {p : Page} (hp : LoadedPage x p)
    (used free : List Nat) (hlists : (used ++ free).Perm (sectors.length :: (m.pageList ++ m.freePageList)))
    (hused : ∀ k ∈ used, k ∈ m.pageList ∨ k = sectors.length ∧ ∃ header, x.header = some header)
    (hfree : ∀ k ∈ free, k ∈ m.freePageList ∨ k = sectors.length ∧ x.header = none) :
    Listed (sectors ++ [x]) { m with pages := m.pages ++ [p], pageList := used, freePageList := free } := by
  have hhere : (sectors ++ [x])[sectors.length]? = some x := List.getElem?_concat_length
  have hbefore : ∀ {k y}, sectors[k]? = some y → (sectors ++ [x])[k]? = some y := fun hy => by
    rw [List.getElem?_append_left (List.getElem?_eq_some_iff.mp hy).1, hy]
  refine ⟨?_, fun k y hy => ?_, ?_, fun k hk => ?_, fun k hk => ?_⟩
  · simp [h.length]
  · by_cases hk : k < sectors.length
    · rw [List.getElem?_append_left hk] at hy
      have hpage := @page_append_ne m p k (h.length.symm ▸ hk)
      unfold page at hpage ⊢
      dsimp only at hpage ⊢
      rw [hpage]
      exact h.loaded k y hy
    · have hk' : k = sectors.length := by
        have hlt := (List.getElem?_eq_some_iff.mp hy).1
        rw [List.length_append, List.length_singleton] at hlt
        omega
      subst hk'
      rw [hhere] at hy
      obtain rfl := Option.some.inj hy
      have hpage := @page_append_self m p
      rw [h.length] at hpage
      unfold page at hpage ⊢
      dsimp only at hpage ⊢
      rw [hpage]
      exact hp
  · rw [List.length_append, List.length_singleton, List.range_succ]
    exact hlists.trans ((h.lists.cons _).trans (List.perm_append_singleton _ _).symm)
  · rcases hused k hk with hk | ⟨rfl, header, hheader⟩
    · obtain ⟨y, header, hy, hheader⟩ := h.used k hk
      exact ⟨y, header, hbefore hy, hheader⟩
    · exact ⟨x, header, hhere, hheader⟩
  · rcases hfree k hk with hk | ⟨rfl, hnone⟩
    · obtain ⟨y, hy, hnone⟩ := h.free k hk
      exact ⟨y, hbefore hy, hnone⟩
    · exact ⟨x, hhere, hnone⟩

theorem loadPages_spec {sectors rest : List Sector} (h : Listed sectors m) (hrest : ∀ x ∈ rest, x.Loadable) :
    ∃ out, loadPages rest sectors.length m = (ESP_OK, out) ∧ Listed (sectors ++ rest) out ∧
      (Distinct (sectors ++ rest) → m.Sorted → out.Sorted) := by
  induction rest generalizing m sectors with
  | nil => exact ⟨m, rfl, (List.append_nil sectors).symm ▸ h, fun _ hsorted => hsorted⟩
  | cons x rest ih =>
    obtain ⟨p, hload, hp⟩ := (hrest x List.mem_cons_self).load
    have hsplit : sectors ++ x :: rest = sectors ++ [x] ++ rest := by rw [List.append_assoc, List.singleton_append]
    have hlength : sectors.length + 1 = (sectors ++ [x]).length := by rw [List.length_append, List.length_singleton]
    have hrest' : ∀ y ∈ rest, y.Loadable := fun y hy => hrest y (List.mem_cons_of_mem x hy)
    unfold loadPages
    rw [hload]
    dsimp only
    rw [if_neg (not_not.mpr rfl), hp.getSeqNumber, hsplit, hlength]
    have hsame : ∀ k ∈ m.pageList, PageManager.page { m with pages := m.pages ++ [p] } k = m.page k := fun k hk => by
      obtain ⟨y, header, hy, -⟩ := h.used k hk
      exact page_append_ne (h.length.symm ▸ (List.getElem?_eq_some_iff.mp hy).1)
    have hsorted' : m.Sorted → m.pageList.Pairwise fun j k =>
        (PageManager.page { m with pages := m.pages ++ [p] } j).seqNumber <
          (PageManager.page { m with pages := m.pages ++ [p] } k).seqNumber := fun hm =>
      List.Pairwise.imp_of_mem (fun ha hb hab => by rwa [hsame _ ha, hsame _ hb]) hm
    cases hheader : x.header with
    | none =>
      have hlisted := h.concat hp m.pageList (m.freePageList ++ [sectors.length])
        (by rw [← List.append_assoc]; exact List.perm_append_singleton _ _) (fun k hk => .inl hk)
        (fun k hk => (List.mem_append.mp hk).imp_right fun hk => ⟨List.mem_singleton.mp hk, hheader⟩)
      obtain ⟨out, hout, houtlisted, hsorted⟩ := ih hlisted hrest'
      exact ⟨out, hout, houtlisted, fun hdistinct hm => hsorted hdistinct (hsorted' hm)⟩
    | some header =>
      have hinsert : ({ m with pages := m.pages ++ [p] } : PageManager).insertBySeq header.seqNumber sectors.length m.pageList |>.Perm
          (sectors.length :: m.pageList) := insertBySeq_perm
      have hlisted := h.concat hp (({ m with pages := m.pages ++ [p] } : PageManager).insertBySeq header.seqNumber sectors.length
        m.pageList) m.freePageList (hinsert.append_right _)
        (fun k hk => (List.mem_cons.mp (hinsert.mem_iff.mp hk)).elim (fun heq => .inr ⟨heq, header, hheader⟩) .inl)
        (fun k hk => .inl hk)
      obtain ⟨out, hout, houtlisted, hsorted⟩ := ih hlisted hrest'
      refine ⟨out, hout, houtlisted, fun hdistinct hm => hsorted hdistinct ?_⟩
      have hhere : PageManager.page { m with pages := m.pages ++ [p] } sectors.length = p := h.length ▸ page_append_self
      refine insertBySeq_sorted (fun j hj => ?_) (hsorted' hm) ?_ fun j hj heq => ?_
      · rw [hsame j hj]
        exact (h.page_used hj).2
      · rw [hhere]
        exact (hp.used header hheader).2
      · rw [hsame j hj] at heq
        obtain ⟨y, other, hy, hother⟩ := h.used j hj
        have hlt := (List.getElem?_eq_some_iff.mp hy).1
        have hj' : j = sectors.length := hdistinct j sectors.length y x other header
          (by rw [List.append_assoc, List.getElem?_append_left hlt, hy])
          (by rw [List.append_assoc, List.getElem?_append_right (Nat.le_refl _), Nat.sub_self]; rfl) hother hheader
          (by rw [← heq]; exact (((h.loaded j y hy).used other hother).2).symm)
        exact absurd hlt (hj' ▸ Nat.lt_irrefl _)

theorem Listed.sound {sectors : List Sector} (h : Listed sectors m) (hne : m.pageList ≠ []) (seqNumber : Nat) :
    PageManager.Sound { m with seqNumber := seqNumber } := by
  refine ⟨hne, h.length.symm ▸ h.lists, fun k hk => ?_, fun k hk => ?_, fun k hk => ?_⟩
  · have hlt : k < sectors.length := Nat.lt_of_lt_of_eq hk h.length
    exact (h.loaded k _ (List.getElem?_eq_getElem hlt)).holds
  · have hstate : (m.page k).state ≠ .freeing := by
      rcases (h.page_used hk).1 with hs | hs <;> rw [hs] <;> decide
    exact hstate
  · obtain ⟨x, hx, hnone⟩ := h.free k hk
    exact (h.loaded k x hx).unused hnone

/-- The number behind the last is greater than all. -/
theorem Sorted.numbered (h : m.Sorted) : PageManager.Numbered { m with seqNumber := (m.page m.back).seqNumber + 1 } := by
  refine fun _ => ⟨h, fun k hk => Nat.lt_succ_of_le ?_⟩
  obtain hnil | ⟨l, b, hl⟩ := List.eq_nil_or_concat m.pageList
  · have hk' : k ∈ m.pageList := hk
    rw [hnil] at hk'
    exact absurd hk' List.not_mem_nil
  · have hback : m.back = b := by
      unfold PageManager.back
      rw [hl, List.concat_eq_append, List.getLastD_concat]
    have hsorted : m.pageList.Pairwise fun j k => (m.page j).seqNumber < (m.page k).seqNumber := h
    have hk' : k ∈ m.pageList := hk
    rw [hl, List.concat_eq_append] at hsorted hk'
    change (m.page k).seqNumber ≤ (m.page m.back).seqNumber
    rw [hback]
    rcases List.mem_append.mp hk' with hk | hk
    · exact Nat.le_of_lt ((List.pairwise_append.mp hsorted).2.2 k hk b List.mem_cons_self)
    · exact Nat.le_of_eq (congrArg (fun j => (m.page j).seqNumber) (List.mem_singleton.mp hk))

/-! ## Duplicates -/

theorem lastItem_page {p : Page} {vs : List Value} (h : Holds p vs) (fuel : Nat) {itemIndex : Nat} (hb : Between vs itemIndex)
    (last : Option Item) (item : Item) : (lastItem fuel p itemIndex last item).1 = p := by
  induction fuel generalizing itemIndex last item with
  | zero => rfl
  | succ fuel ih =>
    have hpage := @Holds.findItem_page p vs ⟨NS_ANY, .any, none, CHUNK_ANY, VER_ANY⟩ itemIndex item h hb
    unfold lastItem
    dsimp only
    split_ifs with hok
    · obtain ⟨v, hv, -, -, hfound⟩ := h.findItem_ok hb hok
      have hlayout : Layout p vs := by
        cases h with
        | fresh h => exact absurd hv List.not_mem_nil
        | layout h => exact h
      have hspan : v.index + v.header.span = Span.stop v := (hlayout.flash.fits v hv).span_eq
      rw [hfound]
      dsimp only
      rw [hspan]
      exact ih (hlayout.flash.ordered.between_stop hv) _ _
    · exact hpage

/-- A storage with nothing but its pages. -/
def bare (m : PageManager) : Storage := ⟨false, m, [], []⟩

theorem eraseFirst_trimmed {q : Query} (h : m.Sound) (hl : ∀ i ∈ l, i ∈ m.pageList) :
    Storage.Trimmed m.bare (bare (eraseFirst q l m).2) := by
  induction l generalizing m with
  | nil => exact .refl _
  | cons i l ih =>
    have htrimmed := @Storage.pageEraseItem_trimmed m.bare q true i h (hl i List.mem_cons_self)
    have hl' : ∀ j ∈ l, j ∈ m.pageList := fun j hj => hl j (List.mem_cons_of_mem i hj)
    unfold eraseFirst
    dsimp only
    split_ifs
    · exact ih h hl'
    · exact htrimmed
    · exact htrimmed.trans (ih (htrimmed.sound h) fun j hj => htrimmed.pageList.symm ▸ hl' j hj)

theorem eraseDuplicate_trimmed (h : m.Sound) : Storage.Trimmed m.bare m.eraseDuplicate.bare := by
  have hpage := lastItem_page (h.holds _ (h.lt_of_used h.back_mem)) (ENTRY_COUNT + 1) between_zero none blankEntry
  have holder : ∀ i ∈ m.pageList.dropLast, i ∈ m.pageList := fun i hi => List.dropLast_subset _ hi
  unfold eraseDuplicate
  dsimp only
  rw [hpage, setPage_page]
  cases (lastItem (ENTRY_COUNT + 1) (m.page m.back) 0 none blankEntry).2 with
  | none => exact .refl _
  | some item =>
    have hfirst := @eraseFirst_trimmed m m.pageList.dropLast
      ⟨item.nsIndex, item.datatype, some item.keyString, item.chunkIndex, VER_ANY⟩ h holder
    dsimp only
    split_ifs
    · exact hfirst.trans (eraseFirst_trimmed (hfirst.sound h) fun i hi => hfirst.pageList.symm ▸ holder i hi)
    · exact hfirst

theorem finishFreeing_eq (h : m.Sound) : m.finishFreeing = (ESP_OK, m) := by
  have hnone : (m.pageList.find? fun i => (m.page i).state = .freeing) = none :=
    List.find?_eq_none.mpr fun i hi => by simpa using h.used i hi
  unfold finishFreeing
  rw [hnone]

/-! ## The pages of a partition -/

/-- What the pages come to after a restart. -/
structure Restarted (sectors : List Sector) (out : EspErr × PageManager) : Prop where
  sound : out.1 = ESP_OK → out.2.Sound
  numbered : out.1 = ESP_OK → Distinct sectors → out.2.Numbered
  length : out.1 = ESP_OK → out.2.pages.length = sectors.length
  first : out.1 = ESP_OK → (∀ x ∈ sectors, x.header = none) → out.2.seqNumber = 1
  spare : 2 ≤ sectors.length → (∃ x ∈ sectors, x.header = none) → out.1 = ESP_OK ∧ out.2.freePageList ≠ []

theorem Listed.activate {sectors : List Sector} (h : Listed sectors m) (hnil : m.pageList = []) :
    Restarted sectors (PageManager.activatePage { m with seqNumber := 0 }) := by
  have hlists := h.lists
  rw [hnil, List.nil_append] at hlists
  by_cases hfree : m.freePageList = []
  · have hrefused : PageManager.activatePage { m with seqNumber := 0 } =
        (ESP_ERR_NVS_NOT_ENOUGH_SPACE, { m with seqNumber := 0 }) := by
      unfold activatePage
      rw [hfree]
    have hne : ESP_ERR_NVS_NOT_ENOUGH_SPACE ≠ ESP_OK := by decide
    rw [hrefused]
    refine ⟨fun hok => absurd hok hne, fun hok => absurd hok hne, fun hok => absurd hok hne, fun hok => absurd hok hne,
      fun htwo => ?_⟩
    rw [hfree] at hlists
    have hlen := hlists.length_eq
    rw [List.length_range, List.length_nil] at hlen
    omega
  · obtain ⟨f, rest, hfree⟩ := List.exists_cons_of_ne_nil hfree
    have hfresh : ∀ k ∈ m.freePageList, Fresh (m.page k) ∧ k < m.pages.length := fun k hk => by
      obtain ⟨x, hx, hnone⟩ := h.free k hk
      have hloaded := h.loaded k x hx
      exact ⟨hloaded.holds.fresh_of_uninitialized (hloaded.unused hnone), h.length.symm ▸ (List.getElem?_eq_some_iff.mp hx).1⟩
    obtain ⟨hf, hlt⟩ := hfresh f (hfree ▸ List.mem_cons_self)
    obtain ⟨m', hactivate, hm'⟩ := @activatePage_spec { m with seqNumber := 0 } f rest hfree hlt hf.state
    have hfree' : m'.freePageList = rest := by
      rw [hm'.freePageList]
      change m.freePageList.tail = rest
      rw [hfree]
      rfl
    have hlist' : m'.pageList = [f] := by
      rw [hm'.pageList]
      change m.pageList ++ [f] = [f]
      rw [hnil]
      rfl
    have hpage : m'.page f = { m.page f with seqNumber := 0 } := hm'.page
    have hothers : ∀ k, k ≠ f → m'.page k = m.page k := hm'.others
    have hnodup : (f :: rest).Nodup := hfree ▸ hlists.nodup_iff.mpr List.nodup_range
    have hlength : m'.pages.length = sectors.length := hm'.length.trans h.length
    rw [hactivate]
    refine ⟨fun _ => ⟨by simp [hlist'], ?_, fun k hk => ?_, fun k hk => ?_, fun k hk => ?_⟩, fun _ _ _ => ⟨?_, fun k hk => ?_⟩,
      fun _ => hlength, fun _ _ => hm'.seqNumber, fun htwo _ => ⟨rfl, fun hrest => ?_⟩⟩
    · rw [hlist', hfree', hlength, List.singleton_append, ← hfree]
      exact hlists
    · by_cases hkf : k = f
      · have hfresh' := hf.numbered 0
        rw [hkf, hpage, (Holds.fresh hfresh').values_eq]
        exact .fresh hfresh'
      · rw [hothers k hkf]
        exact (h.loaded k _ (List.getElem?_eq_getElem (hlength ▸ hk))).holds
    · rw [hlist'] at hk
      rw [List.mem_singleton.mp hk, hpage]
      change (m.page f).state ≠ .freeing
      rw [hf.state]
      decide
    · rw [hfree'] at hk
      rw [hothers k fun heq => (List.nodup_cons.mp hnodup).1 (heq ▸ hk)]
      exact (hfresh k (hfree ▸ List.mem_cons_of_mem f hk)).1.state
    · rw [hlist']
      exact List.pairwise_singleton _ _
    · rw [hlist'] at hk
      rw [List.mem_singleton.mp hk, hpage, hm'.seqNumber]
      exact Nat.one_pos
    · rw [hfree, ← hfree', hrest] at hlists
      have hlen := hlists.length_eq
      rw [List.length_range, List.length_singleton] at hlen
      omega

/-- The lists are made from the flash; a free page is left where there was one. -/
theorem load_spec {sectors : List Sector} (hsectors : ∀ x ∈ sectors, x.Loadable) : Restarted sectors (load sectors) := by
  have hempty : Listed [] ⟨[], [], [], 0⟩ :=
    ⟨rfl, fun k x hx => (by cases hx), .refl _, fun k hk => absurd hk List.not_mem_nil, fun k hk => absurd hk List.not_mem_nil⟩
  obtain ⟨m, hload, hlisted, hsorted⟩ := loadPages_spec hempty hsectors
  rw [List.nil_append] at hlisted hsorted
  unfold load
  have hload' : loadPages sectors 0 ⟨[], [], [], 0⟩ = (ESP_OK, m) := hload
  rw [hload']
  dsimp only
  rw [if_neg (not_not.mpr rfl)]
  by_cases hnil : m.pageList = []
  · rw [if_pos hnil]
    exact hlisted.activate hnil
  · have hback : m.back ∈ m.pageList := (hlisted.sound hnil 0).back_mem
    rw [if_neg hnil, (hlisted.page_used hback).2]
    dsimp only
    have hsound := hlisted.sound hnil ((m.page m.back).seqNumber + 1)
    have htrimmed := eraseDuplicate_trimmed hsound
    have hsound' := htrimmed.sound hsound
    have hfinish : (PageManager.eraseDuplicate { m with seqNumber := (m.page m.back).seqNumber + 1 }).finishFreeing = (ESP_OK, _) :=
      finishFreeing_eq hsound'
    have hlength : (PageManager.eraseDuplicate { m with seqNumber := (m.page m.back).seqNumber + 1 }).pages.length =
        sectors.length := (Moves.length htrimmed.moves hsound).trans hlisted.length
    rw [hfinish, if_neg (not_not.mpr rfl)]
    dsimp only
    split_ifs with hnone
    · have hne : ESP_ERR_NVS_NO_FREE_PAGES ≠ ESP_OK := by decide
      refine ⟨fun hok => absurd hok hne, fun hok => absurd hok hne, fun hok => absurd hok hne, fun hok => absurd hok hne, ?_⟩
      rintro - ⟨x, hx, hheader⟩
      obtain ⟨k, hk⟩ := List.mem_iff_getElem?.mp hx
      have hmem : k ∈ m.pageList ++ m.freePageList :=
        hlisted.lists.mem_iff.mpr (List.mem_range.mpr (List.getElem?_eq_some_iff.mp hk).1)
      rcases List.mem_append.mp hmem with hused | hfree
      · obtain ⟨y, header, hy, hsome⟩ := hlisted.used k hused
        rw [hk] at hy
        obtain rfl := Option.some.inj hy
        rw [hheader] at hsome
        cases hsome
      · exact absurd hnone (Moves.spare htrimmed.moves hsound (List.ne_nil_of_mem hfree))
    · refine ⟨fun _ => hsound', fun _ hdistinct => Moves.numbered htrimmed.moves hsound
        (hsorted hdistinct List.Pairwise.nil).numbered, fun _ => hlength, fun _ hheaders => ?_, fun _ _ => ⟨rfl, hnone⟩⟩
      obtain ⟨x, header, hx, hheader⟩ := hlisted.used _ hback
      rw [hheaders x (List.mem_of_getElem? hx)] at hheader
      cases hheader

/-! ## Pages that are left on flash -/

theorem sector_get {k : Nat} {x : Sector} (hx : (m.pages.map Page.sector)[k]? = some x) :
    k < m.pages.length ∧ x = (m.page k).sector := by
  obtain ⟨hlt, heq⟩ := List.getElem?_eq_some_iff.mp hx
  rw [List.length_map] at hlt
  refine ⟨hlt, ?_⟩
  unfold PageManager.page
  rw [List.getElem_map] at heq
  rw [List.getD_eq_getElem?_getD, List.getElem?_eq_getElem hlt, ← heq]
  rfl

theorem Sound.loadable (h : m.Sound) : ∀ x ∈ m.pages.map Page.sector, x.Loadable := by
  intro x hx
  obtain ⟨k, hk⟩ := List.mem_iff_getElem?.mp hx
  obtain ⟨hlt, rfl⟩ := sector_get hk
  refine ⟨m.page k, _, h.holds k hlt, ?_, rfl⟩
  have hmem := h.lists.mem_iff.mpr (List.mem_range.mpr hlt)
  rcases List.mem_append.mp hmem with hused | hfree
  · exact h.used k hused
  · rw [h.free k hfree]
    exact PageState.noConfusion

/-- A page with a header is in use, and the header has its number. -/
theorem Sound.header_used (h : m.Sound) {k : Nat} (hlt : k < m.pages.length) {header : Header}
    (hheader : (m.page k).sector.header = some header) : k ∈ m.pageList ∧ header.seqNumber = (m.page k).seqNumber := by
  have hne : (m.page k).state ≠ .uninitialized := fun hstate => by
    rw [((h.holds k hlt).fresh_of_uninitialized hstate).sector] at hheader
    cases hheader
  have hlayout := (h.holds k hlt).layout_of_ne hne
  rw [hlayout.header] at hheader
  refine ⟨?_, congrArg Header.seqNumber (Option.some.inj hheader).symm⟩
  rcases List.mem_append.mp (h.lists.mem_iff.mpr (List.mem_range.mpr hlt)) with hused | hfree
  · exact hused
  · exact absurd (h.free k hfree) hne

theorem Numbered.distinct (h : m.Sound) (hn : m.Numbered) (hlt : m.seqNumber < 2 ^ 32) :
    Distinct (m.pages.map Page.sector) := by
  intro j k x y header other hx hy hheader hother heq
  obtain ⟨hj, rfl⟩ := sector_get hx
  obtain ⟨hk, rfl⟩ := sector_get hy
  obtain ⟨hjused, hjseq⟩ := h.header_used hj hheader
  obtain ⟨hkused, hkseq⟩ := h.header_used hk hother
  by_contra hne
  have hsorted : m.pageList.Pairwise fun j k => (m.page j).seqNumber ≠ (m.page k).seqNumber := (hn hlt).1.imp Nat.ne_of_lt
  have : Std.Symm fun j k => (m.page j).seqNumber ≠ (m.page k).seqNumber := ⟨fun _ _ => Ne.symm⟩
  exact hsorted.forall hjused hkused hne (hjseq.symm.trans (heq.trans hkseq))

end PageManager

namespace Storage
variable {s : Storage} {q : Query} {i : Nat}

/-! ## Visits -/

/-- What a visit does with an item erases at most, on the page of the item. -/
def Visits {α : Type} (f : α → Item → Nat → Storage → α × Storage) : Prop :=
  ∀ acc item i s, s.manager.Sound → i ∈ s.manager.pageList →
    Trimmed s (f acc item i s).2 ∧ ((f acc item i s).2.page i).values ⊆ (s.page i).values

theorem Visits.unchanged {α : Type} (f : α → Item → Storage → α) : Visits fun acc item _ s => (f acc item s, s) :=
  fun _ _ _ s _ _ => ⟨.refl s, fun _ => id⟩

theorem visitOn_trimmed {α : Type} {f : α → Item → Nat → Storage → α × Storage} (hf : Visits f) (h : s.manager.Sound)
    (hi : i ∈ s.manager.pageList) {itemIndex : Nat} (hb : Between (s.page i).values itemIndex) (fuel : Nat) (acc : α) :
    Trimmed s (visitOn q f i fuel itemIndex acc s).2 := by
  induction fuel generalizing s itemIndex acc with
  | zero => exact .refl s
  | succ fuel ih =>
    obtain ⟨hset, hfound⟩ := @findOnPage s q i h hi itemIndex hb
    unfold visitOn
    dsimp only
    rw [hset]
    by_cases hok : ((s.page i).findItem q itemIndex blankEntry).err ≠ ESP_OK
    · rw [if_pos hok]
      exact .refl s
    · obtain ⟨v, hv, -, -, heq⟩ := hfound (not_not.mp hok)
      have hlayout := h.layout_of_value hi hv
      have hspan : v.index + v.header.span = Span.stop v := (hlayout.flash.fits v hv).span_eq
      rw [if_neg hok, heq]
      dsimp only
      obtain ⟨htrimmed, hvalues⟩ := hf acc v.header i s h hi
      rw [hspan]
      refine htrimmed.trans (ih (htrimmed.sound h) (htrimmed.pageList.symm ▸ hi) ?_ _)
      exact fun w hw => hlayout.flash.ordered.between_stop hv w (hvalues hw)

theorem visitAll_trimmed {α : Type} {f : α → Item → Nat → Storage → α × Storage} (hf : Visits f) (h : s.manager.Sound)
    {l : List Nat} (hl : ∀ i ∈ l, i ∈ s.manager.pageList) (acc : α) : Trimmed s (visitAll q f l acc s).2 := by
  induction l generalizing s acc with
  | nil => exact .refl s
  | cons i l ih =>
    have htrimmed := @visitOn_trimmed s q i α f hf h (hl i List.mem_cons_self) 0 between_zero (ENTRY_COUNT + 1) acc
    unfold visitAll
    dsimp only
    exact htrimmed.trans (ih (htrimmed.sound h) (fun j hj => htrimmed.pageList.symm ▸ hl j (List.mem_cons_of_mem i hj)) _)

/-! ## Loading -/

theorem eraseIndex_trimmed (h : s.manager.Sound) {l : List Nat} (hl : ∀ i ∈ l, i ∈ s.manager.pageList) :
    Trimmed s (eraseIndex q l s) := by
  induction l generalizing s with
  | nil => exact .refl s
  | cons i l ih =>
    have htrimmed := @pageEraseItem_trimmed s q true i h (hl i List.mem_cons_self)
    have hl' : ∀ j ∈ l, j ∈ s.manager.pageList := fun j hj => hl j (List.mem_cons_of_mem i hj)
    unfold eraseIndex
    dsimp only
    split_ifs
    · exact ih h hl'
    · exact htrimmed
    · exact htrimmed.trans (ih (htrimmed.sound h) fun j hj => htrimmed.pageList.symm ▸ hl' j hj)

/-- The indices whose chunks are not all there. -/
theorem keepIndexes_trimmed (h : s.manager.Sound) (counted kept : List BlobIndexNode) :
    Trimmed s (counted.foldl (fun (kept, s) e =>
      if e.observedDataSize ≠ e.dataSize ∨ e.observedChunkCount ≠ e.chunkCount.toNat then
        (kept, eraseIndex ⟨e.nsIndex, .blobIdx, some e.key, CHUNK_ANY, e.chunkStart⟩ s.manager.pageList s)
      else (kept ++ [e], s)) (kept, s)).2 := by
  induction counted generalizing s kept with
  | nil => exact .refl s
  | cons e counted ih =>
    rw [List.foldl_cons]
    dsimp only
    split_ifs
    · have htrimmed := @eraseIndex_trimmed s ⟨e.nsIndex, .blobIdx, some e.key, CHUNK_ANY, e.chunkStart⟩ h
        s.manager.pageList fun i hi => hi
      exact htrimmed.trans (ih (htrimmed.sound h) _)
    · exact ih h _

theorem eraseMismatched_trimmed (h : s.manager.Sound) (nodes : List BlobIndexNode) :
    Trimmed s (eraseMismatchedBlobIndexes nodes s).2 := by
  have hcount : Visits fun (nodes : List BlobIndexNode) item (_ : Nat) (s : Storage) => (countChunk item nodes, s) :=
    .unchanged fun nodes item _ => countChunk item nodes
  have hvisit := @visitAll_trimmed s (anyItem .blobData) _ _ hcount h s.manager.pageList (fun i hi => hi) nodes
  unfold eraseMismatchedBlobIndexes
  dsimp only
  exact hvisit.trans (keepIndexes_trimmed (hvisit.sound h) _ _)

theorem eraseOrphans_trimmed (h : s.manager.Sound) (nodes : List BlobIndexNode) : Trimmed s (eraseOrphanDataBlobs nodes s) := by
  have hf : Visits fun (_ : Unit) item i (s : Storage) =>
      if nodes.any fun e => e.owns item then ((), s)
      else ((), (s.onPage i (·.eraseItem (chunkQuery item.nsIndex item.keyString item.chunkIndex) true)).2) := by
    intro _ item i s hs hi
    dsimp only
    split_ifs
    · exact ⟨.refl s, fun _ => id⟩
    · exact ⟨pageEraseItem_trimmed hs hi, pageEraseItem_values hs hi⟩
  exact visitAll_trimmed hf h (fun i hi => hi) ()

/-- The pages of a storage that is loaded are those of the page manager, and items are erased from them. -/
theorem init_spec {sectors : List Sector} (hsectors : ∀ x ∈ sectors, x.Loadable) :
    Restarted sectors ((init sectors).1, (init sectors).2.manager) ∧
      ((init sectors).1 = ESP_OK → (init sectors).2.active = true) := by
  have hload := load_spec hsectors
  unfold init
  dsimp only
  by_cases herr : (PageManager.load sectors).1 ≠ ESP_OK
  · rw [if_pos herr]
    exact ⟨hload, fun hok => absurd hok herr⟩
  rw [if_neg herr]
  rw [not_not] at herr
  obtain ⟨s₀, hs₀⟩ : ∃ s₀ : Storage, s₀ = ⟨false, (PageManager.load sectors).2, [], []⟩ := ⟨_, rfl⟩
  have hmanager : s₀.manager = (PageManager.load sectors).2 := congrArg Storage.manager hs₀
  have hsound : s₀.manager.Sound := hmanager ▸ hload.sound herr
  rw [← hs₀]
  have hnames : Visits fun (acc : List NamespaceEntry × List Bool) item (_ : Nat) (s : Storage) =>
      ((acc.1 ++ [(⟨upToNul item.key, item.octet 24⟩ : NamespaceEntry)], acc.2.set (item.octet 24).toNat true), s) :=
    .unchanged fun acc item _ => (acc.1 ++ [⟨upToNul item.key, item.octet 24⟩], acc.2.set (item.octet 24).toNat true)
  have hnodes : Visits fun (nodes : List BlobIndexNode) item (_ : Nat) (s : Storage) =>
      (nodes ++ [(⟨item.keyString, item.nsIndex, item.chunkCount, item.chunkStart, item.blobDataSize, 0, 0⟩ : BlobIndexNode)], s) :=
    .unchanged fun nodes item _ =>
      nodes ++ [⟨item.keyString, item.nsIndex, item.chunkCount, item.chunkStart, item.blobDataSize, 0, 0⟩]
  have hvisit := @visitAll_trimmed s₀ ⟨NS_INDEX, .u8, none, CHUNK_ANY, VER_ANY⟩ _ _ hnames hsound _ (fun i hi => hi)
    ([], List.replicate 256 false)
  have hfirst : s₀.manager.Moves s₀.loadNamespaces.manager := hvisit.moves
  have hsound1 := Moves.sound hfirst hsound
  have hsecond : Trimmed s₀.loadNamespaces s₀.loadNamespaces.populateBlobIndices.2 :=
    visitAll_trimmed hnodes hsound1 (fun i hi => hi) []
  have hsound2 := hsecond.sound hsound1
  have hthird := eraseMismatched_trimmed hsound2 s₀.loadNamespaces.populateBlobIndices.1
  have hfourth := eraseOrphans_trimmed (hthird.sound hsound2)
    (eraseMismatchedBlobIndexes s₀.loadNamespaces.populateBlobIndices.1 s₀.loadNamespaces.populateBlobIndices.2).1
  have hmoves : s₀.manager.Moves _ := hfirst.trans ((hsecond.trans (hthird.trans hfourth)).moves)
  have hmoves' : (PageManager.load sectors).2.Moves _ := hmanager ▸ hmoves
  have hsound' := hload.sound herr
  refine ⟨⟨fun _ => Moves.sound hmoves' hsound', fun _ hdistinct => Moves.numbered hmoves' hsound' (hload.numbered herr hdistinct),
    fun _ => (Moves.length hmoves' hsound').trans (hload.length herr), fun _ hheaders => ?_, fun htwo hfree => ⟨rfl, ?_⟩⟩,
    fun _ => rfl⟩
  · rw [← hload.first herr hheaders, ← hmanager]
    exact (hsecond.trans (hthird.trans hfourth)).seqNumber.trans hvisit.seqNumber
  · exact Moves.spare hmoves' hsound' (hload.spare htwo hfree).2

end Storage

end EspIdf.Nvs
