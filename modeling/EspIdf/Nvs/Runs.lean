import EspIdf.Nvs.Restart

/-!
# NVS: runs

* `Storage.nextEntry_storage` : an iteration changes nothing;
* `Op`, `Op.perform` : the operations; `Op.Call` : what they are called with; `Op.Proper` : the steps that go right;
* `Reachable` : the storages of a run, from a partition that was erased;
* `Reachable.sound` : what they keep.
-/

namespace EspIdf.Nvs

open Spans PageManager

/-! ## Iterations -/

section scan
variable {p : Page} {vs : List Value} {q : Query} {itemIndex : Nat} {item : Item}

/-- Where a search ends at a value, its place is returned, unless a blob of the first version is searched for. -/
theorem scan_place (hq : q.datatype ≠ .blob) (h : (Page.scan q p vs itemIndex item).err ≠ ESP_ERR_NVS_NOT_FOUND) :
    ∃ v ∈ vs, (Page.scan q p vs itemIndex item).itemIndex = v.index ∧ (Page.scan q p vs itemIndex item).item = v.header := by
  induction vs generalizing item with
  | nil => exact absurd rfl h
  | cons v vs ih =>
    unfold Page.scan at h ⊢
    cases hjudge : q.judge v.header with
    | skip =>
      rw [hjudge] at h
      obtain ⟨w, hw, hplace⟩ := ih h
      exact ⟨w, List.mem_cons_of_mem v hw, hplace⟩
    | mismatch indexed =>
      have hindexed : indexed = true := by
        unfold Query.judge at hjudge
        split_ifs at hjudge with h0 h1 h2 h3 h4 h5 h6 h7 h8 h9
        · exact absurd h4.2.1 hq
        · exact (Verdict.mismatch.inj hjudge).symm
      refine ⟨v, List.mem_cons_self, ?_, rfl⟩
      dsimp only
      rw [if_pos hindexed]
    | found => exact ⟨v, List.mem_cons_self, rfl, rfl⟩

end scan

namespace Storage
variable {s : Storage} {q : Query} {i : Nat}

theorem nextOn_spec (hq : q.datatype ≠ .blob) (h : s.manager.Sound) (hi : i ∈ s.manager.pageList) (fuel : Nat)
    {entryIndex : Nat} (hb : Between (s.page i).values entryIndex) (item : Item) :
    (nextOn q i fuel entryIndex item s).2 = s ∧
      ∀ out, (nextOn q i fuel entryIndex item s).1 = some out → Between (s.page i).values out.2 := by
  induction fuel generalizing entryIndex item with
  | zero => exact ⟨rfl, fun out hout => by cases hout⟩
  | succ fuel ih =>
    have hholds := h.holds i (h.lt_of_used hi)
    have hpage : ((s.page i).findItem q entryIndex item).page = s.page i := hholds.findItem_page hb
    have hplace : ((s.page i).findItem q entryIndex item).err ≠ ESP_ERR_NVS_NOT_FOUND →
        Between (s.page i).values (((s.page i).findItem q entryIndex item).itemIndex +
          ((s.page i).findItem q entryIndex item).item.span) := by
      intro hne
      have hfind : (s.page i).findItem q entryIndex item =
          (s.page i).scan q (candidates q (since (s.page i).values entryIndex)) entryIndex item := hholds.findItem_eq hb
      rw [hfind] at hne ⊢
      obtain ⟨v, hv, hindex, hheader⟩ := scan_place hq hne
      have hv' := (mem_since.mp (candidates_subset hv)).1
      have hlayout := h.layout_of_value hi hv'
      have hspan : v.index + v.header.span = Span.stop v := (hlayout.flash.fits v hv').span_eq
      rw [hindex, hheader, hspan]
      exact hlayout.flash.ordered.between_stop hv'
    unfold nextOn
    dsimp only
    rw [hpage, setPage_page]
    split_ifs with hyield hmore
    · refine ⟨rfl, fun out hout => ?_⟩
      obtain rfl := Option.some.inj hout
      exact hplace (by rw [hyield.1]; decide)
    · exact ih (hplace hmore) _
    · exact ⟨rfl, fun out hout => by cases hout⟩

/-- The pages that an iterator has before it, and where it is on the first of them. -/
structure Iterator.At (it : Iterator) (s : Storage) : Prop where
  type : it.datatype ≠ .blob
  pages : ∀ i ∈ it.pages, i ∈ s.manager.pageList
  place : ∀ i ∈ it.pages.head?, Between (s.page i).values it.entryIndex

theorem nextFrom_spec {it : Iterator} (hq : it.datatype ≠ .blob) (h : s.manager.Sound) {l : List Nat}
    (hl : ∀ i ∈ l, i ∈ s.manager.pageList) {entryIndex : Nat} (hb : ∀ i ∈ l.head?, Between (s.page i).values entryIndex) :
    (nextFrom it l entryIndex s).2 = s ∧ ∀ out, (nextFrom it l entryIndex s).1 = some out → out.2.At s := by
  induction l generalizing entryIndex with
  | nil => exact ⟨rfl, fun out hout => by cases hout⟩
  | cons i l ih =>
    obtain ⟨hstorage, hplace⟩ := @nextOn_spec s ⟨it.nsIndex, it.datatype, none, CHUNK_ANY, VER_ANY⟩ i hq h
      (hl i List.mem_cons_self) (ENTRY_COUNT + 1) entryIndex (hb i rfl) blankEntry
    unfold nextFrom
    revert hstorage hplace
    generalize nextOn ⟨it.nsIndex, it.datatype, none, CHUNK_ANY, VER_ANY⟩ i (ENTRY_COUNT + 1) entryIndex blankEntry s = found
    obtain ⟨found, t⟩ := found
    rintro rfl hplace
    cases found with
    | none => exact ih (fun j hj => hl j (List.mem_cons_of_mem i hj)) fun j _ => between_zero
    | some out =>
      refine ⟨rfl, fun result hresult => ?_⟩
      obtain rfl := Option.some.inj hresult
      refine ⟨hq, hl, fun j hj => ?_⟩
      obtain rfl : i = j := Option.some.inj hj
      exact hplace out rfl

/-- An iteration changes nothing. -/
theorem nextEntry_spec {it : Iterator} (h : s.manager.Sound) (hit : it.At s) :
    (s.nextEntry it).2 = s ∧ ∀ out, (s.nextEntry it).1 = some out → out.2.At s := nextFrom_spec hit.type h hit.pages hit.place

theorem createOrOpenNamespace_open {garbage : UInt32} {name : CString} :
    (createOrOpenNamespace garbage s name false).2.2 = s := by
  unfold createOrOpenNamespace
  by_cases hactive : (!s.active) = true
  · rw [if_pos hactive]
  · rw [if_neg hactive]
    cases s.namespaces.find? fun e => name.chars.take MAX_KEY_LENGTH = e.name.take MAX_KEY_LENGTH with
    | some e => rfl
    | none => rfl

theorem findEntry_spec {garbage : UInt32} {datatype : ItemType} (hq : datatype ≠ .blob) (h : s.manager.Sound)
    (name : Option CString) :
    (findEntry garbage s datatype name).2 = s ∧ ∀ out, (findEntry garbage s datatype name).1 = some out → out.2.At s := by
  unfold findEntry
  cases name with
  | none => exact nextEntry_spec h ⟨hq, fun i hi => hi, fun i _ => between_zero⟩
  | some name =>
    have hopen := @createOrOpenNamespace_open s garbage name
    dsimp only
    revert hopen
    generalize createOrOpenNamespace garbage s name false = out
    obtain ⟨err, nsIndex, t⟩ := out
    rintro rfl
    cases nsIndex with
    | none => exact ⟨rfl, fun out hout => by cases hout⟩
    | some nsIndex => exact nextEntry_spec h ⟨hq, fun i hi => hi, fun i _ => between_zero⟩

/-- `nextEntry`, up to `n` times. -/
def iterate : (n : Nat) → Option (EntryInfo × Iterator) × Storage → Storage
  | 0, (_, s) => s
  | _ + 1, (none, s) => s
  | n + 1, (some (_, it), s) => iterate n (s.nextEntry it)

theorem iterate_storage (h : s.manager.Sound) (n : Nat) {found : Option (EntryInfo × Iterator)}
    (hfound : ∀ out, found = some out → out.2.At s) : iterate n (found, s) = s := by
  induction n generalizing found with
  | zero => rfl
  | succ n ih =>
    cases found with
    | none => rfl
    | some out =>
      obtain ⟨hstorage, hnext⟩ := nextEntry_spec h (hfound out rfl)
      have hpair : s.nextEntry out.2 = ((s.nextEntry out.2).1, s) := Prod.ext rfl hstorage
      unfold iterate
      rw [hpair]
      exact ih hnext

/-! ## Operations -/

/-- The calls of a storage, each with what is in a variable that it may read before it is written. -/
inductive Op
  | createOrOpenNamespace (garbage : UInt32) (nsName : CString) (canCreate : Bool)
  | writeItem (garbage : UInt32) (nsIndex : UInt8) (datatype : ItemType) (key : CString) (data : List UInt8)
      (purgeAfterErase : Bool)
  | readItem (nsIndex : UInt8) (datatype : ItemType) (key : CString) (dataSize : Nat)
  | eraseItem (nsIndex : UInt8) (datatype : ItemType) (key : CString) (purgeAfterErase : Bool)
  | eraseNamespace (nsIndex : UInt8) (purgeAfterErase : Bool)
  | purgeNamespace (nsIndex : UInt8)
  | iterate (garbage : UInt32) (datatype : ItemType) (name : Option CString) (n : Nat)
  | restart

/-- What is left on flash is loaded anew at a restart. -/
def Op.perform (s : Storage) : Op → EspErr × Storage
  | createOrOpenNamespace garbage nsName canCreate =>
    let (err, _, s) := s.createOrOpenNamespace garbage nsName canCreate
    (err, s)
  | writeItem garbage nsIndex datatype key data purge => s.writeItem garbage nsIndex datatype key data purge
  | readItem nsIndex datatype key dataSize =>
    let (err, s, _) := s.readItem nsIndex datatype key dataSize
    (err, s)
  | eraseItem nsIndex datatype key purge => s.eraseItem nsIndex datatype key purge
  | eraseNamespace nsIndex purge => s.eraseNamespace nsIndex purge
  | purgeNamespace nsIndex => s.purgeNamespace nsIndex
  | iterate garbage datatype name n => (ESP_OK, Storage.iterate n (findEntry garbage s datatype name))
  | restart => Storage.init (s.manager.pages.map Page.sector)

/-- What the handles call: values of a type are written, and iterations are over the types of the interface. -/
def Op.Call : Op → Prop
  | writeItem _ _ datatype _ data _ => IsValue datatype data
  | iterate _ datatype _ _ => datatype ≠ .blob
  | _ => True

/-- No chunk gets the index that stands for any, and nothing that is live is taken for an erased item. -/
def Op.Proper (s : Storage) : Op → Prop
  | writeItem _ _ datatype _ _ _ => datatype = .blob → s.manager.roomy.card ≤ 127
  | purgeNamespace nsIndex => ∀ i ∈ s.manager.pageList, (s.page i).PurgeSafe nsIndex 0
  | _ => True

/-- The storages of a run on a partition of `n` pages, as long as no page's number wraps. -/
inductive Reachable (n : Nat) : Storage → Prop
  | init {s : Storage} (h : Storage.init (List.replicate n .erased) = (ESP_OK, s)) : Reachable n s
  | step {s s' : Storage} {err : EspErr} {op : Op} (h : Reachable n s) (hcall : op.Call) (hproper : op.Proper s)
      (hrun : op.perform s = (err, s')) (hrestart : op = .restart → err = ESP_OK) (hnumber : s'.manager.seqNumber < 2 ^ 32) :
      Reachable n s'

theorem Reachable.perform {n : Nat} {s : Storage} (h : Reachable n s) (op : Op) (hcall : op.Call) (hproper : op.Proper s)
    (hrestart : op ≠ .restart) (hnumber : (op.perform s).2.manager.seqNumber < 2 ^ 32) : Reachable n (op.perform s).2 :=
  .step h hcall hproper Prod.mk.eta.symm (fun heq => absurd heq hrestart) hnumber

/-- What the storages of a run keep. -/
structure Intact (n : Nat) (s : Storage) : Prop where
  active : s.active = true
  sound : s.manager.Sound
  numbered : s.manager.Numbered
  number : s.manager.seqNumber < 2 ^ 32
  length : s.manager.pages.length = n
  spare : 2 ≤ n → s.manager.freePageList ≠ []

/-- An operation other than a restart moves from page to page. -/
theorem Op.perform_moved {op : Op} {s : Storage} (h : s.manager.Sound) (hn : s.manager.Numbered) (hcall : op.Call)
    (hproper : op.Proper s) (hrestart : op ≠ .restart) (hnumber : (op.perform s).2.manager.seqNumber < 2 ^ 32) :
    Moved s (op.perform s).2 := by
  cases op with
  | createOrOpenNamespace garbage nsName canCreate => exact createOrOpenNamespace_moved h hn hnumber
  | writeItem garbage nsIndex datatype key data purge => exact writeItem_moved h hn hcall hproper hnumber
  | readItem nsIndex datatype key dataSize => exact (readItem_trimmed h dataSize).toMoved
  | eraseItem nsIndex datatype key purge => exact (eraseItem_trimmed h datatype).toMoved
  | eraseNamespace nsIndex purge => exact (eraseNamespace_trimmed h).toMoved
  | purgeNamespace nsIndex => exact (purgeNamespace_trimmed h hproper).toMoved
  | iterate garbage datatype name n =>
    obtain ⟨hstorage, hfound⟩ := @findEntry_spec s garbage datatype hcall h name
    have hpair : findEntry garbage s datatype name = ((findEntry garbage s datatype name).1, s) := Prod.ext rfl hstorage
    have hsame : (perform s (iterate garbage datatype name n)).2 = s := by
      unfold perform
      dsimp only
      rw [hpair, iterate_storage h n hfound]
    rw [hsame]
    exact .refl s
  | restart => exact absurd rfl hrestart

/-! ## What is kept -/

/-- What an operation on pages keeps. -/
theorem Intact.moved {n : Nat} {s s' : Storage} (h : Intact n s) (hm : Moved s s') (hnumber : s'.manager.seqNumber < 2 ^ 32) :
    Intact n s' :=
  ⟨hm.active.trans h.active, hm.sound h.sound, Moves.numbered hm.moves h.sound h.numbered, hnumber,
    (Moves.length hm.moves h.sound).trans h.length, fun htwo => Moves.spare hm.moves h.sound (h.spare htwo)⟩

theorem Intact.restarted {n : Nat} {sectors : List Sector} {s : Storage} (hlength : sectors.length = n)
    (hsectors : ∀ x ∈ sectors, x.Loadable) (hdistinct : Distinct sectors) (hfree : 2 ≤ n → ∃ x ∈ sectors, x.header = none)
    (h : Storage.init sectors = (ESP_OK, s)) (hnumber : s.manager.seqNumber < 2 ^ 32) : Intact n s := by
  obtain ⟨hrestarted, hactive⟩ := init_spec hsectors
  rw [h] at hrestarted hactive
  exact ⟨hactive rfl, hrestarted.sound rfl, hrestarted.numbered rfl hdistinct, hnumber, (hrestarted.length rfl).trans hlength,
    fun htwo => (hrestarted.spare (hlength.symm ▸ htwo) (hfree htwo)).2⟩

theorem Reachable.intact {n : Nat} {s : Storage} (h : Reachable n s) : Intact n s := by
  induction h with
  | init h =>
    have hnone : ∀ x ∈ List.replicate n Sector.erased, x = .erased := fun x hx => List.eq_of_mem_replicate hx
    have hload : ∀ x ∈ List.replicate n Sector.erased, x.Loadable := fun x hx => hnone x hx ▸ Sector.erased_loadable
    have hheader : ∀ x ∈ List.replicate n Sector.erased, x.header = none := fun x hx => by
      rw [hnone x hx]
      rfl
    refine Intact.restarted List.length_replicate hload (fun j k x y header other hx _ hsome => ?_) (fun htwo => ?_) h ?_
    · rw [hheader x (List.mem_of_getElem? hx)] at hsome
      cases hsome
    · exact ⟨_, List.mem_replicate.mpr ⟨Nat.ne_of_gt (Nat.lt_of_lt_of_le Nat.two_pos htwo), rfl⟩, rfl⟩
    · have hfirst := (init_spec hload).1.first
      rw [h] at hfirst
      rw [hfirst rfl hheader]
      decide
  | @step s s' err op h hcall hproper hrun hrestart hnumber ih =>
    by_cases hop : op = .restart
    · subst hop
      obtain rfl := hrestart rfl
      refine Intact.restarted ((List.length_map _).trans ih.length) ih.sound.loadable (ih.numbered.distinct ih.sound ih.number)
        (fun htwo => ?_) hrun hnumber
      obtain ⟨f, hf⟩ := List.exists_mem_of_ne_nil _ (ih.spare htwo)
      have hlt := ih.sound.lt_of_free hf
      have hget : (s.manager.pages.map Page.sector)[f]? = some (s.manager.page f).sector := by
        unfold PageManager.page
        rw [List.getElem?_map, List.getD_eq_getElem?_getD, List.getElem?_eq_getElem hlt]
        rfl
      refine ⟨_, List.mem_of_getElem? hget, ?_⟩
      rw [(ih.sound.fresh hf).sector]
      rfl
    · have hmoved := Op.perform_moved ih.sound ih.numbered hcall hproper hop (by rwa [hrun])
      rw [hrun] at hmoved
      exact ih.moved hmoved hnumber

end Storage

end EspIdf.Nvs
