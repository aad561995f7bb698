import EspIdf.Lib.MinHeap
import EspIdf.LogLevel.CacheArray

/-!
# The binary min-heap cache

* `CacheHeap` : the live entries of `s_log_cache`, by generation;
* `heapBubbleDown_spec` : the newest entry goes down to a leaf, and the heap is ordered again;
* `cacheHeap_laws` : no assertion fails, and the lines change as they should.
-/

namespace EspIdf.LogLevel

open MinHeap

variable {Ptr : Type}

/-- `cached_tag_entry_t`. -/
structure HeapEntry (Ptr : Type) where
  tag : Ptr
  level : Level
  generation : Nat
  deriving DecidableEq, Repr

/-- The live entries of `s_log_cache`, and `s_log_cache_max_generation`. -/
structure CacheHeap (Ptr : Type) where
  entries : List (HeapEntry Ptr)
  maxGeneration : Nat
  deriving DecidableEq, Repr

namespace CacheHeap

/-- `TAG_CACHE_SIZE`, one less than a power of two. -/
structure Size where
  size : Nat
  pow : ∃ n, 0 < n ∧ size + 1 = 2 ^ n
  fits : size * 8 < 2 ^ 31

/-- `MAX_GENERATION`. -/
abbrev maxGenerationLimit : Nat := 2 ^ 29 - 1

/-- The generation of the entry at an index. -/
abbrev generationAt (entries : List (HeapEntry Ptr)) (i : Nat) : Nat := keyAt HeapEntry.generation entries i

/-- The assertion of the search loops. -/
abbrev inOrder (entries : List (HeapEntry Ptr)) (i : Nat) : Prop :=
  i = 0 ∨ generationAt entries ((i - 1) / 2) < generationAt entries i

/-- The loop of `esp_log_cache_set_level` from an index on. -/
def setLevelFrom (text : Ptr → String) (entries : List (HeapEntry Ptr)) (tag : Ptr) (level : Level) :
    Nat → List (HeapEntry Ptr) → Option (List (HeapEntry Ptr))
  | _, [] => some []
  | i, entry :: rest =>
    if inOrder entries i then
      if text entry.tag = text tag then some ({ entry with level := level } :: rest)
      else (setLevelFrom text entries tag level (i + 1) rest).map (entry :: ·)
    else none

/-- `esp_log_cache_set_level`. -/
def setLevel (text : Ptr → String) (s : CacheHeap Ptr) (tag : Ptr) (level : Level) : Option (CacheHeap Ptr) :=
  (setLevelFrom text s.entries tag level 0 s.entries).map fun entries => { s with entries := entries }

/-- `heap_bubble_down`. -/
def heapBubbleDown (size : Nat) (entries : List (HeapEntry Ptr)) (index : Nat) : List (HeapEntry Ptr) :=
  if index < size / 2 then
    let next := if generationAt entries (2 * index + 1) < generationAt entries (2 * index + 2) then 2 * index + 1
      else 2 * index + 2
    heapBubbleDown size (swap entries index next) next
  else entries
termination_by size - index
decreasing_by
  split
  · omega
  · omega

/-- `fix_cache_generation_overflow`, when the count is at its limit. -/
def fixOverflow (s : CacheHeap Ptr) : CacheHeap Ptr :=
  if s.maxGeneration = maxGenerationLimit then
    { entries := s.entries.mapIdx fun i entry => { entry with generation := i % 2 ^ 29 },
      maxGeneration := s.entries.length }
  else s

/-- The search loop of `esp_log_cache_get_level` from an index on. -/
def findFrom [DecidableEq Ptr] (entries : List (HeapEntry Ptr)) (tag : Ptr) :
    Nat → List (HeapEntry Ptr) → Option (Option (Nat × HeapEntry Ptr))
  | _, [] => some none
  | i, entry :: rest =>
    if inOrder entries i then
      if entry.tag = tag then some (some (i, entry)) else findFrom entries tag (i + 1) rest
    else none

/-- `esp_log_cache_get_level`. -/
def getLevel [DecidableEq Ptr] (size : Nat) (s : CacheHeap Ptr) (tag : Ptr) : Option (CacheHeap Ptr × Option Level) := do
  match ← findFrom s.entries tag 0 s.entries with
  | none => some (s, none)
  | some (i, entry) =>
    if s.entries.length = size then
      let entries := s.entries.set i { entry with generation := s.maxGeneration % 2 ^ 29 }
      let entries := heapBubbleDown size entries i
      some (fixOverflow { entries := entries, maxGeneration := (s.maxGeneration + 1) % 2 ^ 32 }, some entry.level)
    else some (s, some entry.level)

/-- `esp_log_cache_clean`. -/
def clean (_ : CacheHeap Ptr) : CacheHeap Ptr := { entries := [], maxGeneration := 0 }

/-- `esp_log_cache_add`. -/
def add (size : Nat) (s : CacheHeap Ptr) (tag : Ptr) (level : Level) : CacheHeap Ptr :=
  let entry : HeapEntry Ptr := { tag := tag, level := level, generation := s.maxGeneration % 2 ^ 29 }
  let entries := if s.entries.length < size then s.entries ++ [entry]
    else heapBubbleDown size (s.entries.set 0 entry) 0
  fixOverflow { entries := entries, maxGeneration := (s.maxGeneration + 1) % 2 ^ 32 }

/-- Entries for different addresses, in heap order by their generations, which are below the next one. -/
structure WF (size : Nat) (s : CacheHeap Ptr) : Prop where
  live : s.entries.length ≤ size
  tags : (s.entries.map HeapEntry.tag).Nodup
  generations : (s.entries.map HeapEntry.generation).Nodup
  ordered : Ordered HeapEntry.generation s.entries
  older : ∀ generation ∈ s.entries.map HeapEntry.generation, generation < s.maxGeneration
  below : s.maxGeneration < maxGenerationLimit

/-- What the cache says about levels. -/
def lineOf (entry : HeapEntry Ptr) : Ptr × Level := (entry.tag, entry.level)

end CacheHeap

/-- The binary min-heap cache. -/
def cacheHeap [DecidableEq Ptr] (text : Ptr → String) (size : CacheHeap.Size) : TagCache Ptr where
  State := CacheHeap Ptr
  init := { entries := [], maxGeneration := 0 }
  setLevel := CacheHeap.setLevel text
  getLevel := CacheHeap.getLevel size.size
  clean := CacheHeap.clean
  add := CacheHeap.add size.size
  lines := fun s => s.entries.map CacheHeap.lineOf

namespace CacheHeap

variable {text : Ptr → String} {s : CacheHeap Ptr} {tag : Ptr} {level : Level} {size : Nat}
  {entries : List (HeapEntry Ptr)}

theorem Size.odd (size : Size) : size.size = 2 * (size.size / 2) + 1 := by
  obtain ⟨n, hpos, hpow⟩ := size.pow
  obtain ⟨m, rfl⟩ : ∃ m, n = m + 1 := ⟨n - 1, by omega⟩
  rw [Nat.pow_succ] at hpow
  have htwo : 0 < 2 ^ m := Nat.two_pow_pos m
  omega

/-- The newest entry goes down to a leaf: the same entries, in order. -/
theorem heapBubbleDown_spec (hodd : size = 2 * (size / 2) + 1) (index : Nat) (h : Sinking HeapEntry.generation entries index)
    (hsize : entries.length = size) : (heapBubbleDown size entries index).Perm entries ∧
      Ordered HeapEntry.generation (heapBubbleDown size entries index) := by
  induction entries, index using heapBubbleDown.induct size with
  | case1 entries index hlt next ih =>
      have hstep := h.step (by omega)
      have hnext : next < entries.length := by
        simp only [next]
        split
        · omega
        · omega
      have hperm := swap_perm h.inside hnext
      obtain ⟨hpermNext, hordered⟩ := ih hstep (hperm.length_eq.trans hsize)
      rw [heapBubbleDown, if_pos hlt]
      exact ⟨hpermNext.trans hperm, hordered⟩
  | case2 entries index hge =>
      rw [heapBubbleDown, if_neg hge]
      exact ⟨List.Perm.refl _, h.ordered (by omega)⟩

theorem setLevelFrom_eq (h : Ordered HeapEntry.generation entries) (i : Nat) (rest : List (HeapEntry Ptr))
    (hlen : i + rest.length = entries.length) : setLevelFrom text entries tag level i rest =
      some (updateFirst (fun entry => text entry.tag = text tag) (fun entry => { entry with level := level }) rest) := by
  induction rest generalizing i with
  | nil => rfl
  | cons entry rest ih =>
      rw [List.length_cons] at hlen
      have horder : inOrder entries i := by
        rcases Nat.eq_zero_or_pos i with hzero | hpos
        · exact .inl hzero
        · exact .inr (h i hpos (by omega))
      unfold setLevelFrom updateFirst
      rw [if_pos horder, ih (i + 1) (by omega)]
      by_cases htext : text entry.tag = text tag
      · simp [htext]
      · simp [htext]

theorem findFrom_eq [DecidableEq Ptr] (h : Ordered HeapEntry.generation entries) (tag : Ptr) (i : Nat)
    (rest : List (HeapEntry Ptr)) (hrest : rest = entries.drop i) : ∃ found, findFrom entries tag i rest = some found ∧
      ((found = none ∧ ∀ entry ∈ rest, entry.tag ≠ tag) ∨
        ∃ j entry, found = some (j, entry) ∧ entries[j]? = some entry ∧ entry.tag = tag) := by
  induction rest generalizing i with
  | nil => exact ⟨none, rfl, .inl ⟨rfl, fun entry hentry => nomatch hentry⟩⟩
  | cons entry rest ih =>
      have hlt : i < entries.length := by
        have hlen := congrArg List.length hrest
        rw [List.length_cons, List.length_drop] at hlen
        omega
      have hhead : entry = entries[i] ∧ rest = entries.drop (i + 1) := by
        rw [List.drop_eq_getElem_cons hlt] at hrest
        exact List.cons.inj hrest
      have horder : inOrder entries i := by
        rcases Nat.eq_zero_or_pos i with hzero | hpos
        · exact .inl hzero
        · exact .inr (h i hpos hlt)
      unfold findFrom
      rw [if_pos horder]
      by_cases htag : entry.tag = tag
      · rw [if_pos htag]
        refine ⟨_, rfl, .inr ⟨i, entry, rfl, ?_, htag⟩⟩
        rw [List.getElem?_eq_getElem hlt, hhead.1]
      · rw [if_neg htag]
        obtain ⟨found, hfound, hcase⟩ := ih (i + 1) hhead.2
        refine ⟨found, hfound, ?_⟩
        rcases hcase with ⟨hnone, hother⟩ | hsome
        · exact .inl ⟨hnone, List.forall_mem_cons.mpr ⟨htag, hother⟩⟩
        · exact .inr hsome

/-! ### The generations -/

theorem ordered_congr {entries' : List (HeapEntry Ptr)}
    (h : entries'.map HeapEntry.generation = entries.map HeapEntry.generation)
    (hordered : Ordered HeapEntry.generation entries) : Ordered HeapEntry.generation entries' := by
  have hlen : entries'.length = entries.length := by simpa using congrArg List.length h
  have hkey : ∀ i, keyAt HeapEntry.generation entries' i = keyAt HeapEntry.generation entries i := by
    intro i
    unfold keyAt
    rw [← List.getElem?_map, ← List.getElem?_map, h]
  intro i hpos hi
  rw [hkey, hkey]
  exact hordered i hpos (hlen ▸ hi)

theorem ordered_of_range (h : entries.map HeapEntry.generation = List.range entries.length) :
    Ordered HeapEntry.generation entries := by
  have hkey : ∀ i < entries.length, keyAt HeapEntry.generation entries i = i := by
    intro i hi
    unfold keyAt
    rw [← List.getElem?_map, h, List.getElem?_range hi]
    rfl
  intro i hpos hi
  rw [hkey i hi, hkey _ (by omega)]
  omega

theorem ordered_append (h : Ordered HeapEntry.generation entries) {entry : HeapEntry Ptr}
    (hnew : ∀ generation ∈ entries.map HeapEntry.generation, generation < entry.generation) :
    Ordered HeapEntry.generation (entries ++ [entry]) := by
  have hold : ∀ i < entries.length, keyAt HeapEntry.generation (entries ++ [entry]) i =
      keyAt HeapEntry.generation entries i := by
    intro i hi
    unfold keyAt
    rw [List.getElem?_append_left hi]
  intro i hpos hi
  rw [List.length_append, List.length_singleton] at hi
  by_cases hlast : i = entries.length
  · have hparent : (i - 1) / 2 < entries.length := by omega
    have hkey : keyAt HeapEntry.generation (entries ++ [entry]) i = entry.generation := by
      unfold keyAt
      rw [hlast, List.getElem?_concat_length]
      rfl
    rw [hold _ hparent, hkey, keyAt_of_lt hparent]
    exact hnew _ (List.mem_map_of_mem (List.getElem_mem hparent))
  · rw [hold i (by omega), hold _ (by omega)]
    exact h i hpos (by omega)

/-- A cache in heap order by its generations, which are below the next one: nothing is said about tags. -/
structure Aged (size : Nat) (s : CacheHeap Ptr) : Prop where
  live : s.entries.length ≤ size
  generations : (s.entries.map HeapEntry.generation).Nodup
  ordered : Ordered HeapEntry.generation s.entries
  older : ∀ generation ∈ s.entries.map HeapEntry.generation, generation < s.maxGeneration
  below : s.maxGeneration < maxGenerationLimit

theorem WF.aged (h : WF size s) : Aged size s := ⟨h.live, h.generations, h.ordered, h.older, h.below⟩

theorem Aged.wf (h : Aged size s) (htags : (s.entries.map HeapEntry.tag).Nodup) : WF size s :=
  ⟨h.live, htags, h.generations, h.ordered, h.older, h.below⟩

/-- The renumbering leaves everything but the generations. -/
theorem fixOverflow_map {β : Type} (f : HeapEntry Ptr → β)
    (hf : ∀ i entry, f { entry with generation := i % 2 ^ 29 } = f entry) (s : CacheHeap Ptr) :
    (fixOverflow s).entries.map f = s.entries.map f := by
  unfold fixOverflow
  split
  · apply List.ext_getElem
    · simp
    · intro i hi hi'
      simp only [List.getElem_map, List.getElem_mapIdx, hf]
  · rfl

/-- The generations start again in the order of the array. -/
theorem fixOverflow_generations (hlimit : s.maxGeneration = maxGenerationLimit) (hlive : s.entries.length < maxGenerationLimit) :
    (fixOverflow s).entries.map HeapEntry.generation = List.range s.entries.length := by
  have hvalue : maxGenerationLimit = 536870911 := rfl
  unfold fixOverflow
  rw [if_pos hlimit]
  apply List.ext_getElem
  · simp
  · intro i hi hi'
    rw [List.length_range] at hi'
    simp only [List.getElem_map, List.getElem_mapIdx, List.getElem_range]
    exact Nat.mod_eq_of_lt (by omega)

theorem fixOverflow_aged (hlive : s.entries.length ≤ size) (hgenerations : (s.entries.map HeapEntry.generation).Nodup)
    (hordered : Ordered HeapEntry.generation s.entries)
    (holder : ∀ generation ∈ s.entries.map HeapEntry.generation, generation < s.maxGeneration)
    (hmax : s.maxGeneration ≤ maxGenerationLimit) (hfits : size < maxGenerationLimit) : Aged size (fixOverflow s) := by
  by_cases hlimit : s.maxGeneration = maxGenerationLimit
  · have hrange := fixOverflow_generations hlimit (Nat.lt_of_le_of_lt hlive hfits)
    have hlen : (fixOverflow s).entries.length = s.entries.length := by
      have := congrArg List.length hrange
      rwa [List.length_map, List.length_range] at this
    have hnext : (fixOverflow s).maxGeneration = s.entries.length := by
      unfold fixOverflow
      rw [if_pos hlimit]
    refine ⟨hlen ▸ hlive, ?_, ?_, ?_, hnext ▸ Nat.lt_of_le_of_lt hlive hfits⟩
    · rw [hrange]
      exact List.nodup_range
    · exact ordered_of_range (hrange.trans (congrArg List.range hlen.symm))
    · rw [hrange, hnext]
      exact fun generation hmem => List.mem_range.mp hmem
  · have hsame : fixOverflow s = s := by
      unfold fixOverflow
      rw [if_neg hlimit]
    rw [hsame]
    exact ⟨hlive, hgenerations, hordered, holder, Nat.lt_of_le_of_ne hmax hlimit⟩

/-- The full cache after the newest entry has taken the place of another one, before it is renumbered. -/
def replaced (size : Nat) (s : CacheHeap Ptr) (i : Nat) (entry : HeapEntry Ptr) : CacheHeap Ptr :=
  { entries := heapBubbleDown size (s.entries.set i entry) i, maxGeneration := (s.maxGeneration + 1) % 2 ^ 32 }

/-- The cache with the newest entry at its end, before it is renumbered. -/
def appended (s : CacheHeap Ptr) (entry : HeapEntry Ptr) : CacheHeap Ptr :=
  { entries := s.entries ++ [entry], maxGeneration := (s.maxGeneration + 1) % 2 ^ 32 }

/-- The entry that an addition makes. -/
def newest (s : CacheHeap Ptr) (tag : Ptr) (level : Level) : HeapEntry Ptr :=
  { tag := tag, level := level, generation := s.maxGeneration % 2 ^ 29 }

theorem add_of_room (hroom : s.entries.length < size) :
    s.add size tag level = fixOverflow (appended s (newest s tag level)) := by
  unfold add
  dsimp only
  rw [if_pos hroom]
  rfl

theorem add_of_full (hfull : s.entries.length = size) :
    s.add size tag level = fixOverflow (replaced size s 0 (newest s tag level)) := by
  unfold add
  dsimp only
  rw [if_neg (Nat.not_lt_of_le (Nat.le_of_eq hfull.symm))]
  rfl

theorem Aged.generation (h : Aged size s) : s.maxGeneration % 2 ^ 29 = s.maxGeneration := by
  have hbelow := h.below
  have hvalue : maxGenerationLimit = 536870911 := rfl
  exact Nat.mod_eq_of_lt (by omega)

theorem Aged.next (h : Aged size s) : (s.maxGeneration + 1) % 2 ^ 32 = s.maxGeneration + 1 := by
  have hbelow := h.below
  have hvalue : maxGenerationLimit = 536870911 := rfl
  exact Nat.mod_eq_of_lt (by omega)

theorem replaced_spec (h : Aged size s) (hodd : size = 2 * (size / 2) + 1) (hfull : s.entries.length = size) {i : Nat}
    (hi : i < s.entries.length) {entry : HeapEntry Ptr} (hgeneration : entry.generation = s.maxGeneration) :
    (replaced size s i entry).entries.Perm (s.entries.set i entry) ∧
      ((s.entries.set i entry).map HeapEntry.generation).Nodup ∧
      Ordered HeapEntry.generation (replaced size s i entry).entries := by
  have hlast : ∀ b ∈ s.entries, b.generation < entry.generation := by
    intro b hb
    rw [hgeneration]
    exact h.older _ (List.mem_map_of_mem hb)
  have hsinking := Sinking.of_set h.ordered hi h.generations hlast
  obtain ⟨hperm, hordered⟩ := heapBubbleDown_spec hodd i hsinking (List.length_set.trans hfull)
  exact ⟨hperm, hsinking.nodup, hordered⟩

/-- The newest entry takes the place of another one in the full cache. -/
theorem replaced_aged (h : Aged size s) (hodd : size = 2 * (size / 2) + 1) (hfits : size < maxGenerationLimit)
    (hfull : s.entries.length = size) {i : Nat} (hi : i < s.entries.length) {entry : HeapEntry Ptr}
    (hgeneration : entry.generation = s.maxGeneration) : Aged size (fixOverflow (replaced size s i entry)) := by
  obtain ⟨hperm, hnodup, hordered⟩ := replaced_spec h hodd hfull hi hgeneration
  have hnext : (replaced size s i entry).maxGeneration = s.maxGeneration + 1 := h.next
  refine fixOverflow_aged (Nat.le_of_eq ?_) ((hperm.map HeapEntry.generation).nodup_iff.mpr hnodup) hordered ?_
    (hnext ▸ h.below) hfits
  · exact hperm.length_eq.trans (List.length_set.trans hfull)
  · intro generation hmem
    obtain ⟨b, hb, rfl⟩ := List.mem_map.mp ((hperm.map HeapEntry.generation).mem_iff.mp hmem)
    rw [hnext]
    rcases List.mem_or_eq_of_mem_set hb with hold | rfl
    · exact Nat.lt_succ_of_lt (h.older _ (List.mem_map_of_mem hold))
    · rw [hgeneration]
      exact Nat.lt_succ_self _

theorem appended_aged (h : Aged size s) (hfits : size < maxGenerationLimit) (hroom : s.entries.length < size)
    {entry : HeapEntry Ptr} (hgeneration : entry.generation = s.maxGeneration) :
    Aged size (fixOverflow (appended s entry)) := by
  have hnew : ∀ generation ∈ s.entries.map HeapEntry.generation, generation < entry.generation := by
    rw [hgeneration]
    exact h.older
  have hnext : (appended s entry).maxGeneration = s.maxGeneration + 1 := h.next
  have hmap : (appended s entry).entries.map HeapEntry.generation =
      s.entries.map HeapEntry.generation ++ [entry.generation] := List.map_append
  refine fixOverflow_aged ?_ ?_ (ordered_append h.ordered hnew) ?_ (hnext ▸ h.below) hfits
  · change (s.entries ++ [entry]).length ≤ size
    rw [List.length_append, List.length_singleton]
    exact hroom
  · rw [hmap]
    refine List.Nodup.append h.generations (List.nodup_singleton _) fun generation hmem hmem' => ?_
    exact absurd (List.mem_singleton.mp hmem') (Nat.ne_of_lt (hnew generation hmem))
  · intro generation hmem
    rw [hmap] at hmem
    rw [hnext]
    rcases List.mem_append.mp hmem with hold | hlast
    · exact Nat.lt_succ_of_lt (h.older generation hold)
    · rw [List.mem_singleton.mp hlast, hgeneration]
      exact Nat.lt_succ_self _

theorem replace_wf (h : WF size s) (hodd : size = 2 * (size / 2) + 1) (hfits : size < maxGenerationLimit)
    (hfull : s.entries.length = size) {i : Nat} (hi : i < s.entries.length) {entry : HeapEntry Ptr}
    (hgeneration : entry.generation = s.maxGeneration) (htags : ((s.entries.set i entry).map HeapEntry.tag).Nodup) :
    WF size (fixOverflow (replaced size s i entry)) ∧
      ((fixOverflow (replaced size s i entry)).entries.map lineOf).Perm ((s.entries.set i entry).map lineOf) := by
  obtain ⟨hperm, -, -⟩ := replaced_spec h.aged hodd hfull hi hgeneration
  refine ⟨(replaced_aged h.aged hodd hfits hfull hi hgeneration).wf ?_, ?_⟩
  · rw [fixOverflow_map HeapEntry.tag fun _ _ => rfl]
    exact (hperm.map HeapEntry.tag).nodup_iff.mpr htags
  · rw [fixOverflow_map lineOf fun _ _ => rfl]
    exact hperm.map lineOf

theorem append_wf (h : WF size s) (hfits : size < maxGenerationLimit) (hroom : s.entries.length < size)
    {entry : HeapEntry Ptr} (hgeneration : entry.generation = s.maxGeneration)
    (htag : ∀ old ∈ s.entries, old.tag ≠ entry.tag) :
    WF size (fixOverflow (appended s entry)) ∧
      (fixOverflow (appended s entry)).entries.map lineOf = (s.entries ++ [entry]).map lineOf := by
  refine ⟨(appended_aged h.aged hfits hroom hgeneration).wf ?_, fixOverflow_map lineOf (fun _ _ => rfl) _⟩
  rw [fixOverflow_map HeapEntry.tag fun _ _ => rfl]
  change ((s.entries ++ [entry]).map HeapEntry.tag).Nodup
  rw [List.map_append, List.map_singleton]
  refine List.Nodup.append h.tags (List.nodup_singleton _) fun tag hmem hmem' => ?_
  obtain ⟨old, hold, rfl⟩ := List.mem_map.mp hmem
  exact htag old hold (List.mem_singleton.mp hmem')

/-! ### The calls -/

theorem Size.below (size : Size) : size.size < maxGenerationLimit := by
  have hfits := size.fits
  have hvalue : maxGenerationLimit = 536870911 := rfl
  omega

theorem lineOf_fst (entries : List (HeapEntry Ptr)) :
    (entries.map lineOf).map Prod.fst = entries.map HeapEntry.tag := by
  rw [List.map_map]
  rfl

theorem updateFirst_lineOf (entries : List (HeapEntry Ptr)) :
    (updateFirst (fun entry => text entry.tag = text tag) (fun entry => { entry with level := level }) entries).map
      lineOf = updateFirst (sameText text tag) (fun line => (line.1, level)) (entries.map lineOf) := by
  induction entries with
  | nil => rfl
  | cons entry rest ih =>
      rw [List.map_cons]
      unfold updateFirst sameText
      by_cases htext : text entry.tag = text tag
      · have hline : text (lineOf entry).1 = text tag := htext
        rw [if_pos (decide_eq_true htext), if_pos (decide_eq_true hline)]
        rfl
      · have hline : ¬text (lineOf entry).1 = text tag := htext
        rw [if_neg (fun h => htext (of_decide_eq_true h)), if_neg (fun h => hline (of_decide_eq_true h)), List.map_cons, ih]
        rfl

theorem setLevel_law (h : WF size s) : ∃ s', s.setLevel text tag level = some s' ∧ WF size s' ∧
    s'.entries.map lineOf = updateFirst (sameText text tag) (fun line => (line.1, level)) (s.entries.map lineOf) := by
  have htags : (updateFirst (fun entry => text entry.tag = text tag) (fun entry => { entry with level := level })
      s.entries).map HeapEntry.tag = s.entries.map HeapEntry.tag := map_updateFirst fun _ => rfl
  have hgenerations : (updateFirst (fun entry => text entry.tag = text tag)
      (fun entry => { entry with level := level }) s.entries).map HeapEntry.generation =
      s.entries.map HeapEntry.generation := map_updateFirst fun _ => rfl
  unfold setLevel
  rw [setLevelFrom_eq h.ordered 0 s.entries (Nat.zero_add _)]
  refine ⟨_, rfl, ⟨?_, htags ▸ h.tags, hgenerations ▸ h.generations, ordered_congr hgenerations h.ordered,
    hgenerations ▸ h.older, h.below⟩, updateFirst_lineOf s.entries⟩
  have hlen := congrArg List.length htags
  rw [List.length_map, List.length_map] at hlen
  exact hlen ▸ h.live

theorem mem_lines_iff (h : WF size s) {entry : HeapEntry Ptr} (hentry : entry ∈ s.entries) (htag : entry.tag = tag) :
    some entry.level = some level ↔ (tag, level) ∈ s.entries.map lineOf := by
  have hmem : (tag, entry.level) ∈ s.entries.map lineOf := by
    rw [← htag]
    exact List.mem_map_of_mem hentry
  constructor
  · intro heq
    rw [← Option.some.inj heq]
    exact hmem
  · intro hline
    have hnodup : ((s.entries.map lineOf).map Prod.fst).Nodup := by
      rw [lineOf_fst]
      exact h.tags
    exact congrArg (fun line => some line.2) (List.inj_on_of_nodup_map hnodup hmem hline rfl)

theorem getLevel_law [DecidableEq Ptr] (h : WF size s) (hodd : size = 2 * (size / 2) + 1)
    (hfits : size < maxGenerationLimit) : ∃ s' hit, s.getLevel size tag = some (s', hit) ∧ WF size s' ∧
      (∀ line, line ∈ s'.entries.map lineOf ↔ line ∈ s.entries.map lineOf) ∧
      ∀ level, hit = some level ↔ (tag, level) ∈ s.entries.map lineOf := by
  obtain ⟨found, hfound, hcase⟩ := findFrom_eq h.ordered tag 0 s.entries rfl
  unfold getLevel
  rw [hfound]
  rcases hcase with ⟨rfl, hmiss⟩ | ⟨i, entry, rfl, hat, htag⟩
  · refine ⟨s, none, rfl, h, fun _ => Iff.rfl, fun level => iff_of_false (fun heq => nomatch heq) fun hmem => ?_⟩
    obtain ⟨entry, hentry, heq⟩ := List.mem_map.mp hmem
    exact hmiss entry hentry (congrArg Prod.fst heq)
  · obtain ⟨hi, hentry⟩ := List.getElem?_eq_some_iff.mp hat
    have hmem : entry ∈ s.entries := hentry ▸ List.getElem_mem hi
    have hhit : ∀ level, some entry.level = some level ↔ (tag, level) ∈ s.entries.map lineOf :=
      fun level => mem_lines_iff h hmem htag
    by_cases hfull : s.entries.length = size
    · have hbelow := h.below
      have hvalue : maxGenerationLimit = 536870911 := rfl
      have hsame : ∀ {β : Type} (f : HeapEntry Ptr → β), f { entry with generation := s.maxGeneration % 2 ^ 29 } = f entry →
          (s.entries.set i { entry with generation := s.maxGeneration % 2 ^ 29 }).map f = s.entries.map f := by
        intro β f hf
        have hi' : i < (s.entries.map f).length := by simpa using hi
        have hat' : f entry = (s.entries.map f)[i] := by rw [List.getElem_map, hentry]
        rw [List.map_set, hf, hat', List.set_getElem_self]
      obtain ⟨hwf, hperm⟩ := replace_wf h hodd hfits hfull hi (Nat.mod_eq_of_lt (by omega))
        ((hsame HeapEntry.tag rfl).symm ▸ h.tags)
      rw [hsame lineOf rfl] at hperm
      exact ⟨_, some entry.level, if_pos hfull, hwf, fun line => hperm.mem_iff, hhit⟩
    · exact ⟨s, some entry.level, if_neg hfull, h, fun _ => Iff.rfl, hhit⟩

theorem add_law (h : WF size s) (hodd : size = 2 * (size / 2) + 1) (hfits : size < maxGenerationLimit)
    (hnew : ∀ l, (tag, l) ∉ s.entries.map lineOf) : WF size (s.add size tag level) ∧
      ∀ line ∈ (s.add size tag level).entries.map lineOf, line = (tag, level) ∨ line ∈ s.entries.map lineOf := by
  have hgeneration : (newest s tag level).generation = s.maxGeneration := h.aged.generation
  have htag : ∀ old ∈ s.entries, old.tag ≠ (newest s tag level).tag := by
    intro old hold heq
    have hline : (tag, old.level) = lineOf old := Prod.ext heq.symm rfl
    exact hnew old.level (hline ▸ List.mem_map_of_mem hold)
  by_cases hroom : s.entries.length < size
  · rw [add_of_room hroom]
    obtain ⟨hwf, hlines⟩ := append_wf h hfits hroom hgeneration htag
    refine ⟨hwf, fun line hline => ?_⟩
    rw [hlines, List.map_append] at hline
    rcases List.mem_append.mp hline with hold | hlast
    · exact .inr hold
    · exact .inl (List.mem_singleton.mp hlast)
  · have hfull : s.entries.length = size := Nat.le_antisymm h.live (Nat.le_of_not_lt hroom)
    rw [add_of_full hfull]
    have htags : ((s.entries.set 0 (newest s tag level)).map HeapEntry.tag).Nodup := by
      rw [List.map_set]
      refine List.Nodup.set h.tags fun hmem => ?_
      obtain ⟨old, hold, heq⟩ := List.mem_map.mp hmem
      exact htag old hold heq
    obtain ⟨hwf, hperm⟩ := replace_wf h hodd hfits hfull (by omega) hgeneration htags
    refine ⟨hwf, fun line hline => ?_⟩
    obtain ⟨entry, hentry, rfl⟩ := List.mem_map.mp (hperm.mem_iff.mp hline)
    rcases List.mem_or_eq_of_mem_set hentry with hold | rfl
    · exact .inr (List.mem_map_of_mem hold)
    · exact .inl rfl

theorem empty_wf : WF size ({ entries := [], maxGeneration := 0 } : CacheHeap Ptr) where
  live := Nat.zero_le _
  tags := List.nodup_nil
  generations := List.nodup_nil
  ordered := fun i _ hi => absurd hi (Nat.not_lt_zero i)
  older := fun generation hmem => nomatch hmem
  below := (by decide : 0 < 2 ^ 29 - 1)

end CacheHeap

open CacheHeap in
/-- The binary min-heap cache keeps the laws. -/
def cacheHeap_laws [DecidableEq Ptr] (text : Ptr → String) (size : CacheHeap.Size) : (cacheHeap text size).Laws text where
  WF := WF size.size
  init_wf := ⟨empty_wf, rfl⟩
  nodup := fun s h => (lineOf_fst s.entries).symm ▸ h.tags
  setLevel := fun _ h _ _ => setLevel_law h
  getLevel := fun _ h _ => getLevel_law h size.odd size.below
  clean := fun _ _ => ⟨empty_wf, rfl⟩
  add := fun _ h _ _ hnew => add_law h size.odd size.below hnew

/-! ## Both caches -/

/-- `CONFIG_LOG_TAG_LEVEL_CACHE_ARRAY` or `CONFIG_LOG_TAG_LEVEL_CACHE_BINARY_MIN_HEAP`, with the size of the cache. -/
inductive CacheConfig
  | array (size : CacheArray.Size)
  | binaryMinHeap (size : CacheHeap.Size)

def CacheConfig.cache [DecidableEq Ptr] (text : Ptr → String) : CacheConfig → TagCache Ptr
  | .array size => cacheArray text size
  | .binaryMinHeap size => cacheHeap text size

def CacheConfig.laws [DecidableEq Ptr] (text : Ptr → String) : (config : CacheConfig) → (config.cache text).Laws text
  | .array size => cacheArray_laws text size
  | .binaryMinHeap size => cacheHeap_laws text size

/-- Each set of the run reaches, in the state it finds, every cached line of its text. -/
def SetsReach [DecidableEq Ptr] (text : Ptr → String) (config : CacheConfig) (dflt : Level)
    (history : List (Call Ptr)) : Prop :=
  ∀ call earlier, call :: earlier <:+ history → ∀ s, Log.after text (config.cache text) dflt earlier = some s →
    TagCache.Laws.CallReaches text s call

/-- After a run of calls, and after each of its beginnings, a get returns what the list and the default alone return, the level
last set for the text, exactly when each set reaches every line of its text. -/
theorem tag_levels_transparent_iff [DecidableEq Ptr] (text : Ptr → String) (config : CacheConfig) (dflt : Level)
    (history : List (Call Ptr)) :
    (∀ earlier, earlier <:+ history → ∀ tag,
      Log.levelNow text (config.cache text) dflt earlier tag = some ((levelsAfter text dflt earlier).get text tag) ∧
        (levelsAfter text dflt earlier).get text tag = levelLastSet text dflt earlier tag) ↔
      SetsReach text config dflt history := by
  refine Iff.trans ?_ ((config.laws text).transparent_iff history)
  refine forall₂_congr fun earlier hsuffix => forall_congr' fun tag => ?_
  exact and_iff_left (levelsAfter_get earlier tag)

/-- Caches of the default size. -/
def arrayOf31 : CacheConfig := .array { size := 31, pos := by decide, fits := by decide }

def heapOf31 : CacheConfig := .binaryMinHeap { size := 31, pow := ⟨5, by decide, by decide⟩, fits := by decide }

/-- Two addresses of one text are read, and then its level is set through the first of them. -/
def staleHistory : List (Call Bool) := [.set (some false) .error true, .get (some true), .get (some false)]

/-- Through the second address the level is the old one. -/
theorem tag_level_stale :
    (Log.levelNow (fun _ => "wifi") (arrayOf31.cache fun _ => "wifi") .info staleHistory (some true) = some .info ∧
      Log.levelNow (fun _ => "wifi") (heapOf31.cache fun _ => "wifi") .info staleHistory (some true) = some .info) ∧
    levelLastSet (fun _ => "wifi") .info staleHistory (some true) = .error :=
  ⟨⟨by decide +kernel, by decide +kernel⟩, by decide⟩

end EspIdf.LogLevel
