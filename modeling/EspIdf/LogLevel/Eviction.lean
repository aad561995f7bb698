import EspIdf.LogLevel.CacheHeap

/-!
# Which entry the heap cache evicts

* `CacheCall`, `after` : calls of the cache in any order, the latest first;
* `Timed` : the cache with the time of each entry's last addition or hit in a full cache, by generation;
* `Timed.Aged` : later generations have later times, but for two times before the last renumbering;
* `cacheHeap_runs` : in every run the heap stays in order and an addition evicts the oldest entry.
-/

namespace EspIdf.LogLevel.CacheHeap

open MinHeap

variable {Ptr : Type}

/-! ## Runs -/

/-- A call of the cache. -/
inductive CacheCall (Ptr : Type)
  | add (tag : Ptr) (level : Level)
  | getLevel (tag : Ptr)
  | setLevel (tag : Ptr) (level : Level)
  | clean

/-- The cache after a call, unless an assertion fails. -/
def call [DecidableEq Ptr] (text : Ptr → String) (size : Nat) (s : CacheHeap Ptr) : CacheCall Ptr → Option (CacheHeap Ptr)
  | .add tag level => some (s.add size tag level)
  | .getLevel tag => (s.getLevel size tag).map Prod.fst
  | .setLevel tag level => s.setLevel text tag level
  | .clean => some s.clean

/-- The cache after the calls, the latest first. -/
def after [DecidableEq Ptr] (text : Ptr → String) (size : Nat) : List (CacheCall Ptr) → Option (CacheHeap Ptr)
  | [] => some { entries := [], maxGeneration := 0 }
  | last :: earlier => (after text size earlier).bind fun s => s.call text size last

/-! ## Times -/

/-- The cache, the number of calls so far, the time of the last addition or hit in a full cache of the entry with each
generation, and the time of the last renumbering. -/
structure Timed (Ptr : Type) where
  cache : CacheHeap Ptr
  now : Nat
  used : Nat → Nat
  renumbered : Nat

/-- The entry that was hit, as the newest one. -/
def renewed (s : CacheHeap Ptr) (entry : HeapEntry Ptr) : HeapEntry Ptr :=
  { entry with generation := s.maxGeneration % 2 ^ 29 }

namespace Timed

/-- A call that uses no entry. -/
def tick (t : Timed Ptr) (cache : CacheHeap Ptr) : Timed Ptr := { t with cache := cache, now := t.now + 1 }

/-- A call that makes or renews the newest entry, with the cache it leaves before the renumbering. -/
def use (t : Timed Ptr) (cache : CacheHeap Ptr) : Timed Ptr :=
  let used := Function.update t.used t.cache.maxGeneration t.now
  if cache.maxGeneration = maxGenerationLimit then
    { cache := fixOverflow cache, now := t.now + 1, used := fun i => used (generationAt cache.entries i),
      renumbered := t.now + 1 }
  else { cache := fixOverflow cache, now := t.now + 1, used := used, renumbered := t.renumbered }

def call [DecidableEq Ptr] (text : Ptr → String) (size : Nat) (t : Timed Ptr) : CacheCall Ptr → Option (Timed Ptr)
  | .add tag level =>
    let entry := newest t.cache tag level
    some (t.use (if t.cache.entries.length < size then appended t.cache entry else replaced size t.cache 0 entry))
  | .getLevel tag =>
    (findFrom t.cache.entries tag 0 t.cache.entries).map fun found =>
      match found with
      | none => t.tick t.cache
      | some (i, entry) =>
        if t.cache.entries.length = size then t.use (replaced size t.cache i (renewed t.cache entry)) else t.tick t.cache
  | .setLevel tag level => (t.cache.setLevel text tag level).map t.tick
  | .clean => some (t.tick t.cache.clean)

def after [DecidableEq Ptr] (text : Ptr → String) (size : Nat) : List (CacheCall Ptr) → Option (Timed Ptr)
  | [] => some { cache := { entries := [], maxGeneration := 0 }, now := 0, used := fun _ => 0, renumbered := 0 }
  | last :: earlier => (after text size earlier).bind fun t => t.call text size last

@[simp] theorem tick_cache (t : Timed Ptr) (cache : CacheHeap Ptr) : (t.tick cache).cache = cache := rfl

@[simp] theorem use_cache (t : Timed Ptr) (cache : CacheHeap Ptr) : (t.use cache).cache = fixOverflow cache := by
  unfold use
  dsimp only
  split <;> rfl

@[simp] theorem use_now (t : Timed Ptr) (cache : CacheHeap Ptr) : (t.use cache).now = t.now + 1 := by
  unfold use
  dsimp only
  split <;> rfl

variable {text : Ptr → String} {size : Nat} {t : Timed Ptr}

/-- The times do not change what the cache does. -/
theorem call_cache [DecidableEq Ptr] (hlive : t.cache.entries.length ≤ size) (last : CacheCall Ptr) :
    (t.call text size last).map cache = t.cache.call text size last := by
  cases last with
  | add tag level =>
      show some (t.use _).cache = some (t.cache.add size tag level)
      rw [use_cache]
      by_cases hroom : t.cache.entries.length < size
      · rw [if_pos hroom, add_of_room hroom]
      · rw [if_neg hroom, add_of_full (Nat.le_antisymm hlive (Nat.le_of_not_lt hroom))]
  | getLevel tag =>
      simp only [call, CacheHeap.call, getLevel]
      rcases findFrom t.cache.entries tag 0 t.cache.entries with _ | _ | ⟨i, entry⟩
      · rfl
      · rfl
      · simp only [Option.map_some, Option.bind_eq_bind, Option.bind_some]
        by_cases hfull : t.cache.entries.length = size
        · rw [if_pos hfull, if_pos hfull, use_cache]
          rfl
        · rw [if_neg hfull, if_neg hfull]
          rfl
  | setLevel tag level =>
      show ((t.cache.setLevel text tag level).map t.tick).map cache = _
      rw [Option.map_map]
      exact Option.map_id'
  | clean => rfl

/-! ## The invariant -/

/-- The entry of generation `a` was used before the one of generation `b`, or both before the last renumbering. -/
def Before (t : Timed Ptr) (a b : Nat) : Prop :=
  t.renumbered ≤ t.used a ∨ t.renumbered ≤ t.used b → t.used a < t.used b

/-- A heap whose later generations have later times. -/
structure Aged (size : Nat) (t : Timed Ptr) : Prop where
  aged : CacheHeap.Aged size t.cache
  past : ∀ generation ∈ t.cache.entries.map HeapEntry.generation, t.used generation < t.now
  renumbered_le : t.renumbered ≤ t.now
  before : ∀ a ∈ t.cache.entries.map HeapEntry.generation, ∀ b ∈ t.cache.entries.map HeapEntry.generation,
    a < b → t.Before a b

theorem Aged.tick (h : Aged size t) {cache : CacheHeap Ptr} (haged : CacheHeap.Aged size cache)
    (hsub : ∀ generation ∈ cache.entries.map HeapEntry.generation,
      generation ∈ t.cache.entries.map HeapEntry.generation) : Aged size (t.tick cache) where
  aged := haged
  past := fun generation hmem => Nat.lt_succ_of_lt (h.past generation (hsub generation hmem))
  renumbered_le := Nat.le_succ_of_le h.renumbered_le
  before := fun a ha b hb hlt => h.before a (hsub a ha) b (hsub b hb) hlt

/-- A renumbering makes all times early ones. -/
theorem Aged.use (h : Aged size t) {cache : CacheHeap Ptr} (haged : CacheHeap.Aged size (fixOverflow cache))
    (hlive : cache.entries.length < maxGenerationLimit)
    (hsub : ∀ generation ∈ cache.entries.map HeapEntry.generation,
      generation = t.cache.maxGeneration ∨ generation ∈ t.cache.entries.map HeapEntry.generation) :
    Aged size (t.use cache) := by
  have hold : ∀ generation ∈ t.cache.entries.map HeapEntry.generation,
      Function.update t.used t.cache.maxGeneration t.now generation = t.used generation := by
    intro generation hmem
    exact Function.update_of_ne (Nat.ne_of_lt (h.aged.older generation hmem)) _ _
  have hnew : Function.update t.used t.cache.maxGeneration t.now t.cache.maxGeneration = t.now := Function.update_self ..
  have hpast : ∀ generation ∈ cache.entries.map HeapEntry.generation,
      Function.update t.used t.cache.maxGeneration t.now generation < t.now + 1 := by
    intro generation hmem
    rcases hsub generation hmem with rfl | hmem
    · rw [hnew]
      exact Nat.lt_succ_self _
    · rw [hold generation hmem]
      exact Nat.lt_succ_of_lt (h.past generation hmem)
  unfold Timed.use
  dsimp only
  by_cases hlimit : cache.maxGeneration = maxGenerationLimit
  · rw [if_pos hlimit]
    have hrange := fixOverflow_generations hlimit hlive
    have hearly : ∀ i ∈ List.range cache.entries.length,
        Function.update t.used t.cache.maxGeneration t.now (generationAt cache.entries i) < t.now + 1 := by
      intro i hi
      have hlt := List.mem_range.mp hi
      have hkey : generationAt cache.entries i = cache.entries[i].generation := keyAt_of_lt hlt
      rw [hkey]
      exact hpast _ (List.mem_map_of_mem (List.getElem_mem hlt))
    refine ⟨haged, ?_, Nat.le_refl _, ?_⟩
    · rw [hrange]
      exact hearly
    · rw [hrange]
      rintro a ha b hb - (hlate | hlate)
      · exact absurd hlate (Nat.not_le_of_lt (hearly a ha))
      · exact absurd hlate (Nat.not_le_of_lt (hearly b hb))
  · rw [if_neg hlimit]
    have hsame : fixOverflow cache = cache := by
      unfold fixOverflow
      rw [if_neg hlimit]
    rw [hsame] at haged ⊢
    refine ⟨haged, hpast, Nat.le_succ_of_le h.renumbered_le, ?_⟩
    intro a ha b hb hlt
    unfold Before
    dsimp only
    rcases hsub a ha with rfl | ha <;> rcases hsub b hb with rfl | hb
    · exact absurd hlt (Nat.lt_irrefl _)
    · exact absurd hlt (Nat.not_lt_of_lt (h.aged.older b hb))
    · rw [hnew, hold a ha]
      exact fun _ => h.past a ha
    · rw [hold a ha, hold b hb]
      exact h.before a ha b hb hlt

/-- What a call does to the times. -/
theorem Aged.call [DecidableEq Ptr] (h : Aged size t) (hodd : size = 2 * (size / 2) + 1) (hfits : size < maxGenerationLimit)
    (last : CacheCall Ptr) : ∃ t', t.call text size last = some t' ∧ Aged size t' := by
  have hgeneration := h.aged.generation
  have hreplaced : ∀ (i : Nat) (entry : HeapEntry Ptr), t.cache.entries.length = size → i < t.cache.entries.length →
      entry.generation = t.cache.maxGeneration → Aged size (t.use (replaced size t.cache i entry)) := by
    intro i entry hfull hi hentry
    have hperm := (replaced_spec h.aged hodd hfull hi hentry).1
    refine h.use (replaced_aged h.aged hodd hfits hfull hi hentry) ?_ ?_
    · rw [hperm.length_eq, List.length_set, hfull]
      exact hfits
    · intro generation hmem
      obtain ⟨b, hb, rfl⟩ := List.mem_map.mp ((hperm.map HeapEntry.generation).mem_iff.mp hmem)
      rcases List.mem_or_eq_of_mem_set hb with hmem | rfl
      · exact .inr (List.mem_map_of_mem hmem)
      · exact .inl hentry
  cases last with
  | add tag level =>
      refine ⟨_, rfl, ?_⟩
      by_cases hroom : t.cache.entries.length < size
      · rw [if_pos hroom]
        refine h.use (appended_aged h.aged hfits hroom hgeneration) ?_ ?_
        · show (t.cache.entries ++ [_]).length < _
          rw [List.length_append, List.length_singleton]
          omega
        · intro generation hmem
          obtain ⟨b, hb, rfl⟩ := List.mem_map.mp hmem
          rcases List.mem_append.mp hb with hmem | hlast
          · exact .inr (List.mem_map_of_mem hmem)
          · rw [List.mem_singleton.mp hlast]
            exact .inl hgeneration
      · rw [if_neg hroom]
        have hfull : t.cache.entries.length = size := Nat.le_antisymm h.aged.live (Nat.le_of_not_lt hroom)
        exact hreplaced 0 _ hfull (by omega) hgeneration
  | getLevel tag =>
      obtain ⟨found, hfound, hcase⟩ := findFrom_eq h.aged.ordered tag 0 t.cache.entries rfl
      unfold Timed.call
      dsimp only
      rw [hfound]
      refine ⟨_, rfl, ?_⟩
      rcases hcase with ⟨rfl, -⟩ | ⟨i, entry, rfl, hat, -⟩
      · exact h.tick h.aged fun _ hmem => hmem
      · dsimp only
        by_cases hfull : t.cache.entries.length = size
        · rw [if_pos hfull]
          exact hreplaced i _ hfull (List.getElem?_eq_some_iff.mp hat).1 hgeneration
        · rw [if_neg hfull]
          exact h.tick h.aged fun _ hmem => hmem
  | setLevel tag level =>
      have hgenerations : (updateFirst (fun entry => text entry.tag = text tag)
          (fun entry => { entry with level := level }) t.cache.entries).map HeapEntry.generation =
          t.cache.entries.map HeapEntry.generation := map_updateFirst fun _ => rfl
      have hlen := congrArg List.length hgenerations
      rw [List.length_map, List.length_map] at hlen
      unfold Timed.call setLevel
      dsimp only
      rw [setLevelFrom_eq h.aged.ordered 0 t.cache.entries (Nat.zero_add _)]
      refine ⟨_, rfl, h.tick ⟨hlen ▸ h.aged.live, hgenerations ▸ h.aged.generations,
        ordered_congr hgenerations h.aged.ordered, hgenerations ▸ h.aged.older, h.aged.below⟩ ?_⟩
      intro generation hmem
      exact hgenerations ▸ hmem
  | clean =>
      exact ⟨_, rfl, h.tick empty_wf.aged fun _ hmem => nomatch hmem⟩

theorem after_aged [DecidableEq Ptr] (hodd : size = 2 * (size / 2) + 1) (hfits : size < maxGenerationLimit)
    (calls : List (CacheCall Ptr)) : ∃ t, after text size calls = some t ∧ Aged size t ∧
      CacheHeap.after text size calls = some t.cache := by
  induction calls with
  | nil =>
      refine ⟨_, rfl, ⟨empty_wf.aged, ?_, Nat.le_refl _, ?_⟩, rfl⟩
      · exact fun _ hmem => nomatch hmem
      · exact fun _ hmem => nomatch hmem
  | cons last earlier ih =>
      obtain ⟨t, hafter, haged, hcache⟩ := ih
      obtain ⟨t', hcall, haged'⟩ := haged.call hodd hfits last
      refine ⟨t', ?_, haged', ?_⟩
      · rw [after, hafter]
        exact hcall
      · have hsame := @call_cache _ text _ _ _ haged.aged.live last
        rw [hcall] at hsame
        rw [CacheHeap.after, hcache]
        exact hsame.symm

end Timed

/-! ## The oldest entry -/

variable {text : Ptr → String} {size : Nat} {s : CacheHeap Ptr}

/-- The entry at the root has the least generation. -/
theorem Aged.root_lt (h : Aged size s) {root : HeapEntry Ptr} {rest : List (HeapEntry Ptr)} (hroot : s.entries = root :: rest)
    {other : HeapEntry Ptr} (hother : other ∈ rest) : root.generation < other.generation := by
  have hleast : ∀ i, 0 < i → i < s.entries.length → keyAt HeapEntry.generation s.entries 0 <
      keyAt HeapEntry.generation s.entries i := by
    intro i
    induction i using Nat.strongRecOn with
    | ind i ih =>
      intro hpos hi
      have hparent := h.ordered i hpos hi
      by_cases hzero : (i - 1) / 2 = 0
      · rwa [hzero] at hparent
      · exact Nat.lt_trans (ih _ (by omega) (by omega) (by omega)) hparent
  obtain ⟨i, hi, rfl⟩ := List.mem_iff_getElem.mp hother
  have hlt := hleast (i + 1) (Nat.succ_pos i) (by rw [hroot]; exact Nat.succ_lt_succ hi)
  simp only [hroot, keyAt, List.getElem?_cons_zero, List.getElem?_cons_succ, List.getElem?_eq_getElem hi,
    Option.map_some, Option.getD_some] at hlt
  exact hlt

/-- In the full cache an addition puts its line in the place of the root's. -/
theorem Aged.add_lines (h : Aged size s) (hodd : size = 2 * (size / 2) + 1) (hfull : s.entries.length = size)
    {root : HeapEntry Ptr} {rest : List (HeapEntry Ptr)} (hroot : s.entries = root :: rest) (tag : Ptr) (level : Level) :
    ((s.add size tag level).entries.map lineOf).Perm ((tag, level) :: rest.map lineOf) := by
  have hgeneration : (newest s tag level).generation = s.maxGeneration := h.generation
  have hspec := replaced_spec h hodd hfull (show 0 < s.entries.length by omega) hgeneration
  rw [add_of_full hfull, fixOverflow_map lineOf fun _ _ => rfl]
  have hlines := hspec.1.map lineOf
  rw [hroot] at hlines
  exact hlines

/-- After any calls no assertion has failed, and the cache is a heap of different generations below the next one and the
limit. When it is full, an addition evicts the entry at the root: of any other entry the last addition or hit in the full
cache is later, unless neither entry has been used since the last renumbering. -/
theorem cacheHeap_runs [DecidableEq Ptr] (text : Ptr → String) (size : Size) (calls : List (CacheCall Ptr)) :
    ∃ t, Timed.after text size.size calls = some t ∧ after text size.size calls = some t.cache ∧
      Ordered HeapEntry.generation t.cache.entries ∧ (t.cache.entries.map HeapEntry.generation).Nodup ∧
      (∀ entry ∈ t.cache.entries, entry.generation < t.cache.maxGeneration ∧ entry.generation < maxGenerationLimit) ∧
      (t.cache.entries.length = size.size → ∃ root rest, t.cache.entries = root :: rest ∧
        (∀ tag level, ((t.cache.add size.size tag level).entries.map lineOf).Perm ((tag, level) :: rest.map lineOf)) ∧
        ∀ other ∈ rest, t.renumbered ≤ t.used root.generation ∨ t.renumbered ≤ t.used other.generation →
          t.used root.generation < t.used other.generation) := by
  obtain ⟨t, htimed, haged, hafter⟩ := Timed.after_aged size.odd size.below calls
  have holder : ∀ entry ∈ t.cache.entries, entry.generation < t.cache.maxGeneration := fun entry hentry =>
    haged.aged.older _ (List.mem_map_of_mem hentry)
  refine ⟨t, htimed, hafter, haged.aged.ordered, haged.aged.generations, ?_, ?_⟩
  · intro entry hentry
    exact ⟨holder entry hentry, Nat.lt_trans (holder entry hentry) haged.aged.below⟩
  · intro hfull
    have hpos : 0 < t.cache.entries.length := by
      have hodd := size.odd
      omega
    obtain ⟨root, rest, hroot⟩ := List.exists_cons_of_length_pos hpos
    refine ⟨root, rest, hroot, fun tag level => haged.aged.add_lines size.odd hfull hroot tag level, ?_⟩
    intro other hother
    have hlt := haged.aged.root_lt hroot hother
    refine haged.before _ (List.mem_map_of_mem ?_) _ (List.mem_map_of_mem ?_) hlt
    · rw [hroot]
      exact List.mem_cons_self
    · rw [hroot]
      exact List.mem_cons_of_mem _ hother

end EspIdf.LogLevel.CacheHeap
