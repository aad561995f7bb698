import EspIdf.LogLevel.TagCache

/-!
# The array cache

* `cacheArray` : the live entries of `s_cache` in a list, filled round and round;
* `cacheArray_laws` : the lines change as they should.
-/

namespace EspIdf.LogLevel

variable {Ptr : Type}

/-- The live entries of `s_cache`, and `s_cache_entry_count`. -/
structure CacheArray (Ptr : Type) where
  entries : List (Ptr × Level)
  entryCount : Nat
  deriving DecidableEq, Repr

namespace CacheArray

/-- `TAG_CACHE_SIZE`: an array of entries of eight bytes is smaller than the half of the address space. -/
structure Size where
  size : Nat
  pos : 0 < size
  fits : size * 8 < 2 ^ 31

/-- `esp_log_cache_set_level`. -/
def setLevel (text : Ptr → String) (s : CacheArray Ptr) (tag : Ptr) (level : Level) : CacheArray Ptr :=
  { s with entries := updateFirst (sameText text tag) (fun entry => (entry.1, level)) s.entries }

/-- `esp_log_cache_get_level`. -/
def getLevel [DecidableEq Ptr] (s : CacheArray Ptr) (tag : Ptr) : Option Level :=
  (s.entries.find? fun entry => entry.1 = tag).map Prod.snd

/-- `esp_log_cache_clean`. -/
def clean (_ : CacheArray Ptr) : CacheArray Ptr := { entries := [], entryCount := 0 }

/-- A write to a slot, the first one behind the live entries or one of them. -/
def writeSlot (entries : List (Ptr × Level)) (slot : Nat) (entry : Ptr × Level) : List (Ptr × Level) :=
  entries.take slot ++ entry :: entries.drop (slot + 1)

/-- `esp_log_cache_add`. -/
def add (size : Nat) (s : CacheArray Ptr) (tag : Ptr) (level : Level) : CacheArray Ptr :=
  let entries := writeSlot s.entries (s.entryCount % size) (tag, level)
  let entryCount := (s.entryCount + 1) % 2 ^ 32
  { entries := entries, entryCount := if entryCount = 2 ^ 32 - 1 then size else entryCount }

/-- The live entries are the first ones, up to the size, each for another address. -/
structure WF (size : Nat) (s : CacheArray Ptr) : Prop where
  live : s.entries.length = min s.entryCount size
  count : s.entryCount < 2 ^ 32 - 1
  nodup : (s.entries.map Prod.fst).Nodup

end CacheArray

/-- The array cache. -/
def cacheArray [DecidableEq Ptr] (text : Ptr → String) (size : CacheArray.Size) : TagCache Ptr where
  State := CacheArray Ptr
  init := { entries := [], entryCount := 0 }
  setLevel := fun s tag level => some (s.setLevel text tag level)
  getLevel := fun s tag => some (s, s.getLevel tag)
  clean := CacheArray.clean
  add := CacheArray.add size.size
  lines := CacheArray.entries

namespace CacheArray

variable {text : Ptr → String} {s : CacheArray Ptr} {tag : Ptr} {level : Level} {size slot : Nat}
  {entries : List (Ptr × Level)} {entry line : Ptr × Level}

theorem getLevel_eq_some_iff [DecidableEq Ptr] (hnodup : (s.entries.map Prod.fst).Nodup) :
    s.getLevel tag = some level ↔ (tag, level) ∈ s.entries := by
  unfold getLevel
  constructor
  · intro h
    obtain ⟨entry, hfind, rfl⟩ := Option.map_eq_some_iff.mp h
    have htag : entry.1 = tag := by simpa using List.find?_some hfind
    rw [← htag]
    exact List.mem_of_find?_eq_some hfind
  · intro hmem
    cases hfind : s.entries.find? fun entry => entry.1 = tag with
    | none => exact absurd (List.find?_eq_none.mp hfind _ hmem) (by simp)
    | some entry =>
        have htag : entry.1 = tag := by simpa using List.find?_some hfind
        have hsame : entry = (tag, level) :=
          List.inj_on_of_nodup_map hnodup (List.mem_of_find?_eq_some hfind) hmem htag
        rw [hsame]
        rfl

theorem mem_writeSlot (h : line ∈ writeSlot entries slot entry) : line = entry ∨ line ∈ entries := by
  unfold writeSlot at h
  rcases List.mem_append.mp h with htake | hrest
  · exact .inr (List.mem_of_mem_take htake)
  · rcases List.mem_cons.mp hrest with rfl | hdrop
    · exact .inl rfl
    · exact .inr (List.mem_of_mem_drop hdrop)

theorem writeSlot_nodup (h : (entries.map Prod.fst).Nodup) (hnew : ∀ line ∈ entries, line.1 ≠ entry.1) :
    ((writeSlot entries slot entry).map Prod.fst).Nodup := by
  unfold writeSlot
  have hsub : (entries.take slot ++ entries.drop (slot + 1)).Sublist entries := by
    conv => rhs; rw [← List.take_append_drop slot entries]
    exact List.Sublist.append (List.Sublist.refl _) (List.drop_sublist_drop_left _ (Nat.le_succ slot))
  have hperm : (entries.take slot ++ entry :: entries.drop (slot + 1)).Perm
      (entry :: (entries.take slot ++ entries.drop (slot + 1))) := List.perm_middle
  rw [(hperm.map Prod.fst).nodup_iff, List.map_cons, List.nodup_cons]
  constructor
  · intro hmem
    obtain ⟨line, hline, heq⟩ := List.mem_map.mp hmem
    exact hnew line (hsub.subset hline) heq
  · exact h.sublist (hsub.map Prod.fst)

theorem add_wf (h : WF size s) (hpos : 0 < size) (hfits : size < 2 ^ 32 - 1) (hnew : ∀ l, (tag, l) ∉ s.entries) :
    WF size (s.add size tag level) := by
  obtain ⟨hlive, hcount, hnodup⟩ := h
  have hmod : (s.entryCount + 1) % 2 ^ 32 = s.entryCount + 1 := Nat.mod_eq_of_lt (by omega)
  have hslot := Nat.mod_lt s.entryCount hpos
  have hlength : (writeSlot s.entries (s.entryCount % size) (tag, level)).length = min (s.entryCount + 1) size := by
    unfold writeSlot
    rw [List.length_append, List.length_cons, List.length_take, List.length_drop, hlive]
    by_cases hfull : s.entryCount < size
    · rw [Nat.mod_eq_of_lt hfull]
      omega
    · omega
  constructor
  · unfold add
    dsimp only
    rw [hmod, hlength]
    split
    · omega
    · rfl
  · unfold add
    dsimp only
    rw [hmod]
    split
    · exact hfits
    · omega
  · refine writeSlot_nodup hnodup fun line hline heq => ?_
    have hsame : (tag, line.2) = line := Prod.ext heq.symm rfl
    exact hnew line.2 (hsame ▸ hline)

end CacheArray

open CacheArray in
/-- The array cache keeps the laws. -/
def cacheArray_laws [DecidableEq Ptr] (text : Ptr → String) (size : CacheArray.Size) : (cacheArray text size).Laws text where
  WF := WF size.size
  init_wf := ⟨⟨(Nat.zero_min _).symm, (by decide : 0 < 2 ^ 32 - 1), List.nodup_nil⟩, rfl⟩
  nodup := fun _ h => h.nodup
  setLevel := by
    intro s h tag level
    have hfst : ((s.setLevel text tag level).entries.map Prod.fst) = s.entries.map Prod.fst :=
      map_updateFirst fun _ => rfl
    have hlength : (s.setLevel text tag level).entries.length = s.entries.length := by
      rw [← List.length_map (f := Prod.fst), hfst, List.length_map]
    exact ⟨s.setLevel text tag level, rfl, ⟨hlength.trans h.live, h.count, hfst ▸ h.nodup⟩, rfl⟩
  getLevel := fun s h tag => ⟨s, s.getLevel tag, rfl, h, fun _ => Iff.rfl, fun _ => getLevel_eq_some_iff h.nodup⟩
  clean := fun _ _ => ⟨⟨(Nat.zero_min _).symm, (by decide : 0 < 2 ^ 32 - 1), List.nodup_nil⟩, rfl⟩
  add := fun _ h _ _ hnew => ⟨add_wf h size.pos (by have hfits := size.fits; omega) hnew,
    fun _ hline => mem_writeSlot hline⟩

end EspIdf.LogLevel
