import EspIdf.Osi.ConfigText

/-!
# A configuration that was saved is loaded as it was

* `saveChunks_true`, `readText_chunks` : the chunks of a text, whatever chunks an older one has left;
* `Op`, `build_sound` : what the calls build;
* `save_new` : saving and loading;
* `save_returns` : a configuration is saved when nothing fails and the text has less than 255 chunks.
-/

namespace EspIdf.Osi

/-! ## Chunks -/

/-- The blobs are the chunks of a text. -/
def Holds (flash : Flash) (text : Bytes) : Prop :=
  ∃ count, text.length / fileMaxSize = count ∧ count ≤ 255 ∧ ∀ i ≤ count, flash i = some (chunk text count i)

section chunks
variable {faults : Faults} {text : Bytes} {count : Nat} {flash flash' : Flash}

theorem saveChunks_true {fuel turn : Nat} (hcount : count ≤ 255)
    (h : saveChunks faults text count fuel turn flash = some (true, flash'))
    (hdone : ∀ i ≤ count, i < turn → flash i = some (chunk text count i)) :
    ∀ i ≤ count, flash' i = some (chunk text count i) := by
  induction fuel generalizing turn flash with
  | zero => cases h
  | succ fuel ih =>
    unfold saveChunks at h
    dsimp only at h
    split at h
    · split at h
      · cases h
      · refine ih h fun i hi hturn => ?_
        by_cases hthis : i = turn % 256
        · rw [hthis, Function.update_self]
        · rw [Function.update_of_ne hthis]
          exact hdone i hi (by omega)
    · cases h
      exact fun i hi => hdone i hi (by omega)

theorem saveText_holds {fuel : Nat} (h : saveText fuel faults text flash = some (true, flash')) : Holds flash' text := by
  unfold saveText at h
  split at h
  · rename_i hsmall
    split at h
    · cases h
    · cases h
      refine ⟨0, Nat.div_eq_of_lt hsmall, Nat.zero_le _, fun i hi => ?_⟩
      rw [Nat.le_zero.mp hi, Function.update_self]
      rfl
  · dsimp only at h
    split at h
    · cases h
    · rename_i hcount
      have hcount : text.length / fileMaxSize ≤ 255 := Nat.not_lt.mp hcount
      exact ⟨_, rfl, hcount, saveChunks_true hcount h fun i _ hi => absurd hi (Nat.not_lt_zero i)⟩

theorem length_chunk {i : Nat} (hcount : text.length / fileMaxSize = count) (hi : i ≤ count) :
    (chunk text count i).length = if i = count then text.length - i * fileMaxSize else fileMaxSize := by
  have hdiv := Nat.div_mul_le_self text.length fileMaxSize
  rw [hcount] at hdiv
  unfold chunk
  split
  · rw [List.length_drop]
  · rename_i hne
    have hnext : (i + 1) * fileMaxSize ≤ count * fileMaxSize := Nat.mul_le_mul_right _ (by omega)
    rw [List.length_take, List.length_drop]
    rw [Nat.add_mul, Nat.one_mul] at hnext
    omega

theorem last_short (hcount : text.length / fileMaxSize = count) : text.length - count * fileMaxSize < fileMaxSize := by
  have hpos : 0 < fileMaxSize := by decide
  have hlt := Nat.lt_div_mul_add (a := text.length) hpos
  rw [hcount] at hlt
  omega

/-- The blobs give back the text from a chunk on: the last one is short, though it may be empty. -/
theorem readText_chunks {i fuel : Nat} (hcount : text.length / fileMaxSize = count)
    (hchunks : ∀ i ≤ count, flash i = some (chunk text count i)) (hi : i ≤ count) (hfuel : count - i < fuel) :
    readText flash fuel i = some (some (text.drop (i * fileMaxSize))) ∧
      sizeFromFlash flash fuel i = some (text.length - i * fileMaxSize) := by
  induction fuel generalizing i with
  | zero => omega
  | succ fuel ih =>
    have hlen := length_chunk hcount hi
    have hshort := last_short hcount
    unfold readText sizeFromFlash
    rw [hchunks i hi]
    dsimp only
    by_cases hlast : i = count
    · rw [if_pos hlast] at hlen
      rw [hlast] at hlen ⊢
      have hfits : ¬(chunk text count count).length > defaultLength := by
        rw [hlen]
        exact Nat.not_lt.mpr (Nat.le_trans (Nat.le_of_lt hshort) (by decide))
      rw [if_neg hfits, hlen, if_neg (Nat.ne_of_lt hshort), if_neg (Nat.ne_of_lt hshort), chunk, if_pos rfl]
      exact ⟨rfl, rfl⟩
    · rw [if_neg hlast] at hlen
      obtain ⟨hread, hsize⟩ := ih (by omega : i + 1 ≤ count) (by omega)
      have hdiv := Nat.div_mul_le_self text.length fileMaxSize
      have hnext : (i + 1) * fileMaxSize ≤ count * fileMaxSize := Nat.mul_le_mul_right _ (by omega)
      rw [hcount] at hdiv
      rw [Nat.add_mul, Nat.one_mul] at hnext
      rw [hlen, if_neg (by decide), if_pos rfl, if_pos rfl, hread, hsize, chunk, if_neg hlast]
      refine ⟨?_, ?_⟩
      · rw [Option.map_some, Option.map_some, Nat.add_mul, Nat.one_mul, ← List.drop_drop, List.take_append_drop]
      · rw [Option.map_some, Nat.add_mul, Nat.one_mul]
        exact congrArg some (by omega)

theorem configNew_holds (h : Holds flash text) :
    configNew flash = some (some (parseLines text.length defaultSection [] text)) := by
  obtain ⟨count, hcount, hle, hchunks⟩ := h
  obtain ⟨fuel, hfuel, hmany⟩ : ∃ fuel, fuel = 0x10000 ∧ 255 < fuel := ⟨0x10000, rfl, by omega⟩
  obtain ⟨hread, hsize⟩ := @readText_chunks text count flash 0 fuel hcount hchunks (Nat.zero_le _) (by omega)
  unfold configNew
  rw [← hfuel, hsize, hread, Nat.zero_mul, List.drop_zero, Nat.sub_zero, Option.bind_some]
  split
  · rename_i hempty
    rw [List.length_eq_zero_iff.mp hempty]
    rfl
  · rfl

end chunks

/-! ## What the calls build -/

/-- A string of C. -/
structure CString where
  bytes : Bytes
  noNul : 0 ∉ bytes

inductive Op
  | setString (name key value : CString) (insertBack : Bool)
  | setInt (name key : CString) (value : Int)
  | setBool (name key : CString) (value : Bool)
  | removeSection (name : CString)
  | removeKey (name key : CString)

def apply (config : Config) : Op → Config
  | .setString name key value insertBack => setString config name.bytes key.bytes value.bytes insertBack
  | .setInt name key value => setInt config name.bytes key.bytes value
  | .setBool name key value => setBool config name.bytes key.bytes value
  | .removeSection name => (removeSection config name.bytes).2
  | .removeKey name key => (removeKey config name.bytes key.bytes).2

/-- The configuration that calls build from an empty one. -/
def build (ops : List Op) : Config := ops.foldl apply []

section sound
variable {config : Config} {name : Bytes}

theorem modifySection_mem {change : List Entry → List Entry} {sec : Section} (h : sec ∈ modifySection name change config) :
    sec ∈ config ∨ ∃ old ∈ config, old.name = name ∧ sec = { old with entries := change old.entries } := by
  induction config with
  | nil => cases h
  | cons s rest ih =>
    rw [modifySection] at h
    split at h
    · rename_i hname
      rcases List.mem_cons.mp h with rfl | h
      · exact .inr ⟨s, List.mem_cons_self, hname, rfl⟩
      · exact .inl (List.mem_cons_of_mem _ h)
    · rcases List.mem_cons.mp h with rfl | h
      · exact .inl List.mem_cons_self
      · rcases ih h with h | ⟨old, hold, heq⟩
        · exact .inl (List.mem_cons_of_mem _ h)
        · exact .inr ⟨old, List.mem_cons_of_mem _ hold, heq⟩

theorem modifySection_names (change : List Entry → List Entry) :
    (modifySection name change config).map Section.name = config.map Section.name := by
  induction config with
  | nil => rfl
  | cons s rest ih =>
    rw [modifySection]
    split
    · rfl
    · rw [List.map_cons, List.map_cons, ih]

/-- Entries that are good are replaced by good ones. -/
theorem Sound.modify (h : Sound config) {change : List Entry → List Entry}
    (hkeys : ∀ entries, (entries.map Entry.key).Nodup → ((change entries).map Entry.key).Nodup)
    (hstrings : ∀ entries, (∀ e ∈ entries, 0 ∉ e.key ∧ 0 ∉ e.value) → ∀ e ∈ change entries, 0 ∉ e.key ∧ 0 ∉ e.value) :
    Sound (modifySection name change config) where
  names := by
    rw [modifySection_names]
    exact h.names
  keys sec hsec := by
    rcases modifySection_mem hsec with hsec | ⟨old, hold, -, rfl⟩
    · exact h.keys sec hsec
    · exact hkeys _ (h.keys old hold)
  name sec hsec := by
    rcases modifySection_mem hsec with hsec | ⟨old, hold, -, rfl⟩
    · exact h.name sec hsec
    · exact h.name old hold
  strings sec hsec := by
    rcases modifySection_mem hsec with hsec | ⟨old, hold, -, rfl⟩
    · exact h.strings sec hsec
    · exact hstrings _ (h.strings old hold)

theorem Sound.sublist {config' : Config} (h : Sound config) (hsub : config'.Sublist config) : Sound config' where
  names := h.names.sublist (hsub.map _)
  keys sec hsec := h.keys sec (hsub.subset hsec)
  name sec hsec := h.name sec (hsub.subset hsec)
  strings sec hsec := h.strings sec (hsub.subset hsec)

theorem putEntry_mem {key value : Bytes} {entries : List Entry} {e : Entry} (h : e ∈ putEntry key value entries) :
    e ∈ entries ∨ (e.key = key ∧ e.value = value) := by
  induction entries with
  | nil =>
    rw [List.mem_singleton.mp h]
    exact .inr ⟨rfl, rfl⟩
  | cons x rest ih =>
    rw [putEntry] at h
    split at h
    · rename_i hkey
      rcases List.mem_cons.mp h with rfl | h
      · exact .inr ⟨hkey, rfl⟩
      · exact .inl (List.mem_cons_of_mem _ h)
    · rcases List.mem_cons.mp h with rfl | h
      · exact .inl List.mem_cons_self
      · exact (ih h).imp_left (List.mem_cons_of_mem _)

theorem putEntry_keys (key value : Bytes) {entries : List Entry} (h : (entries.map Entry.key).Nodup) :
    ((putEntry key value entries).map Entry.key).Nodup := by
  induction entries with
  | nil => exact List.pairwise_singleton _ _
  | cons x rest ih =>
    rw [putEntry]
    split
    · exact h
    · rename_i hne
      rw [List.map_cons, List.nodup_cons] at h ⊢
      refine ⟨fun hmem => ?_, ih h.2⟩
      obtain ⟨e, he, hkey⟩ := List.mem_map.mp hmem
      rcases putEntry_mem he with he | ⟨he, -⟩
      · exact h.1 (List.mem_map.mpr ⟨e, he, hkey⟩)
      · exact hne (hkey.symm.trans he)

theorem setString_sound (h : Sound config) {key value : Bytes} (hname : 0 ∉ name) (hkey : 0 ∉ key) (hvalue : 0 ∉ value)
    (insertBack : Bool) : Sound (setString config name key value insertBack) := by
  have hput : ∀ entries : List Entry, (∀ e ∈ entries, 0 ∉ e.key ∧ 0 ∉ e.value) →
      ∀ e ∈ putEntry key value entries, 0 ∉ e.key ∧ 0 ∉ e.value := by
    intro entries hentries e he
    rcases putEntry_mem he with he | ⟨rfl, rfl⟩
    · exact hentries e he
    · exact ⟨hkey, hvalue⟩
  unfold setString
  split
  · exact h.modify (fun _ hkeys => putEntry_keys key value hkeys) hput
  · rename_i hfind
    -- a section of its own
    have hnew : name ∉ config.map Section.name := by
      intro hmem
      obtain ⟨sec, hsec, hthis⟩ := List.mem_map.mp hmem
      exact List.find?_eq_none.mp hfind sec hsec (decide_eq_true hthis)
    have hfirst : Sound (⟨name, putEntry key value []⟩ :: config) := by
      refine ⟨List.nodup_cons.mpr ⟨hnew, h.names⟩, ?_, ?_, ?_⟩
      · exact List.forall_mem_cons.mpr ⟨putEntry_keys key value .nil, h.keys⟩
      · exact List.forall_mem_cons.mpr ⟨hname, h.name⟩
      · exact List.forall_mem_cons.mpr ⟨hput [] nofun, h.strings⟩
    split
    · have hperm : (config ++ [(⟨name, putEntry key value []⟩ : Section)]).Perm (⟨name, putEntry key value []⟩ :: config) :=
        List.perm_append_singleton _ _
      refine ⟨(hperm.map _).nodup_iff.mpr hfirst.names, fun sec hsec => ?_, fun sec hsec => ?_, fun sec hsec => ?_⟩
      · exact hfirst.keys sec (hperm.mem_iff.mp hsec)
      · exact hfirst.name sec (hperm.mem_iff.mp hsec)
      · exact hfirst.strings sec (hperm.mem_iff.mp hsec)
    · exact hfirst

theorem removeSection_sound (h : Sound config) (name : Bytes) : Sound (removeSection config name).2 := by
  unfold removeSection
  split
  · exact h
  · exact h.sublist List.eraseP_sublist

theorem removeKey_sound (h : Sound config) (name key : Bytes) : Sound (removeKey config name key).2 := by
  unfold removeKey
  split
  · have hmodify : Sound (modifySection name (List.eraseP fun e => e.key = key) config) :=
      h.modify (fun _ hkeys => hkeys.sublist (List.eraseP_sublist.map _))
        fun _ hstrings e he => hstrings e (List.eraseP_sublist.subset he)
    dsimp only
    split
    · exact removeSection_sound hmodify name
    · exact hmodify
  · exact h

theorem decimalAux_digits (fuel n : Nat) : ∀ b ∈ decimalAux fuel n, 0x30 ≤ b := by
  induction fuel generalizing n with
  | zero => nofun
  | succ fuel ih =>
    intro b hb
    rw [decimalAux] at hb
    rcases List.mem_append.mp hb with hb | hb
    · split at hb
      · cases hb
      · exact ih _ b hb
    · rw [List.mem_singleton.mp hb, UInt8.le_iff_toNat_le]
      have hlt : 48 + n % 10 < 256 := by omega
      rw [UInt8.toNat_ofNat_of_lt' hlt]
      exact Nat.le_add_right _ _

theorem decimal_noNul (value : Int) : 0 ∉ decimal value := by
  intro h
  rcases List.mem_append.mp h with h | h
  · split at h
    · exact absurd (List.mem_singleton.mp h) (by decide)
    · cases h
  · exact absurd (decimalAux_digits _ _ 0 h) (by decide)

theorem apply_sound (h : Sound config) (op : Op) : Sound (apply config op) := by
  cases op with
  | setString name key value insertBack => exact setString_sound h name.noNul key.noNul value.noNul insertBack
  | setInt name key value => exact setString_sound h name.noNul key.noNul (decimal_noNul value) false
  | setBool name key value => exact setString_sound h name.noNul key.noNul (by cases value <;> decide) false
  | removeSection name => exact removeSection_sound h name.bytes
  | removeKey name key => exact removeKey_sound h name.bytes key.bytes

theorem build_sound (ops : List Op) : Sound (build ops) := by
  have hempty : Sound [] := ⟨.nil, nofun, nofun, nofun⟩
  have hrun : ∀ (ops : List Op) (config : Config), Sound config → Sound (ops.foldl apply config) := by
    intro ops
    induction ops with
    | nil => exact fun _ h => h
    | cons op ops ih => exact fun config h => ih _ (apply_sound h op)
  exact hrun ops [] hempty

end sound

/-! ## Saving -/

theorem length_entryLine (e : Entry) : (entryLine e).length = e.key.length + e.value.length + 4 := by
  simp [entryLine]
  omega

theorem sizeOfEntries_eq {total : Nat} {entries : List Entry}
    (h : total + (entries.flatMap entryLine).length ≤ sizeMax) :
    sizeOfEntries total entries = some (total + (entries.flatMap entryLine).length) := by
  induction entries generalizing total with
  | nil => rfl
  | cons e entries ih =>
    rw [List.flatMap_cons, List.length_append, length_entryLine] at h ⊢
    rw [sizeOfEntries, addSize, if_neg (by omega), Option.bind_some, ih (by omega)]
    exact congrArg some (by omega)

theorem sizeOfSections_eq {total : Nat} {config : Config} (h : total + (render config).length < sizeMax) :
    sizeOfSections total config = some (total + (render config).length) := by
  induction config generalizing total with
  | nil => rfl
  | cons sec rest ih =>
    have hline : (sectionLine sec.name).length = sec.name.length + 3 := by simp [sectionLine]
    rw [render, renderSection, List.length_append, List.length_append, hline] at h ⊢
    rw [sizeOfSections, addSize, if_neg (by omega), Option.bind_some, sizeOfEntries_eq (by omega), Option.bind_some]
    by_cases hlast : rest = []
    · rw [if_pos hlast, if_pos hlast]
      exact congrArg some (by simp; omega)
    · rw [if_neg hlast, List.length_cons] at h
      rw [if_neg hlast, if_neg hlast, if_neg (by omega), List.length_cons, ih (by omega)]
      exact congrArg some (by omega)

theorem put_fits {size : Nat} {text line : Bytes} (hsize : size ≤ 2 ^ 31) (h : text.length + line.length < size) :
    put size text line = some (text ++ line) := by
  have hremaining : (if text.length < size then size - text.length else 0) = size - text.length := if_pos (by omega)
  unfold put
  rw [hremaining]
  dsimp only
  rw [if_neg (by omega), if_neg (by omega)]

theorem fillEntries_fits {size : Nat} {text : Bytes} {entries : List Entry} (hsize : size ≤ 2 ^ 31)
    (h : text.length + (entries.flatMap entryLine).length < size) :
    fillEntries size text entries = some (text ++ entries.flatMap entryLine) := by
  induction entries generalizing text with
  | nil => simp [fillEntries]
  | cons e entries ih =>
    rw [List.flatMap_cons, List.length_append] at h
    rw [fillEntries, put_fits hsize (by omega), Option.bind_some, ih (by rw [List.length_append]; omega),
      List.flatMap_cons, List.append_assoc]

theorem fillSections_fits {size : Nat} {text : Bytes} {config : Config} (hsize : size ≤ 2 ^ 31)
    (h : text.length + (render config).length < size) : fillSections size text config = some (text ++ render config) := by
  induction config generalizing text with
  | nil => simp [fillSections, render]
  | cons sec rest ih =>
    rw [render, renderSection, List.length_append, List.length_append] at h
    rw [fillSections, put_fits hsize (by omega), Option.bind_some,
      fillEntries_fits hsize (by rw [List.length_append]; omega), Option.bind_some, render, renderSection]
    by_cases hlast : rest = []
    · rw [if_pos hlast, if_pos hlast]
      simp
    · rw [if_neg hlast, List.length_cons] at h
      rw [if_neg hlast, if_neg hlast, if_neg (by simp only [List.length_append]; omega),
        ih (by simp only [List.length_append, List.length_singleton]; omega)]
      simp

/-- Nothing fails. -/
def Faults.none : Faults := ⟨false, false, false, fun _ => false, false⟩

theorem saveChunks_returns {text : Bytes} {count fuel turn : Nat} (flash : Flash) (hcount : count < 255)
    (hturn : turn ≤ count + 1) (hfuel : count + 1 - turn < fuel) :
    ∃ flash', saveChunks .none text count fuel turn flash = some (true, flash') := by
  induction fuel generalizing turn flash with
  | zero => omega
  | succ fuel ih =>
    rw [saveChunks, Nat.mod_eq_of_lt (by omega : turn < 256)]
    by_cases hmore : turn ≤ count
    · rw [if_pos hmore, if_neg (by simp [Faults.none])]
      exact ih _ (by omega) (by omega)
    · rw [if_neg hmore]
      exact ⟨flash, rfl⟩

/-- A text of less than 255 chunks is saved in less than 257 turns. -/
theorem save_returns {config : Config} (h : (render config).length < 255 * fileMaxSize) (flash : Flash) :
    ∃ flash', configSave 257 .none config flash = some (true, flash') := by
  have hmax : 255 * fileMaxSize = 391680 := rfl
  have hsize : getConfigSize config = some ((render config).length + 1) := by
    have hlimit : sizeMax = 4294967295 := rfl
    rw [getConfigSize, sizeOfSections_eq (by omega), Option.bind_some, if_neg (by omega), Nat.zero_add]
  have hfill : fill ((render config).length + 1) config = some (render config) := by
    rw [fill, fillSections_fits (by omega) (by simp), Option.bind_some, List.nil_append, if_neg (by omega)]
  have htext : ∃ flash', saveText 257 .none (render config) flash = some (true, flash') := by
    unfold saveText
    split
    · exact ⟨_, rfl⟩
    · have hcount : (render config).length / fileMaxSize < 255 := Nat.div_lt_of_lt_mul (by rw [Nat.mul_comm]; exact h)
      dsimp only
      rw [if_neg (by omega)]
      exact saveChunks_returns flash hcount (Nat.zero_le _) (by omega)
  obtain ⟨flash', hflash⟩ := htext
  refine ⟨flash', ?_⟩
  unfold configSave
  rw [if_neg (by decide), hsize]
  dsimp only
  rw [if_neg (by decide), hfill]
  dsimp only
  rw [hflash]
  rfl

/-! ## Saving and loading -/

/-- Whatever was saved before: when a configuration has been saved, the one that is loaded has the same sections in the
same order, with the same keys and values. -/
theorem save_new (ops : List Op) (hstorable : Storable (build ops)) (fuel : Nat) (faults : Faults) (flash flash' : Flash)
    (hsave : configSave fuel faults (build ops) flash = some (true, flash')) : configNew flash' = some (some (build ops)) := by
  have hsound := build_sound ops
  unfold configSave at hsave
  split at hsave
  · cases hsave
  split at hsave
  · cases hsave
  split at hsave
  · cases hsave
  split at hsave
  · cases hsave
  rename_i text hfill
  obtain ⟨⟨ok, flash₁⟩, htext, heq⟩ := Option.map_eq_some_iff.mp hsave
  rw [Prod.mk.injEq, Bool.and_eq_true] at heq
  obtain ⟨⟨rfl, -⟩, rfl⟩ := heq
  rw [configNew_holds (saveText_holds htext), fill_render hfill]
  -- there is a turn for each line
  obtain ⟨spare, hspare⟩ : ∃ spare, (render (build ops)).length = spare + lines (build ops) :=
    ⟨_, (Nat.sub_add_cancel (lines_le _)).symm⟩
  rw [hspare, parse_render spare hstorable (by rw [List.nil_append]; exact hsound), List.nil_append]

theorem trimmed_singleton {b : UInt8} (hspace : isSpace b = false) (hnewline : 0x0A ≠ b) : Trimmed [b] where
  first c hc := by
    cases hc
    exact hspace
  last c hc := by
    cases hc
    exact hspace
  nonempty := nofun
  newline h := hnewline (List.mem_singleton.mp h)

/-- `[A]` with `k = v`, saved over a larger configuration. -/
theorem save_new_small :
    let ops : List Op := [.setString ⟨[65], by decide⟩ ⟨[107], by decide⟩ ⟨[118], by decide⟩ true]
    ∃ flash', configSave 257 .none (build ops) (fun _ => some (List.replicate fileMaxSize 0)) = some (true, flash') ∧
      configNew flash' = some (some (build ops)) := by
  intro ops
  obtain ⟨flash', hsave⟩ := @save_returns (build ops) (by decide) fun _ => some (List.replicate fileMaxSize 0)
  refine ⟨flash', hsave, save_new ops ?_ 257 .none _ flash' hsave⟩
  intro sec hsec
  rw [show build ops = [⟨[65], [⟨[107], [118]⟩]⟩] from rfl, List.mem_singleton] at hsec
  subst hsec
  refine ⟨trimmed_singleton rfl (by decide), by decide, fun e he => ?_, nofun, by decide⟩
  rw [List.mem_singleton.mp he]
  exact ⟨trimmed_singleton rfl (by decide), trimmed_singleton rfl (by decide), by decide, by decide, by decide, by decide⟩

end EspIdf.Osi
