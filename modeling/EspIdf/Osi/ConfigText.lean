import EspIdf.Osi.Config

/-!
# The text of a configuration is read back

* `render`, `fill_render` : what `config_save` writes;
* `Trimmed`, `Storable` : the names, keys and values that a text can hold;
* `parseLine_section`, `parseLine_entry`, `parse_entries`, `parse_render` : what `config_parse` makes of it.
-/

namespace EspIdf.Osi

/-! ## The text that is written -/

def renderSection (sec : Section) : Bytes := sectionLine sec.name ++ sec.entries.flatMap entryLine

/-- The sections, with an empty line between two of them. -/
def render : Config → Bytes
  | [] => []
  | sec :: rest => renderSection sec ++ if rest = [] then [] else 0x0A :: render rest

section fill
variable {size : Nat} {text text' : Bytes}

theorem put_eq {line : Bytes} (h : put size text line = some text') : text' = text ++ line := by
  unfold put at h
  dsimp only at h
  generalize (if text.length < size then size - text.length else 0) = remaining at h
  split at h
  · cases h
  · split at h
    · cases h
    · exact (Option.some.inj h).symm

theorem fillEntries_eq {entries : List Entry} (h : fillEntries size text entries = some text') :
    text' = text ++ entries.flatMap entryLine := by
  induction entries generalizing text with
  | nil =>
    cases h
    simp
  | cons e rest ih =>
    obtain ⟨next, hput, h⟩ := Option.bind_eq_some_iff.mp h
    rw [ih h, put_eq hput, List.flatMap_cons, List.append_assoc]

theorem fillSections_eq {config : Config} (h : fillSections size text config = some text') :
    text' = text ++ render config := by
  induction config generalizing text with
  | nil =>
    cases h
    simp [render]
  | cons sec rest ih =>
    obtain ⟨line, hline, h⟩ := Option.bind_eq_some_iff.mp h
    obtain ⟨lines, hlines, h⟩ := Option.bind_eq_some_iff.mp h
    have hhere : lines = text ++ renderSection sec := by
      rw [fillEntries_eq hlines, put_eq hline, renderSection, List.append_assoc]
    unfold render
    split at h
    · rename_i hlast
      cases h
      rw [if_pos hlast, List.append_nil]
      exact hhere
    · rename_i hmore
      split at h
      · cases h
      · rw [ih h, hhere, if_neg hmore]
        simp

theorem fill_render {config : Config} (h : fill size config = some text) : text = render config := by
  obtain ⟨filled, hfilled, h⟩ := Option.bind_eq_some_iff.mp h
  split at h
  · cases h
  · cases h
    exact fillSections_eq hfilled

end fill

/-! ## What a text can hold -/

/-- Neither empty nor with white space at an end, and on one line. -/
structure Trimmed (str : Bytes) : Prop where
  first : ∀ b ∈ str.head?, isSpace b = false
  last : ∀ b ∈ str.getLast?, isSpace b = false
  nonempty : str ≠ []
  newline : 0x0A ∉ str

structure Entry.Storable (e : Entry) : Prop where
  key : Trimmed e.key
  value : Trimmed e.value
  noEq : 0x3D ∉ e.key
  noBracket : e.key.head? ≠ some 0x5B
  noHash : e.key.head? ≠ some 0x23
  line : (entryLine e).length ≤ 1023 + 1

structure Section.Storable (sec : Section) : Prop where
  name : Trimmed sec.name
  noBracket : 0x5D ∉ sec.name
  entries : ∀ e ∈ sec.entries, e.Storable
  nonempty : sec.entries ≠ []
  line : (sectionLine sec.name).length ≤ 1023 + 1

def Storable (config : Config) : Prop := ∀ sec ∈ config, sec.Storable

/-- Sections and keys are named once, and the strings are C strings. -/
structure Sound (config : Config) : Prop where
  names : (config.map Section.name).Nodup
  keys : ∀ sec ∈ config, (sec.entries.map Entry.key).Nodup
  name : ∀ sec ∈ config, 0 ∉ sec.name
  strings : ∀ sec ∈ config, ∀ e ∈ sec.entries, 0 ∉ e.key ∧ 0 ∉ e.value

/-! ## Lines -/

theorem strchr_append {str rest : Bytes} {c : UInt8} (hc : c ∉ str) (hnul : 0 ∉ str) :
    strchr (str ++ c :: rest) c = some str.length := by
  have hfind : (str ++ c :: rest).findIdx? (fun b => b = c || b = 0) = some str.length := by
    rw [List.findIdx?_append, List.findIdx?_eq_none_iff.mpr, Option.none_or, List.findIdx?_cons]
    · simp
    · intro b hb
      have hbc : b ≠ c := fun h => hc (h ▸ hb)
      have hb0 : b ≠ 0 := fun h => hnul (h ▸ hb)
      simp [hbc, hb0]
  unfold strchr
  rw [hfind]
  simp

theorem dropWhile_self {str : Bytes} {b : UInt8} (h : isSpace b = false) : (b :: str).dropWhile isSpace = b :: str := by
  rw [List.dropWhile_cons_of_neg (by rw [h]; decide)]

theorem rdropWhile_self {str : Bytes} (h : ∀ b ∈ str.getLast?, isSpace b = false) : str.rdropWhile isSpace = str := by
  rw [List.rdropWhile_eq_self_iff]
  intro hne hspace
  have hlast := h _ (List.getLast?_eq_some_getLast hne)
  rw [hlast] at hspace
  cases hspace

theorem Trimmed.trim_eq {str : Bytes} (h : Trimmed str) : trim str = str := by
  unfold trim
  cases str with
  | nil => rfl
  | cons b str =>
    rw [dropWhile_self (h.first b rfl)]
    exact rdropWhile_self h.last

theorem Trimmed.trim_before {str : Bytes} (h : Trimmed str) : trim (0x20 :: str) = str := by
  have hdrop : (0x20 :: str).dropWhile isSpace = str.dropWhile isSpace := List.dropWhile_cons_of_pos (by decide)
  unfold trim
  rw [hdrop]
  exact h.trim_eq

theorem Trimmed.trim_behind {str : Bytes} (h : Trimmed str) : trim (str ++ [0x20]) = str := by
  unfold trim
  cases str with
  | nil => exact absurd rfl h.nonempty
  | cons b str =>
    rw [List.cons_append, dropWhile_self (h.first b rfl), ← List.cons_append, List.rdropWhile_concat_pos _ _ _ (by decide)]
    exact rdropWhile_self h.last

section lines
variable {sec : Bytes} {config : Config}

theorem parseLine_blank : parseLine sec config [] = (sec, config) := rfl

theorem parseLine_section (name : Bytes) : parseLine sec config (0x5B :: (name ++ [0x5D])) = (name, config) := by
  have htrim : trim (0x5B :: (name ++ [0x5D])) = 0x5B :: (name ++ [0x5D]) := by
    unfold trim
    rw [dropWhile_self (by decide)]
    refine rdropWhile_self fun b hb => ?_
    rw [← List.cons_append, List.getLast?_concat] at hb
    cases hb
    decide
  unfold parseLine
  rw [htrim]
  have hlast : (0x5B :: (name ++ [0x5D])).getLast? = some (0x5D : UInt8) := by
    rw [← List.cons_append, List.getLast?_concat]
  dsimp only
  rw [if_neg (by decide), if_pos rfl, if_pos hlast]
  simp

theorem parseLine_entry {e : Entry} (h : e.Storable) (hkey : 0 ∉ e.key) :
    parseLine sec config (e.key ++ [0x20, 0x3D, 0x20] ++ e.value) = (sec, setString config sec e.key e.value true) := by
  obtain ⟨key, value⟩ := e
  obtain ⟨htkey, htvalue, heq, hbracket, hhash, -⟩ := h
  dsimp only at htkey htvalue heq hbracket hhash hkey ⊢
  have hsplit : strchr (key ++ [0x20, 0x3D, 0x20] ++ value) 0x3D = some (key.length + 1) := by
    have hstr : key ++ [0x20, 0x3D, 0x20] ++ value = (key ++ [0x20]) ++ 0x3D :: (0x20 :: value) := by simp
    rw [hstr, strchr_append (by simpa using heq) (by simpa using hkey)]
    simp
  have htrim : trim (key ++ [0x20, 0x3D, 0x20] ++ value) = key ++ [0x20, 0x3D, 0x20] ++ value := by
    unfold trim
    cases key with
    | nil => exact absurd rfl htkey.nonempty
    | cons b key =>
      rw [List.cons_append, List.cons_append, dropWhile_self (htkey.first b rfl)]
      refine rdropWhile_self fun c hc => htvalue.last c ?_
      rw [← List.cons_append, ← List.cons_append, List.getLast?_append] at hc
      have hlast := List.getLast?_eq_some_getLast htvalue.nonempty
      rw [hlast] at hc ⊢
      exact hc
  have htake : (key ++ [0x20, 0x3D, 0x20] ++ value).take (key.length + 1) = key ++ [0x20] := by
    have hstr : key ++ [0x20, 0x3D, 0x20] ++ value = (key ++ [0x20]) ++ (0x3D :: 0x20 :: value) := by simp
    rw [hstr, List.take_left' (by simp)]
  have hdrop : (key ++ [0x20, 0x3D, 0x20] ++ value).drop (key.length + 1 + 1) = 0x20 :: value := by
    have hstr : key ++ [0x20, 0x3D, 0x20] ++ value = (key ++ [0x20, 0x3D]) ++ (0x20 :: value) := by simp
    rw [hstr, List.drop_left' (by simp)]
  unfold parseLine
  rw [htrim]
  cases key with
  | nil => exact absurd rfl htkey.nonempty
  | cons b key =>
    have hb1 : b ≠ 0x23 := fun hb => hhash (by rw [hb]; rfl)
    have hb2 : b ≠ 0x5B := fun hb => hbracket (by rw [hb]; rfl)
    rw [List.cons_append, List.cons_append] at hsplit htake hdrop ⊢
    dsimp only
    rw [if_neg hb1, if_neg hb2, hsplit]
    dsimp only
    rw [htake, hdrop, htkey.trim_behind, htvalue.trim_before]

/-- A line is read, and nothing of what follows. -/
theorem parseLines_line {line rest : Bytes} (hnul : 0 ∉ line) (hnewline : 0x0A ∉ line) (hlen : line.length ≤ 1023)
    (hmore : 1 ≤ line.length + rest.length) (fuel : Nat) :
    parseLines (fuel + 1) sec config (line ++ 0x0A :: rest) =
      parseLines fuel (parseLine sec config line).1 (parseLine sec config line).2 rest := by
  rw [parseLines, if_neg (by simp; omega), strchr_append hnewline hnul]
  dsimp only
  rw [if_neg (by omega)]
  have hdrop : (line ++ 0x0A :: rest).drop (line.length + 1) = rest := by
    rw [List.drop_append, List.drop_eq_nil_of_le (by omega)]
    simp
  rw [hdrop, List.take_left]

end lines

/-! ## Sections -/

section sections
variable {acc : Config} {name : Bytes}

theorem setString_new (hname : name ∉ acc.map Section.name) (key value : Bytes) :
    setString acc name key value true = acc ++ [⟨name, [⟨key, value⟩]⟩] := by
  have hfind : sectionFind acc name = none := by
    refine List.find?_eq_none.mpr fun sec hsec hsame => hname ?_
    exact List.mem_map.mpr ⟨sec, hsec, of_decide_eq_true hsame⟩
  unfold setString
  rw [hfind]
  rfl

theorem modifySection_last (hname : name ∉ acc.map Section.name) (entries : List Entry) (change : List Entry → List Entry) :
    modifySection name change (acc ++ [⟨name, entries⟩]) = acc ++ [⟨name, change entries⟩] := by
  induction acc with
  | nil => exact if_pos rfl
  | cons sec acc ih =>
    rw [List.map_cons, List.mem_cons, not_or] at hname
    rw [List.cons_append, modifySection, if_neg fun h => hname.1 h.symm, ih hname.2, List.cons_append]

theorem putEntry_new {entries : List Entry} {key : Bytes} (hkey : key ∉ entries.map Entry.key) (value : Bytes) :
    putEntry key value entries = entries ++ [⟨key, value⟩] := by
  induction entries with
  | nil => rfl
  | cons e entries ih =>
    rw [List.map_cons, List.mem_cons, not_or] at hkey
    rw [putEntry, if_neg fun h => hkey.1 h.symm, ih hkey.2, List.cons_append]

theorem setString_more (hname : name ∉ acc.map Section.name) {entries : List Entry} {key : Bytes}
    (hkey : key ∉ entries.map Entry.key) (value : Bytes) :
    setString (acc ++ [⟨name, entries⟩]) name key value true = acc ++ [⟨name, entries ++ [⟨key, value⟩]⟩] := by
  have hfind : ∃ sec, sectionFind (acc ++ [⟨name, entries⟩]) name = some sec :=
    Option.isSome_iff_exists.mp (List.find?_isSome.mpr ⟨⟨name, entries⟩, by simp, decide_eq_true rfl⟩)
  obtain ⟨sec, hsec⟩ := hfind
  unfold setString
  rw [hsec]
  dsimp only
  rw [modifySection_last hname, putEntry_new hkey]

theorem entryLine_split (e : Entry) (rest : Bytes) :
    entryLine e ++ rest = (e.key ++ [0x20, 0x3D, 0x20] ++ e.value) ++ 0x0A :: rest := by
  simp [entryLine]

/-- A line of an entry. -/
theorem parseLines_entry {e : Entry} (h : e.Storable) (hkey : 0 ∉ e.key) (hvalue : 0 ∉ e.value) {config : Config}
    {rest : Bytes} (fuel : Nat) :
    parseLines (fuel + 1) name config (entryLine e ++ rest) =
      parseLines fuel name (setString config name e.key e.value true) rest := by
  have hline := h.line
  rw [entryLine] at hline
  rw [entryLine_split, parseLines_line, parseLine_entry h hkey]
  · simpa using ⟨hkey, hvalue⟩
  · simpa using ⟨h.key.newline, h.value.newline⟩
  · simp only [List.length_append, List.length_cons, List.length_nil] at hline ⊢
    omega
  · simp only [List.length_append, List.length_cons, List.length_nil]
    omega

/-- The entries of the last section, one after the other. -/
theorem parse_entries (hname : name ∉ acc.map Section.name) {entries done : List Entry} {rest : Bytes} (fuel : Nat)
    (hentries : ∀ e ∈ entries, e.Storable ∧ 0 ∉ e.key ∧ 0 ∉ e.value) (hkeys : ((done ++ entries).map Entry.key).Nodup) :
    parseLines (fuel + entries.length) name (acc ++ [⟨name, done⟩]) (entries.flatMap entryLine ++ rest) =
      parseLines fuel name (acc ++ [⟨name, done ++ entries⟩]) rest := by
  induction entries generalizing done with
  | nil => rw [List.flatMap_nil, List.append_nil]; rfl
  | cons e entries ih =>
    obtain ⟨hstorable, hkey, hvalue⟩ := hentries e List.mem_cons_self
    have hnew : e.key ∉ done.map Entry.key := by
      rw [List.map_append, List.map_cons, List.nodup_append] at hkeys
      exact fun hmem => hkeys.2.2 _ hmem _ List.mem_cons_self rfl
    rw [List.flatMap_cons, List.append_assoc, List.length_cons, ← Nat.add_assoc, parseLines_entry hstorable hkey hvalue,
      setString_more hname hnew, ih (fun e' he' => hentries e' (List.mem_cons_of_mem _ he'))]
    · rw [List.append_assoc, List.singleton_append]
    · rw [List.append_assoc, List.singleton_append]
      exact hkeys

theorem parse_section (hname : name ∉ acc.map Section.name) {entries : List Entry} {sec rest : Bytes} (fuel : Nat)
    (hstorable : (⟨name, entries⟩ : Section).Storable) (hnul : 0 ∉ name) (hnuls : ∀ e ∈ entries, 0 ∉ e.key ∧ 0 ∉ e.value)
    (hkeys : (entries.map Entry.key).Nodup) :
    parseLines (fuel + (entries.length + 1)) sec acc (renderSection ⟨name, entries⟩ ++ rest) =
      parseLines fuel name (acc ++ [⟨name, entries⟩]) rest := by
  have hline := hstorable.line
  rw [sectionLine] at hline
  have hsplit : renderSection ⟨name, entries⟩ ++ rest =
      (0x5B :: (name ++ [0x5D])) ++ 0x0A :: (entries.flatMap entryLine ++ rest) := by
    simp [renderSection, sectionLine]
  rw [hsplit, ← Nat.add_assoc, parseLines_line, parseLine_section]
  · dsimp only
    cases entries with
    | nil => exact absurd rfl hstorable.nonempty
    | cons e entries =>
      have hentries : ∀ x ∈ e :: entries, x.Storable ∧ 0 ∉ x.key ∧ 0 ∉ x.value :=
        fun x hx => ⟨hstorable.entries x hx, hnuls x hx⟩
      obtain ⟨hfirst, hkey, hvalue⟩ := hentries e List.mem_cons_self
      rw [List.flatMap_cons, List.append_assoc, List.length_cons, ← Nat.add_assoc, parseLines_entry hfirst hkey hvalue,
        setString_new hname]
      exact parse_entries hname fuel (fun x hx => hentries x (List.mem_cons_of_mem _ hx)) hkeys
  · simpa using hnul
  · simpa using hstorable.name.newline
  · simp only [List.length_append, List.length_cons, List.length_nil] at hline ⊢
    omega
  · rw [List.length_cons]
    omega

end sections

/-- The lines of a text. -/
def lines : Config → Nat
  | [] => 0
  | sec :: rest => sec.entries.length + 1 + if rest = [] then 0 else lines rest + 1

theorem lines_le (config : Config) : lines config ≤ (render config).length := by
  have hentries : ∀ entries : List Entry, entries.length ≤ (entries.flatMap entryLine).length := by
    intro entries
    induction entries with
    | nil => exact Nat.le_refl _
    | cons e entries ih =>
      rw [List.flatMap_cons, List.length_append, List.length_cons, entryLine]
      simp only [List.length_append, List.length_cons, List.length_nil]
      omega
  induction config with
  | nil => exact Nat.le_refl _
  | cons sec rest ih =>
    have hhere := hentries sec.entries
    unfold lines render renderSection sectionLine
    split <;> simp only [List.length_append, List.length_cons, List.length_nil] <;> omega

/-- The text of a configuration is parsed to that configuration, behind the sections there are. -/
theorem parse_render {config acc : Config} {sec : Bytes} (fuel : Nat) (hstorable : Storable config)
    (hsound : Sound (acc ++ config)) :
    parseLines (fuel + lines config) sec acc (render config) = acc ++ config := by
  induction config generalizing acc sec fuel with
  | nil =>
    rw [List.append_nil]
    cases fuel with
    | zero => rfl
    | succ fuel => exact if_pos (Nat.zero_le _)
  | cons s rest ih =>
    obtain ⟨name, entries⟩ := s
    have hmem : (⟨name, entries⟩ : Section) ∈ acc ++ ⟨name, entries⟩ :: rest := by simp
    have hname : name ∉ acc.map Section.name := by
      have hnames := hsound.names
      rw [List.map_append, List.map_cons, List.nodup_append] at hnames
      exact fun h => hnames.2.2 _ h _ List.mem_cons_self rfl
    have hsection := fun fuel rest' => @parse_section acc name hname entries sec rest' fuel
      (hstorable _ List.mem_cons_self) (hsound.name _ hmem) (hsound.strings _ hmem) (hsound.keys _ hmem)
    unfold render lines
    by_cases hlast : rest = []
    · rw [if_pos hlast, if_pos hlast, hlast, Nat.add_zero, hsection]
      cases fuel with
      | zero => rfl
      | succ fuel => exact if_pos (Nat.zero_le _)
    · rw [if_neg hlast, if_neg hlast, Nat.add_comm (entries.length + 1), ← Nat.add_assoc, hsection]
      -- the empty line between two sections
      have hblank := @parseLines_line name (acc ++ [⟨name, entries⟩]) [] (render rest) (by simp) (by simp) (by simp) (by
        have hpos := lines_le rest
        cases rest with
        | nil => exact absurd rfl hlast
        | cons s' rest' =>
          unfold lines at hpos
          omega) (fuel + lines rest)
      rw [List.nil_append] at hblank
      rw [← Nat.add_assoc, hblank, parseLine_blank]
      dsimp only
      rw [ih fuel (fun s' hs' => hstorable s' (List.mem_cons_of_mem _ hs')), List.append_assoc, List.singleton_append]
      rw [List.append_assoc, List.singleton_append]
      exact hsound

end EspIdf.Osi
