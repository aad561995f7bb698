import EspIdf.Console.SplitArgv

/-!
# Arguments, written on a line and split off again

* `Word` : an argument, and the way it is written;
* `lineOf` : words on a line, with spaces around and between them;
* `args_written` : the arguments of such a line are those of the words;
* `split_undoes_quoting` : the function finds them, and stores into the line and the first entries of `argv` only.
-/

namespace EspIdf.Console
open CString

/-- An argument, and whether it is within quotes, as an empty one has to be. -/
structure Word where
  arg : Text
  quoted : Bool
  nulFree : 0 ∉ arg
  bare : quoted = false → arg ≠ []

def escape (special : List UInt8) (arg : Text) : Text := arg.flatMap fun c => if c ∈ special then [ESCAPE, c] else [c]

def Word.written (w : Word) : Text :=
  if w.quoted then QUOTE :: (escape [ESCAPE, QUOTE] w.arg ++ [QUOTE]) else escape [ESCAPE, QUOTE, SPACE] w.arg

def spaces (n : Nat) : Text := List.replicate n SPACE

/-- Words, each with the number of spaces behind it beyond the one that separates it from the next. -/
def written : List (Word × Nat) → Text
  | [] => []
  | [(w, after)] => w.written ++ spaces after
  | (w, after) :: next :: rest => w.written ++ (spaces (after + 1) ++ written (next :: rest))

def lineOf (before : Nat) (words : List (Word × Nat)) : Text := spaces before ++ written words

section escape
variable {c : UInt8} {arg cur rest : Text}

theorem escape_cons {special : List UInt8} : escape special (c :: arg) = (if c ∈ special then [ESCAPE, c] else [c]) ++ escape special arg :=
  List.flatMap_cons

theorem args_spaces (n : Nat) (cur rest : Text) : args .space cur (spaces n ++ rest) = args .space [] rest := by
  induction n generalizing cur with
  | zero => cases rest <;> rfl
  | succ n ih => exact (if_pos rfl).trans (ih [])

/-- Within quotes the argument grows until the closing quote. -/
theorem args_quoted (cur : Text) :
    args .quotedArg cur (escape [ESCAPE, QUOTE] arg ++ QUOTE :: rest) = (cur ++ arg) :: args .space [] rest := by
  induction arg generalizing cur with
  | nil => rw [List.append_nil]; exact if_pos rfl
  | cons c arg ih =>
    rw [escape_cons, List.append_cons cur c arg, ← ih]
    by_cases hc : c ∈ [ESCAPE, QUOTE]
    · have hknown : c = ESCAPE ∨ c = QUOTE ∨ c = SPACE := by
        rcases List.mem_pair.mp hc with hc | hc
        · exact .inl hc
        · exact .inr (.inl hc)
      rw [if_pos hc]
      simp [args, hknown]
    · rw [if_neg hc]
      rw [List.mem_pair, not_or] at hc
      simp [args, hc.1, hc.2]

/-- Without quotes it grows over all that is written. -/
theorem args_bare (cur : Text) : args .arg cur (escape [ESCAPE, QUOTE, SPACE] arg ++ rest) = args .arg (cur ++ arg) rest := by
  induction arg generalizing cur with
  | nil => rw [List.append_nil]; rfl
  | cons c arg ih =>
    rw [escape_cons, List.append_cons cur c arg, ← ih]
    by_cases hc : c ∈ [ESCAPE, QUOTE, SPACE]
    · have hknown : c = ESCAPE ∨ c = QUOTE ∨ c = SPACE := by simpa using hc
      rw [if_pos hc]
      simp [args, hknown]
    · rw [if_neg hc]
      simp only [List.mem_cons, List.not_mem_nil, or_false, not_or] at hc
      simp [args, hc.1, hc.2.2]

theorem args_begin_bare (h : arg ≠ []) :
    args .space cur (escape [ESCAPE, QUOTE, SPACE] arg ++ rest) = args .arg arg rest := by
  obtain ⟨c, arg, rfl⟩ := List.exists_cons_of_ne_nil h
  have hgrow : args .arg [c] (escape [ESCAPE, QUOTE, SPACE] arg ++ rest) = args .arg (c :: arg) rest := args_bare [c]
  rw [← hgrow, escape_cons]
  by_cases hc : c ∈ [ESCAPE, QUOTE, SPACE]
  · have hknown : c = ESCAPE ∨ c = QUOTE ∨ c = SPACE := by simpa using hc
    rw [if_pos hc]
    simp [args, hknown]
  · rw [if_neg hc]
    simp only [List.mem_cons, List.not_mem_nil, or_false, not_or] at hc
    simp [args, hc.1, hc.2.1, hc.2.2]

theorem nulFree_escape (special : List UInt8) (h : 0 ∉ arg) : 0 ∉ escape special arg := by
  intro hmem
  obtain ⟨c, hc, hzero⟩ := List.mem_flatMap.mp hmem
  have hne : (0 : UInt8) ≠ c := fun heq => h (heq ▸ hc)
  split at hzero
  · simp [hne, ESCAPE] at hzero
  · simp [hne] at hzero

end escape

/-! ## A line -/

section line
variable {w : Word} {rest : Text}

/-- The word is followed by a space. -/
theorem args_word (w : Word) (n : Nat) (rest : Text) :
    args .space [] (w.written ++ (spaces (n + 1) ++ rest)) = w.arg :: args .space [] rest := by
  unfold Word.written
  cases hquoted : w.quoted with
  | true =>
    rw [if_pos rfl, List.cons_append, List.append_assoc]
    have hword : args .quotedArg [] (escape [ESCAPE, QUOTE] w.arg ++ QUOTE :: (spaces (n + 1) ++ rest)) = _ := args_quoted []
    rw [args_spaces, List.nil_append] at hword
    exact (if_neg quote_ne_space).trans ((if_pos rfl).trans hword)
  | false =>
    rw [if_neg Bool.false_ne_true, args_begin_bare (w.bare hquoted)]
    refine (if_pos rfl).trans (congrArg (w.arg :: ·) ?_)
    exact args_spaces n [] rest

/-- The word is the last one. -/
theorem args_last (w : Word) (n : Nat) : args .space [] (w.written ++ spaces n) = [w.arg] := by
  cases n with
  | succ n =>
    have hword := args_word w n []
    rwa [List.append_nil] at hword
  | zero =>
    rw [show spaces 0 = [] from rfl, List.append_nil]
    unfold Word.written
    cases hquoted : w.quoted with
    | true =>
      have hword : args .quotedArg [] (escape [ESCAPE, QUOTE] w.arg ++ QUOTE :: []) = _ := args_quoted []
      exact (if_neg quote_ne_space).trans ((if_pos rfl).trans hword)
    | false =>
      have hword : args .space [] (escape [ESCAPE, QUOTE, SPACE] w.arg ++ []) = _ := args_begin_bare (w.bare hquoted)
      rw [List.append_nil] at hword
      exact hword

theorem args_written (words : List (Word × Nat)) : args .space [] (written words) = words.map fun w => w.1.arg := by
  fun_induction written words with
  | case1 => rfl
  | case2 w after => exact args_last w after
  | case3 w after next rest ih => rw [args_word, ih]; rfl

theorem nulFree_word (w : Word) : 0 ∉ w.written := by
  unfold Word.written
  split
  · have hquote : (0 : UInt8) ≠ QUOTE := by decide
    simp [nulFree_escape _ w.nulFree, hquote]
  · exact nulFree_escape _ w.nulFree

theorem nulFree_spaces (n : Nat) : 0 ∉ spaces n := fun h => absurd (List.eq_of_mem_replicate h) (by decide)

theorem nulFree_written (words : List (Word × Nat)) : 0 ∉ written words := by
  fun_induction written words with
  | case1 => exact List.not_mem_nil
  | case2 w after => simp [nulFree_word, nulFree_spaces]
  | case3 w after next rest ih => simp [nulFree_word, nulFree_spaces, ih]

theorem nulFree_lineOf (before : Nat) (words : List (Word × Nat)) : 0 ∉ lineOf before words := by
  simp [lineOf, nulFree_spaces, nulFree_written]

end line

/-- For every list of arguments and every way of writing it, and for every line at all. -/
theorem split_undoes_quoting :
    (∀ (words : List (Word × Nat)) (before : Nat) (line : Nat → UInt8) (argv : Nat → Option Nat) (argvSize : UInt32),
      1 ≤ argvSize → words.length ≤ argvSize.toNat - 1 → Holds line 0 (lineOf before words ++ [0]) →
      ∃ s, espConsoleSplitArgv ((lineOf before words).length + 1) line argv argvSize = some s ∧
        s.argc = words.length ∧
        (∀ k w, words[k]? = some w → ∃ p, s.argv k = some p ∧ Points s.mem p w.1.arg) ∧
        s.argv words.length = none) ∧
    ∀ (text : Text) (line : Nat → UInt8) (argv : Nat → Option Nat) (argvSize : UInt32),
      1 ≤ argvSize → 0 ∉ text → Holds line 0 (text ++ [0]) →
      ∃ s, espConsoleSplitArgv (text.length + 1) line argv argvSize = some s ∧ s.argc + 1 ≤ argvSize.toNat ∧
        ∀ st ∈ s.stores, st.Within text.length (s.argc + 1) := by
  have hlimit : ∀ argvSize : UInt32, 1 ≤ argvSize → (argvSize - 1).toNat = argvSize.toNat - 1 :=
    fun argvSize hsize => UInt32.toNat_sub_of_le _ _ hsize
  constructor
  · intro words before line argv argvSize hsize hroom hline
    obtain ⟨s, hsplit, hresult⟩ := split_result hline (nulFree_lineOf before words) argv argvSize (Nat.lt_succ_self _)
    have hargs : (args .space [] (lineOf before words)).take (argvSize - 1).toNat = words.map fun w => w.1.arg := by
      rw [lineOf, args_spaces, args_written, hlimit argvSize hsize]
      exact List.take_of_length_le (by rwa [List.length_map])
    rw [hargs] at hresult
    have hcount := hresult.argc
    have hnull := hresult.null
    rw [List.length_map] at hcount hnull
    refine ⟨s, hsplit, hcount, fun k w hw => ?_, hnull⟩
    exact hresult.argv k w.1.arg (by rw [List.getElem?_map, hw]; rfl)
  · intro text line argv argvSize hsize hfree hline
    obtain ⟨s, hsplit, hresult⟩ := split_result hline hfree argv argvSize (Nat.lt_succ_self _)
    refine ⟨s, hsplit, ?_, ?_⟩
    · have hpos : 1 ≤ argvSize.toNat := UInt32.le_iff_toNat_le.mp hsize
      rw [hresult.argc, List.length_take, hlimit argvSize hsize]
      omega
    · rw [hresult.argc]
      exact hresult.stores

/-- Memory that holds a text, and zeros. -/
def memOf (text : Text) (i : Nat) : UInt8 := text.getD i 0

theorem holds_memOf (text : Text) : Holds (memOf text) 0 (text ++ [0]) := by
  intro i c hc
  rw [Nat.zero_add, memOf, List.getD_eq_getElem?_getD]
  rcases Nat.lt_or_ge i text.length with hlt | hge
  · rw [List.getElem?_append_left hlt] at hc
    rw [hc]
    rfl
  · rw [List.getElem?_append_right hge] at hc
    rw [List.getElem?_eq_none hge]
    obtain ⟨hi, hzero⟩ := List.getElem?_eq_some_iff.mp hc
    simpa using hzero

/-- One argument holds a space, one is empty, and one holds a quote; and a line breaks off within an escape. -/
theorem split_undoes_quoting_three :
    (∃ words : List (Word × Nat), (words.map fun w => w.1.arg) = [[97, 32, 98], [], [120, 34]] ∧
      ∃ s, espConsoleSplitArgv ((lineOf 1 words).length + 1) (memOf (lineOf 1 words)) (fun _ => none) 4 = some s ∧
        s.argc = 3 ∧ ∃ p, s.argv 0 = some p ∧ Points s.mem p [97, 32, 98]) ∧
    ∃ s, espConsoleSplitArgv 4 (memOf [97, 32, 92]) (fun _ => none) 2 = some s ∧ s.argc + 1 ≤ 2 ∧
      ∀ st ∈ s.stores, st.Within 3 (s.argc + 1) := by
  let words : List (Word × Nat) := [(⟨[97, 32, 98], true, by decide, nofun⟩, 0), (⟨[], true, by decide, nofun⟩, 2),
    (⟨[120, 34], false, by decide, fun _ => nofun⟩, 0)]
  obtain ⟨s, hsplit, hargc, hargv, -⟩ :=
    split_undoes_quoting.1 words 1 (memOf (lineOf 1 words)) (fun _ => none) 4 (by decide) (by decide) (holds_memOf _)
  exact ⟨⟨words, rfl, s, hsplit, hargc, hargv 0 _ rfl⟩,
    split_undoes_quoting.2 [97, 32, 92] _ (fun _ => none) 2 (by decide) (by decide) (holds_memOf _)⟩

end EspIdf.Console
