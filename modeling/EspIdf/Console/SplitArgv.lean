import EspIdf.Lib.CString
import Mathlib.Logic.Function.Basic

/-!
# `split_argv.c`: a line is split into arguments in place

* `SplitState` : where the parser is;
* `Split` : the memory, the cells of `argv` and the variables of the loop, with a journal of what is stored;
* `espConsoleSplitArgv` : the function;
* `args` : the arguments of a text, without memory;
* `Follows` : what the loop keeps, `follows_turn`, `splitLoop_follows`;
* `split_holds` : the arguments that are left behind, and where the function stores.
-/

namespace EspIdf.Console
open CString

def QUOTE : UInt8 := 34
def ESCAPE : UInt8 := 92
def SPACE : UInt8 := 32

@[simp] theorem quote_ne_space : QUOTE ≠ SPACE := by decide

@[simp] theorem escape_ne_space : ESCAPE ≠ SPACE := by decide

@[simp] theorem escape_ne_quote : ESCAPE ≠ QUOTE := by decide

/-- `split_state_t` -/
inductive SplitState
  | space
  | arg
  | quotedArg
  | argEscaped
  | quotedArgEscaped
  deriving DecidableEq

/-- `state & ~SS_FLAG_ESCAPE` -/
def SplitState.unescaped : SplitState → SplitState
  | .argEscaped => .arg
  | .quotedArgEscaped => .quotedArg
  | state => state

/-- A store to the line, while the octet `reading` is read, or to an entry of `argv`. -/
inductive Store
  | line (pos reading : Nat)
  | argv (i : Nat)

/-- Positions count from the start of the line; an entry of `argv` that is `none` is NULL. -/
structure Split where
  mem : Nat → UInt8
  argv : Nat → Option Nat
  state : SplitState
  argc : Nat
  nextArgStart : Nat
  outPtr : Nat
  stores : List Store

namespace Split

def init (mem : Nat → UInt8) (argv : Nat → Option Nat) : Split := ⟨mem, argv, .space, 0, 0, 0, []⟩

/-- `argv[i] = p` -/
def setArgv (s : Split) (i : Nat) (p : Option Nat) : Split :=
  { s with argv := Function.update s.argv i p, stores := .argv i :: s.stores }

/-- `*out_ptr = c` -/
def setOut (s : Split) (inPtr : Nat) (c : UInt8) : Split :=
  { s with mem := Function.update s.mem s.outPtr c, stores := .line s.outPtr inPtr :: s.stores }

/-- `argv[argc++] = next_arg_start` -/
def pushArg (s : Split) : Split := { s.setArgv s.argc (some s.nextArgStart) with argc := s.argc + 1 }

/-- `END_ARG`, but for `char_out`. -/
def endArg (s : Split) : Split := { s.pushArg with state := .space }

/-- The `switch`: `char_out`, which is `none` for -1, and the variables. -/
def turn (s : Split) (charIn : UInt8) : Option UInt8 × Split :=
  match s.state with
  | .space =>
    if charIn = SPACE then (none, s)
    else if charIn = QUOTE then (none, { s with nextArgStart := s.outPtr, state := .quotedArg })
    else if charIn = ESCAPE then (none, { s with nextArgStart := s.outPtr, state := .argEscaped })
    else (some charIn, { s with nextArgStart := s.outPtr, state := .arg })
  | .quotedArg =>
    if charIn = QUOTE then (some 0, s.endArg)
    else if charIn = ESCAPE then (none, { s with state := .quotedArgEscaped })
    else (some charIn, s)
  | .argEscaped | .quotedArgEscaped =>
    (if charIn = ESCAPE ∨ charIn = QUOTE ∨ charIn = SPACE then some charIn else none,
      { s with state := s.state.unescaped })
  | .arg =>
    if charIn = SPACE then (some 0, s.endArg)
    else if charIn = ESCAPE then (none, { s with state := .argEscaped })
    else (some charIn, s)

section turn
variable {s : Split} {charIn : UInt8}

theorem turn_space (h : s.state = .space) : s.turn charIn =
    if charIn = SPACE then (none, s)
    else if charIn = QUOTE then (none, { s with nextArgStart := s.outPtr, state := .quotedArg })
    else if charIn = ESCAPE then (none, { s with nextArgStart := s.outPtr, state := .argEscaped })
    else (some charIn, { s with nextArgStart := s.outPtr, state := .arg }) := by
  unfold turn
  rw [h]

theorem turn_quotedArg (h : s.state = .quotedArg) : s.turn charIn =
    if charIn = QUOTE then (some 0, s.endArg)
    else if charIn = ESCAPE then (none, { s with state := .quotedArgEscaped })
    else (some charIn, s) := by
  unfold turn
  rw [h]

theorem turn_escaped (h : s.state = .argEscaped ∨ s.state = .quotedArgEscaped) : s.turn charIn =
    (if charIn = ESCAPE ∨ charIn = QUOTE ∨ charIn = SPACE then some charIn else none,
      { s with state := s.state.unescaped }) := by
  unfold turn
  rcases h with h | h
  · rw [h]
  · rw [h]

theorem turn_arg (h : s.state = .arg) : s.turn charIn =
    if charIn = SPACE then (some 0, s.endArg)
    else if charIn = ESCAPE then (none, { s with state := .argEscaped })
    else (some charIn, s) := by
  unfold turn
  rw [h]

end turn

/-- `if (char_out >= 0)` -/
def output (inPtr : Nat) : Option UInt8 × Split → Split
  | (none, s) => s
  | (some c, s) => { s.setOut inPtr c with outPtr := s.outPtr + 1 }

end Split

/-- The loop, with the position it stops at; `none` is a loop that reads on. -/
def splitLoop (argvSize : UInt32) : (fuel inPtr : Nat) → Split → Option (Nat × Split)
  | 0, _, _ => none
  | fuel + 1, inPtr, s =>
    if s.argc < (argvSize - 1).toNat then
      let charIn := s.mem inPtr
      if charIn = 0 then some (inPtr, s)
      else splitLoop argvSize fuel (inPtr + 1) (Split.output inPtr (s.turn charIn))
    else some (inPtr, s)

/-- What follows the loop. -/
def splitEnd (argvSize : UInt32) (inPtr : Nat) (s : Split) : Split :=
  let s := s.setOut inPtr 0
  let s := if s.state ≠ .space ∧ s.argc < (argvSize - 1).toNat then s.pushArg else s
  s.setArgv s.argc none

def espConsoleSplitArgv (fuel : Nat) (line : Nat → UInt8) (argv : Nat → Option Nat) (argvSize : UInt32) : Option Split :=
  (splitLoop argvSize fuel 0 (.init line argv)).map fun r => splitEnd argvSize r.1 r.2

/-! ## The arguments of a text -/

/-- The arguments of what is left of a text, the first of which has begun with `cur`. -/
def args : SplitState → (cur : Text) → Text → List Text
  | .space, _, [] => []
  | _, cur, [] => [cur]
  | .space, _, c :: rest =>
    if c = SPACE then args .space [] rest
    else if c = QUOTE then args .quotedArg [] rest
    else if c = ESCAPE then args .argEscaped [] rest
    else args .arg [c] rest
  | .quotedArg, cur, c :: rest =>
    if c = QUOTE then cur :: args .space [] rest
    else if c = ESCAPE then args .quotedArgEscaped cur rest
    else args .quotedArg (cur ++ [c]) rest
  | .argEscaped, cur, c :: rest =>
    args .arg (if c = ESCAPE ∨ c = QUOTE ∨ c = SPACE then cur ++ [c] else cur) rest
  | .quotedArgEscaped, cur, c :: rest =>
    args .quotedArg (if c = ESCAPE ∨ c = QUOTE ∨ c = SPACE then cur ++ [c] else cur) rest
  | .arg, cur, c :: rest =>
    if c = SPACE then cur :: args .space [] rest
    else if c = ESCAPE then args .argEscaped cur rest
    else args .arg (cur ++ [c]) rest

/-! ## What the loop keeps -/

/-- The octets of `text` stand in memory from `p` on. -/
def Holds (mem : Nat → UInt8) (p : Nat) (text : Text) : Prop := ∀ i c, text[i]? = some c → mem (p + i) = c

/-- `p` points to `text`. -/
def Points (mem : Nat → UInt8) (p : Nat) (text : Text) : Prop := 0 ∉ text ∧ Holds mem p (text ++ [0])

/-- A store to the line is not ahead of what is read, which is in the line; one to `argv` is below `argc`. -/
def Store.Within (len argc : Nat) : Store → Prop
  | .line pos reading => pos ≤ reading ∧ reading ≤ len
  | .argv i => i < argc

/-- Before the octet at `inPtr` is read, `found` has been split off and `cur` has begun. -/
structure Follows (line : Nat → UInt8) (len inPtr : Nat) (found : List Text) (cur : Text) (s : Split) : Prop where
  inLine : inPtr ≤ len
  unread : ∀ i, inPtr ≤ i → s.mem i = line i
  behind : s.outPtr ≤ inPtr
  count : s.argc = found.length
  split : ∀ k text, found[k]? = some text → ∃ p, s.argv k = some p ∧ Points s.mem p text ∧ p + text.length < s.outPtr
  under : s.state ≠ .space → s.nextArgStart + cur.length = s.outPtr ∧ 0 ∉ cur ∧ Holds s.mem s.nextArgStart cur
  stores : ∀ st ∈ s.stores, st.Within len s.argc

section holds
variable {mem : Nat → UInt8} {p q : Nat} {text : Text} {c : UInt8}

theorem Holds.update (h : Holds mem p text) (hq : p + text.length ≤ q) : Holds (Function.update mem q c) p text := by
  intro i d hd
  obtain ⟨hi, -⟩ := List.getElem?_eq_some_iff.mp hd
  rw [Function.update_of_ne (by omega)]
  exact h i d hd

theorem Holds.push (h : Holds mem p text) : Holds (Function.update mem (p + text.length) c) p (text ++ [c]) := by
  intro i d hd
  rcases Nat.lt_trichotomy i text.length with hlt | rfl | hgt
  · rw [List.getElem?_append_left hlt] at hd
    exact h.update (Nat.le_refl _) i d hd
  · rw [List.getElem?_concat_length] at hd
    rw [Function.update_self, Option.some.inj hd]
  · rw [List.getElem?_eq_none (by rw [List.length_append]; exact hgt)] at hd
    cases hd

theorem Points.update (h : Points mem p text) (hq : p + text.length < q) : Points (Function.update mem q c) p text :=
  ⟨h.1, h.2.update (by rw [List.length_append]; exact hq)⟩

end holds

theorem Store.Within.mono {len argc : Nat} {st : Store} (h : st.Within len argc) : st.Within len (argc + 1) := by
  cases st with
  | line pos reading => exact h
  | argv i => exact Nat.lt_succ_of_lt h

section moves
variable {line : Nat → UInt8} {len inPtr : Nat} {found : List Text} {cur : Text} {s : Split} {c : UInt8}

theorem follows_init (argv : Nat → Option Nat) : Follows line len 0 [] [] (.init line argv) where
  inLine := Nat.zero_le _
  unread _ _ := rfl
  behind := Nat.le_refl _
  count := rfl
  split k text h := by simp at h
  under h := absurd rfl h
  stores _ h := nomatch h

theorem Follows.next (h : Follows line len inPtr found cur s) (hin : inPtr < len) :
    Follows line len (inPtr + 1) found cur s :=
  { h with inLine := hin, unread := fun i hi => h.unread i (by omega), behind := Nat.le_succ_of_le h.behind }

theorem Follows.restate (h : Follows line len inPtr found cur s) (hs : s.state ≠ .space) (state : SplitState) :
    Follows line len inPtr found cur { s with state } :=
  { h with under := fun _ => h.under hs }

theorem Follows.begin (h : Follows line len inPtr found cur s) (state : SplitState) :
    Follows line len inPtr found [] { s with nextArgStart := s.outPtr, state } :=
  { h with under := fun _ => ⟨rfl, List.not_mem_nil, fun i c hc => by simp at hc⟩ }

/-- An octet goes to the argument that has begun. -/
theorem Follows.put (h : Follows line len inPtr found cur s) (hin : inPtr < len) (hs : s.state ≠ .space) (hc : c ≠ 0) :
    Follows line len (inPtr + 1) found (cur ++ [c]) (Split.output inPtr (some c, s)) where
  inLine := hin
  unread i hi := by
    have hbehind := h.behind
    exact (Function.update_of_ne (by omega) _ _).trans (h.unread i (by omega))
  behind := Nat.succ_le_succ h.behind
  count := h.count
  split k text hk := by
    obtain ⟨p, hp, htext, hbelow⟩ := h.split k text hk
    exact ⟨p, hp, htext.update hbelow, Nat.lt_succ_of_lt hbelow⟩
  under _ := by
    obtain ⟨hlen, hfree, hcur⟩ := h.under hs
    refine ⟨by rw [List.length_append]; exact congrArg (· + 1) hlen, ?_, ?_⟩
    · simpa [hfree] using Ne.symm hc
    · have hpush := hcur.push (c := c)
      rwa [hlen] at hpush
  stores st hst := by
    rcases List.mem_cons.mp hst with rfl | hst
    · exact ⟨h.behind, Nat.le_of_lt hin⟩
    · exact h.stores st hst

/-- An argument becomes an entry of `argv`, once its terminator is stored. -/
theorem Follows.push (h : Follows line len inPtr found cur s) (hs : s.state ≠ .space) :
    ∀ k text, (found ++ [cur])[k]? = some text → ∃ p, s.pushArg.argv k = some p ∧
      Points (Function.update s.mem s.outPtr 0) p text ∧ p + text.length < s.outPtr + 1 := by
  intro k text hk
  rcases Nat.lt_trichotomy k found.length with hlt | rfl | hgt
  · rw [List.getElem?_append_left hlt] at hk
    obtain ⟨p, hp, htext, hbelow⟩ := h.split k text hk
    have hne : k ≠ s.argc := by rw [h.count]; exact Nat.ne_of_lt hlt
    exact ⟨p, (Function.update_of_ne hne _ _).trans hp, htext.update hbelow, Nat.lt_succ_of_lt hbelow⟩
  · rw [List.getElem?_concat_length] at hk
    obtain rfl := Option.some.inj hk
    obtain ⟨hlen, hfree, hcur⟩ := h.under hs
    refine ⟨s.nextArgStart, ?_, ⟨hfree, ?_⟩, by omega⟩
    · exact (congrArg _ h.count.symm).trans (Function.update_self _ _ _)
    · have hpush := hcur.push (c := 0)
      rwa [hlen] at hpush
  · rw [List.getElem?_eq_none (by rw [List.length_append]; exact hgt)] at hk
    cases hk

theorem Follows.finish (h : Follows line len inPtr found cur s) (hin : inPtr < len) (hs : s.state ≠ .space) :
    Follows line len (inPtr + 1) (found ++ [cur]) [] (Split.output inPtr (some 0, s.endArg)) where
  inLine := hin
  unread i hi := by
    have hne : i ≠ s.outPtr := by have hbehind := h.behind; omega
    exact (Function.update_of_ne hne _ _).trans (h.unread i (by omega))
  behind := Nat.succ_le_succ h.behind
  count := by rw [List.length_append]; exact congrArg (· + 1) h.count
  split := h.push hs
  under hstate := absurd rfl hstate
  stores st hst := by
    rcases List.mem_cons.mp hst with rfl | hst
    · exact ⟨h.behind, Nat.le_of_lt hin⟩
    · rcases List.mem_cons.mp hst with rfl | hst
      · exact Nat.lt_succ_self _
      · exact (h.stores st hst).mono

/-- One octet is dealt with: it moves from the text to what has been found. -/
theorem follows_turn (h : Follows line len inPtr found cur s) (hin : inPtr < len) (hc : c ≠ 0) (rest : Text) :
    (Split.output inPtr (s.turn c)).argc ≤ s.argc + 1 ∧ ∃ found' cur',
      Follows line len (inPtr + 1) found' cur' (Split.output inPtr (s.turn c)) ∧
        found' ++ args (Split.output inPtr (s.turn c)).state cur' rest = found ++ args s.state cur (c :: rest) := by
  have hnext := h.next hin
  cases hstate : s.state with
  | space =>
    have hturn := @Split.turn_space s c hstate
    by_cases hspace : c = SPACE
    · rw [hturn, if_pos hspace]
      refine ⟨Nat.le_succ _, found, [], { hnext with under := fun hs => absurd hstate hs }, ?_⟩
      simp [Split.output, hstate, args, hspace]
    by_cases hquote : c = QUOTE
    · rw [hturn, if_neg hspace, if_pos hquote]
      exact ⟨Nat.le_succ _, found, [], hnext.begin .quotedArg, by simp [Split.output, args, hquote]⟩
    by_cases hescape : c = ESCAPE
    · rw [hturn, if_neg hspace, if_neg hquote, if_pos hescape]
      exact ⟨Nat.le_succ _, found, [], hnext.begin .argEscaped, by simp [Split.output, args, hescape]⟩
    · rw [hturn, if_neg hspace, if_neg hquote, if_neg hescape]
      refine ⟨Nat.le_succ _, found, [] ++ [c], (h.begin .arg).put hin (by simp) hc, ?_⟩
      simp [Split.output, Split.setOut, args, hspace, hquote, hescape]
  | quotedArg =>
    have hturn := @Split.turn_quotedArg s c hstate
    have hs : s.state ≠ .space := by rw [hstate]; exact nofun
    by_cases hquote : c = QUOTE
    · rw [hturn, if_pos hquote]
      refine ⟨Nat.le_refl _, found ++ [cur], [], h.finish hin hs, ?_⟩
      simp [Split.output, Split.setOut, Split.endArg, args, hquote]
    by_cases hescape : c = ESCAPE
    · rw [hturn, if_neg hquote, if_pos hescape]
      exact ⟨Nat.le_succ _, found, cur, hnext.restate hs _, by simp [Split.output, args, hescape]⟩
    · rw [hturn, if_neg hquote, if_neg hescape]
      refine ⟨Nat.le_succ _, found, cur ++ [c], h.put hin hs hc, ?_⟩
      simp [Split.output, Split.setOut, hstate, args, hquote, hescape]
  | argEscaped =>
    have hturn := @Split.turn_escaped s c (.inl hstate)
    have hs : s.state ≠ .space := by rw [hstate]; exact nofun
    rw [hstate] at hturn
    by_cases hknown : c = ESCAPE ∨ c = QUOTE ∨ c = SPACE
    · rw [hturn, if_pos hknown]
      refine ⟨Nat.le_succ _, found, cur ++ [c], (h.restate hs _).put hin (show SplitState.arg ≠ .space by decide) hc, ?_⟩
      simp [Split.output, Split.setOut, SplitState.unescaped, args, hknown]
    · rw [hturn, if_neg hknown]
      refine ⟨Nat.le_succ _, found, cur, hnext.restate hs _, ?_⟩
      simp [Split.output, SplitState.unescaped, args, hknown]
  | quotedArgEscaped =>
    have hturn := @Split.turn_escaped s c (.inr hstate)
    have hs : s.state ≠ .space := by rw [hstate]; exact nofun
    rw [hstate] at hturn
    by_cases hknown : c = ESCAPE ∨ c = QUOTE ∨ c = SPACE
    · rw [hturn, if_pos hknown]
      refine ⟨Nat.le_succ _, found, cur ++ [c], (h.restate hs _).put hin (show SplitState.quotedArg ≠ .space by decide) hc, ?_⟩
      simp [Split.output, Split.setOut, SplitState.unescaped, args, hknown]
    · rw [hturn, if_neg hknown]
      refine ⟨Nat.le_succ _, found, cur, hnext.restate hs _, ?_⟩
      simp [Split.output, SplitState.unescaped, args, hknown]
  | arg =>
    have hturn := @Split.turn_arg s c hstate
    have hs : s.state ≠ .space := by rw [hstate]; exact nofun
    by_cases hspace : c = SPACE
    · rw [hturn, if_pos hspace]
      refine ⟨Nat.le_refl _, found ++ [cur], [], h.finish hin hs, ?_⟩
      simp [Split.output, Split.setOut, Split.endArg, args, hspace]
    by_cases hescape : c = ESCAPE
    · rw [hturn, if_neg hspace, if_pos hescape]
      exact ⟨Nat.le_succ _, found, cur, hnext.restate hs _, by simp [Split.output, args, hescape]⟩
    · rw [hturn, if_neg hspace, if_neg hescape]
      refine ⟨Nat.le_succ _, found, cur ++ [c], h.put hin hs hc, ?_⟩
      simp [Split.output, Split.setOut, hstate, args, hspace, hescape]

end moves

section run
variable {line : Nat → UInt8} {len inPtr : Nat} {found : List Text} {cur : Text} {s : Split} {argvSize : UInt32}

/-- The loop returns, at the end of the text or with all the arguments that there is room for. -/
theorem splitLoop_follows {rest : Text} {fuel : Nat} (h : Follows line len inPtr found cur s)
    (hroom : s.argc ≤ (argvSize - 1).toNat) (hlen : inPtr + rest.length = len) (hrest : Holds line inPtr (rest ++ [0]))
    (hfree : 0 ∉ rest) (hfuel : rest.length < fuel) :
    ∃ r, splitLoop argvSize fuel inPtr s = some r ∧ ∃ found' cur' rest', Follows line len r.1 found' cur' r.2 ∧
      r.2.argc ≤ (argvSize - 1).toNat ∧ found' ++ args r.2.state cur' rest' = found ++ args s.state cur rest ∧
      (rest' = [] ∨ r.2.argc = (argvSize - 1).toNat) := by
  induction rest generalizing fuel inPtr found cur s with
  | nil =>
    obtain ⟨fuel, rfl⟩ := Nat.exists_eq_add_of_lt hfuel
    have hzero : s.mem inPtr = 0 := (h.unread inPtr (Nat.le_refl _)).trans (hrest 0 0 rfl)
    refine ⟨(inPtr, s), ?_, found, cur, [], h, hroom, rfl, .inl rfl⟩
    unfold splitLoop
    simp [hzero]
  | cons c rest ih =>
    obtain ⟨fuel, rfl⟩ := Nat.exists_eq_add_of_lt (Nat.zero_lt_of_lt hfuel)
    have hread : s.mem inPtr = c := (h.unread inPtr (Nat.le_refl _)).trans (hrest 0 c rfl)
    have hc : c ≠ 0 := fun hc => hfree (by simp [hc])
    rw [List.length_cons] at hlen hfuel
    rw [Nat.zero_add, splitLoop]
    by_cases hmore : s.argc < (argvSize - 1).toNat
    · obtain ⟨hargc, found', cur', hfollows, hsame⟩ := follows_turn h (by omega) hc rest
      have hrest' : Holds line (inPtr + 1) (rest ++ [0]) := fun i d hd => by
        rw [Nat.add_assoc, Nat.add_comm 1 i]
        exact hrest (i + 1) d hd
      have hfuel' : rest.length < fuel := by omega
      obtain ⟨r, hr, hinv⟩ := ih hfollows (by omega) (by omega) hrest' (fun hm => hfree (List.mem_cons_of_mem _ hm)) hfuel'
      rw [hsame] at hinv
      refine ⟨r, ?_, hinv⟩
      rw [if_pos hmore, hread, if_neg hc]
      exact hr
    · rw [if_neg hmore]
      exact ⟨(inPtr, s), rfl, found, cur, c :: rest, h, hroom, rfl, .inr (Nat.le_antisymm hroom (Nat.le_of_not_lt hmore))⟩

end run

/-- The entries of `argv` point to the arguments, and all that has been stored is the line's and theirs. -/
structure Done (len : Nat) (strings : List Text) (s : Split) : Prop where
  count : s.argc = strings.length
  split : ∀ k text, strings[k]? = some text → ∃ p, s.argv k = some p ∧ Points s.mem p text
  stores : ∀ st ∈ s.stores, st.Within len s.argc

section done
variable {line : Nat → UInt8} {len inPtr : Nat} {found : List Text} {cur : Text} {s : Split} {argvSize : UInt32}

theorem Follows.terminate (h : Follows line len inPtr found cur s) : Done len found (s.setOut inPtr 0) where
  count := h.count
  split k text hk := by
    obtain ⟨p, hp, htext, hbelow⟩ := h.split k text hk
    exact ⟨p, hp, htext.update hbelow⟩
  stores st hst := by
    rcases List.mem_cons.mp hst with rfl | hst
    · exact ⟨h.behind, h.inLine⟩
    · exact h.stores st hst

theorem Follows.terminate_push (h : Follows line len inPtr found cur s) (hs : s.state ≠ .space) :
    Done len (found ++ [cur]) (s.setOut inPtr 0).pushArg where
  count := by rw [List.length_append]; exact congrArg (· + 1) h.count
  split k text hk := by
    obtain ⟨p, hp, htext, -⟩ := h.push hs k text hk
    exact ⟨p, hp, htext⟩
  stores st hst := by
    rcases List.mem_cons.mp hst with rfl | hst
    · exact Nat.lt_succ_self _
    · exact (h.terminate.stores st hst).mono

/-- The last argument is ended by the end of the text. -/
theorem splitEnd_done {rest : Text} (h : Follows line len inPtr found cur s) (hroom : s.argc ≤ (argvSize - 1).toNat)
    (hstop : rest = [] ∨ s.argc = (argvSize - 1).toNat) :
    ∃ t, splitEnd argvSize inPtr s = t.setArgv t.argc none ∧
      Done len ((found ++ args s.state cur rest).take (argvSize - 1).toNat) t := by
  have hcount := h.count
  refine ⟨_, rfl, ?_⟩
  by_cases hlast : s.state ≠ .space ∧ s.argc < (argvSize - 1).toNat
  · obtain rfl : rest = [] := hstop.resolve_right (Nat.ne_of_lt hlast.2)
    have hargs : args s.state cur [] = [cur] := by
      cases hstate : s.state with
      | space => exact absurd hstate hlast.1
      | arg | quotedArg | argEscaped | quotedArgEscaped => rfl
    rw [hargs, List.take_of_length_le (by rw [List.length_append]; exact hcount ▸ hlast.2)]
    have hthen : (s.setOut inPtr 0).state ≠ .space ∧ (s.setOut inPtr 0).argc < (argvSize - 1).toNat := hlast
    rw [if_pos hthen]
    exact h.terminate_push hlast.1
  · have helse : ¬((s.setOut inPtr 0).state ≠ .space ∧ (s.setOut inPtr 0).argc < (argvSize - 1).toNat) := hlast
    rw [if_neg helse]
    have htake : (found ++ args s.state cur rest).take (argvSize - 1).toNat = found := by
      rcases Nat.lt_or_eq_of_le hroom with hlt | heq
      · obtain rfl : rest = [] := hstop.resolve_right (Nat.ne_of_lt hlt)
        have hstate : s.state = .space := Decidable.not_not.mp fun hs => hlast ⟨hs, hlt⟩
        rw [hstate, args, List.append_nil, List.take_of_length_le (hcount ▸ hroom)]
      · rw [← heq, hcount, List.take_left]
    rw [htake]
    exact h.terminate

end done

/-- What the function leaves behind: the arguments, then NULL, and nothing stored elsewhere. -/
structure Result (len : Nat) (strings : List Text) (s : Split) : Prop where
  argc : s.argc = strings.length
  argv : ∀ k text, strings[k]? = some text → ∃ p, s.argv k = some p ∧ Points s.mem p text
  null : s.argv strings.length = none
  stores : ∀ st ∈ s.stores, st.Within len (strings.length + 1)

theorem Done.result {len : Nat} {strings : List Text} {s : Split} (h : Done len strings s) :
    Result len strings (s.setArgv s.argc none) where
  argc := h.count
  argv k text hk := by
    obtain ⟨p, hp, htext⟩ := h.split k text hk
    have hne : k ≠ s.argc := by rw [h.count]; exact Nat.ne_of_lt (List.getElem?_eq_some_iff.mp hk).1
    exact ⟨p, (Function.update_of_ne hne _ _).trans hp, htext⟩
  null := by
    rw [← h.count]
    exact Function.update_self _ _ _
  stores st hst := by
    rw [← h.count]
    rcases List.mem_cons.mp hst with rfl | hst
    · exact Nat.lt_succ_self _
    · exact (h.stores st hst).mono

/-- The function returns the arguments of the line, as far as there is room for them. -/
theorem split_result {line : Nat → UInt8} {text : Text} (hline : Holds line 0 (text ++ [0])) (hfree : 0 ∉ text)
    (argv : Nat → Option Nat) (argvSize : UInt32) {fuel : Nat} (hfuel : text.length < fuel) :
    ∃ s, espConsoleSplitArgv fuel line argv argvSize = some s ∧
      Result text.length ((args .space [] text).take (argvSize - 1).toNat) s := by
  obtain ⟨⟨inPtr, s⟩, hloop, found, cur, rest, hfollows, hroom, hsame, hstop⟩ :=
    splitLoop_follows (follows_init argv) (Nat.zero_le (argvSize - 1).toNat) (Nat.zero_add _) hline hfree hfuel
  obtain ⟨t, hend, hdone⟩ := splitEnd_done hfollows hroom hstop
  rw [hsame] at hdone
  refine ⟨splitEnd argvSize inPtr s, by rw [espConsoleSplitArgv, hloop]; rfl, ?_⟩
  rw [hend]
  exact hdone.result

end EspIdf.Console
