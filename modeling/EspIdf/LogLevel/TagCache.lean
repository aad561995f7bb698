import Mathlib.Data.List.Nodup
import EspIdf.LogLevel.TagLogLevel

/-!
# A cache before the list

* `TagCache`, `Log`, `Log.set`, `Log.get` : the calls with a cache keyed by the address of the tag;
* `updateFirst` : only the first line of a text is updated;
* `TagCache.Laws` : what is asked of a cache;
* `Laws.transparent_iff` : for a run of calls, when the cache changes no level.
-/

namespace EspIdf.LogLevel

/-- A cache: `nothing` from `setLevel` and `getLevel` is a failed assertion. The lines are what it holds. -/
structure TagCache (Ptr : Type) where
  State : Type
  init : State
  setLevel : State → Ptr → Level → Option State
  getLevel : State → Ptr → Option (State × Option Level)
  clean : State → State
  add : State → Ptr → Level → State
  lines : State → List (Ptr × Level)

variable {Ptr : Type} {text : Ptr → String} {C : TagCache Ptr}

/-- The default level, the list and the cache. -/
structure Log (C : TagCache Ptr) where
  levels : Levels
  cache : C.State

/-- `log_level_set`. -/
def Log.set (text : Ptr → String) (s : Log C) (tag : Option Ptr) (level : Level) (memory : Bool) : Option (Log C) :=
  match tag with
  | .none => some s
  | some tag =>
    if text tag = "*" then some { levels := { default := level, list := [] }, cache := C.clean s.cache }
    else
      let result := linkedListSetLevel s.levels.list (text tag) level memory
      if result.2 then do
        let cache ← C.setLevel s.cache tag level
        some { levels := { s.levels with list := result.1 }, cache := cache }
      else some { s with levels := { s.levels with list := result.1 } }

/-- `log_level_get`. -/
def Log.get (text : Ptr → String) (s : Log C) (tag : Option Ptr) : Option (Log C × Level) :=
  match tag with
  | .none => some (s, s.levels.default)
  | some tag => do
    let (cache, hit) ← C.getLevel s.cache tag
    match hit with
    | some level => some ({ s with cache := cache }, level)
    | .none =>
      let level := s.levels.levelOf (text tag)
      some ({ s with cache := C.add cache tag level }, level)

/-- The state after the calls, the latest first. -/
def Log.after (text : Ptr → String) (C : TagCache Ptr) (dflt : Level) : List (Call Ptr) → Option (Log C)
  | [] => some { levels := { default := dflt, list := [] }, cache := C.init }
  | call :: earlier => do
    let s ← Log.after text C dflt earlier
    match call with
    | .set tag level memory => s.set text tag level memory
    | .get tag => (s.get text tag).map Prod.fst

/-- The level that `esp_log_level_get` returns after the calls. -/
def Log.levelNow (text : Ptr → String) (C : TagCache Ptr) (dflt : Level) (history : List (Call Ptr))
    (tag : Option Ptr) : Option Level := do
  let s ← Log.after text C dflt history
  (s.get text tag).map Prod.snd

/-! ## The first line of a text -/

section UpdateFirst

variable {α : Type} {hit : α → Bool} {update : α → α} {lines : List α} {x : α}

def updateFirst (hit : α → Bool) (update : α → α) : List α → List α
  | [] => []
  | a :: rest => if hit a then update a :: rest else a :: updateFirst hit update rest

theorem mem_updateFirst_of_not_hit (hupdate : ∀ a, hit (update a) = hit a) (hx : hit x = false) :
    x ∈ updateFirst hit update lines ↔ x ∈ lines := by
  induction lines with
  | nil => exact Iff.rfl
  | cons a rest ih =>
      unfold updateFirst
      by_cases ha : hit a = true
      · have hne : ∀ b, hit b = true → x ≠ b := by
          intro b hb heq
          rw [heq, hb] at hx
          exact nomatch hx
        rw [if_pos ha, List.mem_cons, List.mem_cons, or_iff_right (hne _ ((hupdate a).trans ha)),
          or_iff_right (hne a ha)]
      · rw [if_neg ha, List.mem_cons, List.mem_cons, ih]

/-- After the update all lines that match are as wanted exactly when those after the first were. -/
theorem updateFirst_all_iff {P : α → Prop} (hP : ∀ a, P (update a)) :
    (∀ x ∈ updateFirst hit update lines, hit x = true → P x) ↔ ∀ x ∈ (lines.filter hit).tail, P x := by
  induction lines with
  | nil => exact iff_of_true (fun x hx => nomatch hx) (fun x hx => nomatch hx)
  | cons a rest ih =>
      unfold updateFirst
      by_cases ha : hit a = true
      · rw [if_pos ha, List.filter_cons_of_pos ha, List.tail_cons, List.forall_mem_cons, and_iff_right (fun _ => hP a)]
        simp only [List.mem_filter, and_imp]
      · rw [if_neg ha, List.filter_cons_of_neg ha, List.forall_mem_cons, and_iff_right (fun h => absurd h ha), ih]

theorem map_updateFirst {β : Type} {f : α → β} (hf : ∀ a, f (update a) = f a) :
    (updateFirst hit update lines).map f = lines.map f := by
  induction lines with
  | nil => rfl
  | cons a rest ih =>
      unfold updateFirst
      by_cases ha : hit a = true
      · rw [if_pos ha, List.map_cons, List.map_cons, hf]
      · rw [if_neg ha, List.map_cons, List.map_cons, ih]

end UpdateFirst

/-! ## What is asked of a cache -/

/-- A line of this text. -/
def sameText (text : Ptr → String) (tag : Ptr) (line : Ptr × Level) : Bool := text line.1 = text tag

/-- What is asked of a cache: in its well-formed states no assertion fails, and the lines change as they should. -/
structure TagCache.Laws (text : Ptr → String) (C : TagCache Ptr) where
  WF : C.State → Prop
  init_wf : WF C.init ∧ C.lines C.init = []
  nodup : ∀ s, WF s → ((C.lines s).map Prod.fst).Nodup
  setLevel : ∀ s, WF s → ∀ tag level, ∃ s', C.setLevel s tag level = some s' ∧ WF s' ∧
    C.lines s' = updateFirst (sameText text tag) (fun line => (line.1, level)) (C.lines s)
  getLevel : ∀ s, WF s → ∀ tag, ∃ s' hit, C.getLevel s tag = some (s', hit) ∧ WF s' ∧
    (∀ line, line ∈ C.lines s' ↔ line ∈ C.lines s) ∧ ∀ level, hit = some level ↔ (tag, level) ∈ C.lines s
  clean : ∀ s, WF s → WF (C.clean s) ∧ C.lines (C.clean s) = []
  add : ∀ s, WF s → ∀ tag level, (∀ l, (tag, l) ∉ C.lines s) → WF (C.add s tag level) ∧
    ∀ line ∈ C.lines (C.add s tag level), line = (tag, level) ∨ line ∈ C.lines s

namespace TagCache.Laws

variable (laws : C.Laws text) {s s' : Log C}

/-- Every line has the level that the list and the default give. -/
def Agrees (text : Ptr → String) (s : Log C) : Prop :=
  ∀ line ∈ C.lines s.cache, line.2 = s.levels.levelOf (text line.1)

/-- Each get returns the level that the list and the default give. -/
def Transparent (text : Ptr → String) (s : Log C) : Prop :=
  ∀ tag, (s.get text tag).map Prod.snd = some (s.levels.get text tag)

/-- A set reaches every line of its text: but for the first one, they have the level already. -/
def Reaches (text : Ptr → String) (s : Log C) (tag : Ptr) (level : Level) (memory : Bool) : Prop :=
  text tag = "*" ∨ (linkedListSetLevel s.levels.list (text tag) level memory).2 = false ∨
    ∀ line ∈ ((C.lines s.cache).filter (sameText text tag)).tail, line.2 = level

theorem get_some (hwf : laws.WF s.cache) (tag : Ptr) : ∃ s' level, s.get text (some tag) = some (s', level) ∧
    laws.WF s'.cache ∧ s'.levels = s.levels ∧
    ((∃ hit, (tag, hit) ∈ C.lines s.cache ∧ level = hit ∧ ∀ line, line ∈ C.lines s'.cache ↔ line ∈ C.lines s.cache) ∨
      (∀ hit, (tag, hit) ∉ C.lines s.cache) ∧ level = s.levels.levelOf (text tag) ∧
        ∀ line ∈ C.lines s'.cache, line = (tag, level) ∨ line ∈ C.lines s.cache) := by
  obtain ⟨cache, hit, hget, hwf', hlines, hhit⟩ := laws.getLevel s.cache hwf tag
  unfold Log.get
  dsimp only
  rw [hget]
  cases hit with
  | some level =>
      refine ⟨{ s with cache := cache }, level, rfl, hwf', rfl, .inl ⟨level, (hhit level).mp rfl, rfl, hlines⟩⟩
  | none =>
      have hmiss : ∀ l, (tag, l) ∉ C.lines s.cache := fun l hl => nomatch (hhit l).mpr hl
      have hmiss' : ∀ l, (tag, l) ∉ C.lines cache := fun l hl => hmiss l ((hlines _).mp hl)
      obtain ⟨hwfAdd, hadd⟩ := laws.add cache hwf' tag (s.levels.levelOf (text tag)) hmiss'
      refine ⟨{ s with cache := C.add cache tag (s.levels.levelOf (text tag)) }, _, rfl, hwfAdd, rfl,
        .inr ⟨hmiss, rfl, fun line hline => ?_⟩⟩
      exact (hadd line hline).imp id (hlines line).mp

/-- The gets are right exactly when the lines are. -/
theorem transparent_iff_agrees (hwf : laws.WF s.cache) : Transparent text s ↔ Agrees text s := by
  constructor
  · intro htransparent line hline
    obtain ⟨s', level, hget, -, -, hcase⟩ := laws.get_some hwf line.1
    have hright := htransparent (some line.1)
    rw [hget] at hright
    have hlevel : level = s.levels.levelOf (text line.1) := Option.some.inj hright
    rcases hcase with ⟨hit, hmem, rfl, -⟩ | ⟨hmiss, -⟩
    · have hsame : (line.1, level) = line := List.inj_on_of_nodup_map (laws.nodup _ hwf) hmem hline rfl
      rw [← hlevel, ← hsame]
    · exact absurd hline (hmiss line.2)
  · intro hagrees tag
    cases tag with
    | none => rfl
    | some tag =>
        obtain ⟨s', level, hget, -, -, hcase⟩ := laws.get_some hwf tag
        rw [hget]
        rcases hcase with ⟨hit, hmem, rfl, -⟩ | ⟨-, hlevel, -⟩
        · exact congrArg some (hagrees _ hmem)
        · exact congrArg some hlevel

include laws in
theorem get_agrees (hwf : laws.WF s.cache) (hagrees : Agrees text s) (tag : Ptr) :
    ∀ s' level, s.get text (some tag) = some (s', level) → Agrees text s' := by
  intro s' level hget
  obtain ⟨t, l, hget', -, hlevels, hcase⟩ := laws.get_some hwf tag
  rw [hget] at hget'
  obtain ⟨rfl, rfl⟩ := Prod.mk.inj (Option.some.inj hget')
  intro line hline
  rw [hlevels]
  rcases hcase with ⟨-, -, -, hlines⟩ | ⟨-, hlevel, hlines⟩
  · exact hagrees line ((hlines line).mp hline)
  · rcases hlines line hline with rfl | hold
    · exact hlevel
    · exact hagrees line hold

theorem levelOf_set {levels : Levels} {tag other : String} {level : Level} {memory : Bool}
    (h : (linkedListSetLevel levels.list tag level memory).2 = true) :
    ({ levels with list := (linkedListSetLevel levels.list tag level memory).1 } : Levels).levelOf other =
      if tag = other then level else levels.levelOf other := by
  rcases linkedListSetLevel_cases levels.list tag level memory with ⟨hfail, -⟩ | ⟨-, -, hlevels⟩
  · rw [hfail] at h
    exact nomatch h
  · unfold Levels.levelOf
    dsimp only
    rw [hlevels]
    split
    · rfl
    · rfl

/-- After a set the lines agree exactly when the set reached every line of its text. -/
theorem set_agrees_iff (hwf : laws.WF s.cache) (hagrees : Agrees text s) (tag : Ptr) (level : Level) (memory : Bool) :
    ∃ s', s.set text (some tag) level memory = some s' ∧ laws.WF s'.cache ∧
      s'.levels = s.levels.set text (some tag) level memory ∧
      (Agrees text s' ↔ Reaches text s tag level memory) := by
  unfold Log.set Levels.set Reaches
  dsimp only
  by_cases hstar : text tag = "*"
  · rw [if_pos hstar, if_pos hstar]
    obtain ⟨hwf', hlines⟩ := laws.clean s.cache hwf
    refine ⟨_, rfl, hwf', rfl, iff_of_true ?_ (.inl hstar)⟩
    intro line hline
    rw [hlines] at hline
    exact nomatch hline
  · rw [if_neg hstar, if_neg hstar, or_iff_right hstar]
    cases hresult : (linkedListSetLevel s.levels.list (text tag) level memory).2 with
    | false =>
        rw [if_neg Bool.false_ne_true]
        refine ⟨_, rfl, hwf, rfl, iff_of_true ?_ (.inl rfl)⟩
        rcases linkedListSetLevel_cases s.levels.list (text tag) level memory with ⟨hfail, -⟩ | ⟨hok, -⟩
        · rw [hfail]
          exact hagrees
        · rw [hresult] at hok
          exact nomatch hok
    | true =>
        obtain ⟨cache, hset, hwf', hlines⟩ := laws.setLevel s.cache hwf tag level
        rw [if_pos rfl, hset]
        refine ⟨_, rfl, hwf', rfl, ?_⟩
        rw [or_iff_right (fun h : true = false => nomatch h)]
        have hsame : ∀ line : Ptr × Level, sameText text tag (line.1, level) = sameText text tag line := fun _ => rfl
        have hupdate : ∀ line : Ptr × Level, ((line.1, level) : Ptr × Level).2 = level := fun _ => rfl
        rw [← updateFirst_all_iff (P := fun line : Ptr × Level => line.2 = level) hupdate]
        unfold Agrees
        dsimp only
        rw [hlines]
        refine forall₂_congr fun line hline => ?_
        rw [levelOf_set hresult]
        by_cases htext : text line.1 = text tag
        · have hhit : sameText text tag line = true := decide_eq_true htext
          rw [if_pos htext.symm, hhit, forall_prop_of_true rfl]
        · have hhit : sameText text tag line = false := decide_eq_false htext
          rw [if_neg (fun h => htext h.symm), hhit]
          exact iff_of_true (hagrees line ((mem_updateFirst_of_not_hit hsame hhit).mp hline)) (fun h => nomatch h)

/-! ## Runs -/

variable {dflt : Level}

/-- The condition of a call in a state. -/
def CallReaches (text : Ptr → String) (s : Log C) : Call Ptr → Prop
  | .set (some tag) level memory => Reaches text s tag level memory
  | _ => True

theorem call_agrees_iff (call : Call Ptr) {earlier : List (Call Ptr)} (hs : Log.after text C dflt earlier = some s)
    (hwf : laws.WF s.cache) (hlevels : s.levels = levelsAfter text dflt earlier) (hagrees : Agrees text s) :
    ∃ s', Log.after text C dflt (call :: earlier) = some s' ∧ laws.WF s'.cache ∧
      s'.levels = levelsAfter text dflt (call :: earlier) ∧ (Agrees text s' ↔ CallReaches text s call) := by
  unfold Log.after
  rw [hs]
  cases call with
  | get tag =>
      have hsame : levelsAfter text dflt (.get tag :: earlier) = s.levels := hlevels.symm
      rw [hsame]
      cases tag with
      | none => exact ⟨s, rfl, hwf, rfl, iff_of_true hagrees True.intro⟩
      | some tag =>
          obtain ⟨s', level, hget, hwf', hsame, -⟩ := laws.get_some hwf tag
          refine ⟨s', ?_, hwf', hsame, iff_of_true (laws.get_agrees hwf hagrees tag s' level hget) True.intro⟩
          exact congrArg (Option.map Prod.fst) hget
  | set tag level memory =>
      have hset : levelsAfter text dflt (.set tag level memory :: earlier) = s.levels.set text tag level memory := by
        rw [hlevels]
        rfl
      rw [hset]
      cases tag with
      | none => exact ⟨s, rfl, hwf, rfl, iff_of_true hagrees True.intro⟩
      | some tag => exact laws.set_agrees_iff hwf hagrees tag level memory

/-- No assertion fails after the calls. -/
theorem after_some (history : List (Call Ptr))
    (h : ∀ call earlier, call :: earlier <:+ history → ∀ s, Log.after text C dflt earlier = some s →
      CallReaches text s call) :
    ∃ s, Log.after text C dflt history = some s ∧ laws.WF s.cache ∧ s.levels = levelsAfter text dflt history ∧
      Agrees text s := by
  induction history with
  | nil =>
      refine ⟨_, rfl, laws.init_wf.1, rfl, fun line hline => ?_⟩
      rw [laws.init_wf.2] at hline
      exact nomatch hline
  | cons call earlier ih =>
      obtain ⟨s, hs, hwf, hlevels, hagrees⟩ := ih fun c e hsuffix => h c e (hsuffix.trans (List.suffix_cons ..))
      obtain ⟨s', hs', hwf', hlevels', hiff⟩ := laws.call_agrees_iff call hs hwf hlevels hagrees
      exact ⟨s', hs', hwf', hlevels', hiff.mpr (h call earlier (List.suffix_refl _) s hs)⟩

theorem levelNow_eq {history : List (Call Ptr)} (hs : Log.after text C dflt history = some s) (tag : Option Ptr) :
    Log.levelNow text C dflt history tag = (s.get text tag).map Prod.snd := by
  unfold Log.levelNow
  rw [hs]
  rfl

include laws in
/-- All the levels after a run of calls, and after each of its beginnings, are those last set exactly when each set of the run
reaches every line of its text. -/
theorem transparent_iff (history : List (Call Ptr)) :
    (∀ earlier, earlier <:+ history → ∀ tag,
      Log.levelNow text C dflt earlier tag = some ((levelsAfter text dflt earlier).get text tag)) ↔
    ∀ call earlier, call :: earlier <:+ history → ∀ s, Log.after text C dflt earlier = some s →
      CallReaches text s call := by
  constructor
  · intro htransparent
    induction history with
    | nil => exact fun call earlier hsuffix => nomatch List.suffix_nil.mp hsuffix
    | cons call earlier ih =>
        have hbefore := ih fun e hsuffix => htransparent e (hsuffix.trans (List.suffix_cons ..))
        intro call' earlier' hsuffix
        rcases List.suffix_cons_iff.mp hsuffix with heq | hsuffix'
        · obtain ⟨rfl, rfl⟩ := List.cons.inj heq
          obtain ⟨s, hs, hwf, hlevels, hagrees⟩ := laws.after_some earlier' hbefore
          obtain ⟨s', hs', hwf', hlevels', hiff⟩ := laws.call_agrees_iff call' hs hwf hlevels hagrees
          intro t ht
          obtain rfl : s = t := Option.some.inj (hs.symm.trans ht)
          refine hiff.mp ((laws.transparent_iff_agrees hwf').mp fun tag => ?_)
          rw [← levelNow_eq hs', hlevels']
          exact htransparent _ (List.suffix_refl _) tag
        · exact hbefore call' earlier' hsuffix'
  · intro hreaches earlier hsuffix tag
    obtain ⟨s, hs, hwf, hlevels, hagrees⟩ :=
      laws.after_some earlier fun c e hsuffix' => hreaches c e (hsuffix'.trans hsuffix)
    rw [levelNow_eq hs, ← hlevels]
    exact (laws.transparent_iff_agrees hwf).mpr hagrees tag

end TagCache.Laws

end EspIdf.LogLevel
