import Mathlib.Algebra.Group.Nat.Defs
import Mathlib.Data.List.Basic

/-!
# Log levels of tags

* `LinkedList`, `linkedListSetLevel`, `linkedListGetLevel` : the list of the levels set, by the text of the tag;
* `Levels` : the list and the default level alone, `Log` : with a cache before them;
* `TagCache` : what a cache offers, `TagCache.Laws` : what is asked of it;
* `levelLastSet` : the level last set for a text since the last wildcard.
-/

namespace EspIdf.LogLevel

/-- `esp_log_level_t`. -/
inductive Level
  | none | error | warn | info | debug | verbose | max
  deriving DecidableEq, Repr

/-! ## The linked list -/

/-- `s_log_tags`. -/
abbrev LinkedList := List (String × Level)

/-- `set_log_level`, nothing if no tag matches. -/
def setLogLevel (tag : String) (level : Level) : LinkedList → Option LinkedList
  | [] => .none
  | it :: rest =>
    if it.1 = tag then some ((it.1, level) :: rest) else (setLogLevel tag level rest).map (it :: ·)

/-- `add_to_list`, with what `malloc` finds. -/
def addToList (tag : String) (level : Level) (memory : Bool) (list : LinkedList) : Option LinkedList :=
  if memory then some ((tag, level) :: list) else .none

/-- `esp_log_linked_list_set_level`. -/
def linkedListSetLevel (list : LinkedList) (tag : String) (level : Level) (memory : Bool) : LinkedList × Bool :=
  match setLogLevel tag level list with
  | some list' => (list', true)
  | .none =>
    match addToList tag level memory list with
    | some list' => (list', true)
    | .none => (list, false)

/-- `esp_log_linked_list_get_level`. -/
def linkedListGetLevel (list : LinkedList) (tag : String) : Option Level :=
  (list.find? fun it => tag = it.1).map Prod.snd

/-! ## The list and the default alone -/

/-- A call: `memory` is what `malloc` would find. A tag may be `NULL`. -/
inductive Call (Ptr : Type)
  | set (tag : Option Ptr) (level : Level) (memory : Bool)
  | get (tag : Option Ptr)
  deriving DecidableEq, Repr

/-- `esp_log_default_level` and the list. -/
structure Levels where
  default : Level
  list : LinkedList
  deriving DecidableEq, Repr

section Alone

variable {Ptr : Type} (text : Ptr → String)

/-- `log_level_set` without `CACHE_ENABLED`. -/
def Levels.set (s : Levels) (tag : Option Ptr) (level : Level) (memory : Bool) : Levels :=
  match tag with
  | .none => s
  | some tag =>
    if text tag = "*" then { default := level, list := [] }
    else { s with list := (linkedListSetLevel s.list (text tag) level memory).1 }

/-- The level of a text. -/
def Levels.levelOf (s : Levels) (tag : String) : Level := (linkedListGetLevel s.list tag).getD s.default

/-- `log_level_get` without `CACHE_ENABLED`. -/
def Levels.get (s : Levels) (tag : Option Ptr) : Level :=
  match tag with
  | .none => s.default
  | some tag => s.levelOf (text tag)

/-- The list and the default after the calls, the latest first. -/
def levelsAfter (dflt : Level) : List (Call Ptr) → Levels
  | [] => { default := dflt, list := [] }
  | .set tag level memory :: earlier => (levelsAfter dflt earlier).set text tag level memory
  | .get _ :: earlier => levelsAfter dflt earlier

/-! ## What the levels should be -/

/-- The level last set for a text since the last wildcard; a set that finds no memory for a new text sets nothing. -/
def lastSet (tag : String) : List (Call Ptr) → Option Level
  | [] => .none
  | .get _ :: earlier => lastSet tag earlier
  | .set .none _ _ :: earlier => lastSet tag earlier
  | .set (some set) level memory :: earlier =>
    if text set = "*" then .none
    else if text set = tag ∧ (memory ∨ (lastSet tag earlier).isSome) then some level
    else lastSet tag earlier

/-- The level of the last wildcard. -/
def lastDefault (dflt : Level) : List (Call Ptr) → Level
  | [] => dflt
  | .set (some set) level _ :: earlier => if text set = "*" then level else lastDefault dflt earlier
  | _ :: earlier => lastDefault dflt earlier

def levelLastSet (dflt : Level) (history : List (Call Ptr)) (tag : Option Ptr) : Level :=
  match tag with
  | .none => lastDefault text dflt history
  | some tag => (lastSet text (text tag) history).getD (lastDefault text dflt history)

end Alone

section List

variable {tag other : String} {level : Level} {list list' : LinkedList} {memory : Bool}

theorem setLogLevel_eq_none_iff : setLogLevel tag level list = .none ↔ linkedListGetLevel list tag = .none := by
  induction list with
  | nil => exact iff_of_true rfl rfl
  | cons it rest ih =>
      unfold setLogLevel linkedListGetLevel
      by_cases heq : it.1 = tag
      · simp [heq]
      · have hne : ¬tag = it.1 := fun h => heq h.symm
        rw [if_neg heq, List.find?_cons_of_neg (by simpa using hne), Option.map_eq_none_iff]
        exact ih

theorem linkedListGetLevel_cons (it : String × Level) : linkedListGetLevel (it :: list) tag =
    if it.1 = tag then some it.2 else linkedListGetLevel list tag := by
  unfold linkedListGetLevel
  by_cases heq : it.1 = tag
  · simp [heq]
  · have hne : ¬tag = it.1 := fun h => heq h.symm
    rw [List.find?_cons_of_neg (by simpa using hne), if_neg heq]

theorem linkedListGetLevel_setLogLevel (h : setLogLevel tag level list = some list') :
    linkedListGetLevel list' other = if tag = other then some level else linkedListGetLevel list other := by
  induction list generalizing list' with
  | nil => exact nomatch h
  | cons it rest ih =>
      unfold setLogLevel at h
      by_cases heq : it.1 = tag
      · rw [if_pos heq] at h
        obtain rfl := Option.some.inj h
        rw [linkedListGetLevel_cons, linkedListGetLevel_cons, heq]
        split
        · rfl
        · rfl
      · rw [if_neg heq] at h
        obtain ⟨rest', hrest, rfl⟩ := Option.map_eq_some_iff.mp h
        rw [linkedListGetLevel_cons, linkedListGetLevel_cons, ih hrest]
        by_cases hit : it.1 = other
        · rw [if_pos hit, if_pos hit, if_neg (fun htag => heq (hit.trans htag.symm))]
        · rw [if_neg hit, if_neg hit]

/-- What a set does: it succeeds when the text is in the list or there is memory, and then the text has the level. -/
theorem linkedListSetLevel_cases (list : LinkedList) (tag : String) (level : Level) (memory : Bool) :
    (linkedListSetLevel list tag level memory = (list, false) ∧ memory = false ∧
      linkedListGetLevel list tag = .none) ∨
    ((linkedListSetLevel list tag level memory).2 = true ∧
      (memory ∨ (linkedListGetLevel list tag).isSome) ∧
      ∀ other, linkedListGetLevel (linkedListSetLevel list tag level memory).1 other =
        if tag = other then some level else linkedListGetLevel list other) := by
  unfold linkedListSetLevel addToList
  cases hset : setLogLevel tag level list with
  | some list' =>
      refine .inr ⟨rfl, .inr ?_, fun other => linkedListGetLevel_setLogLevel hset⟩
      rw [Option.isSome_iff_ne_none]
      intro hnone
      rw [setLogLevel_eq_none_iff.mpr hnone] at hset
      exact nomatch hset
  | none =>
      cases memory with
      | true => exact .inr ⟨rfl, .inl rfl, fun other => linkedListGetLevel_cons (tag, level)⟩
      | false => exact .inl ⟨rfl, rfl, setLogLevel_eq_none_iff.mp hset⟩

end List

section Alone

variable {Ptr : Type} {text : Ptr → String} {dflt : Level}

theorem levelsAfter_default (history : List (Call Ptr)) :
    (levelsAfter text dflt history).default = lastDefault text dflt history := by
  induction history with
  | nil => rfl
  | cons call earlier ih =>
      cases call with
      | get tag => exact ih
      | set tag level memory =>
          cases tag with
          | none => exact ih
          | some tag =>
              unfold levelsAfter lastDefault Levels.set
              by_cases hstar : text tag = "*"
              · simp only [if_pos hstar]
              · simp only [if_neg hstar]
                exact ih

theorem levelsAfter_list (history : List (Call Ptr)) (tag : String) :
    linkedListGetLevel (levelsAfter text dflt history).list tag = lastSet text tag history := by
  induction history with
  | nil => rfl
  | cons call earlier ih =>
      cases call with
      | get _ => exact ih
      | set set level memory =>
          cases set with
          | none => exact ih
          | some set =>
              unfold levelsAfter lastSet Levels.set
              by_cases hstar : text set = "*"
              · simp only [if_pos hstar]
                rfl
              · simp only [if_neg hstar]
                rcases linkedListSetLevel_cases (levelsAfter text dflt earlier).list (text set) level memory with ⟨hfail, hmemory, hnone⟩ | ⟨-, hsome, hlevels⟩
                · rw [hfail, ih]
                  by_cases heq : text set = tag
                  · rw [heq, ih] at hnone
                    simp [hmemory, hnone]
                  · rw [if_neg (fun h => heq h.1)]
                · rw [hlevels, ih]
                  by_cases heq : text set = tag
                  · rw [heq, ih] at hsome
                    rw [if_pos heq, if_pos ⟨heq, hsome⟩]
                  · rw [if_neg heq, if_neg (fun h => heq h.1)]

/-- The list and the default alone give the level last set. -/
theorem levelsAfter_get (history : List (Call Ptr)) (tag : Option Ptr) :
    (levelsAfter text dflt history).get text tag = levelLastSet text dflt history tag := by
  cases tag with
  | none => exact levelsAfter_default history
  | some tag =>
      unfold Levels.get Levels.levelOf levelLastSet
      dsimp only
      rw [levelsAfter_list, levelsAfter_default]

end Alone

end EspIdf.LogLevel
