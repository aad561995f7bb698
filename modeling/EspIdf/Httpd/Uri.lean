import EspIdf.Httpd.HttpParser
import EspIdf.Lib.CString
import Mathlib.Algebra.Group.Int.Defs

/-!
# `httpd_uri.c`: URI handlers

* `matchSimple`, `matchWildcard` : whether a template accepts a path;
* `findUriHandler`, `registerUriHandler`, `unregisterUriHandler`, `unregisterUri` : the handler table;
* `Template` : the grammar of templates; `matchWildcard_iff` : they are what is accepted;
* `Holds` : a table as the list of its handlers; one lemma for each call says what becomes of the list;
* `dispatch` : after any sequence of calls.
-/

namespace EspIdf.Httpd.Uri

open CString

/-! ## Matching -/

def STAR : UInt8 := 42
def QUEST : UInt8 := 63

/-- `httpd_uri_match_simple` -/
def matchSimple (uri1 uri2 : Bytes) : Bool := uri1.length == uri2.length && strncmp uri2.length uri1 uri2

section flags
variable (template : Bytes)

def last : UInt8 := if template.length > 0 then template.getD (template.length - 1) 0 else 0

def prevlast : UInt8 := if template.length > 1 then template.getD (template.length - 2) 0 else 0

def asterisk : Bool := last template == STAR || (prevlast template == STAR && last template == QUEST)

def quest : Bool := last template == QUEST || (prevlast template == QUEST && last template == STAR)

end flags

/-- `httpd_uri_match_wildcard`; the path `uri` has no terminator. -/
def matchWildcard (template uri : Bytes) : Bool :=
  let special := (asterisk template).toNat + (quest template).toNat * 2
  if template.length < special then false
  else
    let exactMatchChars := template.length - special
    if uri.length < exactMatchChars then false
    else if !quest template then
      if !asterisk template && uri.length != exactMatchChars then false else strncmp exactMatchChars template uri
    else if uri.length > exactMatchChars ∧ template.getD exactMatchChars 0 ≠ uri.getD exactMatchChars 0 then false
    else if !strncmp exactMatchChars template uri then false
    else asterisk template || uri.length ≤ exactMatchChars + 1

/-! ## The handler table -/

/-- `httpd_uri_t`: what it is found by, and the rest. -/
structure Handler (Ctx : Type) where
  uri : Bytes
  method : Int
  supportedSubprotocol : Option Bytes
  ctx : Ctx
  nulFree : 0 ∉ uri

def HTTP_ANY : Int := 2 ^ 31 - 1

/-- `config.max_uri_handlers` and `config.uri_match_fn`. -/
structure Config where
  maxUriHandlers : Nat
  uriMatchFn : Option (Bytes → Bytes → Bool)

def Config.matches (cfg : Config) (template uri : Bytes) : Bool :=
  match cfg.uriMatchFn with
  | some fn => fn template uri
  | none => matchSimple template uri

inductive FindErr
  | none
  | notFound404
  | methodNotAllowed405
deriving Repr, DecidableEq

inductive Err
  | ok
  | invalidArg
  | handlerExists
  | handlersFull
  | allocMem
  | notFound
deriving Repr, DecidableEq

section table
variable {Ctx : Type} (cfg : Config)

/-- `hd_calls` -/
abbrev Table (Ctx : Type) := List (Option (Handler Ctx))

/-- The loop of `httpd_find_uri_handler`, with the error so far. -/
def findLoop (uri : Bytes) (method : Int) : FindErr → Table Ctx → Option (Handler Ctx) × FindErr
  | err, [] => (none, err)
  | err, none :: _ => (none, err)
  | err, some h :: rest =>
    if cfg.matches h.uri uri then
      if h.method = method ∨ h.method = HTTP_ANY then (some h, .none)
      else findLoop uri method .methodNotAllowed405 rest
    else findLoop uri method err rest

/-- `httpd_find_uri_handler` -/
def findUriHandler (uri : Bytes) (method : Int) (calls : Table Ctx) : Option (Handler Ctx) × FindErr :=
  findLoop cfg uri method .notFound404 calls

/-- Which of its allocations a registration gets: the entry, the URI, the subprotocol. -/
structure Memory where
  entry : Bool
  uri : Bool
  subprotocol : Bool

/-- The loop of `httpd_register_uri_handler`: the first free entry is filled. -/
def registerLoop (memory : Memory) (handler : Handler Ctx) : Table Ctx → Err × Table Ctx
  | [] => (.handlersFull, [])
  | none :: rest =>
    if !memory.entry then (.allocMem, none :: rest)
    else if !memory.uri then (.allocMem, none :: rest)
    else if handler.supportedSubprotocol.isSome ∧ !memory.subprotocol then (.allocMem, none :: rest)
    else (.ok, some handler :: rest)
  | some h :: rest =>
    let r := registerLoop memory handler rest
    (r.1, some h :: r.2)

/-- `httpd_register_uri_handler` -/
def registerUriHandler (memory : Memory) (handler : Option (Handler Ctx)) (calls : Table Ctx) : Err × Table Ctx :=
  match handler with
  | none => (.invalidArg, calls)
  | some handler =>
    if (findUriHandler cfg handler.uri handler.method calls).1.isSome then (.handlerExists, calls)
    else registerLoop memory handler calls

/-- The entries behind a removed one move forward by one. -/
def shift : Table Ctx → Table Ctx
  | [] => [none]
  | none :: rest => none :: none :: rest
  | some h :: rest => some h :: shift rest

/-- The loop of `httpd_unregister_uri_handler`. -/
def unregisterLoop (uri : Bytes) (method : Int) : Table Ctx → Err × Table Ctx
  | [] => (.notFound, [])
  | none :: rest => (.notFound, none :: rest)
  | some h :: rest =>
    if h.method = method ∧ h.uri = uri then (.ok, shift rest)
    else
      let r := unregisterLoop uri method rest
      (r.1, some h :: r.2)

/-- `httpd_unregister_uri_handler` -/
def unregisterUriHandler (uri : Option Bytes) (method : Int) (calls : Table Ctx) : Err × Table Ctx :=
  match uri with
  | none => (.invalidArg, calls)
  | some uri => unregisterLoop uri method calls

/-- The first loop of `httpd_unregister_uri` from `i` on, with `j` entries removed: the table, `i` and `j` at its end. -/
def compactLoop (uri : Bytes) : (fuel i j : Nat) → Table Ctx → Table Ctx × Nat × Nat
  | 0, i, j, calls => (calls, i, j)
  | fuel + 1, i, j, calls =>
    match calls.getD i none with
    | none => (calls, i, j)
    | some h =>
      if h.uri = uri then compactLoop uri fuel (i + 1) (j + 1) (calls.set i none)
      else compactLoop uri fuel (i + 1) j (calls.set (i - j) (some h))

/-- The second loop of `httpd_unregister_uri`: `n` entries from `k` on are cleared. -/
def clearLoop : (n k : Nat) → Table Ctx → Table Ctx
  | 0, _, calls => calls
  | n + 1, k, calls => clearLoop n (k + 1) (calls.set k none)

/-- `httpd_unregister_uri` -/
def unregisterUri (uri : Option Bytes) (calls : Table Ctx) : Err × Table Ctx :=
  match uri with
  | none => (.invalidArg, calls)
  | some uri =>
    let r := compactLoop uri calls.length 0 0 calls
    (if r.2.2 ≠ 0 then .ok else .notFound, clearLoop r.2.2 (r.2.1 - r.2.2) r.1)

inductive Call (Ctx : Type)
  | register (memory : Memory) (handler : Option (Handler Ctx))
  | unregisterHandler (uri : Option Bytes) (method : Int)
  | unregister (uri : Option Bytes)

def call : Call Ctx → Table Ctx → Err × Table Ctx
  | .register memory handler, calls => registerUriHandler cfg memory handler calls
  | .unregisterHandler uri method, calls => unregisterUriHandler uri method calls
  | .unregister uri, calls => unregisterUri uri calls

/-- The table of a server that has been started. -/
def started : Table Ctx := List.replicate cfg.maxUriHandlers none

/-- The table after a sequence of calls, the latest first. -/
def run : List (Call Ctx) → Table Ctx
  | [] => started cfg
  | c :: earlier => (call cfg c (run earlier)).2

end table

/-! ## Templates -/

/-- A literal text, an octet that may follow it, and whether any suffix may follow these. -/
structure Template where
  literal : Bytes
  optional : Option UInt8
  star : Bool
deriving Repr, DecidableEq

/-- How a template is written. A mark is a mark only at the end. -/
inductive Template.Written : Template → Bytes → Prop
  | literal (lit : Bytes) (h : lit.getLast? ≠ some STAR) (h' : lit.getLast? ≠ some QUEST) : Written ⟨lit, none, false⟩ lit
  | star (lit : Bytes) (h : lit.getLast? ≠ some QUEST) : Written ⟨lit, none, true⟩ (lit ++ [STAR])
  | optional (lit : Bytes) (c : UInt8) (h : c ≠ STAR) : Written ⟨lit, some c, false⟩ (lit ++ [c, QUEST])
  | optionalStar (lit : Bytes) (c : UInt8) : Written ⟨lit, some c, true⟩ (lit ++ [c, QUEST, STAR])
  | starOptional (lit : Bytes) (c : UInt8) : Written ⟨lit, some c, true⟩ (lit ++ [c, STAR, QUEST])

/-- What may follow the literal text. -/
def Template.Follows (t : Template) (rest : Bytes) : Prop :=
  match t.optional with
  | none => t.star = false → rest = []
  | some c => rest = [] ∨ ∃ suffix, rest = c :: suffix ∧ (t.star = false → suffix = [])

def Template.Accepts (t : Template) (path : Bytes) : Prop := ∃ rest, path = t.literal ++ rest ∧ t.Follows rest

section matching
variable {lit tail template uri : Bytes} {c d : UInt8} {t : Template}

theorem matchSimple_iff (hfree : 0 ∉ template) : matchSimple template uri = true ↔ uri = template := by
  unfold matchSimple
  by_cases hlen : template.length = uri.length
  · rw [hlen, beq_self_eq_true, Bool.true_and, strncmp_iff hfree (Nat.le_of_eq hlen.symm) (Nat.le_refl _), List.take_length, ← hlen,
      List.take_length, eq_comm]
  · simp only [beq_eq_false_iff_ne.mpr hlen, Bool.false_and, Bool.false_eq_true, false_iff]
    rintro rfl
    exact hlen rfl

theorem last_concat (l : Bytes) (c : UInt8) : last (l ++ [c]) = c := by simp [last]

theorem prevlast_concat (l : Bytes) (c d : UInt8) : prevlast (l ++ [c, d]) = c := by
  simp [prevlast]

/-- The template in two: as many octets as are compared, and the special ones. -/
theorem matchWildcard_parts (hfree : 0 ∉ lit ++ tail)
    (htail : tail.length = (asterisk (lit ++ tail)).toNat + (quest (lit ++ tail)).toNat * 2) :
    matchWildcard (lit ++ tail) uri = true ↔
      (⟨lit, if quest (lit ++ tail) then some (tail.headD 0) else none, asterisk (lit ++ tail)⟩ : Template).Accepts uri := by
  have hexact : (lit ++ tail).length - ((asterisk (lit ++ tail)).toNat + (quest (lit ++ tail)).toNat * 2) = lit.length := by
    rw [← htail, List.length_append, Nat.add_sub_cancel]
  have hroom : ¬(lit ++ tail).length < (asterisk (lit ++ tail)).toNat + (quest (lit ++ tail)).toNat * 2 := by
    rw [← htail, List.length_append]
    omega
  unfold matchWildcard
  simp only [hroom, hexact, if_false]
  by_cases hshort : uri.length < lit.length
  · simp only [hshort, if_true, Bool.false_eq_true, false_iff]
    rintro ⟨rest, rfl, -⟩
    exact absurd hshort (by simp)
  · have hcmp : strncmp lit.length (lit ++ tail) uri = true ↔ ∃ rest, uri = lit ++ rest := by
      rw [strncmp_iff hfree (by simp) (Nat.le_of_not_lt hshort), List.take_left]
      constructor
      · intro heq
        exact ⟨uri.drop lit.length, (List.take_append_drop lit.length uri).symm.trans (congrArg (· ++ _) heq.symm)⟩
      · rintro ⟨rest, rfl⟩
        simp
    rw [if_neg hshort]
    by_cases hmatch : ∃ rest, uri = lit ++ rest
    · have hstrncmp := hcmp.mpr hmatch
      obtain ⟨rest, rfl⟩ := hmatch
      have hunique : ∀ t : Template, t.literal = lit → (t.Accepts (lit ++ rest) ↔ t.Follows rest) := by
        rintro t rfl
        simp [Template.Accepts]
      rw [hunique _ rfl, hstrncmp]
      cases hquest : quest (lit ++ tail) with
      | false =>
        simp only [Template.Follows]
        cases asterisk (lit ++ tail) <;> simp
      | true =>
        obtain ⟨c, rest', rfl⟩ := List.exists_cons_of_length_pos (show 0 < tail.length by rw [htail, hquest]; simp)
        cases rest with
        | nil => simp [Template.Follows]
        | cons d suffix =>
          simp only [Template.Follows]
          by_cases hcd : c = d
          · cases asterisk (lit ++ c :: rest') <;> simp [hcd]
          · simp [hcd, Ne.symm hcd]
    · have hstrncmp : strncmp lit.length (lit ++ tail) uri = false := by
        rw [← Bool.not_eq_true, hcmp]
        exact hmatch
      have hnone : ∀ t : Template, t.literal = lit → ¬t.Accepts uri := by
        rintro t rfl ⟨rest, rfl, -⟩
        exact hmatch ⟨rest, rfl⟩
      refine iff_of_false ?_ (hnone _ rfl)
      simp [hstrncmp]

theorem matchWildcard_flags (a q : Bool) (hsplit : template = lit ++ tail) (hfree : 0 ∉ template)
    (ha : asterisk template = a) (hq : quest template = q) (htail : tail.length = a.toNat + q.toNat * 2) :
    matchWildcard template uri = true ↔ (⟨lit, if q then some (tail.headD 0) else none, a⟩ : Template).Accepts uri := by
  subst hsplit ha hq
  exact matchWildcard_parts hfree htail

theorem quest_ne_star : QUEST ≠ STAR := by decide

theorem matchWildcard_written (h : t.Written template) (hfree : 0 ∉ template) :
    matchWildcard template uri = true ↔ t.Accepts uri := by
  cases h with
  | literal _ hstar hquest =>
    have hlast : last template ≠ STAR ∧ last template ≠ QUEST := by
      rcases List.eq_nil_or_concat template with rfl | ⟨l, c, rfl⟩
      · exact ⟨by decide, by decide⟩
      · rw [List.concat_eq_append] at hstar hquest ⊢
        rw [last_concat]
        exact ⟨fun hc => hstar (by simp [hc]), fun hc => hquest (by simp [hc])⟩
    exact matchWildcard_flags false false (List.append_nil template).symm hfree (by simp [asterisk, hlast]) (by simp [quest, hlast]) rfl
  | star lit hquest =>
    have hlast := last_concat lit STAR
    have hprev : prevlast (lit ++ [STAR]) ≠ QUEST := by
      rcases List.eq_nil_or_concat lit with rfl | ⟨l, c, rfl⟩
      · decide
      · rw [List.concat_eq_append] at hquest ⊢
        rw [List.append_assoc]
        exact fun hc => hquest (by simpa [prevlast_concat] using hc)
    exact matchWildcard_flags true false rfl hfree (by simp [asterisk, hlast])
      (by simp [quest, hlast, hprev, quest_ne_star.symm]) rfl
  | optional lit c hstar =>
    have hlast : last (lit ++ [c, QUEST]) = QUEST := by simpa using last_concat (lit ++ [c]) QUEST
    have hprev := prevlast_concat lit c QUEST
    exact matchWildcard_flags false true rfl hfree (by simp [asterisk, hlast, hprev, hstar, quest_ne_star])
      (by simp [quest, hlast]) rfl
  | optionalStar lit c =>
    have hlast : last (lit ++ [c, QUEST, STAR]) = STAR := by simpa using last_concat (lit ++ [c, QUEST]) STAR
    have hprev : prevlast (lit ++ [c, QUEST, STAR]) = QUEST := by simpa using prevlast_concat (lit ++ [c]) QUEST STAR
    exact matchWildcard_flags true true rfl hfree (by simp [asterisk, hlast]) (by simp [quest, hlast, hprev]) rfl
  | starOptional lit c =>
    have hlast : last (lit ++ [c, STAR, QUEST]) = QUEST := by simpa using last_concat (lit ++ [c, STAR]) QUEST
    have hprev : prevlast (lit ++ [c, STAR, QUEST]) = STAR := by simpa using prevlast_concat (lit ++ [c]) STAR QUEST
    exact matchWildcard_flags true true rfl hfree (by simp [asterisk, hlast, hprev]) (by simp [quest, hlast]) rfl

/-- Only a mark without the octet that it is about is no template; nothing matches it. -/
theorem written_or (template : Bytes) :
    (∃ t : Template, t.Written template) ∨ template = [QUEST] ∨ template = [STAR, QUEST] ∨ template = [QUEST, STAR] := by
  rcases List.eq_nil_or_concat template with rfl | ⟨init, z, rfl⟩
  · exact .inl ⟨_, .literal [] (by simp) (by simp)⟩
  rw [List.concat_eq_append]
  by_cases hstar : z = STAR
  · subst hstar
    rcases List.eq_nil_or_concat init with rfl | ⟨front, y, rfl⟩
    · exact .inl ⟨_, .star [] (by simp)⟩
    rw [List.concat_eq_append]
    by_cases hy : y = QUEST
    · subst hy
      rcases List.eq_nil_or_concat front with rfl | ⟨lit, c, rfl⟩
      · exact .inr (.inr (.inr rfl))
      · exact .inl ⟨⟨lit, some c, true⟩, by simpa using .optionalStar lit c⟩
    · exact .inl ⟨_, .star (front ++ [y]) (by simpa using hy)⟩
  by_cases hquest : z = QUEST
  · subst hquest
    rcases List.eq_nil_or_concat init with rfl | ⟨front, y, rfl⟩
    · exact .inr (.inl rfl)
    rw [List.concat_eq_append]
    by_cases hy : y = STAR
    · subst hy
      rcases List.eq_nil_or_concat front with rfl | ⟨lit, c, rfl⟩
      · exact .inr (.inr (.inl rfl))
      · exact .inl ⟨⟨lit, some c, true⟩, by simpa using .starOptional lit c⟩
    · exact .inl ⟨⟨front, some y, false⟩, by simpa using .optional front y hy⟩
  · exact .inl ⟨_, .literal (init ++ [z]) (by simpa using hstar) (by simpa using hquest)⟩

theorem matchWildcard_iff (hfree : 0 ∉ template) :
    matchWildcard template uri = true ↔ ∃ t : Template, t.Written template ∧ t.Accepts uri := by
  constructor
  · intro hmatch
    rcases written_or template with ⟨t, hwritten⟩ | rfl | rfl | rfl
    · exact ⟨t, hwritten, (matchWildcard_written hwritten hfree).mp hmatch⟩
    · exact nomatch hmatch
    · exact nomatch hmatch
    · exact nomatch hmatch
  · rintro ⟨t, hwritten, haccepts⟩
    exact (matchWildcard_written hwritten hfree).mpr haccepts

end matching

/-! ## Tables without holes -/

section holds
variable {Ctx : Type} {cfg : Config} {max : Nat} {hs : List (Handler Ctx)} {uri : Bytes} {method : Int}

/-- The table of a list of handlers. -/
def tableOf (max : Nat) (hs : List (Handler Ctx)) : Table Ctx := hs.map some ++ List.replicate (max - hs.length) none

/-- Whether a handler is for the method. -/
def Handler.allows (h : Handler Ctx) (method : Int) : Bool := decide (h.method = method ∨ h.method = HTTP_ANY)

/-- The first handler that is for path and method; without one, whether the path or the method is the reason. -/
def firstMatch (cfg : Config) (uri : Bytes) (method : Int) (hs : List (Handler Ctx)) : Option (Handler Ctx) × FindErr :=
  match hs.find? fun h => cfg.matches h.uri uri && h.allows method with
  | some h => (some h, .none)
  | none => (none, if hs.any fun h => cfg.matches h.uri uri then .methodNotAllowed405 else .notFound404)

theorem findLoop_table (cfg : Config) (err : FindErr) (hs : List (Handler Ctx)) (n : Nat) :
    findLoop cfg uri method err (hs.map some ++ List.replicate n none) =
      match hs.find? fun h => cfg.matches h.uri uri && h.allows method with
      | some h => (some h, .none)
      | none => (none, if hs.any fun h => cfg.matches h.uri uri then .methodNotAllowed405 else err) := by
  induction hs generalizing err with
  | nil => cases n <;> rfl
  | cons h rest ih =>
    simp only [List.map_cons, List.cons_append, findLoop, List.find?_cons, List.any_cons]
    by_cases hmatch : cfg.matches h.uri uri = true
    · by_cases hallows : h.method = method ∨ h.method = HTTP_ANY
      · simp [hmatch, Handler.allows, hallows]
      · simp [hmatch, Handler.allows, hallows, ih]
    · simp [hmatch, ih]

theorem findUriHandler_table (cfg : Config) (uri : Bytes) (method : Int) (hs : List (Handler Ctx)) :
    findUriHandler cfg uri method (tableOf max hs) = firstMatch cfg uri method hs := findLoop_table cfg .notFound404 hs _

/-- A registration that fails changes nothing; one that does not puts the handler behind the others. -/
theorem registerLoop_table (memory : Memory) (handler : Handler Ctx) (hs : List (Handler Ctx)) (n : Nat) :
    ((registerLoop memory handler (hs.map some ++ List.replicate n none)).1 = .ok ∧ 0 < n ∧
      (registerLoop memory handler (hs.map some ++ List.replicate n none)).2 =
        (hs ++ [handler]).map some ++ List.replicate (n - 1) none) ∨
    ((registerLoop memory handler (hs.map some ++ List.replicate n none)).1 ≠ .ok ∧
      (registerLoop memory handler (hs.map some ++ List.replicate n none)).2 = hs.map some ++ List.replicate n none) := by
  induction hs with
  | nil =>
    cases n with
    | zero => exact .inr ⟨by simp [registerLoop], rfl⟩
    | succ n =>
      simp only [List.map_nil, List.nil_append, List.replicate_succ, registerLoop]
      by_cases hmemory : memory.entry = true ∧ memory.uri = true ∧
          ¬(handler.supportedSubprotocol.isSome = true ∧ memory.subprotocol = false)
      · obtain ⟨hentry, huri, hsub⟩ := hmemory
        exact .inl (by simp [hentry, huri, hsub])
      · right
        cases hentry : memory.entry with
        | false => simp
        | true =>
          cases huri : memory.uri with
          | false => simp
          | true =>
            have hsub : handler.supportedSubprotocol.isSome = true ∧ memory.subprotocol = false := by
              simpa [hentry, huri] using hmemory
            simp [hsub]
  | cons h rest ih =>
    simp only [List.map_cons, List.cons_append, registerLoop]
    rcases ih with ⟨hok, hn, htable⟩ | ⟨hfail, htable⟩
    · exact .inl ⟨hok, hn, by rw [htable]⟩
    · exact .inr ⟨hfail, by rw [htable]⟩

theorem shift_table (hs : List (Handler Ctx)) (n : Nat) :
    shift (hs.map some ++ List.replicate n none) = hs.map some ++ List.replicate (n + 1) none := by
  induction hs with
  | nil => cases n <;> rfl
  | cons h rest ih => exact congrArg (some h :: ·) ih

theorem unregisterLoop_table (uri : Bytes) (method : Int) (hs : List (Handler Ctx)) (n : Nat) :
    let removed := hs.eraseP fun h => h.method = method ∧ h.uri = uri
    (unregisterLoop uri method (hs.map some ++ List.replicate n none)).2 =
        removed.map some ++ List.replicate (n + (hs.length - removed.length)) none ∧
      removed.length ≤ hs.length ∧
      ((unregisterLoop uri method (hs.map some ++ List.replicate n none)).1 ≠ .ok → removed = hs) := by
  induction hs with
  | nil => cases n <;> exact ⟨rfl, Nat.le_refl _, fun _ => rfl⟩
  | cons h rest ih =>
    simp only [List.map_cons, List.cons_append, unregisterLoop, List.eraseP_cons]
    by_cases hthis : h.method = method ∧ h.uri = uri
    · refine ⟨?_, ?_, ?_⟩
      · simp [hthis, shift_table]
      · simp [hthis]
      · simp [hthis]
    · obtain ⟨htable, hle, hfail⟩ := ih
      have hdecide : decide (h.method = method ∧ h.uri = uri) = false := decide_eq_false hthis
      simp only [hdecide, if_neg hthis, cond_false, List.map_cons, List.cons_append, List.length_cons]
      refine ⟨?_, Nat.succ_le_succ hle, fun herr => congrArg (h :: ·) (hfail herr)⟩
      rw [htable, Nat.add_sub_add_right]

/-- The table during compaction: the handlers kept so far, as many entries of no interest as were removed, the handlers still
to come. -/
theorem compactLoop_table (uri : Bytes) (kept rest : List (Handler Ctx)) (junk : Table Ctx) (n : Nat) :
    ∃ junk' : Table Ctx,
      let kept' := kept ++ rest.filter fun h => h.uri ≠ uri
      junk'.length + kept'.length = junk.length + kept.length + rest.length ∧
      compactLoop uri (rest.length + n) (kept.length + junk.length) junk.length
          (kept.map some ++ (junk ++ (rest.map some ++ List.replicate n none))) =
        (kept'.map some ++ (junk' ++ List.replicate n none), kept'.length + junk'.length, junk'.length) := by
  induction rest generalizing kept junk with
  | nil =>
    refine ⟨junk, by simp, ?_⟩
    cases n with
    | zero => simp [compactLoop]
    | succ n => simp [compactLoop, List.replicate_succ]
  | cons h rest ih =>
    have hentry : (kept.map some ++ (junk ++ ((h :: rest).map some ++ List.replicate n none))).getD
        (kept.length + junk.length) none = some h := by simp
    have hfuel : (h :: rest).length + n = rest.length + n + 1 := by
      rw [List.length_cons]
      omega
    by_cases hthis : h.uri = uri
    · obtain ⟨junk', hlen, heq⟩ := ih kept (junk ++ [none])
      refine ⟨junk', ?_, ?_⟩
      · simp [hthis] at hlen ⊢
        omega
      · rw [hfuel, compactLoop, hentry]
        dsimp only
        rw [if_pos hthis]
        have hset : (kept.map some ++ (junk ++ ((h :: rest).map some ++ List.replicate n none))).set
            (kept.length + junk.length) none =
            kept.map some ++ (junk ++ [none] ++ (rest.map some ++ List.replicate n none)) := by
          simp
        rw [hset]
        simpa [hthis, Nat.add_assoc] using heq
    · -- the entry goes to the first of those of no interest, or stays where it is
      obtain ⟨x, junk₁, hjunk⟩ : ∃ x junk₁, junk ++ [some h] = x :: junk₁ :=
        List.exists_cons_of_length_pos (by simp)
      have hlen₁ : junk₁.length = junk.length := by
        have hlen := congrArg List.length hjunk
        simpa using hlen.symm
      obtain ⟨junk', hlen, heq⟩ := ih (kept ++ [h]) junk₁
      refine ⟨junk', ?_, ?_⟩
      · simp [hthis] at hlen ⊢
        omega
      · rw [hfuel, compactLoop, hentry]
        dsimp only
        rw [if_neg hthis, Nat.add_sub_cancel]
        have hset : (kept.map some ++ (junk ++ ((h :: rest).map some ++ List.replicate n none))).set kept.length (some h) =
            (kept ++ [h]).map some ++ (junk₁ ++ (rest.map some ++ List.replicate n none)) := by
          have hsplit : junk ++ ((h :: rest).map some ++ List.replicate n none) =
              x :: (junk₁ ++ (rest.map some ++ List.replicate n none)) := by
            rw [← List.cons_append, ← hjunk]
            simp
          rw [hsplit]
          simp
        rw [hset]
        simpa [hthis, hlen₁, Nat.add_assoc, Nat.add_comm, Nat.add_left_comm] using heq

theorem clearLoop_table (front junk back : Table Ctx) :
    clearLoop junk.length front.length (front ++ (junk ++ back)) = front ++ (List.replicate junk.length none ++ back) := by
  induction junk generalizing front with
  | nil => rfl
  | cons x junk ih =>
    have hset : (front ++ (x :: junk ++ back)).set front.length none = (front ++ [none]) ++ (junk ++ back) := by
      simp
    have hih := ih (front ++ [none])
    rw [List.length_append, List.length_singleton] at hih
    rw [List.length_cons, clearLoop, hset, hih]
    simp [List.replicate_succ]

theorem unregisterUri_table (uri : Bytes) (hs : List (Handler Ctx)) (hle : hs.length ≤ max) :
    let kept := hs.filter fun h => h.uri ≠ uri
    (unregisterUri (some uri) (tableOf max hs)).2 = tableOf max kept ∧
      ((unregisterUri (some uri) (tableOf max hs)).1 ≠ .ok → kept = hs) := by
  obtain ⟨junk, hlen, heq⟩ := compactLoop_table uri [] hs [] (max - hs.length)
  simp only [List.length_nil, Nat.add_zero, Nat.zero_add, List.map_nil, List.nil_append] at hlen heq
  have hfuel : (tableOf max hs).length = hs.length + (max - hs.length) := by simp [tableOf]
  rw [← hfuel] at heq
  have hloop : compactLoop uri (tableOf max hs).length 0 0 (tableOf max hs) =
    ((hs.filter fun h => h.uri ≠ uri).map some ++ (junk ++ List.replicate (max - hs.length) none),
      (hs.filter fun h => h.uri ≠ uri).length + junk.length, junk.length) := heq
  simp only [unregisterUri, hloop]
  constructor
  · rw [Nat.add_sub_cancel]
    have hclear := clearLoop_table ((hs.filter fun h => decide (h.uri ≠ uri)).map some) junk
      (List.replicate (max - hs.length) none)
    rw [List.length_map] at hclear
    rw [hclear, List.replicate_append_replicate]
    congr 2
    omega
  · intro hfail
    have hzero : junk.length = 0 := by
      by_contra hne
      exact hfail (if_pos hne)
    refine List.filter_eq_self.mpr ?_
    refine List.length_filter_eq_length_iff.mp ?_
    omega

end holds

/-! ## Runs -/

section runs
variable {Ctx : Type} (cfg : Config)

/-- What a call that ends with `err` makes of the handlers. -/
def handlersAfter (err : Err) : Call Ctx → List (Handler Ctx) → List (Handler Ctx)
  | .register _ (some handler), hs => if err = .ok then hs ++ [handler] else hs
  | .unregisterHandler (some uri) method, hs => hs.eraseP fun h => h.method = method ∧ h.uri = uri
  | .unregister (some uri), hs => hs.filter fun h => h.uri ≠ uri
  | _, hs => hs

/-- The handlers after a sequence of calls, the latest first. -/
def handlers : List (Call Ctx) → List (Handler Ctx)
  | [] => []
  | c :: earlier => handlersAfter (call cfg c (run cfg earlier)).1 c (handlers earlier)

/-- All handlers that have been registered, in this order. -/
def registered : List (Call Ctx) → List (Handler Ctx)
  | [] => []
  | c :: earlier =>
    match c, (call cfg c (run cfg earlier)).1 with
    | .register _ (some handler), .ok => registered earlier ++ [handler]
    | _, _ => registered earlier

variable {cfg} {hs : List (Handler Ctx)}

/-- A call on a table without holes leaves one, and a call that fails leaves the handlers. -/
theorem call_table (c : Call Ctx) (hle : hs.length ≤ cfg.maxUriHandlers) :
    let r := call cfg c (tableOf cfg.maxUriHandlers hs)
    r.2 = tableOf cfg.maxUriHandlers (handlersAfter r.1 c hs) ∧
      (handlersAfter r.1 c hs).length ≤ cfg.maxUriHandlers ∧ (r.1 ≠ .ok → handlersAfter r.1 c hs = hs) := by
  cases c with
  | register memory handler =>
    cases handler with
    | none => exact ⟨rfl, hle, fun _ => rfl⟩
    | some handler =>
      by_cases hexists : (findUriHandler cfg handler.uri handler.method (tableOf cfg.maxUriHandlers hs)).1.isSome = true
      · have hcall : call cfg (.register memory (some handler)) (tableOf cfg.maxUriHandlers hs) =
            (.handlerExists, tableOf cfg.maxUriHandlers hs) := if_pos hexists
        rw [hcall]
        exact ⟨rfl, hle, fun _ => rfl⟩
      · have hcall : call cfg (.register memory (some handler)) (tableOf cfg.maxUriHandlers hs) =
            registerLoop memory handler (tableOf cfg.maxUriHandlers hs) := if_neg hexists
        rw [hcall]
        dsimp only
        rcases registerLoop_table memory handler hs (cfg.maxUriHandlers - hs.length) with ⟨hok, hroom, htable⟩ | ⟨hfail, htable⟩
        · have hafter : handlersAfter (registerLoop memory handler (tableOf cfg.maxUriHandlers hs)).1
              (.register memory (some handler)) hs = hs ++ [handler] := if_pos hok
          rw [hafter]
          refine ⟨?_, ?_, fun hne => absurd hok hne⟩
          · refine htable.trans ?_
            rw [tableOf, List.length_append, List.length_singleton, Nat.sub_sub]
          · rw [List.length_append, List.length_singleton]
            omega
        · have hafter : handlersAfter (registerLoop memory handler (tableOf cfg.maxUriHandlers hs)).1
              (.register memory (some handler)) hs = hs := if_neg hfail
          rw [hafter]
          exact ⟨htable, hle, fun _ => rfl⟩
  | unregisterHandler uri method =>
    cases uri with
    | none => exact ⟨rfl, hle, fun _ => rfl⟩
    | some uri =>
      obtain ⟨htable, hlen, hfail⟩ := unregisterLoop_table uri method hs (cfg.maxUriHandlers - hs.length)
      refine ⟨htable.trans ?_, Nat.le_trans hlen hle, hfail⟩
      have hroom : cfg.maxUriHandlers - hs.length + (hs.length - (hs.eraseP fun h => h.method = method ∧ h.uri = uri).length) =
          cfg.maxUriHandlers - (hs.eraseP fun h => h.method = method ∧ h.uri = uri).length := by omega
      rw [hroom]
      rfl
  | unregister uri =>
    cases uri with
    | none => exact ⟨rfl, hle, fun _ => rfl⟩
    | some uri =>
      obtain ⟨htable, hfail⟩ := unregisterUri_table uri hs hle
      exact ⟨htable, Nat.le_trans (List.length_filter_le _ _) hle, hfail⟩

theorem handlersAfter_sublist (err : Err) (c : Call Ctx) (hs all : List (Handler Ctx)) (h : hs.Sublist all) :
    (handlersAfter err c hs).Sublist (match c, err with
      | .register _ (some handler), .ok => all ++ [handler]
      | _, _ => all) := by
  cases c with
  | register memory handler =>
    cases handler with
    | none => exact h
    | some handler =>
      cases err with
      | ok => exact h.append (List.Sublist.refl _)
      | _ => exact h
  | unregisterHandler uri method =>
    cases uri with
    | none => exact h
    | some uri => exact List.eraseP_sublist.trans h
  | unregister uri =>
    cases uri with
    | none => exact h
    | some uri => exact List.filter_sublist.trans h

/-- Every run leaves the table of its handlers. -/
theorem run_table (history : List (Call Ctx)) :
    run cfg history = tableOf cfg.maxUriHandlers (handlers cfg history) ∧
      (handlers cfg history).length ≤ cfg.maxUriHandlers := by
  induction history with
  | nil => exact ⟨by simp [run, started, tableOf, handlers], Nat.zero_le _⟩
  | cons c earlier ih =>
    obtain ⟨htable, hle⟩ := ih
    have hstep := call_table c hle
    rw [← htable] at hstep
    exact ⟨hstep.1, hstep.2.1⟩

theorem handlers_sublist (history : List (Call Ctx)) : (handlers cfg history).Sublist (registered cfg history) := by
  induction history with
  | nil => exact List.Sublist.refl []
  | cons c earlier ih => exact handlersAfter_sublist _ c _ _ ih

end runs

/-- After any sequence of calls the table is that of a list of handlers, without holes, in the order of their registration; a call
that fails leaves it unchanged; and a request gets the first handler for its path and method, or the reason that there is
none. A template is matched literally, or the wildcard templates are those of the grammar. -/
theorem dispatch {Ctx : Type} (cfg : Config) (history : List (Call Ctx)) :
    (run cfg history = tableOf cfg.maxUriHandlers (handlers cfg history) ∧
      (handlers cfg history).length ≤ cfg.maxUriHandlers ∧ (handlers cfg history).Sublist (registered cfg history)) ∧
    (∀ c, (call cfg c (run cfg history)).1 ≠ .ok → (call cfg c (run cfg history)).2 = run cfg history) ∧
    (∀ uri method, findUriHandler cfg uri method (run cfg history) = firstMatch cfg uri method (handlers cfg history)) ∧
    (∀ h : Handler Ctx, ∀ uri, (matchSimple h.uri uri = true ↔ uri = h.uri) ∧
      (matchWildcard h.uri uri = true ↔ ∃ t : Template, t.Written h.uri ∧ t.Accepts uri)) := by
  obtain ⟨htable, hle⟩ : run cfg history = tableOf cfg.maxUriHandlers (handlers cfg history) ∧
      (handlers cfg history).length ≤ cfg.maxUriHandlers := run_table history
  refine ⟨⟨htable, hle, handlers_sublist history⟩, fun c hfail => ?_, fun uri method => ?_,
    fun h uri => ⟨matchSimple_iff h.nulFree, matchWildcard_iff h.nulFree⟩⟩
  · have hstep := call_table c hle
    rw [← htable] at hstep
    rw [hstep.1, hstep.2.2 hfail, ← htable]
  · rw [htable, findUriHandler_table]

end EspIdf.Httpd.Uri
