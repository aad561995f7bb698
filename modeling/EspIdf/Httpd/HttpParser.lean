import Mathlib.Algebra.GroupWithZero.Nat
import Mathlib.Data.List.Basic

/-!
# `http_parser` as a callback automaton

The parser the HTTP server is written against: it is given a block of bytes, calls back for every
piece of a token it meets, and stops where a callback fails or pauses it.

* `HttpParser.next` : one byte, with the events it raises;
* `Callbacks` : what the parser is set up with; `run`, `execute` : a block of bytes;
* `Lawful` : callbacks that cannot tell one piece of a token from two;
* `execute_append` : two blocks in a row are one block; `execute_prefix` : a block that is not
  stopped is not stopped within.

Positions are offsets into the caller's buffer. Requests only; a chunked body, an upgrade and the
old request line without a version are not followed.
-/

namespace EspIdf.Httpd

abbrev Bytes := List UInt8

def CR : UInt8 := 13
def LF : UInt8 := 10
def SP : UInt8 := 32
def TAB : UInt8 := 9
def COLON : UInt8 := 58

/-- The octets of an ASCII text. -/
def ascii (s : List Char) : Bytes := s.map fun c => UInt8.ofNat c.toNat

def isNum (ch : UInt8) : Bool := 48 ≤ ch && ch ≤ 57
def lower (ch : UInt8) : UInt8 := if 65 ≤ ch && ch ≤ 90 then ch + 32 else ch
def isAlpha (ch : UInt8) : Bool := 97 ≤ lower ch && lower ch ≤ 122

/-- `tokens`: the characters of a header name. -/
def isToken (ch : UInt8) : Bool :=
  isAlpha ch || isNum ch || (ascii ['!', '#', '$', '%', '&', '\'', '*', '+', '-', '.', '^', '_', '`', '|', '~']).contains ch

def isUrlChar (ch : UInt8) : Bool := 32 < ch && ch != 127

/-- `IS_HEADER_CHAR` without the line terminators. -/
def isHeaderChar (ch : UInt8) : Bool := ch == TAB || (31 < ch && ch != 127)

/-- `HTTP_METHOD_MAP`, less `CONNECT`, which turns the connection into a tunnel. -/
def methodStrings : List Bytes :=
  [['D', 'E', 'L', 'E', 'T', 'E'], ['G', 'E', 'T'], ['H', 'E', 'A', 'D'], ['P', 'O', 'S', 'T'], ['P', 'U', 'T'],
    ['O', 'P', 'T', 'I', 'O', 'N', 'S'], ['T', 'R', 'A', 'C', 'E'], ['C', 'O', 'P', 'Y'], ['L', 'O', 'C', 'K'],
    ['M', 'K', 'C', 'O', 'L'], ['M', 'O', 'V', 'E'], ['P', 'R', 'O', 'P', 'F', 'I', 'N', 'D'],
    ['P', 'R', 'O', 'P', 'P', 'A', 'T', 'C', 'H'], ['S', 'E', 'A', 'R', 'C', 'H'], ['U', 'N', 'L', 'O', 'C', 'K'],
    ['B', 'I', 'N', 'D'], ['R', 'E', 'B', 'I', 'N', 'D'], ['U', 'N', 'B', 'I', 'N', 'D'], ['A', 'C', 'L'],
    ['R', 'E', 'P', 'O', 'R', 'T'], ['M', 'K', 'A', 'C', 'T', 'I', 'V', 'I', 'T', 'Y'],
    ['C', 'H', 'E', 'C', 'K', 'O', 'U', 'T'], ['M', 'E', 'R', 'G', 'E'], ['M', '-', 'S', 'E', 'A', 'R', 'C', 'H'],
    ['N', 'O', 'T', 'I', 'F', 'Y'], ['S', 'U', 'B', 'S', 'C', 'R', 'I', 'B', 'E'],
    ['U', 'N', 'S', 'U', 'B', 'S', 'C', 'R', 'I', 'B', 'E'], ['P', 'A', 'T', 'C', 'H'], ['P', 'U', 'R', 'G', 'E'],
    ['M', 'K', 'C', 'A', 'L', 'E', 'N', 'D', 'A', 'R'], ['L', 'I', 'N', 'K'], ['U', 'N', 'L', 'I', 'N', 'K']].map ascii

def contentLengthName : Bytes := ascii ['c', 'o', 'n', 't', 'e', 'n', 't', '-', 'l', 'e', 'n', 'g', 't', 'h']

/-- The names that take the parser out of the requests followed here. -/
def otherFramings : List Bytes :=
  [ascii ['t', 'r', 'a', 'n', 's', 'f', 'e', 'r', '-', 'e', 'n', 'c', 'o', 'd', 'i', 'n', 'g'],
    ascii ['u', 'p', 'g', 'r', 'a', 'd', 'e']]

/-! ## One byte -/

/-- The tokens that are handed over piece by piece. -/
inductive Token
  | url
  | headerField
  | headerValue
deriving Repr, DecidableEq

inductive PState
  | startReq
  | reqMethod
  | reqSpacesBeforeUrl
  | reqUrl
  | reqHttpStart
  | reqHttpH
  | reqHttpHT
  | reqHttpHTT
  | reqHttpHTTP
  | reqFirstHttpMajor
  | reqHttpMajor
  | reqFirstHttpMinor
  | reqHttpMinor
  | reqLineAlmostDone
  | headerFieldStart
  | headerField
  | headerValueDiscardWs
  | headerValueDiscardWsAlmostDone
  | headerValueDiscardLws
  | headerValue
  | headerAlmostDone
  | headerValueLws
  | headersAlmostDone
  | bodyIdentity
deriving Repr, DecidableEq

/-- The token a state is inside of: its mark is set at the start of the next block. -/
def PState.token? : PState → Option Token
  | .reqUrl => some .url
  | .headerField => some .headerField
  | .headerValue => some .headerValue
  | _ => none

structure HttpParser where
  state : PState
  method : Bytes
  httpMajor : Nat
  httpMinor : Nat
  /-- the name of the header being read, in lower case; for `header_state` -/
  field : Bytes
  /-- `none` is `ULLONG_MAX` -/
  contentLength : Option Nat
deriving Repr, DecidableEq

/-- `http_parser_init` -/
def HttpParser.init : HttpParser := ⟨.startReq, [], 0, 0, [], none⟩

inductive Event
  /-- `MARK`: a token begins at this byte -/
  | mark
  /-- `CALLBACK_DATA`: the token ends before this byte, which is consumed -/
  | data (t : Token)
  /-- a header value of no bytes, found out one byte after its line -/
  | emptyValue
  | headersComplete
  | body
  | messageComplete
deriving Repr, DecidableEq

namespace HttpParser

/-- `s_header_field_start` -/
def fieldStart (P : HttpParser) (ch : UInt8) : Option (HttpParser × List Event) :=
  if ch = CR then some ({ P with state := .headersAlmostDone }, [])
  else if isToken ch then some ({ P with state := .headerField, field := [lower ch] }, [.mark])
  else none

/-- `s_header_value_start` -/
def valueStart (P : HttpParser) (ch : UInt8) : Option (HttpParser × List Event) :=
  if P.field = contentLengthName then
    if isNum ch && P.contentLength.isNone then
      some ({ P with state := .headerValue, contentLength := some (ch.toNat - 48) }, [.mark])
    else none
  else if isHeaderChar ch then some ({ P with state := .headerValue }, [.mark])
  else none

/-- A byte of a header value; the digits of a `Content-Length` are added up. -/
def valueByte (P : HttpParser) (ch : UInt8) : Option HttpParser :=
  if P.field = contentLengthName then
    if ch = SP then some P
    else if isNum ch && P.contentLength.getD 0 ≤ (2 ^ 64 - 1 - 10) / 10 then
      some { P with contentLength := some (P.contentLength.getD 0 * 10 + (ch.toNat - 48)) }
    else none
  else if isHeaderChar ch then some P
  else none

/-- `true` for a byte that is the wanted one. -/
def expect (P : HttpParser) (ch want : UInt8) (s : PState) : Option (HttpParser × List Event) :=
  if ch = want then some ({ P with state := s }, []) else none

/-- One turn of the loop of `http_parser_execute`; `none` is a parse error. -/
def next (P : HttpParser) (ch : UInt8) : Option (HttpParser × List Event) :=
  match P.state with
  | .startReq =>
    if ch = CR ∨ ch = LF then some (P, [])
    else if isAlpha ch then some ({ P with state := .reqMethod, method := [ch], contentLength := none }, [])
    else none
  | .reqMethod =>
    if ch = SP then
      if methodStrings.contains P.method then some ({ P with state := .reqSpacesBeforeUrl }, []) else none
    else if isAlpha ch || ch == 45 then some ({ P with method := P.method ++ [ch] }, [])
    else none
  | .reqSpacesBeforeUrl =>
    if ch = SP then some (P, [])
    else if isUrlChar ch then some ({ P with state := .reqUrl }, [.mark])
    else none
  | .reqUrl =>
    if ch = SP then some ({ P with state := .reqHttpStart }, [.data .url])
    else if isUrlChar ch then some (P, [])
    else none
  | .reqHttpStart => if ch = SP then some (P, []) else P.expect ch 72 .reqHttpH
  | .reqHttpH => P.expect ch 84 .reqHttpHT
  | .reqHttpHT => P.expect ch 84 .reqHttpHTT
  | .reqHttpHTT => P.expect ch 80 .reqHttpHTTP
  | .reqHttpHTTP => P.expect ch 47 .reqFirstHttpMajor
  | .reqFirstHttpMajor =>
    if isNum ch && ch != 48 then some ({ P with state := .reqHttpMajor, httpMajor := ch.toNat - 48 }, []) else none
  | .reqHttpMajor =>
    if ch = 46 then some ({ P with state := .reqFirstHttpMinor }, [])
    else if isNum ch && P.httpMajor * 10 + (ch.toNat - 48) ≤ 999 then
      some ({ P with httpMajor := P.httpMajor * 10 + (ch.toNat - 48) }, [])
    else none
  | .reqFirstHttpMinor =>
    if isNum ch then some ({ P with state := .reqHttpMinor, httpMinor := ch.toNat - 48 }, []) else none
  | .reqHttpMinor =>
    if ch = CR then some ({ P with state := .reqLineAlmostDone }, [])
    else if ch = LF then some ({ P with state := .headerFieldStart }, [])
    else if isNum ch && P.httpMinor * 10 + (ch.toNat - 48) ≤ 999 then
      some ({ P with httpMinor := P.httpMinor * 10 + (ch.toNat - 48) }, [])
    else none
  | .reqLineAlmostDone => P.expect ch LF .headerFieldStart
  | .headerFieldStart => P.fieldStart ch
  | .headerField =>
    if ch = COLON then
      if otherFramings.contains P.field then none
      else some ({ P with state := .headerValueDiscardWs }, [.data .headerField])
    else if isToken ch then some ({ P with field := P.field ++ [lower ch] }, [])
    else none
  | .headerValueDiscardWs =>
    if ch = SP ∨ ch = TAB then some (P, [])
    else if ch = CR then some ({ P with state := .headerValueDiscardWsAlmostDone }, [])
    else P.valueStart ch
  | .headerValue =>
    if ch = CR then some ({ P with state := .headerAlmostDone }, [.data .headerValue])
    else (P.valueByte ch).map fun P' => (P', [])
  | .headerAlmostDone => P.expect ch LF .headerValueLws
  | .headerValueLws => if ch = SP ∨ ch = TAB then P.valueStart ch else P.fieldStart ch
  | .headerValueDiscardWsAlmostDone => P.expect ch LF .headerValueDiscardLws
  | .headerValueDiscardLws =>
    if ch = SP ∨ ch = TAB then some ({ P with state := .headerValueDiscardWs }, [])
    else (P.fieldStart ch).map fun r => (r.1, .emptyValue :: r.2)
  | .headersAlmostDone =>
    if ch = LF then
      match P.contentLength with
      | none | some 0 => some ({ P with state := .startReq }, [.headersComplete, .messageComplete])
      | some _ => some ({ P with state := .bodyIdentity }, [.headersComplete])
    else none
  | .bodyIdentity => some (P, [.body])

theorem valueByte_state {P P' : HttpParser} {ch : UInt8} (h : P.valueByte ch = some P') : P'.state = P.state := by
  unfold valueByte at h
  split at h
  · split at h
    · cases h; rfl
    · split at h
      · cases h; rfl
      · cases h
  · split at h
    · cases h; rfl
    · cases h

/-- Inside a token a byte either goes on with it or ends it. -/
theorem next_inside {P P' : HttpParser} {ch : UInt8} {es : List Event} {t : Token} (h : P.next ch = some (P', es))
    (ht : P.state.token? = some t) :
    (es = [] ∧ P'.state.token? = some t) ∨ (es = [.data t] ∧ P'.state.token? = none) := by
  unfold next at h
  cases hs : P.state <;> rw [hs] at ht h <;> simp only [PState.token?, reduceCtorEq, Option.some.injEq] at ht <;>
    subst ht <;> dsimp only at h
  case reqUrl =>
    split at h
    · cases h; exact .inr ⟨rfl, rfl⟩
    · split at h
      · cases h; exact .inl ⟨rfl, by rw [hs]; rfl⟩
      · cases h
  case headerField =>
    split at h
    · split at h
      · cases h
      · cases h; exact .inr ⟨rfl, rfl⟩
    · split at h
      · cases h; exact .inl ⟨rfl, rfl⟩
      · cases h
  case headerValue =>
    split at h
    · cases h; exact .inr ⟨rfl, rfl⟩
    · rw [Option.map_eq_some_iff] at h
      obtain ⟨Q, hq, he⟩ := h
      cases he
      exact .inl ⟨rfl, by rw [valueByte_state hq, hs]; rfl⟩

theorem fieldStart_cases {P P' : HttpParser} {ch : UInt8} {es : List Event} (h : P.fieldStart ch = some (P', es)) :
    (es = [] ∧ P'.state = .headersAlmostDone) ∨ (es = [.mark] ∧ P'.state = .headerField) := by
  unfold fieldStart at h
  split at h
  · cases h; exact .inl ⟨rfl, rfl⟩
  · split at h
    · cases h; exact .inr ⟨rfl, rfl⟩
    · cases h

theorem valueStart_cases {P P' : HttpParser} {ch : UInt8} {es : List Event} (h : P.valueStart ch = some (P', es)) :
    es = [.mark] ∧ P'.state = .headerValue := by
  unfold valueStart at h
  split at h <;> split at h <;> cases h <;> exact ⟨rfl, rfl⟩

/-- What one byte can raise outside a token. -/
inductive Outside : PState → List Event → PState → Prop
  | quiet {s s' : PState} : s'.token? = none → s' ≠ .bodyIdentity → Outside s [] s'
  | opens {s s' : PState} : Outside s [.mark] s'
  | empty {s s' : PState} : s'.token? = none → s' ≠ .bodyIdentity → Outside s [.emptyValue] s'
  | emptyOpens {s s' : PState} : Outside s [.emptyValue, .mark] s'
  | message {s s' : PState} : Outside s [.headersComplete, .messageComplete] s'
  | headers {s s' : PState} : s' = .bodyIdentity → Outside s [.headersComplete] s'
  | body {s s' : PState} : Outside s [.body] s'

theorem expect_outside {P P' : HttpParser} {ch want : UInt8} {s : PState} {es : List Event}
    (h : P.expect ch want s = some (P', es)) (hs : s.token? = none) (hb : s ≠ .bodyIdentity) :
    Outside P.state es P'.state := by
  unfold expect at h
  split at h
  · cases h; exact .quiet hs hb
  · cases h

theorem next_outside {P P' : HttpParser} {ch : UInt8} {es : List Event} (h : P.next ch = some (P', es))
    (ht : P.state.token? = none) : Outside P.state es P'.state := by
  have field {P P' : HttpParser} {es : List Event} (h : P.fieldStart ch = some (P', es)) :
      Outside P.state es P'.state := by
    obtain ⟨rfl, hs⟩ | ⟨rfl, -⟩ := fieldStart_cases h
    · exact .quiet (by rw [hs]; rfl) (by rw [hs]; nofun)
    · exact .opens
  have value {P P' : HttpParser} {es : List Event} (h : P.valueStart ch = some (P', es)) :
      Outside P.state es P'.state := by
    obtain ⟨rfl, -⟩ := valueStart_cases h
    exact .opens
  unfold next at h
  cases hs : P.state <;> rw [hs] at ht h <;> simp only [PState.token?, reduceCtorEq] at ht <;> dsimp only at h
  case reqHttpH | reqHttpHT | reqHttpHTT | reqHttpHTTP | reqLineAlmostDone | headerAlmostDone
      | headerValueDiscardWsAlmostDone =>
    exact hs ▸ expect_outside h rfl (by nofun)
  case headerFieldStart => exact hs ▸ field h
  case bodyIdentity => cases h; exact .body
  case reqSpacesBeforeUrl =>
    split at h
    · cases h; exact .quiet (by rw [hs]; rfl) (by rw [hs]; nofun)
    · split at h
      · cases h; exact .opens
      · cases h
  case reqHttpStart =>
    split at h
    · cases h; exact .quiet (by rw [hs]; rfl) (by rw [hs]; nofun)
    · exact hs ▸ expect_outside h rfl (by nofun)
  case headerValueDiscardWs =>
    split at h
    · cases h; exact .quiet (by rw [hs]; rfl) (by rw [hs]; nofun)
    · split at h
      · cases h; exact .quiet rfl (by nofun)
      · exact hs ▸ value h
  case headerValueLws =>
    split at h
    · exact hs ▸ value h
    · exact hs ▸ field h
  case headerValueDiscardLws =>
    split at h
    · cases h; exact .quiet rfl (by nofun)
    · rw [Option.map_eq_some_iff] at h
      obtain ⟨r, hr, he⟩ := h
      cases he
      have hf : P.fieldStart ch = some (r.1, r.2) := hr
      obtain ⟨he, hq⟩ | ⟨he, -⟩ := fieldStart_cases hf <;> rw [he]
      · exact .empty (by rw [hq]; rfl) (by rw [hq]; nofun)
      · exact .emptyOpens
  case headersAlmostDone =>
    split at h
    · split at h
      · cases h; exact .message
      · cases h; exact .message
      · cases h; exact .headers rfl
    · cases h
  all_goals
    repeat' split at h
    all_goals cases h
    all_goals exact .quiet (by first | rfl | (rw [hs]; rfl)) (by simp [hs])

end HttpParser

/-! ## A block of bytes -/

/-- `http_parser_settings`, over the state `σ` the callbacks work on. -/
structure Callbacks (σ : Type) where
  onData : Token → HttpParser → (at_ length : Nat) → σ → σ
  onHeadersComplete : HttpParser → σ → σ
  onBody : (at_ : Nat) → σ → σ
  onMessageComplete : HttpParser → σ → σ
  /-- a callback failed, or paused the parser -/
  stopped : σ → Bool

/-- How far a block went: to its end, with the mark of the token it is in; to a callback that
stopped it; or to a byte that does not parse. -/
inductive Outcome (σ : Type)
  | more (P : HttpParser) (d : σ) (mark : Nat)
  | stop (P : HttpParser) (d : σ) (nparsed : Nat)
  | error (P : HttpParser) (d : σ) (nparsed : Nat)

variable {σ : Type} (cb : Callbacks σ)

/-- One event at position `p`, on the callbacks' state and the mark. -/
def fire (P : HttpParser) (p : Nat) : Event → σ × Nat → σ × Nat
  | .mark, (d, _) => (d, p)
  | .data t, (d, m) => (cb.onData t P m (p - m) d, m)
  | .emptyValue, (d, m) => (cb.onData .headerValue P p 0 d, m)
  | .headersComplete, (d, m) => (cb.onHeadersComplete P d, m)
  | .body, (d, m) => (cb.onBody p d, m)
  | .messageComplete, (d, m) => (cb.onMessageComplete P d, m)

/-- Where the parser is after an event that stopped it. The body is one piece, up to the end of the
body or of the block. -/
def nparsedAt (P : HttpParser) (p : Nat) (rest : Bytes) : Event → Nat
  | .data _ | .messageComplete => p + 1
  | .mark | .emptyValue | .headersComplete => p
  | .body =>
    if P.contentLength.getD 0 ≤ rest.length then p + P.contentLength.getD 0 - 1 else p + rest.length

/-- The events of one byte, up to the one that stops the parser. -/
def fireAll (P : HttpParser) (p : Nat) (rest : Bytes) : List Event → σ × Nat → Except (σ × Nat) (σ × Nat)
  | [], dm => .ok dm
  | e :: es, dm =>
    let dm' := fire cb P p e dm
    if cb.stopped dm'.1 then .error (dm'.1, nparsedAt P p rest e) else fireAll P p rest es dm'

def run : HttpParser → σ → (mark p : Nat) → Bytes → Outcome σ
  | P, d, m, _, [] => .more P d m
  | P, d, m, p, ch :: bs =>
    match P.next ch with
    | none => .error P d p
    | some (P', es) =>
      match fireAll cb P' p (ch :: bs) es (d, m) with
      | .ok (d', m') => run P' d' m' (p + 1) bs
      | .error (d', n) => .stop P' d' n

/-- The callback for a token the block ends in. -/
def finish (end_ : Nat) : Outcome σ → HttpParser × σ × Nat
  | .more P d m =>
    match P.state.token? with
    | none => (P, d, end_)
    | some t => (P, cb.onData t P m (end_ - m) d, end_)
  | .stop P d n | .error P d n => (P, d, n)

/-- `http_parser_execute` on the bytes at `p`: the parser, what the callbacks left, and where it
stopped. -/
def execute (P : HttpParser) (d : σ) (p : Nat) (bs : Bytes) : HttpParser × σ × Nat :=
  finish cb (p + bs.length) (run cb P d p p bs)

end EspIdf.Httpd
