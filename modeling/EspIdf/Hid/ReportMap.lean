import Mathlib.Data.List.Basic

/-!
# `esp_hid_common.c`: the report map parser

* `ReportItem`, `TempMap`, `ReportMap` : the reports found, and the map that is handed out;
* `Parser` : the static variables of the parser;
* `handleReport` : the reports of a segment are added to the table;
* `parseCmd`, `handleCmd` : one short item is cut off and acted upon;
* `espHidParseReportMap` : the parser;
* `commands`, `parseLoop_eq` : the loop acts on the items in turn, until one is refused.
-/

namespace EspIdf.Hid

/-! ## Reports -/

inductive Usage
  | generic
  | keyboard
  | mouse
  | joystick
  | gamepad
  | ccontrol
  | vendor
deriving Repr, DecidableEq

/-- `ESP_HID_USAGE_*`: the bit of a usage in the mask. -/
def Usage.bit : Usage → UInt8
  | .generic => 0
  | .keyboard => 1
  | .mouse => 2
  | .joystick => 4
  | .gamepad => 8
  | .ccontrol => 32
  | .vendor => 64

inductive ReportType
  | input
  | output
  | feature
deriving Repr, DecidableEq

inductive ProtocolMode
  | boot
  | report
deriving Repr, DecidableEq

structure ReportItem where
  usage : Usage
  reportId : Nat
  reportType : ReportType
  protocolMode : ProtocolMode
  valueLen : Nat
deriving Repr, DecidableEq

/-- The table that is being built: at most 64 reports. -/
structure TempMap where
  usageMask : UInt8
  reports : List ReportItem
  fits : reports.length ≤ 64
deriving DecidableEq

/-- What `calloc` and `memset` leave. -/
def TempMap.empty : TempMap := ⟨0, [], Nat.zero_le _⟩

/-- `add_report`: an error carries the table as it stands. -/
def addReport (map : TempMap) (item : ReportItem) : Except TempMap TempMap :=
  if h : map.reports.length ≥ 64 then .error map
  else .ok ⟨map.usageMask, map.reports ++ [item], by rw [List.length_append, List.length_singleton]; omega⟩

structure ReportParams where
  usagePage : Nat
  usage : Nat
  innerUsagePage : Nat
  innerUsage : Nat
  reportId : Nat
  inputLen : Nat
  outputLen : Nat
  featureLen : Nat
deriving Repr, DecidableEq

def ReportParams.zero : ReportParams := ⟨0, 0, 0, 0, 0, 0, 0, 0⟩

def GENERIC_DESKTOP : Nat := 0x01
def CONSUMER_DEVICE : Nat := 0x0C

/-- The branch of `handle_report` that a segment takes. -/
def ReportParams.kind (p : ReportParams) : Usage :=
  if p.usagePage = GENERIC_DESKTOP ∧ p.usage = 0x06 then .keyboard
  else if p.usagePage = GENERIC_DESKTOP ∧ p.usage = 0x02 then .mouse
  else if p.usagePage = GENERIC_DESKTOP then
    if p.usage = 0x04 then .joystick else if p.usage = 0x05 then .gamepad else .generic
  else if p.usagePage = CONSUMER_DEVICE ∧ p.usage = 0x01 then .ccontrol
  else if p.usagePage ≥ 0xFF then .vendor
  else .generic

/-- The bits collected for a type. -/
def ReportParams.len (p : ReportParams) : ReportType → Nat
  | .input => p.inputLen
  | .output => p.outputLen
  | .feature => p.featureLen

def ReportParams.item (p : ReportParams) (type : ReportType) (mode : ProtocolMode) (valueLen : Nat) : ReportItem :=
  ⟨p.kind, p.reportId, type, mode, valueLen⟩

/-- The reports of one type; a keyboard and a mouse have a boot report of a fixed length besides. -/
def ReportParams.itemsOf (p : ReportParams) (type : ReportType) (boot : Option Nat) : List ReportItem :=
  if p.len type > 0 then
    p.item type .report (p.len type / 8) :: (boot.map (p.item type .boot)).toList
  else []

/-- The reports that `handle_report` adds, in its order. -/
def ReportParams.items (p : ReportParams) : List ReportItem :=
  match p.kind with
  | .keyboard => p.itemsOf .input (some 8) ++ p.itemsOf .output (some 1)
  | .mouse => p.itemsOf .input (some 3)
  | _ => p.itemsOf .input none ++ p.itemsOf .output none ++ p.itemsOf .feature none

/-- `handle_report`: it stops at the report that no longer fits. -/
def handleReport (p : ReportParams) (first : Bool) (temp : Option TempMap) : Except TempMap TempMap :=
  let map := if first then .empty else temp.getD .empty
  p.items.foldlM addReport { map with usageMask := map.usageMask ||| p.kind.bit }

/-- `add_report_len_bits_to`: the sum and the product are taken in 32 bits, where they fit. -/
def addReportLenBitsTo (lenBits size count : Nat) : Option Nat :=
  let newLen := lenBits + size * count
  if newLen > 0xFFFF then none else some newLen

/-! ## The parser -/

inductive ParseStep
  | waitUsagePage
  | waitUsage
  | waitCollectionApplication
  | waitEndCollection
deriving Repr, DecidableEq

structure Parser where
  step : ParseStep
  collectionDepth : Nat
  params : ReportParams
  reportSize : Nat
  reportCount : Nat
  newMap : Bool
  temp : Option TempMap
deriving DecidableEq

def Parser.init : Parser := ⟨.waitUsagePage, 0, .zero, 0, 0, false, none⟩

/-- A short item: its tag, and the value of its data octets. -/
structure Cmd where
  cmd : UInt8
  value : Nat
deriving Repr, DecidableEq

def INPUT : UInt8 := 0x80
def OUTPUT : UInt8 := 0x90
def FEATURE : UInt8 := 0xb0
def COLLECTION : UInt8 := 0xa0
def END_COLLECTION : UInt8 := 0xc0
def USAGE_PAGE : UInt8 := 0x04
def REPORT_SIZE : UInt8 := 0x74
def REPORT_ID : UInt8 := 0x84
def REPORT_COUNT : UInt8 := 0x94
def USAGE : UInt8 := 0x08

def leValue : List UInt8 → Nat
  | [] => 0
  | b :: bs => b.toNat + 256 * leValue bs

/-- The data octets that the first octet announces. -/
def dataLen (b : UInt8) : Nat := if b &&& 0x03 = 3 then 4 else (b &&& 0x03).toNat

/-- `parse_cmd`, with what is left behind the item. -/
def parseCmd (b : UInt8) (rest : List UInt8) : Option (Cmd × List UInt8) :=
  if rest.length < dataLen b then none
  else some (⟨b &&& 0xFC, leValue (rest.take (dataLen b))⟩, rest.drop (dataLen b))

/-- The error exits that start over. -/
def Parser.reject (s : Parser) : Except Parser Parser := .error { s with step := .waitUsagePage }

/-- Whether no total of the segment has a rest of bits. -/
def ReportParams.wholeBytes (p : ReportParams) : Bool :=
  p.inputLen &&& 0x7 == 0 && p.outputLen &&& 0x7 == 0 && p.featureLen &&& 0x7 == 0

/-- The call of `handle_report`, with what both callers do about its answer. -/
def Parser.report (s : Parser) : Except Parser Parser :=
  match handleReport s.params s.newMap s.temp with
  | .error map => Parser.reject { s with temp := some map }
  | .ok map => .ok { s with temp := some map, newMap := false }

/-- The totals start over, under the usage that came up within the collection. -/
def ReportParams.next (p : ReportParams) : ReportParams :=
  { p with
    inputLen := 0, outputLen := 0, featureLen := 0, usage := p.innerUsage, usagePage := p.innerUsagePage }

def Parser.setReportId (s : Parser) (value : Nat) : Parser :=
  { s with params := { s.params with reportId := value % 256 } }

/-- `HID_RM_REPORT_ID`: where totals have a rest of bits, that is logged and nothing else. -/
def Parser.handleReportId (s : Parser) (value : Nat) : Except Parser Parser :=
  if s.params.reportId ≠ 0 ∧ s.params.reportId ≠ value ∧ s.params.wholeBytes then
    s.report.map fun s => Parser.setReportId { s with params := s.params.next } value
  else .ok (s.setReportId value)

/-- `HID_RM_END_COLLECTION` -/
def Parser.handleEnd (s : Parser) : Except Parser Parser :=
  let s := { s with collectionDepth := (s.collectionDepth + 255) % 256 }
  if s.collectionDepth = 0 then
    (if s.params.wholeBytes then s.report else .ok s).map fun s => { s with step := .waitUsagePage }
  else .ok s

/-- `HID_RM_REPORT_SIZE` and `HID_RM_REPORT_COUNT`: `set` stores a value of 16 bits. -/
def Parser.handleGlobal (s : Parser) (value : Nat) (set : Parser → Nat → Parser) : Except Parser Parser :=
  if value > 0xFFFF then s.reject else .ok (set s value)

/-- `HID_RM_INPUT`, `HID_RM_OUTPUT` and `HID_RM_FEATURE`: the main items of a segment. -/
def Parser.handleMain (s : Parser) (type : ReportType) : Except Parser Parser :=
  match addReportLenBitsTo (s.params.len type) s.reportSize s.reportCount with
  | none => s.reject
  | some len =>
    .ok { s with params :=
      match type with
      | .input => { s.params with inputLen := len }
      | .output => { s.params with outputLen := len }
      | .feature => { s.params with featureLen := len } }

/-- `handle_cmd` in `PARSE_WAIT_END_COLLECTION` -/
def Parser.handleInner (s : Parser) (c : Cmd) : Except Parser Parser :=
  if c.cmd = REPORT_ID then s.handleReportId c.value
  else if c.cmd = USAGE_PAGE then .ok { s with params := { s.params with innerUsagePage := c.value % 65536 } }
  else if c.cmd = USAGE then .ok { s with params := { s.params with innerUsage := c.value % 65536 } }
  else if c.cmd = REPORT_SIZE then s.handleGlobal c.value fun s v => { s with reportSize := v }
  else if c.cmd = REPORT_COUNT then s.handleGlobal c.value fun s v => { s with reportCount := v }
  else if c.cmd = INPUT then s.handleMain .input
  else if c.cmd = OUTPUT then s.handleMain .output
  else if c.cmd = FEATURE then s.handleMain .feature
  else if c.cmd = COLLECTION then .ok { s with collectionDepth := (s.collectionDepth + 1) % 256 }
  else if c.cmd = END_COLLECTION then s.handleEnd
  else .ok s

/-- `handle_cmd`: an error carries the variables as they stand. -/
def handleCmd (s : Parser) (c : Cmd) : Except Parser Parser :=
  match s.step with
  | .waitUsagePage =>
    if c.cmd ≠ USAGE_PAGE then .error s
    else .ok { s with
      reportSize := 0, reportCount := 0, params := { ReportParams.zero with usagePage := c.value % 65536 },
      step := .waitUsage }
  | .waitUsage =>
    if c.cmd ≠ USAGE then s.reject
    else .ok { s with params := { s.params with usage := c.value % 65536 }, step := .waitCollectionApplication }
  | .waitCollectionApplication =>
    if c.cmd ≠ COLLECTION then s.reject
    else if c.value ≠ 1 then s.reject
    else .ok { s with
      params := { s.params with reportId := 0 }, collectionDepth := 1, step := .waitEndCollection }
  | .waitEndCollection => s.handleInner c

/-- The loop of `esp_hid_parse_report_map`; `fuel` is spent on the items. -/
def parseLoop : (fuel : Nat) → Parser → List UInt8 → Except Parser Parser
  | _, s, [] => .ok s
  | 0, s, _ :: _ => .error s
  | fuel + 1, s, b :: rest =>
    match parseCmd b rest with
    | none => .error s
    | some (c, rest) =>
      match handleCmd s c with
      | .error s => .error s
      | .ok s => parseLoop fuel s rest

/-- The map that is handed out. -/
structure ReportMap where
  usage : Usage
  appearance : Nat
  reports : List ReportItem
deriving Repr, DecidableEq

def TempMap.has (map : TempMap) (usage : Usage) : Bool := map.usageMask &&& usage.bit != 0

/-- The usage and the appearance of a map. -/
def TempMap.dominant (map : TempMap) : Usage × Nat :=
  if map.has .keyboard then (.keyboard, 0x03C1)
  else if map.has .mouse then (.mouse, 0x03C2)
  else if map.has .joystick then (.joystick, 0x03C3)
  else if map.has .gamepad then (.gamepad, 0x03C4)
  else if map.has .ccontrol then (.ccontrol, 0x03C1)
  else (.generic, 0x03C0)

/-- What a table comes to; `zeroAlloc` says whether `calloc` gives memory for no octets. -/
def shown (zeroAlloc : Bool) : Option TempMap → Option ReportMap
  | none => none
  | some map =>
    if map.reports.length = 0 ∧ !zeroAlloc then none
    else some ⟨map.dominant.1, map.dominant.2, map.reports⟩

/-- `esp_hid_parse_report_map`, where memory does not run out. -/
def espHidParseReportMap (zeroAlloc : Bool) (s : Parser) (hidRm : List UInt8) : Option ReportMap × Parser :=
  match parseLoop hidRm.length { s with newMap := true } hidRm with
  | .error s => (none, s)
  | .ok s => (shown zeroAlloc s.temp, { s with temp := none })

/-- What is handed out behind the loop. -/
def handedOut (zeroAlloc : Bool) : Except Parser Parser → Option ReportMap
  | .error _ => none
  | .ok s => shown zeroAlloc s.temp

theorem result_eq (zeroAlloc : Bool) (s : Parser) (bytes : List UInt8) :
    (espHidParseReportMap zeroAlloc s bytes).1 =
      handedOut zeroAlloc (parseLoop bytes.length { s with newMap := true } bytes) := by
  unfold espHidParseReportMap
  cases parseLoop bytes.length { s with newMap := true } bytes with
  | error s' => rfl
  | ok s' => rfl

/-! ## Items in turn -/

/-- The items of a text, and whether it ends where an item does. -/
def commands : (fuel : Nat) → List UInt8 → List Cmd × Bool
  | _, [] => ([], true)
  | 0, _ :: _ => ([], false)
  | fuel + 1, b :: rest =>
    match parseCmd b rest with
    | none => ([], false)
    | some (c, rest) => (c :: (commands fuel rest).1, (commands fuel rest).2)

/-- The items are acted upon one after the other; a text that breaks off is refused at its end. -/
theorem parseLoop_eq (fuel : Nat) (s : Parser) (bytes : List UInt8) :
    parseLoop fuel s bytes =
      (commands fuel bytes).1.foldlM handleCmd s >>= fun s =>
        if (commands fuel bytes).2 then .ok s else .error s := by
  induction fuel generalizing s bytes with
  | zero =>
    cases bytes with
    | nil => rfl
    | cons b rest => rfl
  | succ fuel ih =>
    cases bytes with
    | nil => rfl
    | cons b rest =>
      unfold parseLoop commands
      cases hcmd : parseCmd b rest with
      | none => rfl
      | some out =>
        obtain ⟨c, rest'⟩ := out
        cases hstep : handleCmd s c with
        | error s' => simp only [List.foldlM_cons, hstep]; rfl
        | ok s' =>
          simp only [List.foldlM_cons, hstep]
          exact ih s' rest'

end EspIdf.Hid
