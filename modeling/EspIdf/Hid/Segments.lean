import EspIdf.Hid.ReportMap
import Mathlib.Algebra.GroupWithZero.Nat

/-!
# The segments of a report map

* `Segment` : what lies between two changes of the report ID, with its own main items;
* `Split` : a text is split at those changes, and at the end of each application collection;
* `rounds` : the segments of a text, with the reports that the parser adds for each;
* `Exact` : what is asked of them;
* `Apart` : the lengths of a segment that what is left of earlier ones does not falsify.
-/

namespace EspIdf.Hid

/-! ## Segments -/

/-- Bits of each type. -/
structure Totals where
  input : Nat
  output : Nat
  feature : Nat
deriving Repr, DecidableEq

def Totals.zero : Totals := ⟨0, 0, 0⟩

def Totals.get (t : Totals) : ReportType → Nat
  | .input => t.input
  | .output => t.output
  | .feature => t.feature

def Totals.add (t u : Totals) : Totals := ⟨t.input + u.input, t.output + u.output, t.feature + u.feature⟩

def Totals.whole (t : Totals) : Bool := t.input % 8 == 0 && t.output % 8 == 0 && t.feature % 8 == 0

/-- A main item, with the size and the count that are in force: those that its collection has set last. -/
structure MainItem where
  type : ReportType
  size : Nat
  count : Nat
deriving Repr, DecidableEq

/-- The usage is that of the collection, or the one that has come up within it last. -/
structure Segment where
  usagePage : Nat
  usage : Nat
  /-- 0 where no report ID is given. -/
  reportId : Nat
  mains : List MainItem
  /-- The collection ends with it. -/
  last : Bool
deriving Repr, DecidableEq

namespace Segment
variable (seg : Segment)

def bits (type : ReportType) : Nat := (seg.mains.map fun m => if m.type = type then m.size * m.count else 0).sum

def totals : Totals := ⟨seg.bits .input, seg.bits .output, seg.bits .feature⟩

def kind : Usage := ReportParams.kind { ReportParams.zero with usagePage := seg.usagePage, usage := seg.usage }

end Segment

/-- The types that a usage reports. -/
def Usage.types : Usage → List ReportType
  | .keyboard => [.input, .output]
  | .mouse => [.input]
  | _ => [.input, .output, .feature]

/-! ## Splitting a text -/

/-- What has been seen of a text. -/
structure Split where
  /-- The collections that are open. -/
  depth : Nat
  seg : Segment
  innerUsagePage : Nat
  innerUsage : Nat
  size : Nat
  count : Nat
deriving Repr, DecidableEq

def Split.start : Split := ⟨0, ⟨0, 0, 0, [], false⟩, 0, 0, 0, 0⟩

def Split.addMain (a : Split) (type : ReportType) : Split :=
  { a with seg := { a.seg with mains := a.seg.mains ++ [⟨type, a.size, a.count⟩] } }

/-- The report ID changes where one is given and it is another. -/
def Split.giveId (a : Split) (value : Nat) : Split × Option Segment :=
  if a.seg.reportId ≠ 0 ∧ a.seg.reportId ≠ value then
    ({ a with seg := ⟨a.innerUsagePage, a.innerUsage, value, [], false⟩ }, some a.seg)
  else ({ a with seg := { a.seg with reportId := value } }, none)

/-- An item, and the segment that it closes. -/
def Split.step (a : Split) (c : Cmd) : Split × Option Segment :=
  if a.depth = 0 then
    if c.cmd = USAGE_PAGE then
      ({ Split.start with seg := { Split.start.seg with usagePage := c.value % 65536 } }, none)
    else if c.cmd = USAGE then ({ a with seg := { a.seg with usage := c.value % 65536 } }, none)
    else if c.cmd = COLLECTION then ({ a with depth := 1 }, none)
    else (a, none)
  else if c.cmd = REPORT_ID then a.giveId c.value
  else if c.cmd = USAGE_PAGE then ({ a with innerUsagePage := c.value % 65536 }, none)
  else if c.cmd = USAGE then ({ a with innerUsage := c.value % 65536 }, none)
  else if c.cmd = REPORT_SIZE then ({ a with size := c.value }, none)
  else if c.cmd = REPORT_COUNT then ({ a with count := c.value }, none)
  else if c.cmd = INPUT then (a.addMain .input, none)
  else if c.cmd = OUTPUT then (a.addMain .output, none)
  else if c.cmd = FEATURE then (a.addMain .feature, none)
  else if c.cmd = COLLECTION then ({ a with depth := a.depth + 1 }, none)
  else if c.cmd = END_COLLECTION then
    ({ a with depth := a.depth - 1 }, if a.depth = 1 then some { a.seg with last := true } else none)
  else (a, none)

/-- The segments of a text. -/
def segments : Split → List Cmd → List Segment
  | _, [] => []
  | a, c :: items => (a.step c).2.toList ++ segments (a.step c).1 items

/-- The collections that are open after a text, unless it closes one that is not. -/
def depthAfter : (depth : Nat) → List Cmd → Option Nat
  | depth, [] => some depth
  | depth, c :: items =>
    if c.cmd = COLLECTION then depthAfter (depth + 1) items
    else if c.cmd = END_COLLECTION then if depth = 0 then none else depthAfter (depth - 1) items
    else depthAfter depth items

/-- Every collection that is opened is closed, and no other. -/
def Nested (items : List Cmd) : Prop := depthAfter 0 items = some 0

/-- A report ID is one octet. -/
def IdsFit (items : List Cmd) : Prop := ∀ c ∈ items, c.cmd = REPORT_ID → c.value < 256

/-! ## The reports for a segment -/

/-- The reports that a parser has found. -/
def Parser.table (s : Parser) : List ReportItem :=
  if s.newMap then [] else (s.temp.map TempMap.reports).getD []

/-- The segments of a text, each with the reports that have been added since the one before it was closed. -/
def rounds : Parser → Split → (since : List ReportItem) → List Cmd → List (Segment × List ReportItem)
  | _, _, _, [] => []
  | s, a, since, c :: items =>
    match handleCmd s c with
    | .error _ => []
    | .ok s' =>
      let since := since ++ s'.table.drop s.table.length
      match a.step c with
      | (a, none) => rounds s' a since items
      | (a, some seg) => (seg, since) :: rounds s' a [] items

/-- The reports for a segment have its report ID and its lengths; and where its totals are whole bytes there is one for
each type that is reported. -/
structure Exact (seg : Segment) (items : List ReportItem) : Prop where
  own : ∀ item ∈ items, item.protocolMode = .report →
    item.reportId = seg.reportId ∧ 8 * item.valueLen = seg.totals.get item.reportType
  each : seg.totals.whole = true → ∀ type ∈ seg.kind.types, 0 < seg.totals.get type →
    (items.countP fun item => decide (item.protocolMode = .report ∧ item.reportType = type)) = 1

/-! ## What is left of earlier segments -/

/-- Bits that earlier segments have left, as they were not whole bytes; they are reported under the usage of the first
of these. -/
structure Carry where
  totals : Totals
  usage : Usage
deriving Repr, DecidableEq

def Carry.none : Carry := ⟨.zero, .generic⟩

/-- The usage that a segment is reported under. -/
def Carry.under (carry : Carry) (seg : Segment) : Usage := if carry.totals = .zero then seg.kind else carry.usage

/-- With nothing left there is nothing to falsify. Otherwise a segment of whole bytes must have nothing to report, and
one that becomes whole only bits of its own in the types that are reported. -/
def Carry.Apart (carry : Carry) (seg : Segment) : Prop :=
  carry.totals ≠ .zero →
    if seg.totals.whole then ∀ type ∈ seg.kind.types, seg.totals.get type = 0
    else (carry.totals.add seg.totals).whole = true → ∀ type ∈ carry.usage.types, carry.totals.get type = 0

def Carry.next (carry : Carry) (seg : Segment) : Carry :=
  if seg.last ∨ (carry.totals.add seg.totals).whole then .none
  else ⟨carry.totals.add seg.totals, carry.under seg⟩

/-- No segment is falsified. -/
def AllApart : Carry → List Segment → Prop
  | _, [] => True
  | carry, seg :: rest => carry.Apart seg ∧ AllApart (carry.next seg) rest

end EspIdf.Hid
