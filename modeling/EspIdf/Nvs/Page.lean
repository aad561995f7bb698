import EspIdf.Nvs.Item

/-!
# NVS: a page

* `Sector`, `Page` : a page on flash, and the object that manages it;
* `Page.writeItem`, `Page.findItem`, `Page.readItem`, `Page.cmpItem`, `Page.eraseEntryAndSpan`, `Page.purgeErasedItems`,
  `Page.copyItems` : its operations.

The flash's driver and the allocator do not fail.
-/

namespace EspIdf.Nvs

open Word32 Crc32

inductive PageState
  | uninitialized
  | active
  | full
  | freeing
  | corrupt
  | invalid
deriving Repr, DecidableEq

inductive EntryState
  | empty
  | written
  | erased
  | illegal
deriving Repr, DecidableEq

/-- The header of a page, with a CRC that is right. -/
structure Header where
  state : PageState
  seqNumber : Nat
deriving Repr, DecidableEq

/-- A page on flash; it has no header while it is erased. -/
structure Sector where
  header : Option Header
  table : List EntryState
  entries : List Item
deriving Repr, DecidableEq

def blankEntry : Item := ⟨List.replicate ENTRY_SIZE 0xff⟩

def Sector.erased : Sector :=
  ⟨none, List.replicate ENTRY_COUNT .empty, List.replicate ENTRY_COUNT blankEntry⟩

/-- A node of the hash list. -/
structure HashNode where
  hash : UInt32
  index : Nat
deriving Repr, DecidableEq

structure Page where
  sector : Sector
  state : PageState
  seqNumber : Nat
  entryTable : List EntryState
  nextFreeEntry : Nat
  firstUsedEntry : Nat
  usedEntryCount : Nat
  erasedEntryCount : Nat
  hashList : List HashNode
deriving Repr, DecidableEq

/-! ## The hash list -/

def hash24 (item : Item) : UInt32 := item.calculateCrc32WithoutValue &&& 0xffffff

/-- `HashList::find`; `none` stands for `SIZE_MAX`. -/
def hashFind (nodes : List HashNode) (start : Nat) (item : Item) : Option Nat :=
  (nodes.find? fun node => node.index ≥ start ∧ node.hash = hash24 item).map HashNode.index

/-- `HashList::erase` -/
def hashErase (nodes : List HashNode) (index : Nat) : List HashNode := nodes.eraseP fun node => node.index = index

namespace Page

/-! ## Entries -/

/-- The table of the states is in memory and on flash. -/
def setEntry (p : Page) (index : Nat) (state : EntryState) : Page :=
  { p with
    entryTable := p.entryTable.set index state
    sector := { p.sector with table := p.sector.table.set index state } }

def storeEntry (p : Page) (index : Nat) (entry : Item) : Page :=
  { p with sector := { p.sector with entries := p.sector.entries.set index entry } }

/-- `readEntry`, with `none` for an address that there is not. -/
def readEntry (p : Page) (index : Nat) : Option Item := p.sector.entries[index]?

def alterEntryState (p : Page) (index : Nat) (state : EntryState) : EspErr × Page :=
  if index < ENTRY_COUNT then (ESP_OK, p.setEntry index state) else (ESP_FAIL, p)

/-- The states of `n` entries, from the last to the first. -/
def setRange (p : Page) (first : Nat) (state : EntryState) : (n : Nat) → Page
  | 0 => p
  | n + 1 => (p.setEntry (first + n) state).setRange first state n

def alterEntryRangeState (p : Page) (first last : Nat) (state : EntryState) : EspErr × Page :=
  if ¬last ≤ ENTRY_COUNT then (ESP_FAIL, p)
  else if ¬last > first then (ESP_FAIL, p)
  else (ESP_OK, p.setRange first state (last - first))

def purgeRange (p : Page) (first : Nat) : (n : Nat) → Page
  | 0 => p
  | n + 1 => (p.purgeRange first n).storeEntry (first + n) ⟨List.replicate ENTRY_SIZE 0⟩

def purgeEntryRange (p : Page) (first last : Nat) : EspErr × Page :=
  if ¬last ≤ ENTRY_COUNT then (ESP_FAIL, p)
  else if ¬last > first then (ESP_FAIL, p)
  else (ESP_OK, p.purgeRange first (last - first))

/-! ## Writing -/

/-- `initialize` of the page -/
def initializePage (p : Page) : EspErr × Page :=
  if p.state ≠ .uninitialized then (ESP_FAIL, p)
  else
    (ESP_OK, { p with
      state := .active
      sector := { p.sector with header := some ⟨.active, p.seqNumber⟩ }
      nextFreeEntry := 0
      entryTable := List.replicate ENTRY_COUNT .empty })

/-- `mHashList.insert`, at the next free entry. -/
def hashInsert (p : Page) (item : Item) : Page := { p with hashList := p.hashList ++ [⟨hash24 item, p.nextFreeEntry⟩] }

def writeEntry (p : Page) (item : Item) : EspErr × Page :=
  if p.nextFreeEntry < ENTRY_COUNT then
    (ESP_OK, { (p.storeEntry p.nextFreeEntry item).setEntry p.nextFreeEntry .written with
      firstUsedEntry := if p.firstUsedEntry = INVALID_ENTRY then p.nextFreeEntry else p.firstUsedEntry
      usedEntryCount := p.usedEntryCount + 1
      nextFreeEntry := p.nextFreeEntry + 1 })
  else (ESP_FAIL, p)

/-- `count` entries of data. -/
def storeEntries (p : Page) (index : Nat) (data : List UInt8) : (count : Nat) → Page
  | 0 => p
  | count + 1 => (p.storeEntry index ⟨data.take ENTRY_SIZE⟩).storeEntries (index + 1) (data.drop ENTRY_SIZE) count

def writeEntryData (p : Page) (data : List UInt8) : EspErr × Page :=
  if data.length % ENTRY_SIZE ≠ 0 then (ESP_FAIL, p)
  else if p.nextFreeEntry = INVALID_ENTRY then (ESP_FAIL, p)
  else if p.firstUsedEntry = INVALID_ENTRY then (ESP_FAIL, p)
  else if ¬p.nextFreeEntry < ENTRY_COUNT then (ESP_FAIL, { p with state := .invalid })
  else
    let count := data.length / ENTRY_SIZE
    let (err, p) := (p.storeEntries p.nextFreeEntry data count).alterEntryRangeState p.nextFreeEntry
      (p.nextFreeEntry + count) .written
    if err ≠ ESP_OK then (err, p)
    else (ESP_OK, { p with usedEntryCount := p.usedEntryCount + count, nextFreeEntry := p.nextFreeEntry + count })

/-- The entries behind the header of a value of variable length: whole entries first, and the rest in one of its own. -/
def writeVarLength (p : Page) (data : List UInt8) : EspErr × Page :=
  let rest := data.length % ENTRY_SIZE
  let left := data.length - rest
  let (err, p) := if left > 0 then p.writeEntryData (data.take left) else (ESP_OK, p)
  if err ≠ ESP_OK then (err, p)
  else if rest > 0 then p.writeEntry ⟨data.drop left ++ List.replicate (ENTRY_SIZE - rest) 0xff⟩
  else (ESP_OK, p)

def writeItem (p : Page) (nsIndex : UInt8) (datatype : ItemType) (key : CString) (data : List UInt8) (chunkIdx : UInt8) :
    EspErr × Page :=
  if p.state = .invalid then (ESP_ERR_NVS_INVALID_STATE, p)
  else
    let (err, p) := if p.state = .uninitialized then p.initializePage else (ESP_OK, p)
    if err ≠ ESP_OK then (err, p)
    else if p.state = .full then (ESP_ERR_NVS_PAGE_FULL, p)
    else if key.chars.length > MAX_KEY_LENGTH then (ESP_ERR_NVS_KEY_TOO_LONG, p)
    else if data.length > CHUNK_MAX_SIZE then (ESP_ERR_NVS_VALUE_TOO_LONG, p)
    else if !datatype.isVariableLength ∧ data.length > 8 then (ESP_ERR_INVALID_ARG, p)
    else
      let span := 1 + if datatype.isVariableLength then (data.length + ENTRY_SIZE - 1) / ENTRY_SIZE else 0
      if p.nextFreeEntry = INVALID_ENTRY ∨ p.nextFreeEntry + span > ENTRY_COUNT then (ESP_ERR_NVS_PAGE_FULL, p)
      else
        let item := Item.new nsIndex datatype span key chunkIdx
        let p := p.hashInsert item
        if !datatype.isVariableLength then p.writeEntry (item.withData data).sealed
        else
          let (err, p) := p.writeEntry (item.withData (Item.varLengthData data)).sealed
          if err ≠ ESP_OK then (err, p) else p.writeVarLength data

/-! ## Erasing -/

/-- The first written entry in a range. -/
def firstWritten (table : List EntryState) (i last : Nat) : (fuel : Nat) → Nat
  | 0 => INVALID_ENTRY
  | fuel + 1 =>
    if i < last then if table[i]? = some .written then i else firstWritten table (i + 1) last fuel else INVALID_ENTRY

/-- `updateFirstUsedEntry`, for the first used entry. -/
def updateFirstUsedEntry (p : Page) (index span : Nat) : Page :=
  { p with firstUsedEntry :=
      firstWritten p.entryTable (index + span) (min p.nextFreeEntry ENTRY_COUNT) ENTRY_COUNT }

/-- The counts of a span that is erased, from its last entry to its first. -/
def countErased (p : Page) (first : Nat) : (n : Nat) → EspErr × Page
  | 0 => (ESP_OK, p)
  | n + 1 =>
    match p.entryTable[first + n]? with
    | none => (ESP_FAIL, p)
    | some state =>
      ({ p with
        usedEntryCount := if state = .written then p.usedEntryCount - 1 else p.usedEntryCount
        erasedEntryCount := p.erasedEntryCount + 1 } : Page).countErased first n

/-- One entry that is no valid header, or a header with what is behind it. -/
def eraseSpan (p : Page) (index span : Nat) (purgeAfterErase : Bool) : EspErr × Page :=
  let (err, p) :=
    if span = 1 then p.alterEntryState index .erased else p.alterEntryRangeState index (index + span) .erased
  if err ≠ ESP_OK then (err, p)
  else if purgeAfterErase then p.purgeEntryRange index (index + span)
  else (ESP_OK, p)

/-- The part of `eraseEntryAndSpan` by the state of the entry: the error, and the span. -/
def eraseByState (p : Page) (index : Nat) (purgeAfterErase : Bool) : EspErr × Nat × Page :=
  match p.entryTable[index]? with
  | none => (ESP_FAIL, 1, p)
  | some .written =>
    match p.readEntry index with
    | none => (ESP_FAIL, 1, p)
    | some item =>
      let p := { p with hashList := hashErase p.hashList index }
      if !item.checkHeaderConsistency index then
        let (err, p) := { p with
          usedEntryCount := p.usedEntryCount - 1
          erasedEntryCount := p.erasedEntryCount + 1 }.eraseSpan index 1 purgeAfterErase
        (err, 1, p)
      else
        let (err, p) := p.countErased index item.span
        if err ≠ ESP_OK then (err, item.span, p)
        else
          let (err, p) := p.eraseSpan index item.span purgeAfterErase
          (err, item.span, p)
  | some _ =>
    let (err, p) := p.eraseSpan index 1 purgeAfterErase
    (err, 1, p)

def eraseEntryAndSpan (p : Page) (index : Nat) (purgeAfterErase : Bool) : EspErr × Page :=
  let (err, span, p) := p.eraseByState index purgeAfterErase
  if err ≠ ESP_OK then (err, p)
  else
    let p := if index = p.firstUsedEntry then p.updateFirstUsedEntry index span else p
    (ESP_OK, { p with nextFreeEntry := max p.nextFreeEntry (index + span) })

/-! ## Searching -/

/-- The result of a search: `item` is the last header that was read. -/
structure Found where
  err : EspErr
  page : Page
  itemIndex : Nat
  item : Item

/-- The loop of `findItem`, up to `last`. -/
def findLoop (q : Query) (last : Nat) : (fuel : Nat) → (p : Page) → (i itemIndex : Nat) → (item : Item) → Found
  | 0, p, _, itemIndex, item => ⟨ESP_ERR_NVS_NOT_FOUND, p, itemIndex, item⟩
  | fuel + 1, p, i, itemIndex, item =>
    if ¬i < last then ⟨ESP_ERR_NVS_NOT_FOUND, p, itemIndex, item⟩
    else
      match p.entryTable[i]? with
      | none => ⟨ESP_FAIL, p, itemIndex, item⟩
      | some .written =>
        match p.readEntry i with
        | none => ⟨ESP_FAIL, { p with state := .invalid }, itemIndex, item⟩
        | some item =>
          if !item.checkHeaderConsistency i then
            let (err, p) := p.eraseEntryAndSpan i true
            if err ≠ ESP_OK then ⟨err, { p with state := .invalid }, itemIndex, item⟩
            else findLoop q last fuel p (i + 1) itemIndex item
          else
            match q.judge item with
            | .skip => findLoop q last fuel p (item.next i) itemIndex item
            | .mismatch indexed => ⟨ESP_ERR_NVS_TYPE_MISMATCH, p, if indexed then i else itemIndex, item⟩
            | .found => ⟨ESP_OK, p, i, item⟩
      | some _ => findLoop q last fuel p (i + 1) itemIndex item

/-- Where the search begins. -/
def findStart (p : Page) (q : Query) (findBeginIndex : Nat) : Option Nat :=
  let start := if findBeginIndex > p.firstUsedEntry ∧ findBeginIndex < ENTRY_COUNT then findBeginIndex else p.firstUsedEntry
  match q.key with
  | some key =>
    if q.nsIndex ≠ NS_ANY ∧ (q.datatype ≠ .blobData ∨ q.chunkIdx ≠ CHUNK_ANY) then
      (hashFind p.hashList start (Item.new q.nsIndex q.datatype 0 key q.chunkIdx)).filter (· < ENTRY_COUNT)
    else some start
  | none => some start

/-- `findItem`; `item` is what the caller's header holds before. -/
def findItem (p : Page) (q : Query) (itemIndex : Nat) (item : Item) : Found :=
  if p.state = .corrupt ∨ p.state = .invalid ∨ p.state = .uninitialized then
    ⟨ESP_ERR_NVS_NOT_FOUND, p, itemIndex, item⟩
  else if itemIndex ≥ ENTRY_COUNT then ⟨ESP_ERR_NVS_NOT_FOUND, p, itemIndex, item⟩
  else
    match p.findStart q itemIndex with
    | none => ⟨ESP_ERR_NVS_NOT_FOUND, p, itemIndex, item⟩
    | some start => findLoop q (min p.nextFreeEntry ENTRY_COUNT) ENTRY_COUNT p start itemIndex item

def eraseItem (p : Page) (q : Query) (purgeAfterErase : Bool) : EspErr × Page :=
  let found := p.findItem q 0 blankEntry
  if found.err ≠ ESP_OK then (found.err, found.page)
  else found.page.eraseEntryAndSpan found.itemIndex purgeAfterErase

/-! ## Reading and comparing -/

/-- The data of `n` entries from `i` on, of which `left` octets are wanted. -/
def readData (p : Page) (i : Nat) : (n left : Nat) → Option (List UInt8)
  | 0, _ => some []
  | n + 1, left =>
    (p.readEntry i).bind fun ditem =>
      (p.readData (i + 1) n (left - min left ENTRY_SIZE)).map fun data => ditem.rawData.take (min left ENTRY_SIZE) ++ data

/-- `readVariableLengthItemData`, with the octets that it puts into the buffer. -/
def readVariableLengthItemData (p : Page) (item : Item) (index : Nat) : EspErr × Page × List UInt8 :=
  if p.state = .invalid then (ESP_ERR_NVS_INVALID_STATE, p, [])
  else
    match p.readData (index + 1) (item.span - 1) item.dataSize with
    | none => (ESP_FAIL, p, [])
    | some data =>
      if crc32Le 0xffffffff data ≠ item.dataCrc32 then
        let (err, p) := p.eraseEntryAndSpan index true
        (if err ≠ ESP_OK then err else ESP_ERR_NVS_NOT_FOUND, p, data)
      else (ESP_OK, p, data)

def readItem (p : Page) (q : Query) (dataSize : Nat) : EspErr × Page × List UInt8 :=
  if p.state = .invalid then (ESP_ERR_NVS_INVALID_STATE, p, [])
  else
    let found := p.findItem q 0 blankEntry
    if found.err ≠ ESP_OK then (found.err, found.page, [])
    else if !q.datatype.isVariableLength then
      if dataSize ≠ q.datatype.alignment then (ESP_ERR_NVS_TYPE_MISMATCH, found.page, [])
      else (ESP_OK, found.page, found.item.data.take dataSize)
    else if dataSize < found.item.dataSize then (ESP_ERR_NVS_INVALID_LENGTH, found.page, [])
    else found.page.readVariableLengthItemData found.item found.itemIndex

/-- The entries of a value against `data`: the CRC of what is on flash, continued from `crc`; `none` where they differ. -/
def cmpData (p : Page) (i : Nat) : (n left : Nat) → (data : List UInt8) → (crc : UInt32) → EspErr × UInt32
  | 0, _, _, crc => (ESP_OK, crc)
  | n + 1, left, data, crc =>
    match p.readEntry i with
    | none => (ESP_FAIL, crc)
    | some ditem =>
      let willCopy := min left ENTRY_SIZE
      if data.take willCopy ≠ ditem.rawData.take willCopy then (ESP_ERR_NVS_CONTENT_DIFFERS, crc)
      else p.cmpData (i + 1) n (left - willCopy) (data.drop willCopy) (crc32Le crc (ditem.rawData.take willCopy))

/-- `cmpItem`; `garbage` is what the variable for the CRC holds before it is written. -/
def cmpItem (p : Page) (garbage : UInt32) (q : Query) (data : List UInt8) : EspErr × Page :=
  if p.state = .invalid then (ESP_ERR_NVS_INVALID_STATE, p)
  else
    let found := p.findItem q 0 blankEntry
    if found.err ≠ ESP_OK then (found.err, found.page)
    else if !q.datatype.isVariableLength then
      if data.length ≠ q.datatype.alignment then (ESP_ERR_NVS_TYPE_MISMATCH, found.page)
      else if data ≠ found.item.data.take data.length then (ESP_ERR_NVS_CONTENT_DIFFERS, found.page)
      else (ESP_OK, found.page)
    else if data.length < found.item.dataSize then (ESP_ERR_NVS_INVALID_LENGTH, found.page)
    else if crc32Le 0xffffffff (data.take found.item.dataSize) ≠ found.item.dataCrc32 then
      (ESP_ERR_NVS_CONTENT_DIFFERS, found.page)
    else
      -- the first entry's CRC begins anew; without an entry the variable is never written
      let (err, crc) := found.page.cmpData (found.itemIndex + 1) (found.item.span - 1) found.item.dataSize data
        (if found.item.span - 1 = 0 then garbage else 0xffffffff)
      if err ≠ ESP_OK then (err, found.page)
      else if crc ≠ found.item.dataCrc32 then (ESP_ERR_NVS_CONTENT_DIFFERS, found.page)
      else (ESP_OK, found.page)

/-! ## The page as a whole -/

def getSeqNumber (p : Page) : Option Nat :=
  if p.state ≠ .uninitialized ∧ p.state ≠ .invalid ∧ p.state ≠ .corrupt then some p.seqNumber else none

def setSeqNumber (p : Page) (seqNumber : Nat) : Page :=
  if p.state ≠ .uninitialized then p else { p with seqNumber := seqNumber }

def alterPageState (p : Page) (state : PageState) : Page :=
  { p with
    state := state
    sector := { p.sector with header := p.sector.header.map fun h => { h with state := state } } }

def markFreeing (p : Page) : EspErr × Page :=
  if p.state ≠ .full ∧ p.state ≠ .active then (ESP_ERR_NVS_INVALID_STATE, p) else (ESP_OK, p.alterPageState .freeing)

def markFull (p : Page) : EspErr × Page :=
  if p.state ≠ .active then (ESP_ERR_NVS_INVALID_STATE, p) else (ESP_OK, p.alterPageState .full)

def erase (p : Page) : Page :=
  { p with
    sector := .erased
    usedEntryCount := 0
    erasedEntryCount := 0
    firstUsedEntry := INVALID_ENTRY
    nextFreeEntry := INVALID_ENTRY
    state := .uninitialized
    hashList := [] }

def getVarDataTailroom (p : Page) : Nat :=
  if p.state = .uninitialized then CHUNK_MAX_SIZE
  else if p.state = .full then 0
  else if p.nextFreeEntry < ENTRY_COUNT - 1 then (ENTRY_COUNT - p.nextFreeEntry - 1) * ENTRY_SIZE
  else 0

/-- The entries behind a header are copied one by one. -/
def copyRest (p : Page) (i : Nat) : (n : Nat) → (other : Page) → EspErr × Page
  | 0, other => (ESP_OK, other)
  | n + 1, other =>
    match p.readEntry i with
    | none => (ESP_FAIL, other)
    | some entry =>
      let (err, other) := other.writeEntry entry
      if err ≠ ESP_OK then (err, other) else p.copyRest (i + 1) n other

def copyLoop (p : Page) : (fuel readEntryIndex : Nat) → (other : Page) → EspErr × Page
  | 0, _, other => (ESP_OK, other)
  | fuel + 1, readEntryIndex, other =>
    if ¬readEntryIndex < ENTRY_COUNT then (ESP_OK, other)
    else
      match p.entryTable[readEntryIndex]? with
      | none => (ESP_FAIL, other)
      | some .written =>
        match p.readEntry readEntryIndex with
        | none => (ESP_FAIL, other)
        | some entry =>
          let (err, other) := (other.hashInsert entry).writeEntry entry
          if err ≠ ESP_OK then (err, other)
          else if ¬readEntryIndex + entry.span ≤ ENTRY_COUNT then (ESP_FAIL, other)
          else
            let (err, other) := p.copyRest (readEntryIndex + 1) (entry.span - 1) other
            if err ≠ ESP_OK then (err, other) else p.copyLoop fuel (readEntryIndex + entry.span) other
      | some _ =>
        if readEntryIndex = p.firstUsedEntry then (ESP_FAIL, other) else p.copyLoop fuel (readEntryIndex + 1) other

/-- `copyItems`: the other page, with what is live on this one behind what it holds. -/
def copyItems (p other : Page) : EspErr × Page :=
  if p.firstUsedEntry = INVALID_ENTRY then (ESP_ERR_NVS_NOT_FOUND, other)
  else
    let (err, other) := if other.state = .uninitialized then other.initializePage else (ESP_OK, other)
    if err ≠ ESP_OK then (err, other) else p.copyLoop ENTRY_COUNT p.firstUsedEntry other

def purgeLoop (nsIndex : UInt8) : (fuel index : Nat) → Page → EspErr × Page
  | 0, _, p => (ESP_OK, p)
  | fuel + 1, index, p =>
    if ¬index < ENTRY_COUNT then (ESP_OK, p)
    else
      match p.entryTable[index]? with
      | none => (ESP_FAIL, p)
      | some .erased =>
        match p.readEntry index with
        | none => (ESP_FAIL, p)
        | some item =>
          if !item.checkHeaderConsistency index then purgeLoop nsIndex fuel (index + 1) p
          else if item.nsIndex ≠ nsIndex then purgeLoop nsIndex fuel (index + 1) p
          else
            let (err, p) := p.purgeEntryRange index (index + item.span)
            if err ≠ ESP_OK then (err, p) else purgeLoop nsIndex fuel (index + item.span) p
      | some _ => purgeLoop nsIndex fuel (index + 1) p

def purgeErasedItems (p : Page) (nsIndex : UInt8) : EspErr × Page :=
  if p.state = .invalid then (ESP_ERR_NVS_INVALID_STATE, p) else purgeLoop nsIndex ENTRY_COUNT 0 p

end Page

end EspIdf.Nvs
