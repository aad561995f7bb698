import EspIdf.Nvs.Page

/-!
# NVS: loading a page

* `Page.loadActive`, `Page.loadFull` : what `mLoadEntryTable` does by the state of the page;
* `Page.load` : the object that manages a page, from the flash.
-/

namespace EspIdf.Nvs

namespace Page

/-- The object before it is loaded. -/
def created (sector : Sector) : Page :=
  ⟨sector, .invalid, 0xffffffff, List.replicate ENTRY_COUNT .empty, INVALID_ENTRY, INVALID_ENTRY, 0, 0, []⟩

/-- The table and the counts. -/
def loadCounts (p : Page) : Page :=
  { p with
    entryTable := p.sector.table
    firstUsedEntry := firstWritten p.sector.table 0 ENTRY_COUNT ENTRY_COUNT
    usedEntryCount := p.sector.table.count .written
    erasedEntryCount := p.sector.table.count .erased }

/-- An entry that is not blank although its state says so was being written. -/
def loadTail : (fuel : Nat) → Page → EspErr × Page
  | 0, p => (ESP_OK, p)
  | fuel + 1, p =>
    if ¬p.nextFreeEntry < ENTRY_COUNT then (ESP_OK, p)
    else
      match p.readEntry p.nextFreeEntry, p.entryTable[p.nextFreeEntry]? with
      | some entry, some oldState =>
        if entry.wordAt 0 = 0xffffffff then (ESP_OK, p)
        else
          let (err, p) := p.eraseSpan p.nextFreeEntry 1 true
          if err ≠ ESP_OK then (err, { p with state := .invalid })
          else
            loadTail fuel { p with
              nextFreeEntry := p.nextFreeEntry + 1
              usedEntryCount := if oldState = .written then p.usedEntryCount - 1 else p.usedEntryCount
              erasedEntryCount := p.erasedEntryCount + 1 }
      | _, _ => (ESP_FAIL, p)

/-- Whether the `n` entries from `j` on are written. -/
def allWritten (table : List EntryState) (j n : Nat) : Bool := (table.drop j).take n = List.replicate n .written

/-- The result of the loop over the items of an active page: `last` is the last item, unless it was erased. -/
structure Loaded where
  err : EspErr
  page : Page
  last : Option (Nat × Item)

/-- The items of an active page, up to `last`. -/
def loadItems (limit : Nat) : (fuel i : Nat) → Page → Option (Nat × Item) → Loaded
  | 0, _, p, last => ⟨ESP_OK, p, last⟩
  | fuel + 1, i, p, last =>
    if ¬i < limit then ⟨ESP_OK, p, last⟩
    else
      match p.entryTable[i]?, p.readEntry i with
      | some .erased, _ => loadItems limit fuel (i + 1) p none
      | some .illegal, _ =>
        let (err, p) := p.eraseEntryAndSpan i true
        if err ≠ ESP_OK then ⟨err, { p with state := .invalid }, none⟩ else loadItems limit fuel (i + 1) p none
      | some _, some item =>
        if !item.checkHeaderConsistency i then
          let (err, p) := p.eraseEntryAndSpan i true
          if err ≠ ESP_OK then ⟨err, { p with state := .invalid }, some (i, item)⟩
          else loadItems limit fuel (i + 1) p (some (i, item))
        else
          let p := { p with hashList := p.hashList ++ [⟨hash24 item, i⟩] }
          let duplicate := hashFind p.hashList 0 item
          let span := if item.datatype.isVariableLength then item.span else 1
          if item.datatype.isVariableLength ∧ !allWritten p.entryTable i span then
            loadItems limit fuel (i + span) (p.eraseEntryAndSpan i true).2 none
          else
            let p := match duplicate with
              | some j => if j < i then (p.eraseEntryAndSpan j true).2 else p
              | none => p
            loadItems limit fuel (i + span) p (some (i, item))
      | _, _ => ⟨ESP_FAIL, p, last⟩

/-- The first empty entry. -/
def firstEmpty (table : List EntryState) : Nat := (table.findIdx? (· = .empty)).getD INVALID_ENTRY

/-- The part of `mLoadEntryTable` for an active page. -/
def loadActive (p : Page) : EspErr × Page :=
  let (err, p) := { p with nextFreeEntry := firstEmpty p.entryTable }.loadTail ENTRY_COUNT
  if err ≠ ESP_OK then (err, p)
  else
    let loaded := p.loadItems (min p.nextFreeEntry ENTRY_COUNT) ENTRY_COUNT 0 none
    if loaded.err ≠ ESP_OK then (loaded.err, loaded.page)
    else
      match loaded.last with
      | none => (ESP_OK, loaded.page)
      | some (i, item) =>
        let found := loaded.page.findItem ⟨item.nsIndex, item.datatype, some item.keyString, CHUNK_ANY, VER_ANY⟩ 0 item
        if found.err = ESP_OK ∧ found.itemIndex < i then
          let (err, p) := found.page.eraseEntryAndSpan found.itemIndex true
          if err ≠ ESP_OK then (err, { p with state := .invalid }) else (ESP_OK, p)
        else (ESP_OK, found.page)

/-- The part of `mLoadEntryTable` for a page that is full or is being freed. -/
def loadFull : (fuel i : Nat) → Page → EspErr × Page
  | 0, _, p => (ESP_OK, p)
  | fuel + 1, i, p =>
    if ¬i < ENTRY_COUNT then (ESP_OK, p)
    else
      match p.entryTable[i]?, p.readEntry i with
      | some .written, some item =>
        if !item.checkHeaderConsistency i then
          let (err, p) := p.eraseEntryAndSpan i true
          if err ≠ ESP_OK then (err, { p with state := .invalid }) else loadFull fuel (i + 1) p
        else if ¬item.span > 0 then (ESP_FAIL, p)
        else
          let p := { p with hashList := p.hashList ++ [⟨hash24 item, i⟩] }
          let p :=
            if item.datatype.isVariableLength ∧ !allWritten p.entryTable (i + 1) (item.span - 1) then
              (p.eraseEntryAndSpan i true).2
            else p
          loadFull fuel (i + item.span) p
      | some _, some _ => loadFull fuel (i + 1) p
      | _, _ => (ESP_FAIL, p)

/-- `load`: a page that is not erased and has no header is corrupt. -/
def load (sector : Sector) : EspErr × Page :=
  let p := created sector
  match sector.header with
  | none => (ESP_OK, { p with state := if sector = .erased then .uninitialized else .corrupt })
  | some header =>
    let p := { p with state := header.state, seqNumber := header.seqNumber }
    match header.state with
    | .uninitialized => (ESP_OK, p)
    | .active => p.loadCounts.loadActive
    | .full => p.loadCounts.loadFull ENTRY_COUNT p.loadCounts.firstUsedEntry
    | .freeing => p.loadCounts.loadFull ENTRY_COUNT p.loadCounts.firstUsedEntry
    | _ => (ESP_OK, { p with state := .corrupt })

end Page

end EspIdf.Nvs
