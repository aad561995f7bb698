import EspIdf.Nvs.PageLoad

/-!
# NVS: the page manager

* `PageManager` : the pages, and the lists of those that are used and that are free;
* `PageManager.activatePage`, `PageManager.requestNewPage` : a page for new items, and where it comes from;
* `PageManager.load` : the lists, as they are made from the flash.

The partition is not read-only.
-/

namespace EspIdf.Nvs

/-- Pages are given by their numbers; `seqNumber` counts on where the word of the code wraps. -/
structure PageManager where
  pages : List Page
  pageList : List Nat
  freePageList : List Nat
  seqNumber : Nat
deriving Repr, DecidableEq

namespace PageManager

def page (m : PageManager) (i : Nat) : Page := m.pages.getD i (.created .erased)

def setPage (m : PageManager) (i : Nat) (p : Page) : PageManager := { m with pages := m.pages.set i p }

/-- An operation of a page. -/
def onPage (m : PageManager) (i : Nat) (f : Page → EspErr × Page) : EspErr × PageManager :=
  let (err, p) := f (m.page i)
  (err, m.setPage i p)

/-- `back`: the number of the current page. -/
def back (m : PageManager) : Nat := m.pageList.getLastD 0

def activatePage (m : PageManager) : EspErr × PageManager :=
  match m.freePageList with
  | [] => (ESP_ERR_NVS_NOT_ENOUGH_SPACE, m)
  | i :: rest =>
    let p := if (m.page i).state = .corrupt then (m.page i).erase else m.page i
    (ESP_OK, { m.setPage i (p.setSeqNumber (m.seqNumber % 2 ^ 32)) with
      pageList := m.pageList ++ [i]
      freePageList := rest
      seqNumber := m.seqNumber + 1 })

/-- The first of the pages with the most entries that are not used, and how many these are. -/
def maxUnused (m : PageManager) : List Nat → (best : Option Nat) → (count : Nat) → Option Nat × Nat
  | [], best, count => (best, count)
  | i :: rest, best, count =>
    let unused := ENTRY_COUNT - (m.page i).usedEntryCount
    if unused > count then m.maxUnused rest (some i) unused else m.maxUnused rest best count

/-- The last free page takes over what is live on the page `erased`, which is then free. -/
def relocate (m : PageManager) (erased : Nat) : EspErr × PageManager :=
  let usedEntries := (m.page erased).usedEntryCount
  let (err, m) := m.onPage erased Page.markFreeing
  if err ≠ ESP_OK then (err, m)
  else
    let (err, m) := m.activatePage
    if err ≠ ESP_OK then (err, m)
    else
      let newPage := m.back
      let (err, m) := m.onPage newPage (m.page erased).copyItems
      if err ≠ ESP_OK ∧ err ≠ ESP_ERR_NVS_NOT_FOUND then (err, m)
      else
        let m := m.setPage erased (m.page erased).erase
        if usedEntries ≠ (m.page newPage).usedEntryCount then (ESP_FAIL, m)
        else
          (ESP_OK, { m with pageList := m.pageList.erase erased, freePageList := m.freePageList ++ [erased] })

def requestNewPage (m : PageManager) : EspErr × PageManager :=
  if m.freePageList = [] then (ESP_ERR_NVS_INVALID_STATE, m)
  else if m.freePageList.length ≥ 2 then m.activatePage
  else
    match m.maxUnused m.pageList none 0 with
    | (some erased, _) => m.relocate erased
    | (none, _) => (ESP_ERR_NVS_NOT_ENOUGH_SPACE, m)

/-! ## Loading -/

/-- A page is put before the first with a greater number. -/
def insertBySeq (m : PageManager) (seqNumber i : Nat) : List Nat → List Nat
  | [] => [i]
  | j :: rest =>
    match (m.page j).getSeqNumber with
    | some other => if other > seqNumber then i :: j :: rest else j :: m.insertBySeq seqNumber i rest
    | none => j :: m.insertBySeq seqNumber i rest

/-- The pages from the `i`th on are loaded. -/
def loadPages : List Sector → (i : Nat) → PageManager → EspErr × PageManager
  | [], _, m => (ESP_OK, m)
  | sector :: rest, i, m =>
    let (err, p) := Page.load sector
    let m := { m with pages := m.pages ++ [p] }
    if err ≠ ESP_OK then (err, m)
    else
      match p.getSeqNumber with
      | none => loadPages rest (i + 1) { m with freePageList := m.freePageList ++ [i] }
      | some seqNumber => loadPages rest (i + 1) { m with pageList := m.insertBySeq seqNumber i m.pageList }

/-- The last item of a page, if it has one. -/
def lastItem : (fuel : Nat) → Page → (itemIndex : Nat) → Option Item → Item → Page × Option Item
  | 0, p, _, last, _ => (p, last)
  | fuel + 1, p, itemIndex, last, item =>
    let found := p.findItem ⟨NS_ANY, .any, none, CHUNK_ANY, VER_ANY⟩ itemIndex item
    if found.err = ESP_OK then
      lastItem fuel found.page (found.itemIndex + found.item.span) (some found.item) found.item
    else (found.page, last.map fun _ => found.item)

/-- The first of the pages on which the item is found and erased. -/
def eraseFirst (q : Query) : List Nat → PageManager → Bool × PageManager
  | [], m => (false, m)
  | i :: rest, m =>
    if (m.page i).state = .freeing then eraseFirst q rest m
    else
      let (err, m) := m.onPage i (·.eraseItem q true)
      if err = ESP_OK then (true, m) else eraseFirst q rest m

/-- An item that was written anew just before power was lost is erased where it was before. -/
def eraseDuplicate (m : PageManager) : PageManager :=
  let last := m.back
  let (p, item) := lastItem (ENTRY_COUNT + 1) (m.page last) 0 none blankEntry
  let m := m.setPage last p
  match item with
  | none => m
  | some item =>
    let older := m.pageList.dropLast
    let (done, m) := eraseFirst ⟨item.nsIndex, item.datatype, some item.keyString, item.chunkIndex, VER_ANY⟩ older m
    if done = false ∧ item.datatype = .blobIdx then
      (eraseFirst ⟨item.nsIndex, .blob, some item.keyString, item.chunkIndex, VER_ANY⟩ older m).2
    else m

/-- A page that was being freed just before power was lost is freed. -/
def finishFreeing (m : PageManager) : EspErr × PageManager :=
  match m.pageList.find? fun i => (m.page i).state = .freeing with
  | none => (ESP_OK, m)
  | some i =>
    let newPage := m.back
    let m :=
      if (m.page newPage).state = .active then
        { m.setPage newPage (m.page newPage).erase with
          pageList := m.pageList.erase newPage
          freePageList := m.freePageList ++ [newPage] }
      else m
    let (err, m) := m.activatePage
    if err ≠ ESP_OK then (err, m)
    else
      let (err, m) := m.onPage m.back (m.page i).copyItems
      if err ≠ ESP_OK ∧ err ≠ ESP_ERR_NVS_NOT_FOUND then (err, m)
      else
        let m := m.setPage i (m.page i).erase
        (ESP_OK, { m with pageList := m.pageList.erase i, freePageList := m.freePageList ++ [i] })

def load (sectors : List Sector) : EspErr × PageManager :=
  let (err, m) := loadPages sectors 0 ⟨[], [], [], 0⟩
  if err ≠ ESP_OK then (err, m)
  else if m.pageList = [] then { m with seqNumber := 0 }.activatePage
  else
    match (m.page m.back).getSeqNumber with
    | none => (ESP_ERR_NVS_NOT_INITIALIZED, m)
    | some lastSeqNo =>
      let (err, m) := { m with seqNumber := lastSeqNo + 1 }.eraseDuplicate.finishFreeing
      if err ≠ ESP_OK then (err, m)
      else if m.freePageList = [] then (ESP_ERR_NVS_NO_FREE_PAGES, m)
      else (ESP_OK, m)

end PageManager

end EspIdf.Nvs
