import EspIdf.Nvs.PageManager

/-!
# NVS: the storage

* `Storage` : the page manager with the namespaces;
* `Storage.findItem`, `Storage.readItem`, `Storage.cmpMultiPageBlob` : searches, over all pages;
* `Storage.writeMultiPageBlob`, `Storage.writeItem`, `Storage.eraseItem`, `Storage.eraseNamespace`,
  `Storage.createOrOpenNamespace` : changes;
* `Storage.nextEntry` : iteration;
* `Storage.init` : loading.

A key stands for one value, whatever its type.
-/

namespace EspIdf.Nvs

open Crc32

/-- `NamespaceEntry` -/
structure NamespaceEntry where
  name : List UInt8
  index : UInt8
deriving Repr, DecidableEq

structure Storage where
  active : Bool
  manager : PageManager
  namespaces : List NamespaceEntry
  /-- The indices that are in use. -/
  namespaceUsage : List Bool
deriving Repr, DecidableEq

/-- Where an item is: the page, and the index on it. -/
structure Place where
  page : Nat
  itemIndex : Nat
deriving Repr, DecidableEq

/-- The result of a search over the pages. -/
structure StorageFound where
  storage : Storage
  place : Option (Place × Item)

namespace Storage

/-! ## Searching -/

def onPage (s : Storage) (i : Nat) (f : Page → EspErr × Page) : EspErr × Storage :=
  let (err, m) := s.manager.onPage i f
  (err, { s with manager := m })

def setPage (s : Storage) (i : Nat) (p : Page) : Storage := { s with manager := s.manager.setPage i p }

def page (s : Storage) (i : Nat) : Page := s.manager.page i

def findOn (q : Query) : List Nat → Storage → StorageFound
  | [], s => ⟨s, none⟩
  | i :: rest, s =>
    let found := (s.page i).findItem q 0 blankEntry
    if found.err = ESP_OK then ⟨s.setPage i found.page, some (⟨i, found.itemIndex⟩, found.item)⟩
    else findOn q rest (s.setPage i found.page)

/-- `findItem`: `none` stands for `ESP_ERR_NVS_NOT_FOUND`, the only error. -/
def findItem (s : Storage) (q : Query) : StorageFound := findOn q s.manager.pageList s

/-- A search by namespace, type and key. -/
def query (nsIndex : UInt8) (datatype : ItemType) (key : CString) : Query :=
  ⟨nsIndex, datatype, some key, CHUNK_ANY, VER_ANY⟩

/-- A search for a chunk of a blob. -/
def chunkQuery (nsIndex : UInt8) (key : CString) (chunkIdx : UInt8) : Query :=
  ⟨nsIndex, .blobData, some key, chunkIdx, VER_ANY⟩

def eraseAt (s : Storage) (place : Place) (purgeAfterErase : Bool) : EspErr × Storage :=
  s.onPage place.page (·.eraseEntryAndSpan place.itemIndex purgeAfterErase)

/-! ## Erasing -/

/-- Every chunk of a blob on a page, from `itemIndex` on. -/
def eraseChunksOn (q : Query) (purgeAfterErase : Bool) (i : Nat) : (fuel itemIndex : Nat) → Storage → EspErr × Storage
  | 0, _, s => (ESP_OK, s)
  | fuel + 1, itemIndex, s =>
    let found := (s.page i).findItem q itemIndex blankEntry
    let s := s.setPage i found.page
    if found.err = ESP_ERR_NVS_NOT_FOUND then (ESP_OK, s)
    else if found.err ≠ ESP_OK then (found.err, s)
    else
      let (err, s) := s.eraseAt ⟨i, found.itemIndex⟩ purgeAfterErase
      if err ≠ ESP_OK then (err, s)
      else if found.itemIndex + found.item.span < ENTRY_COUNT then
        eraseChunksOn q purgeAfterErase i fuel (found.itemIndex + found.item.span) s
      else (ESP_OK, s)

def eraseAllChunks (q : Query) (purgeAfterErase : Bool) : List Nat → Storage → EspErr × Storage
  | [], s => (ESP_OK, s)
  | i :: rest, s =>
    let (err, s) := eraseChunksOn q purgeAfterErase i (ENTRY_COUNT + 1) 0 s
    if err ≠ ESP_OK then (err, s) else eraseAllChunks q purgeAfterErase rest s

/-- The chunks with `n` indices from `chunkIndex` on; a chunk that is missing ends it. -/
def eraseChunks (nsIndex : UInt8) (key : CString) (purgeAfterErase : Bool) :
    (n : Nat) → (chunkIndex : UInt8) → Storage → EspErr × Storage
  | 0, _, s => (ESP_OK, s)
  | n + 1, chunkIndex, s =>
    let found := s.findItem (chunkQuery nsIndex key chunkIndex)
    match found.place with
    | none => (ESP_ERR_NVS_NOT_FOUND, found.storage)
    | some (place, _) =>
      let (err, s) := found.storage.eraseAt place purgeAfterErase
      if err ≠ ESP_OK then (err, s) else eraseChunks nsIndex key purgeAfterErase n (chunkIndex + 1) s

def eraseMultiPageBlob (s : Storage) (nsIndex : UInt8) (key : CString) (purgeAfterErase : Bool) (chunkStart : UInt8) :
    EspErr × Storage :=
  if !s.active then (ESP_ERR_NVS_NOT_INITIALIZED, s)
  else
    let index : Query := ⟨nsIndex, .blobIdx, some key, CHUNK_ANY, chunkStart⟩
    let found := s.findItem index
    match found.place with
    | none => (ESP_ERR_NVS_NOT_FOUND, found.storage)
    | some (place, item) =>
      let (err, s) := found.storage.eraseAt place purgeAfterErase
      if err ≠ ESP_OK then (err, s)
      else if chunkStart = VER_ANY then
        let found := s.findItem index
        let (err, s) := match found.place with
          | none => (ESP_OK, found.storage)
          | some (place, _) => found.storage.eraseAt place purgeAfterErase
        if err ≠ ESP_OK then (err, s)
        else eraseAllChunks ⟨nsIndex, .blobData, some key, CHUNK_ANY, VER_ANY⟩ purgeAfterErase s.manager.pageList s
      else if chunkStart = VER_0_OFFSET ∨ chunkStart = VER_1_OFFSET then
        -- the first index that is not erased is a `uint8_t`
        eraseChunks nsIndex key purgeAfterErase ((chunkStart + item.chunkCount).toNat - chunkStart.toNat) chunkStart s
      else (ESP_OK, s)

def eraseItem (s : Storage) (nsIndex : UInt8) (datatype : ItemType) (key : CString) (purgeAfterErase : Bool) :
    EspErr × Storage :=
  if !s.active then (ESP_ERR_NVS_NOT_INITIALIZED, s)
  else
    let found := s.findItem (query nsIndex datatype key)
    match found.place with
    | none => (ESP_ERR_NVS_NOT_FOUND, found.storage)
    | some (place, item) =>
      if item.datatype = .blobIdx then found.storage.eraseMultiPageBlob nsIndex key purgeAfterErase item.chunkStart
      else found.storage.eraseAt place purgeAfterErase

/-- The items of a namespace on a page. -/
def eraseNamespaceOn (q : Query) (purgeAfterErase : Bool) (i : Nat) : (fuel : Nat) → Storage → EspErr × Storage
  | 0, s => (ESP_OK, s)
  | fuel + 1, s =>
    let (err, s) := s.onPage i (·.eraseItem q purgeAfterErase)
    if err = ESP_ERR_NVS_NOT_FOUND then (ESP_OK, s)
    else if err ≠ ESP_OK then (err, s)
    else eraseNamespaceOn q purgeAfterErase i fuel s

/-- The loop over the pages of `eraseNamespace` and of `purgeNamespace`. -/
def onPages (f : Nat → Storage → EspErr × Storage) : List Nat → Storage → EspErr × Storage
  | [], s => (ESP_OK, s)
  | i :: rest, s =>
    let (err, s) := f i s
    if err ≠ ESP_OK then (err, s) else onPages f rest s

def eraseNamespace (s : Storage) (nsIndex : UInt8) (purgeAfterErase : Bool) : EspErr × Storage :=
  if !s.active then (ESP_ERR_NVS_NOT_INITIALIZED, s)
  else
    onPages (fun i => eraseNamespaceOn ⟨nsIndex, .any, none, CHUNK_ANY, VER_ANY⟩ purgeAfterErase i (ENTRY_COUNT + 1))
      s.manager.pageList s

def purgeNamespace (s : Storage) (nsIndex : UInt8) : EspErr × Storage :=
  if !s.active then (ESP_ERR_NVS_NOT_INITIALIZED, s)
  else onPages (fun i s => s.onPage i (·.purgeErasedItems nsIndex)) s.manager.pageList s

/-! ## Reading and comparing -/

/-- The loop of `readMultiPageBlob`: the error, whether the function returns at once, and the octets so far. -/
def readChunks (nsIndex : UInt8) (key : CString) (chunkStart : UInt8) (dataSize : Nat) :
    (n chunkNum : Nat) → (data : List UInt8) → Storage → EspErr × Bool × Storage × List UInt8
  | 0, _, data, s => (ESP_OK, false, s, data)
  | n + 1, chunkNum, data, s =>
    let found := s.findItem (chunkQuery nsIndex key (chunkStart + .ofNat chunkNum))
    match found.place with
    | none => (ESP_ERR_NVS_NOT_FOUND, false, found.storage, data)
    | some (place, item) =>
      if item.dataSize > dataSize - data.length then (ESP_ERR_NVS_INVALID_LENGTH, false, found.storage, data)
      else
        let (err, p, chunk) := (found.storage.page place.page).readVariableLengthItemData item place.itemIndex
        let s := found.storage.setPage place.page p
        if err ≠ ESP_OK then (err, true, s, data ++ chunk)
        else if chunkStart.toNat + chunkNum ≠ item.chunkIndex.toNat then (ESP_FAIL, true, s, data ++ chunk)
        else readChunks nsIndex key chunkStart dataSize n (chunkNum + 1) (data ++ chunk) s

/-- `readMultiPageBlob`: a blob with a chunk that is not found or is too long is erased. -/
def readMultiPageBlob (s : Storage) (nsIndex : UInt8) (key : CString) (dataSize : Nat) : EspErr × Storage × List UInt8 :=
  let found := s.findItem (query nsIndex .blobIdx key)
  match found.place with
  | none => (ESP_ERR_NVS_NOT_FOUND, found.storage, [])
  | some (_, item) =>
    if dataSize ≠ item.blobDataSize then (ESP_FAIL, found.storage, [])
    else
      let (err, returned, s, data) :=
        readChunks nsIndex key item.chunkStart dataSize item.chunkCount.toNat 0 [] found.storage
      if returned then (err, s, data)
      else
        let s := if err ≠ ESP_OK then (s.eraseMultiPageBlob nsIndex key true VER_ANY).2 else s
        if data.length ≠ dataSize then (ESP_FAIL, s, data) else (err, s, data)

/-- `readItem`, with the octets that it puts into a buffer of `dataSize`. -/
def readItem (s : Storage) (nsIndex : UInt8) (datatype : ItemType) (key : CString) (dataSize : Nat) :
    EspErr × Storage × List UInt8 :=
  if !s.active then (ESP_ERR_NVS_NOT_INITIALIZED, s, [])
  else
    let (err, s, data) :=
      if datatype = .blob then s.readMultiPageBlob nsIndex key dataSize else (ESP_ERR_NVS_NOT_FOUND, s, [])
    if err ≠ ESP_ERR_NVS_NOT_FOUND then (err, s, data)
    else
      let found := s.findItem (query nsIndex datatype key)
      match found.place with
      | none => (ESP_ERR_NVS_NOT_FOUND, found.storage, data)
      | some (place, _) =>
        let (err, p, data) := (found.storage.page place.page).readItem (query nsIndex datatype key) dataSize
        (err, found.storage.setPage place.page p, data)

/-- The loop of `cmpMultiPageBlob`: the error, whether the function returns at once, and the octets that are compared. -/
def cmpChunks (garbage : UInt32) (nsIndex : UInt8) (key : CString) (chunkStart : UInt8) (data : List UInt8) :
    (n chunkNum offset : Nat) → Storage → EspErr × Bool × Nat × Storage
  | 0, _, offset, s => (ESP_OK, false, offset, s)
  | n + 1, chunkNum, offset, s =>
    let q := chunkQuery nsIndex key (chunkStart + .ofNat chunkNum)
    let found := s.findItem q
    match found.place with
    | none => (ESP_ERR_NVS_NOT_FOUND, false, offset, found.storage)
    | some (place, item) =>
      if item.dataSize > data.length - offset then (ESP_ERR_NVS_CONTENT_DIFFERS, true, offset, found.storage)
      -- the CRC is that of the beginning of `data`, whatever the offset
      else if crc32Le 0xffffffff (data.take item.dataSize) ≠ item.dataCrc32 then
        (ESP_ERR_NVS_CONTENT_DIFFERS, true, offset, found.storage)
      else
        let (err, s) := found.storage.onPage place.page (·.cmpItem garbage q ((data.drop offset).take item.dataSize))
        if err ≠ ESP_OK then (err, true, offset, s)
        else if chunkStart.toNat + chunkNum ≠ item.chunkIndex.toNat then (ESP_FAIL, true, offset, s)
        else cmpChunks garbage nsIndex key chunkStart data n (chunkNum + 1) (offset + item.dataSize) s

def cmpMultiPageBlob (garbage : UInt32) (s : Storage) (nsIndex : UInt8) (key : CString) (data : List UInt8) :
    EspErr × Storage :=
  let found := s.findItem (query nsIndex .blobIdx key)
  match found.place with
  | none => (ESP_ERR_NVS_NOT_FOUND, found.storage)
  | some (_, item) =>
    if data.length ≠ item.blobDataSize then (ESP_ERR_NVS_CONTENT_DIFFERS, found.storage)
    else
      let (err, returned, offset, s) :=
        cmpChunks garbage nsIndex key item.chunkStart data item.chunkCount.toNat 0 0 found.storage
      if returned then (err, s)
      else if offset ≠ data.length then (ESP_FAIL, s)
      else (err, s)

/-! ## Writing -/

/-- How the loop over the chunks of a new blob is left: at once, or by a `break`. -/
structure BlobExit where
  err : EspErr
  returned : Bool
  chunkCount : UInt8
  storage : Storage

/-- `if (page.state() != FULL) { page.markFull(); }`, on the current page. -/
def markFullUnlessFull (s : Storage) : EspErr × Storage :=
  if (s.page s.manager.back).state ≠ .full then s.onPage s.manager.back Page.markFull else (ESP_OK, s)

def requestNewPage (s : Storage) : EspErr × Storage :=
  let (err, m) := s.manager.requestNewPage
  (err, { s with manager := m })

/-- The chunk fills its page. -/
def fillPage (s : Storage) : EspErr × Storage :=
  let (err, s) := s.markFullUnlessFull
  if err ≠ ESP_OK then (err, s) else s.requestNewPage

/-- The loop of `writeMultiPageBlob`. -/
def blobLoop (nsIndex : UInt8) (key : CString) (data : List UInt8) (chunkStart : UInt8) :
    (fuel : Nat) → (chunkCount : UInt8) → (offset : Nat) → Storage → BlobExit
  | 0, chunkCount, _, s => ⟨ESP_FAIL, true, chunkCount, s⟩
  | fuel + 1, chunkCount, offset, s =>
    let tailroom := (s.page s.manager.back).getVarDataTailroom
    if chunkCount = 0 ∧ (tailroom < data.length ∨ tailroom = 0 ∧ data.length = 0) ∧ tailroom < CHUNK_MAX_SIZE / 10 then
      -- the first chunk would be too small
      let (err, s) := s.fillPage
      if err ≠ ESP_OK then ⟨err, true, chunkCount, s⟩
      else if (s.page s.manager.back).getVarDataTailroom = tailroom then
        ⟨ESP_ERR_NVS_NOT_ENOUGH_SPACE, true, chunkCount, s⟩
      else blobLoop nsIndex key data chunkStart fuel chunkCount offset s
    else if tailroom = 0 then ⟨ESP_ERR_NVS_NOT_ENOUGH_SPACE, false, chunkCount, s⟩
    else
      let remaining := data.length - offset
      let chunkSize := min remaining tailroom
      let (err, s) := s.onPage s.manager.back
        (·.writeItem nsIndex .blobData key ((data.drop offset).take chunkSize) (chunkStart + chunkCount))
      let chunkCount := chunkCount + 1
      if err ≠ ESP_OK then ⟨err, err = ESP_ERR_NVS_PAGE_FULL, chunkCount, s⟩
      else
        let (err, s) :=
          if remaining - chunkSize ≠ 0 ∨ tailroom - chunkSize < ENTRY_SIZE then s.fillPage else (ESP_OK, s)
        if err ≠ ESP_OK then ⟨err, false, chunkCount, s⟩
        else if remaining - chunkSize = 0 then
          let (err, s) := s.onPage s.manager.back
            (·.writeItem nsIndex .blobIdx key (Item.blobIndexData data.length chunkCount chunkStart) CHUNK_ANY)
          ⟨err, err = ESP_ERR_NVS_PAGE_FULL, chunkCount, s⟩
        else blobLoop nsIndex key data chunkStart fuel chunkCount (offset + chunkSize) s

/-- The chunks of a blob that was not written as a whole. -/
def cleanUp (nsIndex : UInt8) (key : CString) (purgeAfterErase : Bool) : (n : Nat) → (chunkIndex : UInt8) → Storage → Storage
  | 0, _, s => s
  | n + 1, chunkIndex, s =>
    let found := s.findItem (chunkQuery nsIndex key chunkIndex)
    let s := match found.place with
      | none => found.storage
      | some (place, _) => (found.storage.eraseAt place purgeAfterErase).2
    cleanUp nsIndex key purgeAfterErase n (chunkIndex + 1) s

def writeMultiPageBlob (s : Storage) (nsIndex : UInt8) (key : CString) (data : List UInt8) (chunkStart : UInt8)
    (purgeAfterErase : Bool) : EspErr × Storage :=
  let maxPages := min (s.manager.pages.length - 1) ((CHUNK_ANY.toNat - 1) / 2)
  if data.length > maxPages * CHUNK_MAX_SIZE then (ESP_ERR_NVS_VALUE_TOO_LONG, s)
  else
    let out := blobLoop nsIndex key data chunkStart (data.length + 4) 0 0 s
    if out.returned then (out.err, out.storage)
    else if out.err ≠ ESP_OK then
      (out.err, cleanUp nsIndex key purgeAfterErase ((chunkStart + out.chunkCount).toNat - chunkStart.toNat) chunkStart
        out.storage)
    else (out.err, out.storage)

/-- The old value that `writeItem` finds: where it is, its header, and the number of its page. -/
structure OldValue where
  place : Place
  item : Item
  seqNumber : Nat

/-- The search for the old value, and whether it has the type of the new one. -/
def findOld (s : Storage) (nsIndex : UInt8) (datatype : ItemType) (key : CString) : Storage × Option OldValue × Bool :=
  let withSeq (s : Storage) : Place × Item → OldValue := fun (place, item) =>
    ⟨place, item, (s.page place.page).seqNumber⟩
  let found := s.findItem (query nsIndex (if datatype = .blob then .blobIdx else datatype) key)
  match found.place with
  | some old => (found.storage, some (withSeq found.storage old), true)
  | none =>
    let found := found.storage.findItem (query nsIndex .any key)
    (found.storage, found.place.map (withSeq found.storage), false)

/-- The old value is erased, wherever its page was relocated to. -/
def eraseOld (s : Storage) (nsIndex : UInt8) (key : CString) (old : OldValue) (purgeAfterErase : Bool) : EspErr × Storage :=
  if old.item.datatype = .blobIdx then s.eraseMultiPageBlob nsIndex key purgeAfterErase old.item.chunkStart
  else
    let p := s.page old.place.page
    if p.state ≠ .active ∧ p.state ≠ .full ∨ p.seqNumber ≠ old.seqNumber then
      let found := s.findItem (query nsIndex old.item.datatype key)
      match found.place with
      | none => (ESP_ERR_NVS_NOT_FOUND, found.storage)
      | some (place, _) => found.storage.eraseAt place purgeAfterErase
    else s.eraseAt old.place purgeAfterErase

/-- A value that is no blob is written to the current page, or to a new one. -/
def writeSingle (s : Storage) (nsIndex : UInt8) (datatype : ItemType) (key : CString) (data : List UInt8) :
    EspErr × Storage :=
  let (err, s) := s.onPage s.manager.back (·.writeItem nsIndex datatype key data CHUNK_ANY)
  if err = ESP_ERR_NVS_PAGE_FULL then
    let (err, s) := s.fillPage
    if err ≠ ESP_OK then (err, s)
    else
      let (err, s) := s.onPage s.manager.back (·.writeItem nsIndex datatype key data CHUNK_ANY)
      (if err = ESP_ERR_NVS_PAGE_FULL then ESP_ERR_NVS_NOT_ENOUGH_SPACE else err, s)
  else (err, s)

/-- The comparison of the new value with the old one. -/
def cmpOld (garbage : UInt32) (s : Storage) (nsIndex : UInt8) (datatype : ItemType) (key : CString) (data : List UInt8)
    (old : OldValue) : EspErr × Storage :=
  if datatype = .blob then cmpMultiPageBlob garbage s nsIndex key data
  else s.onPage old.place.page (·.cmpItem garbage (query nsIndex datatype key) data)

/-- The new value is written. -/
def writeNew (s : Storage) (nsIndex : UInt8) (datatype : ItemType) (key : CString) (data : List UInt8)
    (purgeAfterErase : Bool) (old : Option OldValue) (matched : Bool) : EspErr × Storage :=
  if datatype = .blob then
    let prevStart := match old with
      | some old => if matched then old.item.chunkStart else VER_1_OFFSET
      | none => VER_1_OFFSET
    if ¬(prevStart = VER_0_OFFSET ∨ prevStart = VER_1_OFFSET) then (ESP_FAIL, s)
    else
      let nextStart := if prevStart = VER_1_OFFSET then VER_0_OFFSET else VER_1_OFFSET
      let (err, s) := s.writeMultiPageBlob nsIndex key data nextStart purgeAfterErase
      (if err = ESP_ERR_NVS_PAGE_FULL then ESP_ERR_NVS_NOT_ENOUGH_SPACE else err, s)
  else s.writeSingle nsIndex datatype key data

/-- Whether the value is stored already, so that nothing is written. -/
def isStored (garbage : UInt32) (s : Storage) (nsIndex : UInt8) (datatype : ItemType) (key : CString) (data : List UInt8) :
    Bool × Storage × Option OldValue × Bool :=
  let (s, old, matched) := s.findOld nsIndex datatype key
  match old, matched with
  | some value, true =>
    let (err, s) := cmpOld garbage s nsIndex datatype key data value
    (err = ESP_OK, s, old, matched)
  | _, _ => (false, s, old, matched)

def writeItem (garbage : UInt32) (s : Storage) (nsIndex : UInt8) (datatype : ItemType) (key : CString) (data : List UInt8)
    (purgeAfterErase : Bool) : EspErr × Storage :=
  if !s.active then (ESP_ERR_NVS_NOT_INITIALIZED, s)
  else
    let (stored, s, old, matched) := isStored garbage s nsIndex datatype key data
    if stored then (ESP_OK, s)
    else
      let (err, s) := s.writeNew nsIndex datatype key data purgeAfterErase old matched
      if err ≠ ESP_OK then (err, s)
      else
        match old with
        | none => (err, s)
        | some old => s.eraseOld nsIndex key old purgeAfterErase

/-! ## Namespaces -/

/-- The first index from `ns` on that is not in use. -/
def freeNamespace (usage : List Bool) (ns : Nat) : (fuel : Nat) → Nat
  | 0 => ns
  | fuel + 1 => if ns < 255 ∧ usage[ns]? = some true then freeNamespace usage (ns + 1) fuel else ns

/-- `createOrOpenNamespace`, with the index. -/
def createOrOpenNamespace (garbage : UInt32) (s : Storage) (nsName : CString) (canCreate : Bool) :
    EspErr × Option UInt8 × Storage :=
  if !s.active then (ESP_ERR_NVS_NOT_INITIALIZED, none, s)
  else
    match s.namespaces.find? fun e => nsName.chars.take MAX_KEY_LENGTH = e.name.take MAX_KEY_LENGTH with
    | some e => (ESP_OK, some e.index, s)
    | none =>
      if !canCreate then (ESP_ERR_NVS_NOT_FOUND, none, s)
      else
        let ns := freeNamespace s.namespaceUsage 1 254
        if ns = 255 then (ESP_ERR_NVS_NOT_ENOUGH_SPACE, none, s)
        else
          let (err, s) := writeItem garbage s NS_INDEX .u8 nsName [.ofNat ns] true
          if err ≠ ESP_OK then (err, none, s)
          else
            (ESP_OK, some (.ofNat ns), { s with
              namespaceUsage := s.namespaceUsage.set ns true
              namespaces := s.namespaces ++ [⟨nsName.chars.take MAX_KEY_LENGTH, .ofNat ns⟩] })

/-! ## Iteration -/

/-- `nvs_entry_info_t` -/
structure EntryInfo where
  datatype : ItemType
  key : List UInt8
  nsIndex : UInt8
  namespaceName : Option (List UInt8)
deriving Repr, DecidableEq

/-- `nvs_opaque_iterator_t`; `pages` are those from the page of the iterator on. -/
structure Iterator where
  datatype : ItemType
  nsIndex : UInt8
  entryIndex : Nat
  pages : List Nat

/-- `fillEntryInfo` -/
def entryInfo (s : Storage) (item : Item) : EntryInfo :=
  ⟨item.datatype, upToNul item.key, item.nsIndex, (s.namespaces.find? fun e => item.nsIndex = e.index).map NamespaceEntry.name⟩

/-- `isIterableItem` -/
def isIterableItem (item : Item) : Bool := item.nsIndex ≠ 0 ∧ item.datatype ≠ .blob ∧ item.datatype ≠ .blobIdx

/-- `isMultipageBlob`: a chunk that is not the first of its blob. -/
def isMultipageBlob (item : Item) : Bool :=
  item.datatype = .blobData ∧ ¬(item.chunkIndex = VER_0_OFFSET ∨ item.chunkIndex = VER_1_OFFSET)

/-- The items of a page, from `entryIndex` on: the next that is yielded, and the index behind it. -/
def nextOn (q : Query) (i : Nat) : (fuel entryIndex : Nat) → Item → Storage → Option (Item × Nat) × Storage
  | 0, _, _, s => (none, s)
  | fuel + 1, entryIndex, item, s =>
    let found := (s.page i).findItem q entryIndex item
    let s := s.setPage i found.page
    let entryIndex := found.itemIndex + found.item.span
    if found.err = ESP_OK ∧ isIterableItem found.item ∧ !isMultipageBlob found.item then (some (found.item, entryIndex), s)
    else if found.err ≠ ESP_ERR_NVS_NOT_FOUND then nextOn q i fuel entryIndex found.item s
    else (none, s)

def nextFrom (it : Iterator) : List Nat → (entryIndex : Nat) → Storage → Option (EntryInfo × Iterator) × Storage
  | [], _, s => (none, s)
  | i :: rest, entryIndex, s =>
    match nextOn ⟨it.nsIndex, it.datatype, none, CHUNK_ANY, VER_ANY⟩ i (ENTRY_COUNT + 1) entryIndex blankEntry s with
    | (some (item, entryIndex), s) =>
      (some (s.entryInfo item, { it with entryIndex := entryIndex, pages := i :: rest }), s)
    | (none, s) => nextFrom it rest 0 s

/-- `nextEntry`, with what it yields. -/
def nextEntry (s : Storage) (it : Iterator) : Option (EntryInfo × Iterator) × Storage := nextFrom it it.pages it.entryIndex s

/-- `findEntry`: the iterator begins at the first page; the namespace is opened, where one is named. -/
def findEntry (garbage : UInt32) (s : Storage) (datatype : ItemType) (namespaceName : Option CString) :
    Option (EntryInfo × Iterator) × Storage :=
  match namespaceName with
  | none => s.nextEntry ⟨datatype, NS_ANY, 0, s.manager.pageList⟩
  | some name =>
    match createOrOpenNamespace garbage s name false with
    | (_, some nsIndex, s) => s.nextEntry ⟨datatype, nsIndex, 0, s.manager.pageList⟩
    | (_, none, s) => (none, s)

/-! ## Loading -/

/-- `BlobIndexNode` -/
structure BlobIndexNode where
  key : CString
  nsIndex : UInt8
  chunkCount : UInt8
  chunkStart : UInt8
  dataSize : Nat
  observedDataSize : Nat
  observedChunkCount : Nat

/-- The items of a page that the query finds, one behind the other, each with the storage at that time. -/
def visitOn {α : Type} (q : Query) (f : α → Item → Nat → Storage → α × Storage) (i : Nat) :
    (fuel itemIndex : Nat) → α → Storage → α × Storage
  | 0, _, acc, s => (acc, s)
  | fuel + 1, itemIndex, acc, s =>
    let found := (s.page i).findItem q itemIndex blankEntry
    let s := s.setPage i found.page
    if found.err ≠ ESP_OK then (acc, s)
    else
      let (acc, s) := f acc found.item i s
      visitOn q f i fuel (found.itemIndex + found.item.span) acc s

/-- The same for every page. -/
def visitAll {α : Type} (q : Query) (f : α → Item → Nat → Storage → α × Storage) : List Nat → α → Storage → α × Storage
  | [], acc, s => (acc, s)
  | i :: rest, acc, s =>
    let (acc, s) := visitOn q f i (ENTRY_COUNT + 1) 0 acc s
    visitAll q f rest acc s

def anyItem (datatype : ItemType) : Query := ⟨NS_ANY, datatype, none, CHUNK_ANY, VER_ANY⟩

def populateBlobIndices (s : Storage) : List BlobIndexNode × Storage :=
  visitAll (anyItem .blobIdx) (fun nodes item _ s =>
    (nodes ++ [⟨item.keyString, item.nsIndex, item.chunkCount, item.chunkStart, item.blobDataSize, 0, 0⟩], s))
    s.manager.pageList [] s

/-- The chunks of the index's version. -/
def BlobIndexNode.ofVersion (e : BlobIndexNode) (item : Item) : Bool :=
  sameKey e.key item ∧ item.nsIndex = e.nsIndex ∧ e.chunkStart ≤ item.chunkIndex ∧
    item.chunkIndex < if e.chunkStart = VER_0_OFFSET then VER_1_OFFSET else VER_ANY

/-- The chunks that the index counts. -/
def BlobIndexNode.owns (e : BlobIndexNode) (item : Item) : Bool :=
  sameKey e.key item ∧ item.nsIndex = e.nsIndex ∧ e.chunkStart ≤ item.chunkIndex ∧
    item.chunkIndex.toNat < e.chunkStart.toNat + e.chunkCount.toNat

/-- A chunk is counted at the first index of its version. -/
def countChunk (item : Item) : List BlobIndexNode → List BlobIndexNode
  | [] => []
  | e :: rest =>
    if e.ofVersion item then
      { e with
        observedDataSize := e.observedDataSize + item.dataSize
        observedChunkCount := e.observedChunkCount + 1 } :: rest
    else e :: countChunk item rest

/-- An index is erased on the first page that has it. -/
def eraseIndex (q : Query) : List Nat → Storage → Storage
  | [], s => s
  | i :: rest, s =>
    let p := s.page i
    if p.state = .corrupt ∨ p.state = .invalid ∨ p.state = .uninitialized then eraseIndex q rest s
    else
      let (err, s) := s.onPage i (·.eraseItem q true)
      if err = ESP_OK then s else eraseIndex q rest s

def eraseMismatchedBlobIndexes (nodes : List BlobIndexNode) (s : Storage) : List BlobIndexNode × Storage :=
  let (nodes, s) := visitAll (anyItem .blobData) (fun nodes item _ s => (countChunk item nodes, s)) s.manager.pageList nodes s
  nodes.foldl (fun (kept, s) e =>
    if e.observedDataSize ≠ e.dataSize ∨ e.observedChunkCount ≠ e.chunkCount.toNat then
      (kept, eraseIndex ⟨e.nsIndex, .blobIdx, some e.key, CHUNK_ANY, e.chunkStart⟩ s.manager.pageList s)
    else (kept ++ [e], s)) ([], s)

def eraseOrphanDataBlobs (nodes : List BlobIndexNode) (s : Storage) : Storage :=
  (visitAll (anyItem .blobData) (fun _ item i s =>
    if nodes.any fun e => e.owns item then ((), s)
    else ((), (s.onPage i (·.eraseItem (chunkQuery item.nsIndex item.keyString item.chunkIndex) true)).2))
    s.manager.pageList () s).2

/-- The namespaces that are on flash. -/
def loadNamespaces (s : Storage) : Storage :=
  let (s', s) := visitAll ⟨NS_INDEX, .u8, none, CHUNK_ANY, VER_ANY⟩ (fun (acc : List NamespaceEntry × List Bool) item _ s =>
    let index := item.octet 24
    ((acc.1 ++ [⟨upToNul item.key, index⟩], acc.2.set index.toNat true), s))
    s.manager.pageList ([], List.replicate 256 false) s
  { s with namespaces := s'.1, namespaceUsage := (s'.2.set 0 true).set 255 true }

/-- `init`, from the flash. -/
def init (sectors : List Sector) : EspErr × Storage :=
  let (err, m) := PageManager.load sectors
  let s : Storage := ⟨false, m, [], []⟩
  if err ≠ ESP_OK then (err, s)
  else
    let s := s.loadNamespaces
    let (nodes, s) := s.populateBlobIndices
    let (nodes, s) := eraseMismatchedBlobIndexes nodes s
    let s := eraseOrphanDataBlobs nodes s
    (ESP_OK, { s with active := true })

end Storage

end EspIdf.Nvs
