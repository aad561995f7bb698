import EspIdf.Lib.Crc32

/-!
# NVS: the entries of a page

* `ItemType`, `Item` : the 32 octets of an entry, read as a header or as data;
* `Item.new`, `Item.withData`, `Item.sealed` : how a header is built;
* `Item.checkHeaderConsistency` : what makes a header valid;
* `Query`, `Query.judge` : what a search makes of a header.
-/

namespace EspIdf.Nvs

open Word32 Crc32

abbrev EspErr := Int

def ESP_OK : EspErr := 0
def ESP_FAIL : EspErr := -1
def ESP_ERR_INVALID_ARG : EspErr := 0x102
def ESP_ERR_NVS_NOT_INITIALIZED : EspErr := 0x1101
def ESP_ERR_NVS_NOT_FOUND : EspErr := 0x1102
def ESP_ERR_NVS_TYPE_MISMATCH : EspErr := 0x1103
def ESP_ERR_NVS_NOT_ENOUGH_SPACE : EspErr := 0x1105
def ESP_ERR_NVS_KEY_TOO_LONG : EspErr := 0x1109
def ESP_ERR_NVS_PAGE_FULL : EspErr := 0x110a
def ESP_ERR_NVS_INVALID_STATE : EspErr := 0x110b
def ESP_ERR_NVS_INVALID_LENGTH : EspErr := 0x110c
def ESP_ERR_NVS_NO_FREE_PAGES : EspErr := 0x110d
def ESP_ERR_NVS_VALUE_TOO_LONG : EspErr := 0x110e
def ESP_ERR_NVS_CONTENT_DIFFERS : EspErr := 0x1118

/-! ## Sizes and marks -/

def ENTRY_SIZE : Nat := 32
def ENTRY_COUNT : Nat := 126
def INVALID_ENTRY : Nat := 0xffffffff
def CHUNK_MAX_SIZE : Nat := ENTRY_SIZE * (ENTRY_COUNT - 1)
def MAX_KEY_LENGTH : Nat := 15

def NS_INDEX : UInt8 := 0
def NS_ANY : UInt8 := 255
def CHUNK_ANY : UInt8 := 255

def VER_0_OFFSET : UInt8 := 0
def VER_1_OFFSET : UInt8 := 0x80
def VER_ANY : UInt8 := 0xff

/-- `other` stands for a code that is none of the enumeration's. -/
inductive ItemType
  | u8
  | i8
  | u16
  | i16
  | u32
  | i32
  | u64
  | i64
  | float
  | double
  | sz
  | blob
  | blobData
  | blobIdx
  | any
  | other (code : UInt8)
deriving Repr, DecidableEq

namespace ItemType

def code : ItemType → UInt8
  | u8 => 0x01
  | i8 => 0x11
  | u16 => 0x02
  | i16 => 0x12
  | u32 => 0x04
  | i32 => 0x14
  | u64 => 0x08
  | i64 => 0x18
  | float => 0x24
  | double => 0x28
  | sz => 0x21
  | blob => 0x41
  | blobData => 0x42
  | blobIdx => 0x48
  | any => 0xff
  | other code => code

/-- The types with a code of their own. -/
def all : List ItemType :=
  [u8, i8, u16, i16, u32, i32, u64, i64, float, double, sz, blob, blobData, blobIdx, any]

def ofCode (c : UInt8) : ItemType := (all.find? fun t => t.code == c).getD (other c)

/-- The types whose value is in the header. -/
def primitive : List ItemType := [u8, i8, u16, i16, u32, i32, u64, i64, float, double]

/-- `isVariableLengthType` -/
def isVariableLength (t : ItemType) : Bool := t = blob ∨ t = sz ∨ t = blobData

/-- `getAlignmentForType` -/
def alignment (t : ItemType) : Nat := (t.code &&& 0x0f).toNat

theorem ofCode_code {t : ItemType} (h : t ∈ all) : ofCode t.code = t := by
  revert t
  decide

end ItemType

/-- A `const char *`: the characters before the NUL. -/
structure CString where
  chars : List UInt8
  nonzero : ∀ c ∈ chars, c ≠ 0

/-- The characters of a field up to the first NUL. -/
def upToNul (field : List UInt8) : List UInt8 := field.takeWhile (· ≠ 0)

theorem upToNul_nonzero (field : List UInt8) : ∀ c ∈ upToNul field, c ≠ 0 := fun c hc => by
  have hall := List.all_eq_true.mp (List.all_takeWhile (p := fun c => decide (c ≠ 0)) (l := field)) c hc
  exact of_decide_eq_true hall

/-! ## Headers -/

/-- `rawData` of the union; a header is a way to read it. -/
structure Item where
  rawData : List UInt8
deriving Repr, DecidableEq

namespace Item
variable (item : Item)

def octet (k : Nat) : UInt8 := item.rawData.getD k 0

def wordAt (k : Nat) : UInt32 := leWord (item.octet k) (item.octet (k + 1)) (item.octet (k + 2)) (item.octet (k + 3))

def nsIndex : UInt8 := item.octet 0
def datatype : ItemType := .ofCode (item.octet 1)
def span : Nat := (item.octet 2).toNat
def chunkIndex : UInt8 := item.octet 3
def crc32 : UInt32 := item.wordAt 4
def key : List UInt8 := (item.rawData.drop 8).take 16
def data : List UInt8 := (item.rawData.drop 24).take 8

/-- The key as a string. -/
def keyString : CString := ⟨upToNul item.key, upToNul_nonzero item.key⟩

/-- `varLength.dataSize` -/
def dataSize : Nat := (item.octet 24).toNat + 2 ^ 8 * (item.octet 25).toNat

/-- `varLength.dataCrc32` -/
def dataCrc32 : UInt32 := item.wordAt 28

/-- `blobIndex.dataSize` -/
def blobDataSize : Nat := (item.wordAt 24).toNat

/-- `blobIndex.chunkCount` -/
def chunkCount : UInt8 := item.octet 28

/-- `blobIndex.chunkStart` -/
def chunkStart : UInt8 := item.octet 29

/-- The CRC of everything but the CRC's own field. -/
def calculateCrc32 : UInt32 :=
  crc32Le (crc32Le (crc32Le 0xffffffff (item.rawData.take 4)) item.key) item.data

def calculateCrc32WithoutValue : UInt32 :=
  crc32Le (crc32Le (crc32Le 0xffffffff [item.nsIndex]) item.key) [item.chunkIndex]

/-- The field of a key: at most 15 characters, filled up with NULs. -/
def keyField (key : CString) : List UInt8 :=
  let chars := key.chars.take MAX_KEY_LENGTH
  chars ++ List.replicate (16 - chars.length) 0

/-- The constructor; the CRC is set later. -/
def new (nsIndex : UInt8) (datatype : ItemType) (span : Nat) (key : CString) (chunkIdx : UInt8) : Item :=
  ⟨[nsIndex, datatype.code, .ofNat span, chunkIdx] ++ List.replicate 4 0 ++ keyField key ++ List.replicate 8 0xff⟩

/-- `memcpy` to the data of the header. -/
def withData (data : List UInt8) : Item :=
  ⟨item.rawData.take 24 ++ data ++ item.rawData.drop (24 + data.length)⟩

/-- The header with its CRC. -/
def sealed : Item :=
  ⟨item.rawData.take 4 ++ leBytes item.calculateCrc32 ++ item.rawData.drop 8⟩

/-- The data of a header of variable length. -/
def varLengthData (data : List UInt8) : List UInt8 :=
  [.ofNat data.length, .ofNat (data.length / 2 ^ 8), 0xff, 0xff] ++ leBytes (crc32Le 0xffffffff data)

/-- The data of a blob's index. -/
def blobIndexData (dataSize : Nat) (chunkCount chunkStart : UInt8) : List UInt8 :=
  leBytes (.ofNat dataSize) ++ [chunkCount, chunkStart, 0xff, 0xff]

def checkHeaderConsistency (entryIndex : Nat) : Bool :=
  if item.crc32 ≠ item.calculateCrc32 then false
  else if item.datatype ∈ ItemType.primitive then item.span = 1
  else if item.datatype = .blobIdx then
    if item.span ≠ 1 then false
    else if item.chunkIndex ≠ CHUNK_ANY then false
    else item.blobDataSize ≤ 255 / 2 * (ENTRY_COUNT - 1) * ENTRY_SIZE
  else if item.datatype.isVariableLength then
    if item.datatype = .blobData ∧ item.chunkIndex = CHUNK_ANY then false
    else if item.dataSize > (ENTRY_COUNT - entryIndex - 1) * ENTRY_SIZE then false
    else if item.span > ENTRY_COUNT - entryIndex then false
    else item.span = ((item.dataSize + ENTRY_SIZE - 1) / ENTRY_SIZE % 2 ^ 8 + 1) % 2 ^ 8
  else false

/-- Entries behind a valid header are skipped. -/
def next (i : Nat) : Nat := if item.datatype.isVariableLength then i + item.span else i + 1

end Item

/-! ## Searches -/

/-- What is searched for. -/
structure Query where
  nsIndex : UInt8
  datatype : ItemType
  key : Option CString
  chunkIdx : UInt8
  chunkStart : UInt8

/-- What becomes of a header: `mismatch` ends the search, and tells whether the index is set. -/
inductive Verdict
  | skip
  | mismatch (indexed : Bool)
  | found
deriving Repr, DecidableEq

/-- `strncmp(key, item.key, MAX_KEY_LENGTH) == 0` -/
def sameKey (key : CString) (item : Item) : Prop :=
  key.chars.take MAX_KEY_LENGTH = (upToNul item.key).take MAX_KEY_LENGTH

instance (key : CString) (item : Item) : Decidable (sameKey key item) := inferInstanceAs (Decidable (_ = _))

/-- The tests of the search, in their order. -/
def Query.judge (q : Query) (item : Item) : Verdict :=
  if q.nsIndex ≠ NS_ANY ∧ item.nsIndex ≠ q.nsIndex then .skip
  else if ∃ key ∈ q.key, ¬sameKey key item then .skip
  else if q.chunkIdx ≠ CHUNK_ANY ∧ q.datatype = .blobData ∧ item.chunkIndex ≠ q.chunkIdx then .skip
  else if q.chunkIdx = CHUNK_ANY ∧ q.datatype = .blobData ∧ item.datatype ≠ .blobData then .skip
  else if q.chunkIdx = CHUNK_ANY ∧ q.datatype = .blob ∧ item.datatype = .blobIdx then .mismatch false
  else if q.chunkIdx = CHUNK_ANY ∧ q.datatype = .blob ∧ item.datatype = .blobData then .skip
  else if q.datatype = .blobIdx ∧ item.chunkIndex ≠ CHUNK_ANY then .skip
  else if q.datatype = .blobIdx ∧ q.chunkStart ≠ VER_ANY ∧ item.chunkStart ≠ q.chunkStart then .skip
  else if q.datatype ≠ .any ∧ item.datatype ≠ q.datatype then
    if q.key.isNone ∧ q.nsIndex = NS_ANY ∧ q.chunkIdx = CHUNK_ANY then .skip else .mismatch true
  else .found

end EspIdf.Nvs
