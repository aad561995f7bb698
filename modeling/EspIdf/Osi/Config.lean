import Mathlib.Algebra.Group.Nat.Defs
import Mathlib.Data.List.Basic
import Mathlib.Data.List.DropRight
import Mathlib.Logic.Function.Basic

/-!
# `osi/config.c`: the configuration of the Bluetooth host, and its text in flash

* `Config`, `setString`, `removeKey`, `removeSection` : sections with entries, in the order of two lists;
* `getConfigSize`, `fill`, `configSave` : the text of a configuration, cut into blobs;
* `sizeFromFlash`, `readText`, `parseLines`, `configNew` : the blobs, and the lines of what they hold.

A string is the list of its bytes, without the NUL. `size_t` has 32 bits, and the strings of a configuration fit into
memory.
-/

namespace EspIdf.Osi

abbrev Bytes := List UInt8

/-! ## Configurations -/

/-- `entry_t` -/
structure Entry where
  key : Bytes
  value : Bytes
deriving Repr, DecidableEq

/-- `section_t` -/
structure Section where
  name : Bytes
  entries : List Entry
deriving Repr, DecidableEq

/-- `config_t` -/
abbrev Config := List Section

def sectionFind (config : Config) (name : Bytes) : Option Section := config.find? fun sec => sec.name = name

def entryFind (config : Config) (name key : Bytes) : Option Entry :=
  (sectionFind config name).bind fun sec => sec.entries.find? fun e => e.key = key

/-- The value of the first entry with the key is replaced, or an entry appended. -/
def putEntry (key value : Bytes) : List Entry → List Entry
  | [] => [⟨key, value⟩]
  | e :: rest => if e.key = key then { e with value := value } :: rest else e :: putEntry key value rest

/-- The entries of the section that `section_find` finds, changed. -/
def modifySection (name : Bytes) (change : List Entry → List Entry) : Config → Config
  | [] => []
  | sec :: rest =>
    if sec.name = name then { sec with entries := change sec.entries } :: rest else sec :: modifySection name change rest

/-- `config_set_string` -/
def setString (config : Config) (name key value : Bytes) (insertBack : Bool) : Config :=
  match sectionFind config name with
  | some _ => modifySection name (putEntry key value) config
  | none => if insertBack then config ++ [⟨name, putEntry key value []⟩] else ⟨name, putEntry key value []⟩ :: config

def decimalAux : (fuel n : Nat) → Bytes
  | 0, _ => []
  | fuel + 1, n => (if n < 10 then [] else decimalAux fuel (n / 10)) ++ [UInt8.ofNat (48 + n % 10)]

/-- `%d` -/
def decimal (value : Int) : Bytes :=
  (if value < 0 then [45] else []) ++ decimalAux (value.natAbs + 1) value.natAbs

/-- `config_set_int` -/
def setInt (config : Config) (name key : Bytes) (value : Int) : Config := setString config name key (decimal value) false

/-- `"true"` and `"false"` -/
def boolText (value : Bool) : Bytes := if value then [116, 114, 117, 101] else [102, 97, 108, 115, 101]

/-- `config_set_bool` -/
def setBool (config : Config) (name key : Bytes) (value : Bool) : Config := setString config name key (boolText value) false

/-- `config_remove_section` -/
def removeSection (config : Config) (name : Bytes) : Bool × Config :=
  match sectionFind config name with
  | none => (false, config)
  | some _ => (true, config.eraseP fun sec => sec.name = name)

/-- `config_remove_key`; a section that this empties goes too. -/
def removeKey (config : Config) (name key : Bytes) : Bool × Config :=
  match sectionFind config name, entryFind config name key with
  | some sec, some _ =>
    let config := modifySection name (List.eraseP fun e => e.key = key) config
    if sec.entries.eraseP (fun e => e.key = key) = [] then removeSection config name else (true, config)
  | _, _ => (false, config)

/-! ## Saving -/

/-- `SIZE_MAX` -/
def sizeMax : Nat := 2 ^ 32 - 1

/-- `CONFIG_FILE_MAX_SIZE` -/
def fileMaxSize : Nat := 1536

/-- `CONFIG_FILE_DEFAULE_LENGTH` -/
def defaultLength : Nat := 2048

/-- `"[%s]\n"` -/
def sectionLine (name : Bytes) : Bytes := 0x5B :: (name ++ [0x5D, 0x0A])

/-- `"%s = %s\n"` -/
def entryLine (e : Entry) : Bytes := e.key ++ [0x20, 0x3D, 0x20] ++ e.value ++ [0x0A]

def addSize (total len : Nat) : Option Nat := if total > sizeMax - len then none else some (total + len)

def sizeOfEntries : (total : Nat) → List Entry → Option Nat
  | total, [] => some total
  | total, e :: rest => (addSize total (e.key.length + e.value.length + 4)).bind fun total => sizeOfEntries total rest

def sizeOfSections : (total : Nat) → Config → Option Nat
  | total, [] => some total
  | total, sec :: rest =>
    (addSize total (sec.name.length + 3)).bind fun total => (sizeOfEntries total sec.entries).bind fun total =>
      if rest = [] then some total
      else if total = sizeMax then none
      else sizeOfSections (total + 1) rest

/-- `get_config_size` -/
def getConfigSize (config : Config) : Option Nat :=
  (sizeOfSections 0 config).bind fun total => if total = sizeMax then none else some (total + 1)

/-- `snprintf` behind the text there is, in a buffer of `size` bytes. -/
def put (size : Nat) (text line : Bytes) : Option Bytes :=
  let remaining := if text.length < size then size - text.length else 0
  if remaining = 0 then none
  else if line.length ≥ 2 ^ 31 ∨ line.length ≥ remaining then none
  else some (text ++ line)

def fillEntries (size : Nat) : Bytes → List Entry → Option Bytes
  | text, [] => some text
  | text, e :: rest => (put size text (entryLine e)).bind fun text => fillEntries size text rest

def fillSections (size : Nat) : Bytes → Config → Option Bytes
  | text, [] => some text
  | text, sec :: rest =>
    (put size text (sectionLine sec.name)).bind fun text => (fillEntries size text sec.entries).bind fun text =>
      if rest = [] then some text
      else if text.length + 1 ≥ size then none
      else fillSections size (text ++ [0x0A]) rest

/-- The text that `config_save` puts into its buffer of `size` bytes. -/
def fill (size : Nat) (config : Config) : Option Bytes :=
  (fillSections size [] config).bind fun text => if text.length ≥ size then none else some text

/-- The blobs of a namespace: the one with index `i` is that of `bt_cfg_key<i>`. -/
abbrev Flash := Nat → Option Bytes

/-- What fails while a configuration is saved. -/
structure Faults where
  keyname : Bool
  buf : Bool
  nvsOpen : Bool
  setBlob : (turn : Nat) → Bool
  commit : Bool

def chunk (text : Bytes) (count i : Nat) : Bytes :=
  if i = count then text.drop (i * fileMaxSize) else (text.drop (i * fileMaxSize)).take fileMaxSize

/-- The loop over the chunks; its counter has eight bits, so that it has no end for a `count` of 255. -/
def saveChunks (faults : Faults) (text : Bytes) (count : Nat) : (fuel turn : Nat) → Flash → Option (Bool × Flash)
  | 0, _, _ => none
  | fuel + 1, turn, flash =>
    let i := turn % 256
    if i ≤ count then
      if faults.setBlob turn then some (false, flash)
      else saveChunks faults text count fuel (turn + 1) (Function.update flash i (some (chunk text count i)))
    else some (true, flash)

def saveText (fuel : Nat) (faults : Faults) (text : Bytes) (flash : Flash) : Option (Bool × Flash) :=
  if text.length < fileMaxSize then
    if faults.setBlob 0 then some (false, flash) else some (true, Function.update flash 0 (some text))
  else
    let count := text.length / fileMaxSize
    -- the assertion
    if count > 0xFF then none else saveChunks faults text count fuel 0 flash

/-- `config_save`; nothing while it has not returned. -/
def configSave (fuel : Nat) (faults : Faults) (config : Config) (flash : Flash) : Option (Bool × Flash) :=
  if faults.keyname then some (false, flash)
  else
    match getConfigSize config with
    | none => some (false, flash)
    | some size =>
      if faults.buf ∨ faults.nvsOpen then some (false, flash)
      else
        match fill size config with
        | none => some (false, flash)
        | some text => (saveText fuel faults text flash).map fun r => (r.1 && !faults.commit, r.2)

/-! ## Loading -/

/-- `get_config_size_from_flash` from a chunk on; nothing for a counter that wraps. -/
def sizeFromFlash (flash : Flash) : (fuel i : Nat) → Option Nat
  | 0, _ => none
  | fuel + 1, i =>
    match flash i with
    | none => some 0
    | some blob =>
      if blob.length = fileMaxSize then (sizeFromFlash flash fuel (i + 1)).map (blob.length + ·) else some blob.length

/-- The blobs in the buffer: nothing for a counter that wraps, an error for a blob that is too long. -/
def readText (flash : Flash) : (fuel i : Nat) → Option (Option Bytes)
  | 0, _ => none
  | fuel + 1, i =>
    match flash i with
    | none => some (some [])
    | some blob =>
      if blob.length > defaultLength then some none
      else if blob.length = fileMaxSize then (readText flash fuel (i + 1)).map fun rest => rest.map (blob ++ ·)
      else some (some blob)

/-- `isspace` -/
def isSpace (b : UInt8) : Bool := b = 0x20 || (0x09 ≤ b && b ≤ 0x0D)

def trim (str : Bytes) : Bytes := (str.dropWhile isSpace).rdropWhile isSpace

/-- `strchr`, up to the NUL. -/
def strchr (str : Bytes) (c : UInt8) : Option Nat :=
  match str.findIdx? fun b => b = c || b = 0 with
  | some i => if str[i]? = some c then some i else none
  | none => none

/-- What a line does to the section and the configuration. -/
def parseLine (sec : Bytes) (config : Config) (line : Bytes) : Bytes × Config :=
  match trim line with
  | [] => (sec, config)
  | c :: str =>
    if c = 0x23 then (sec, config)
    else if c = 0x5B then
      if (c :: str).getLast? = some 0x5D then (str.take (str.length + 1 - 2), config) else (sec, config)
    else
      match strchr (c :: str) 0x3D with
      | none => (sec, config)
      | some split =>
        (sec, setString config sec (trim ((c :: str).take split)) (trim ((c :: str).drop (split + 1))) true)

/-- The loop over the lines; each turn eats a byte. -/
def parseLines : (fuel : Nat) → Bytes → Config → Bytes → Config
  | 0, _, config, _ => config
  | fuel + 1, sec, config, rest =>
    if rest.length ≤ 1 then config
    else
      match strchr rest 0x0A with
      | none => config
      | some lineLen =>
        if lineLen > 1023 then config
        else
          let r := parseLine sec config (rest.take lineLen)
          parseLines fuel r.1 r.2 (rest.drop (lineLen + 1))

/-- `CONFIG_DEFAULT_SECTION` -/
def defaultSection : Bytes := [71, 108, 111, 98, 97, 108]

/-- `config_new`: nothing while it has not returned, then the configuration unless it is `NULL`. -/
def configNew (flash : Flash) : Option (Option Config) :=
  (sizeFromFlash flash 0x10000 0).bind fun size =>
    if size = 0 then some (some [])
    else (readText flash 0x10000 0).map fun text => text.map fun text => parseLines text.length defaultSection [] text

end EspIdf.Osi
