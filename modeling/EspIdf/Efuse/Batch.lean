import EspIdf.Efuse.Fields

/-!
# `esp_efuse_api.c`: batches of writes

* `State`, `Op`, `step` : the calls, in a batch and outside;
* `Asks` : the bits a write call asks for; `Applied` : those of several calls, one after the other;
* `Contract` : what one call of a transaction may do;
* `Clean` : the calls that look at burned registers and so overlook what is staged are not made.

The coding scheme is NONE, for which `apply_new_coding_scheme` finds nothing to check.
-/

namespace EspIdf.Efuse

/-! ## Reading a field -/

def setByte (blob : Blob) (i : Nat) (value : BitVec 8) : Blob := fun j => if j = i then value else blob j

/-- The loop of `fill_buff`; `bitCount` turns are enough. -/
def fillBuffBytes (aligned : Reg) : (fuel bitCount counter sumShift shiftBit : Nat) → Blob → Blob × Nat
  | 0, _, counter, _, _, blob => (blob, counter)
  | fuel + 1, bitCount, counter, sumShift, shiftBit, blob =>
    if bitCount = 0 then (blob, counter)
    else
      let sumShift := sumShift + shiftBit
      let blob := setByte blob (counter / 8) (blob (counter / 8) ||| (aligned >>> sumShift).setWidth 8)
      let shiftBit := if bitCount > 8 then 8 else bitCount
      fillBuffBytes aligned fuel (bitCount - shiftBit) (counter + shiftBit) sumShift shiftBit blob

/-- `esp_efuse_utility_fill_buff` -/
def fillBuff (burned : Blocks) : FuncProc Blob := fun numReg blk bitStart bitCount blob counter =>
  let aligned := (burned blk numReg >>> bitStart) &&& getMask bitCount 0
  let shiftBit := counter % 8
  let r :=
    if shiftBit ≠ 0 then
      let blob := setByte blob (counter / 8) (blob (counter / 8) ||| (aligned <<< shiftBit).setWidth 8)
      let shiftBit := if 8 - shiftBit < bitCount then 8 - shiftBit else bitCount
      fillBuffBytes aligned bitCount (bitCount - shiftBit) (counter + shiftBit) 0 shiftBit blob
    else fillBuffBytes aligned bitCount bitCount counter 0 0 blob
  (.ok, r)

/-- `esp_efuse_read_field_blob`, of a field that is there, into a buffer of zeros. -/
def readFieldBlob (burned : Blocks) (field : Field) (dstSizeBits : Nat) : Err × Blob :=
  let r := process field (fun _ => 0) dstSizeBits (fillBuff burned)
  (r.1, r.2.1)

/-! ## State -/

structure State where
  /-- `virt_blocks` -/
  burned : Blocks
  /-- `write_mass_blocks` -/
  staged : Blocks
  batchWritingMode : Nat

def noBits : Blocks := fun _ _ => 0

def union (x y : Blocks) : Blocks := fun b r => x b r ||| y b r

/-- What the blocks will be once the staged bits are burned. -/
def State.view (s : State) : Blocks := union s.burned s.staged

/-- `esp_efuse_utility_reset` -/
def State.reset (s : State) : State := { s with staged := noBits }

/-- `esp_efuse_utility_apply_new_coding_scheme` -/
def applyNewCodingScheme (_ : State) : Err := .ok

/-- `esp_efuse_utility_burn_efuses` -/
def State.burnEfuses (s : State) : State := { s with burned := union s.burned s.staged }.reset

/-- What the write calls share: outside a batch the registers are reset, filled and burned. -/
def State.writeCall (s : State) (fill : Blocks → Err × Blocks) : Err × State :=
  if s.batchWritingMode = 0 then
    let r := fill s.reset.staged
    let s := { s with staged := r.2 }
    if r.1 = .ok then
      let err := applyNewCodingScheme s
      if err = .ok then (.ok, s.burnEfuses.reset) else (err, s.reset)
    else (r.1, s.reset)
  else
    let r := fill s.staged
    (r.1, { s with staged := r.2 })

def fillBlob (burned : Blocks) (field : Field) (src : Blob) (srcSizeBits : Nat) (staged : Blocks) : Err × Blocks :=
  let r := process field staged srcSizeBits (writeBlob burned src)
  (r.1, r.2.1)

/-- `esp_efuse_write_field_blob` -/
def State.writeFieldBlob (s : State) : (field : Option Field) → (src : Option Blob) → (srcSizeBits : Nat) → Err × State
  | some field, some src, srcSizeBits =>
    if srcSizeBits = 0 then (.invalidArg, s) else s.writeCall (fillBlob s.burned field src srcSizeBits)
  | _, _, _ => (.invalidArg, s)

def fillCnt (burned : Blocks) (field : Field) (cnt : Nat) (staged : Blocks) : Err × Blocks :=
  let r := process field (staged, cnt) 0 (writeCnt burned)
  let err := if r.2.1.2 ≠ 0 then .cntIsFull else r.1
  (if err = .okCnt then .ok else err, r.2.1.1)

/-- `esp_efuse_write_field_cnt` -/
def State.writeFieldCnt (s : State) : (field : Option Field) → (cnt : Nat) → Err × State
  | some field, cnt => if cnt = 0 then (.invalidArg, s) else s.writeCall (fillCnt s.burned field cnt)
  | none, _ => (.invalidArg, s)

/-- `esp_efuse_write_field_bit`, which looks at the first description. -/
def State.writeFieldBit (s : State) : (field : Option Field) → (∀ f, field = some f → f.descs ≠ []) → Err × State
  | none, _ => (.invalidArg, s)
  | some field, hfirst =>
    if (field.descs.head (hfirst field rfl)).bitCount ≠ 1 then (.invalidArg, s)
    else
      let r := readFieldBlob s.burned field 1
      if r.1 ≠ .ok ∨ r.2 0 ≠ 0 then (r.1, s) else s.writeFieldBlob (some field) (some fun _ => 1) 1

/-- `esp_efuse_write_reg` -/
def State.writeReg (s : State) (blk : Block) (numReg : Nat) (val : Reg) : Err × State :=
  s.writeCall fun staged => utilityWriteReg s.burned staged blk numReg val

/-- `esp_efuse_batch_write_begin` -/
def State.batchWriteBegin (s : State) : Err × State :=
  let s := { s with batchWritingMode := s.batchWritingMode + 1 }
  (.ok, if s.batchWritingMode = 1 then s.reset else s)

/-- `esp_efuse_batch_write_cancel` -/
def State.batchWriteCancel (s : State) : Err × State :=
  if s.batchWritingMode = 0 then (.invalidState, s)
  else
    let s := { s with batchWritingMode := s.batchWritingMode - 1 }
    (.ok, if s.batchWritingMode = 0 then s.reset else s)

/-- `esp_efuse_batch_write_commit` -/
def State.batchWriteCommit (s : State) : Err × State :=
  if s.batchWritingMode = 0 then (.invalidState, s)
  else
    let s := { s with batchWritingMode := s.batchWritingMode - 1 }
    if s.batchWritingMode = 0 then
      let err := applyNewCodingScheme s
      (err, if err = .ok then s.burnEfuses else s.reset)
    else (.ok, s)

/-- A call of the API. The list of a field whose first description is read is not empty. -/
inductive Op
  | begin
  | cancel
  | commit
  | writeFieldBlob (field : Option Field) (src : Option Blob) (srcSizeBits : Nat)
  | writeFieldCnt (field : Option Field) (cnt : Nat)
  | writeFieldBit (field : Option Field) (hfirst : ∀ f, field = some f → f.descs ≠ [])
  | writeReg (blk : Block) (numReg : Nat) (val : Reg)

def step (s : State) : Op → Err × State
  | .begin => s.batchWriteBegin
  | .cancel => s.batchWriteCancel
  | .commit => s.batchWriteCommit
  | .writeFieldBlob field src srcSizeBits => s.writeFieldBlob field src srcSizeBits
  | .writeFieldCnt field cnt => s.writeFieldCnt field cnt
  | .writeFieldBit field hfirst => s.writeFieldBit field hfirst
  | .writeReg blk numReg val => s.writeReg blk numReg val

/-- Erased registers, no batch. -/
def State.start (burned : Blocks) : State := { burned, staged := noBits, batchWritingMode := 0 }

/-! ## What the calls ask for -/

/-- The bits `after` are those `before` and the ones that `f` says. -/
def Gains (before after : Blocks) (f : Pos → Bool) : Prop := ∀ pos, bitAt after pos = (bitAt before pos || f pos)

/-- What a write call that succeeds is to do to the blocks. -/
def Asks : Op → (before after : Blocks) → Prop
  | .writeFieldBlob (some field) (some src) srcSizeBits, before, after =>
    Gains before after (asks src 0 (field.bits.take srcSizeBits))
  | .writeFieldCnt (some field) cnt, before, after =>
    ∃ picked : List Pos, picked.Nodup ∧ picked.length = cnt ∧ (∀ pos ∈ picked, pos ∈ field.bits ∧ bitAt before pos = false) ∧
      Gains before after fun pos => decide (pos ∈ picked)
  | .writeFieldBit (some field) _, before, after => Gains before after fun pos => decide (field.bits.head? = some pos)
  | .writeReg blk numReg val, before, after =>
    Gains before after fun pos => decide (pos.1 = blk ∧ pos.2 / 32 = numReg) && val.getLsbD (pos.2 % 32)
  | _, before, after => after = before

/-- The calls, one after the other, lead from `base` to `after`. -/
inductive Applied (base : Blocks) : List Op → Blocks → Prop
  | nil : Applied base [] base
  | snoc {ops : List Op} {mid after : Blocks} (op : Op) (before : Applied base ops mid) (h : Asks op mid after) :
      Applied base (ops ++ [op]) after

def Op.isWrite : Op → Bool
  | .begin | .cancel | .commit => false
  | _ => true

/-- The state, the blocks when the batch began and the writes since that were accepted. -/
structure Ledger where
  state : State
  base : Blocks
  done : List Op

def Ledger.start (burned : Blocks) : Ledger := { state := .start burned, base := burned, done := [] }

def Ledger.next (l : Ledger) (op : Op) : Ledger :=
  let r := step l.state op
  if r.2.batchWritingMode = 0 then { state := r.2, base := r.2.burned, done := [] }
  else { state := r.2, base := l.base, done := if op.isWrite ∧ r.1 = .ok then l.done ++ [op] else l.done }

/-- A write that fails stages nothing, one that succeeds does what it asks for. -/
def WriteContract (s : State) (op : Op) : Prop :=
  let r := step s op
  (r.1 ≠ .ok → r.2.staged = s.staged ∧ r.2.burned = s.burned) ∧
    (r.1 = .ok → Asks op s.view r.2.view) ∧ (s.batchWritingMode ≠ 0 → r.2.burned = s.burned)

/-- One call of a transaction. -/
def Contract (l : Ledger) (op : Op) : Prop :=
  let r := step l.state op
  if op.isWrite then WriteContract l.state op
  else
    match op with
    | .commit =>
      if l.state.batchWritingMode = 1 ∧ r.1 = .ok then Applied l.base l.done r.2.burned
      else r.2.burned = l.state.burned
    | _ => r.2.burned = l.state.burned

/-- Every call of a run keeps to the contract. -/
def Transactional : Ledger → List Op → Prop
  | _, [] => True
  | l, op :: ops => Contract l op ∧ Transactional (l.next op) ops

/-! ## What the code overlooks -/

/-- No register refuses the blob, nor does a description lie out of range. -/
def Accepts (burned : Blocks) (blob : Blob) (list : List Item) : Prop :=
  .badRange ∉ list ∧ ∀ pos, asks blob 0 (reach list) pos = true → bitAt burned pos = false

/-- In a batch: what a blob asks for before the first item that refuses it is staged already; a count that fits
meets no staged bit, and one that does not fit meets no bit that is neither burned nor staged. -/
def Clean (s : State) (op : Op) : Prop :=
  s.batchWritingMode = 0 ∨
    match op with
    | .writeFieldBlob (some field) (some src) srcSizeBits =>
      srcSizeBits = 0 ∨ ∀ pre bad post, items field.descs (field.wanted srcSizeBits) = pre ++ bad :: post →
        Accepts s.burned src pre → Refused s.burned src (reach pre).length bad →
          ∀ pos, asks src 0 (reach pre) pos = true → bitAt s.staged pos = true
    | .writeFieldCnt (some field) cnt =>
      let bits := free s.burned (reach (items field.descs (field.wanted 0)))
      cnt = 0 ∨ if cnt ≤ bits.length then ∀ pos ∈ bits.take cnt, bitAt s.staged pos = false
        else ∀ pos ∈ bits, bitAt s.staged pos = true
    | _ => True

/-- Every call of a run is clean. -/
def CleanRun : State → List Op → Prop
  | _, [] => True
  | s, op :: ops => Clean s op ∧ CleanRun (step s op).2 ops

end EspIdf.Efuse
