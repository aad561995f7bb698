import EspIdf.Efuse.Transaction

/-!
# `esp_efuse_utility_process` over the memory of the descriptions

* `Cell`, `Table` : the words of a table, and the descriptions that a list of pointers names;
* `processCells`, `Table.process` : the walk, which goes on to the next word and not to the next pointer;
* `logged`, `calls_fit` : the calls of a walk stay within their registers;
* `walk`, `processCells_eq` : the registers that a walk meets, and the run over them.
-/

namespace EspIdf.Efuse

/-! ## Descriptions in memory -/

/-- A word as a description: `efuse_block` of 7 bits, `bit_start` of 9 and `bit_count` of 16. -/
structure Cell where
  efuseBlock : Nat
  bitStart : Nat
  bitCount : Nat
deriving Repr, DecidableEq

def Desc.cell (d : Desc) : Cell := ⟨d.block, d.bitStart, d.bitCount⟩

/-- The descriptions that the pointers name are good ones and do not overlap; between them and after them memory holds
anything. -/
structure Table where
  mem : List Cell
  /-- `field`, up to its NULL -/
  ptrs : List Nat
  field : Field
  stored : List.Forall₂ (fun p d => mem[p]? = some (Desc.cell d)) ptrs field.descs
  inRange : ∀ d ∈ field.descs, d.inRange = true

/-- `esp_efuse_get_field_size` -/
def fieldSizeAt (mem : List Cell) : List Nat → Nat
  | [] => 0
  | p :: rest => (mem[p]?.elim 0 Cell.bitCount) + fieldSizeAt mem rest

/-! ## The walk -/

namespace Cell
variable (c : Cell)

/-- `check_range_of_bits` -/
def inRange : Bool := c.bitStart + c.bitCount ≤ 256

def endBit : Int := c.bitStart + c.bitCount - 1
def firstReg : Nat := c.bitStart / 32
def lastReg : Int := c.endBit.tdiv 32
def regs : List Nat := List.range' c.firstReg (c.lastReg - c.firstReg + 1).toNat

/-- `use_bit_in_reg` -/
def useBits (numReg startBit : Nat) : Int :=
  let firstBit : Nat := if numReg = c.firstReg then startBit % 32 else 0
  let lastBit : Int := if (numReg : Int) = c.lastReg then c.endBit.tmod 32 else 31
  lastBit - firstBit + 1

/-- And as it is limited by the length that is asked for. -/
def limited (reqSize numReg startBit counter : Nat) : Nat :=
  let use := c.useBits numReg startBit
  (if (counter : Int) + use > reqSize then (reqSize : Int) - counter else use).toNat

end Cell

/-- `efuse_func_proc_t`; no error is returned where an assertion fails. -/
abbrev CellFunc (σ : Type) :=
  (numReg efuseBlock bitStart bitCount : Nat) → σ → (bitsCounter : Nat) → Option Err × σ × Nat

section process
variable {σ : Type} (func : CellFunc σ) (reqSize : Nat)

def processCellRegs (c : Cell) : List Nat → (startBit : Nat) → σ → Nat → Option Err × σ × Nat
  | [], _, s, counter => (some .ok, s, counter)
  | numReg :: rest, startBit, s, counter =>
    let r := func numReg c.efuseBlock startBit (c.limited reqSize numReg startBit counter) s counter
    if r.1 ≠ some .ok ∨ reqSize ≤ r.2.2 then r else processCellRegs c rest 0 r.2.1 r.2.2

/-- The outer loop: `++f`. -/
def processCells : List Cell → σ → Nat → Option Err × σ × Nat
  | [], s, counter => if reqSize ≤ counter then (some .ok, s, counter) else (none, s, counter)
  | c :: rest, s, counter =>
    if reqSize ≤ counter then (some .ok, s, counter)
    else if !c.inRange then (some .coding, s, counter)
    else
      let r := processCellRegs func reqSize c c.regs (c.bitStart % 32) s counter
      if r.1 ≠ some .ok then r else processCells rest r.2.1 r.2.2

end process

namespace Table

/-- Memory from the first description on. -/
def cells (t : Table) : List Cell :=
  match t.ptrs with
  | [] => []
  | p :: _ => t.mem.drop p

/-- `esp_efuse_utility_process` -/
def process {σ : Type} (t : Table) (s : σ) (sizeBits : Nat) (func : CellFunc σ) : Option Err × σ × Nat :=
  let len := fieldSizeAt t.mem t.ptrs
  processCells func (if sizeBits = 0 then len else min sizeBits len) t.cells s 0

end Table

/-- The number of registers that a block has for `esp_efuse_utility_read_reg`. -/
def regsOf (efuseBlock : Nat) : Nat := if efuseBlock = 0 then 7 else 8

/-- A function that accesses its register by `read_reg`, which asserts that there is one. -/
def checked {σ : Type} (func : FuncProc σ) : CellFunc σ := fun numReg efuseBlock bitStart bitCount s counter =>
  if h : efuseBlock < 4 ∧ numReg < regsOf efuseBlock then
    let r := func numReg ⟨efuseBlock, h.1⟩ bitStart bitCount s counter
    (some r.1, r.2)
  else (none, s, counter)

/-! ## The calls -/

structure Call where
  efuseBlock : Nat
  numReg : Nat
  bitStart : Nat
  bitCount : Nat
deriving Repr, DecidableEq

/-- A function, with the calls that are made. -/
def logged {σ : Type} (func : CellFunc σ) : CellFunc (σ × List Call) :=
  fun numReg efuseBlock bitStart bitCount s counter =>
    let r := func numReg efuseBlock bitStart bitCount s.1 counter
    (r.1, (r.2.1, s.2 ++ [⟨efuseBlock, numReg, bitStart, bitCount⟩]), r.2.2)

def Call.Fits (call : Call) : Prop := call.bitStart + call.bitCount ≤ 32

section calls
variable {σ : Type} {func : CellFunc σ} {reqSize counter : Nat}

theorem regs_head {c : Cell} {numReg : Nat} (h : c.regs.head? = some numReg) : numReg = c.firstReg := by
  rw [Cell.regs, List.head?_range'] at h
  split at h
  · cases h
  · exact (Option.some.inj h).symm

/-- A register is entered at its first bit, except for the first one of a description. -/
theorem limited_fits (c : Cell) {numReg startBit : Nat} (hcounter : counter < reqSize) (hstart : startBit < 32)
    (hfirst : numReg = c.firstReg ∨ startBit = 0) : startBit + c.limited reqSize numReg startBit counter ≤ 32 := by
  have hlast : (if (numReg : Int) = c.lastReg then c.endBit.tmod 32 else 31) ≤ 31 := by
    split
    · exact Int.lt_add_one_iff.mp (Int.tmod_lt_of_pos _ (by decide))
    · exact Int.le_refl _
  have hbit : (if numReg = c.firstReg then startBit % 32 else 0) = startBit := by
    rcases hfirst with h | rfl
    · rw [if_pos h, Nat.mod_eq_of_lt hstart]
    · simp
  have huse : c.useBits numReg startBit ≤ 32 - startBit := by
    unfold Cell.useBits
    rw [hbit]
    dsimp only
    omega
  unfold Cell.limited
  dsimp only
  split <;> omega

theorem cellRegs_fit {c : Cell} {regs : List Nat} {startBit : Nat} {s : σ × List Call} (hcounter : counter < reqSize)
    (hstart : startBit < 32) (hfirst : startBit = 0 ∨ ∀ numReg, regs.head? = some numReg → numReg = c.firstReg)
    (hcalls : ∀ call ∈ s.2, call.Fits) :
    ∀ call ∈ (processCellRegs (logged func) reqSize c regs startBit s counter).2.1.2, call.Fits := by
  induction regs generalizing startBit s counter with
  | nil => exact hcalls
  | cons numReg rest ih =>
    have hfit := limited_fits c hcounter hstart (hfirst.symm.imp_left fun h => h numReg rfl)
    have hcalls' : ∀ call ∈ s.2 ++ [⟨c.efuseBlock, numReg, startBit, c.limited reqSize numReg startBit counter⟩],
        call.Fits := by
      intro call hcall
      rcases List.mem_append.mp hcall with hcall | hcall
      · exact hcalls call hcall
      · rw [List.mem_singleton.mp hcall]
        exact hfit
    unfold processCellRegs
    dsimp only
    split
    · exact hcalls'
    · rename_i hgo
      exact ih (Nat.lt_of_not_le fun h => hgo (.inr h)) (by decide) (.inl rfl) hcalls'

theorem cells_fit {cells : List Cell} {s : σ × List Call} (hcalls : ∀ call ∈ s.2, call.Fits) :
    ∀ call ∈ (processCells (logged func) reqSize cells s counter).2.1.2, call.Fits := by
  induction cells generalizing s counter with
  | nil =>
    unfold processCells
    split <;> exact hcalls
  | cons c rest ih =>
    unfold processCells
    split
    · exact hcalls
    · rename_i hcounter
      split
      · exact hcalls
      · have hregs : ∀ call ∈ (processCellRegs (logged func) reqSize c c.regs (c.bitStart % 32) s counter).2.1.2,
            call.Fits := by
          exact cellRegs_fit (Nat.lt_of_not_le hcounter) (Nat.mod_lt _ (by decide)) (.inr fun _ => regs_head) hcalls
        dsimp only
        split
        · exact hregs
        · exact ih hregs

/-- Whatever is called, and whatever memory holds. -/
theorem calls_fit (t : Table) (sizeBits : Nat) (func : CellFunc σ) (s : σ) :
    ∀ call ∈ (t.process (s, []) sizeBits (logged func)).2.1.2, call.Fits := cells_fit nofun

end calls

/-! ## What a walk meets -/

/-- The access to a register, or an assertion that fails. -/
def Cell.item (c : Cell) (numReg startBit use : Nat) : Option Item :=
  if h : c.efuseBlock < 4 ∧ numReg < regsOf c.efuseBlock then some (.piece ⟨⟨c.efuseBlock, h.1⟩, numReg, startBit, use⟩)
  else none

def Cell.items (c : Cell) : List Nat → (startBit left : Nat) → List (Option Item)
  | [], _, _ => []
  | numReg :: rest, startBit, left =>
    let use := min (c.useBits numReg startBit).toNat left
    c.item numReg startBit use :: if left ≤ use then [] else c.items rest 0 (left - use)

/-- The words of memory as descriptions, until `left` bits are found. -/
def walk : List Cell → (left : Nat) → List (Option Item)
  | [], left => if left = 0 then [] else [none]
  | c :: rest, left =>
    if left = 0 then []
    else if !c.inRange then [some .badRange]
    else c.items c.regs (c.bitStart % 32) left ++ walk rest (left - c.bitCount)

/-- All that is met are registers. -/
def Pieces (met : List (Option Item)) (list : List Piece) : Prop := met = list.map fun p => some (.piece p)

section run
variable {σ : Type} {func : FuncProc σ}

def runWalk (func : FuncProc σ) : List (Option Item) → σ → Nat → Option Err × σ × Nat
  | [], s, counter => (some .ok, s, counter)
  | none :: _, s, counter => (none, s, counter)
  | some .badRange :: _, s, counter => (some .coding, s, counter)
  | some (.piece p) :: rest, s, counter =>
    let r := func p.reg p.block p.start p.count s counter
    if r.1 ≠ .ok then (some r.1, r.2) else runWalk func rest r.2.1 r.2.2

theorem runWalk_pieces (list : List Piece) (s : σ) (counter : Nat) :
    runWalk func (list.map fun p => some (.piece p)) s counter =
      (some (runItems func (list.map Item.piece) s counter).1, (runItems func (list.map Item.piece) s counter).2) := by
  induction list generalizing s counter with
  | nil => rfl
  | cons p list ih =>
    simp only [List.map_cons, runWalk, runItems]
    split
    · rfl
    · exact ih _ _

theorem runWalk_ok {met : List (Option Item)} {s : σ} {counter : Nat} (h : (runWalk func met s counter).1 = some .ok) :
    ∃ list, Pieces met list := by
  induction met generalizing s counter with
  | nil => exact ⟨[], rfl⟩
  | cons item rest ih =>
    cases item with
    | none => cases h
    | some item =>
      cases item with
      | badRange => cases h
      | piece p =>
        simp only [runWalk] at h
        split at h
        · rename_i hne
          exact absurd (Option.some.inj h) hne
        · obtain ⟨list, hlist⟩ := ih h
          exact ⟨p :: list, by rw [Pieces, hlist]; rfl⟩

theorem runWalk_append {pre post : List (Option Item)} {s : σ} {counter : Nat} :
    runWalk func (pre ++ post) s counter =
      let r := runWalk func pre s counter
      if r.1 ≠ some .ok then r else runWalk func post r.2.1 r.2.2 := by
  induction pre generalizing s counter with
  | nil => rfl
  | cons item pre ih =>
    cases item with
    | none => rfl
    | some item =>
      cases item with
      | badRange => rfl
      | piece p =>
        simp only [List.cons_append, runWalk]
        split
        · rename_i hne
          rw [if_pos fun h => hne (Option.some.inj h)]
        · exact ih

end run

/-! ## How many bits there are -/

section count
variable {c : Cell}

theorem endBit_eq (hpos : 0 < c.bitCount) : c.endBit = ((c.bitStart + c.bitCount - 1 : Nat) : Int) := by
  unfold Cell.endBit
  omega

theorem lastReg_eq (hpos : 0 < c.bitCount) : c.lastReg = (((c.bitStart + c.bitCount - 1) / 32 : Nat) : Int) := by
  unfold Cell.lastReg
  rw [endBit_eq hpos]
  rfl

theorem cell_useBits_eq {st n : Nat} (hend : st + n = c.bitStart + c.bitCount) (hn : 0 < n) (hlow : c.bitStart ≤ st)
    (haligned : st = c.bitStart ∨ st % 32 = 0) : (c.useBits (st / 32) (st % 32)).toNat = min (32 - st % 32) n := by
  have hpos : 0 < c.bitCount := by omega
  have hfirst : (if st / 32 = c.firstReg then st % 32 % 32 else 0) = st % 32 := by
    unfold Cell.firstReg
    split
    · exact Nat.mod_mod _ _
    · rcases haligned with h | h <;> omega
  have hlast : c.endBit.tmod 32 = (((st + n - 1) % 32 : Nat) : Int) := by
    rw [endBit_eq hpos, hend]
    rfl
  unfold Cell.useBits
  rw [hfirst, hlast, lastReg_eq hpos, ← hend]
  dsimp only
  split <;> omega

theorem item_of {numReg startBit use : Nat} (h : c.efuseBlock < 4 ∧ numReg < regsOf c.efuseBlock) :
    c.item numReg startBit use = some (.piece ⟨⟨c.efuseBlock, h.1⟩, numReg, startBit, use⟩) := dif_pos h

theorem item_none {numReg startBit use : Nat} (h : ¬(c.efuseBlock < 4 ∧ numReg < regsOf c.efuseBlock)) :
    c.item numReg startBit use = none := dif_neg h

theorem item_some {numReg startBit use : Nat} {item : Item} (h : c.item numReg startBit use = some item) :
    ∃ block : Block, block.val = c.efuseBlock ∧ item = .piece ⟨block, numReg, startBit, use⟩ := by
  unfold Cell.item at h
  split at h
  · exact ⟨_, rfl, (Option.some.inj h).symm⟩
  · cases h

theorem pieces_cons {item : Option Item} {met : List (Option Item)} {list : List Piece} (h : Pieces (item :: met) list) :
    ∃ p rest, list = p :: rest ∧ item = some (.piece p) ∧ Pieces met rest := by
  cases list with
  | nil => cases h
  | cons p rest =>
    obtain ⟨hitem, hmet⟩ := List.cons.inj h
    exact ⟨p, rest, rfl, hitem, hmet⟩

theorem pieces_nil {list : List Piece} (h : Pieces [] list) : list = [] := List.map_eq_nil_iff.mp h.symm

@[simp] theorem Piece.length_bits (p : Piece) : p.bits.length = p.count := by simp [Piece.bits]

/-- From register to register, the bits in their order, as many as there are or as are asked for. -/
theorem cellItems_bits {m st n left : Nat} (hend : st + n = c.bitStart + c.bitCount) (hn : 0 < n) (hlow : c.bitStart ≤ st)
    (haligned : st = c.bitStart ∨ st % 32 = 0) (hm : st / 32 + m = (st + n - 1) / 32 + 1) (hleft : 0 < left)
    {list : List Piece} (h : Pieces (c.items (List.range' (st / 32) m) (st % 32) left) list) :
    ∃ block : Block, block.val = c.efuseBlock ∧
      list.flatMap Piece.bits = ((List.range' st n).map fun i => (block, i)).take left ∧ ∀ p ∈ list, p.Fits := by
  induction m generalizing st n left list with
  | zero => omega
  | succ m ih =>
    obtain ⟨use, huse⟩ : ∃ use, use = min (min (32 - st % 32) n) left := ⟨_, rfl⟩
    rw [List.range'_succ] at h
    unfold Cell.items at h
    dsimp only at h
    rw [cell_useBits_eq hend hn hlow haligned, ← huse] at h
    obtain ⟨p, rest, rfl, hp, hrest⟩ := pieces_cons h
    obtain ⟨block, hblock, heq⟩ := item_some hp
    obtain rfl := Item.piece.inj heq
    have hbits : (⟨block, st / 32, st % 32, use⟩ : Piece).bits = (List.range' st use).map fun i => (block, i) := by
      unfold Piece.bits
      rw [show 32 * (st / 32) + st % 32 = st by omega]
    have hfit : (⟨block, st / 32, st % 32, use⟩ : Piece).Fits := by
      change st % 32 + use ≤ 32
      omega
    refine ⟨block, hblock, ?_⟩
    rw [List.flatMap_cons, hbits, ← List.map_take, take_range', List.forall_mem_cons]
    split at hrest
    · -- no more bits are asked for
      rw [pieces_nil hrest, show min left n = use by omega]
      exact ⟨List.append_nil _, hfit, nofun⟩
    · by_cases hwhole : use = n
      · obtain rfl : m = 0 := by omega
        rw [pieces_nil hrest, show min left n = use by omega]
        exact ⟨List.append_nil _, hfit, nofun⟩
      · have hnext := @ih (st + use) (n - use) (left - use) (by omega) (by omega) (by omega) (by omega) (by omega)
          (by omega) rest
        rw [show (st + use) / 32 = st / 32 + 1 by omega, show (st + use) % 32 = 0 by omega] at hnext
        obtain ⟨block', hblock', hrest, hfits⟩ := hnext hrest
        obtain rfl : block' = block := Fin.ext (hblock'.trans hblock.symm)
        refine ⟨?_, hfit, hfits⟩
        rw [hrest, ← List.map_take, ← List.map_append, take_range', List.range'_append_1,
          show use + min (left - use) (n - use) = min left n by omega]

/-- A word that describes no bits is gone through, perhaps with a call for no bits. -/
theorem items_none (hzero : c.bitCount = 0) {left : Nat} {list : List Piece}
    (h : Pieces (c.items c.regs (c.bitStart % 32) left) list) :
    (list.flatMap Piece.bits).length = 0 ∧ ∀ p ∈ list, p.Fits := by
  have hregs : c.regs = [] ∨ c.regs = [c.firstReg] ∧ (c.useBits c.firstReg (c.bitStart % 32)).toNat = 0 := by
    by_cases hstart : c.bitStart = 0
    · refine .inr ?_
      have hend : c.endBit = -1 := by
        unfold Cell.endBit
        omega
      have hfirst : c.firstReg = 0 := by
        unfold Cell.firstReg
        omega
      unfold Cell.regs Cell.useBits Cell.lastReg
      rw [hend, hfirst, hstart]
      decide
    · have hend : c.endBit = ((c.bitStart - 1 : Nat) : Int) := by
        unfold Cell.endBit
        omega
      have hlast : c.lastReg = (((c.bitStart - 1) / 32 : Nat) : Int) := by
        unfold Cell.lastReg
        rw [hend]
        rfl
      by_cases haligned : c.bitStart % 32 = 0
      · refine .inl ?_
        unfold Cell.regs
        rw [hlast, show ((((c.bitStart - 1) / 32 : Nat) : Int) - c.firstReg + 1).toNat = 0 by
          unfold Cell.firstReg
          omega]
        rfl
      · refine .inr ⟨?_, ?_⟩
        · unfold Cell.regs
          rw [hlast, show ((((c.bitStart - 1) / 32 : Nat) : Int) - c.firstReg + 1).toNat = 1 by
            unfold Cell.firstReg
            omega]
          rfl
        · have hbit : c.endBit.tmod 32 = (((c.bitStart - 1) % 32 : Nat) : Int) := by
            rw [hend]
            rfl
          unfold Cell.useBits
          rw [hlast, hbit, if_pos rfl, if_pos (by unfold Cell.firstReg; omega)]
          dsimp only
          omega
  rcases hregs with hregs | ⟨hregs, huse⟩
  · rw [hregs] at h
    rw [pieces_nil h]
    exact ⟨rfl, nofun⟩
  · rw [hregs] at h
    unfold Cell.items at h
    dsimp only at h
    rw [huse, Nat.zero_min] at h
    obtain ⟨p, rest, rfl, hp, hrest⟩ := pieces_cons h
    obtain ⟨block, -, heq⟩ := item_some hp
    obtain rfl := Item.piece.inj heq
    obtain rfl : rest = [] := by
      split at hrest <;> exact pieces_nil hrest
    refine ⟨rfl, fun p hp => ?_⟩
    rw [List.mem_singleton.mp hp]
    change c.bitStart % 32 + 0 ≤ 32
    omega

theorem cell_bits (hpos : 0 < c.bitCount) {left : Nat} (hleft : 0 < left) {list : List Piece}
    (h : Pieces (c.items c.regs (c.bitStart % 32) left) list) :
    ∃ block : Block, block.val = c.efuseBlock ∧
      list.flatMap Piece.bits = ((List.range' c.bitStart c.bitCount).map fun i => (block, i)).take left ∧
        ∀ p ∈ list, p.Fits := by
  refine cellItems_bits rfl hpos (Nat.le_refl _) (.inl rfl) ?_ hleft (m := (c.lastReg - c.firstReg + 1).toNat) h
  rw [lastReg_eq hpos]
  unfold Cell.firstReg
  omega

theorem cell_length {left : Nat} (hleft : 0 < left) {list : List Piece}
    (h : Pieces (c.items c.regs (c.bitStart % 32) left) list) :
    (list.flatMap Piece.bits).length = min left c.bitCount ∧ ∀ p ∈ list, p.Fits := by
  by_cases hzero : c.bitCount = 0
  · obtain ⟨hlength, hfits⟩ := items_none hzero h
    exact ⟨by omega, hfits⟩
  · obtain ⟨block, -, hbits, hfits⟩ := cell_bits (Nat.pos_of_ne_zero hzero) hleft h
    exact ⟨by rw [hbits, List.length_take, List.length_map, List.length_range'], hfits⟩

end count

/-! ## The walk is a run over what it meets -/

section process
variable {σ : Type} {func : FuncProc σ} {reqSize counter : Nat} {c : Cell} {s : σ}

theorem checked_some {numReg efuseBlock startBit use : Nat} (h : efuseBlock < 4 ∧ numReg < regsOf efuseBlock) :
    checked func numReg efuseBlock startBit use s counter =
      (some (func numReg ⟨efuseBlock, h.1⟩ startBit use s counter).1,
        (func numReg ⟨efuseBlock, h.1⟩ startBit use s counter).2) := dif_pos h

theorem checked_none {numReg efuseBlock startBit use : Nat} (h : ¬(efuseBlock < 4 ∧ numReg < regsOf efuseBlock)) :
    checked func numReg efuseBlock startBit use s counter = (none, s, counter) := dif_neg h

theorem limited_eq {numReg startBit : Nat} (hcounter : counter < reqSize) :
    c.limited reqSize numReg startBit counter = min (c.useBits numReg startBit).toNat (reqSize - counter) := by
  unfold Cell.limited
  dsimp only
  split <;> omega

theorem processCellRegs_eq (hfunc : Advances func) {regs : List Nat} {startBit : Nat} (hcounter : counter < reqSize)
    (hstart : startBit < 32) (hfirst : startBit = 0 ∨ ∀ numReg, regs.head? = some numReg → numReg = c.firstReg) :
    processCellRegs (checked func) reqSize c regs startBit s counter =
      runWalk func (c.items regs startBit (reqSize - counter)) s counter := by
  induction regs generalizing startBit counter s with
  | nil => rfl
  | cons numReg rest ih =>
    have hfit := limited_fits c hcounter hstart (hfirst.symm.imp_left fun h => h numReg rfl)
    unfold processCellRegs Cell.items
    dsimp only
    rw [limited_eq hcounter] at hfit ⊢
    obtain ⟨use, huse⟩ : ∃ use, use = min (c.useBits numReg startBit).toNat (reqSize - counter) := ⟨_, rfl⟩
    rw [← huse] at hfit ⊢
    by_cases hreg : c.efuseBlock < 4 ∧ numReg < regsOf c.efuseBlock
    · rw [checked_some hreg, item_of hreg]
      simp only [runWalk, ne_eq, Option.some.injEq]
      by_cases hok : (func numReg ⟨c.efuseBlock, hreg.1⟩ startBit use s counter).1 = .ok
      · have hcount := hfunc numReg ⟨c.efuseBlock, hreg.1⟩ startBit use s counter hfit hok
        rw [if_neg (not_not_intro hok), hcount]
        by_cases hdone : reqSize - counter ≤ use
        · rw [if_pos (.inr (by omega)), if_pos hdone, hok]
          exact Prod.ext rfl (Prod.ext rfl hcount)
        · have hgo : ¬reqSize ≤ counter + use := by omega
          rw [if_neg (by simp [hok, hgo]), if_neg hdone, show reqSize - counter - use = reqSize - (counter + use) by omega]
          exact ih (by omega) (by decide) (.inl rfl)
      · rw [if_pos hok, if_pos (.inl hok)]
    · rw [checked_none hreg, item_none hreg, if_pos (.inl (by simp))]
      rfl

/-- A walk calls the function for each register that it meets. -/
theorem processCells_eq (hfunc : Advances func) (cells : List Cell) (counter : Nat) (s : σ) :
    processCells (checked func) reqSize cells s counter = runWalk func (walk cells (reqSize - counter)) s counter := by
  induction cells generalizing counter s with
  | nil =>
    unfold processCells walk
    by_cases hdone : reqSize ≤ counter
    · rw [if_pos hdone, if_pos (by omega)]
      rfl
    · rw [if_neg hdone, if_neg (by omega)]
      rfl
  | cons c rest ih =>
    unfold processCells walk
    by_cases hdone : reqSize ≤ counter
    · rw [if_pos hdone, if_pos (by omega)]
      rfl
    · have hcounter := Nat.lt_of_not_le hdone
      rw [if_neg hdone, if_neg (show ¬reqSize - counter = 0 by omega)]
      cases hrange : c.inRange with
      | false => rfl
      | true =>
        simp only [Bool.not_true, Bool.false_eq_true, if_false]
        rw [processCellRegs_eq hfunc hcounter (Nat.mod_lt _ (by decide)) (.inr fun _ => regs_head), runWalk_append]
        dsimp only
        split
        · rfl
        · rename_i hok
          rw [Decidable.not_not] at hok
          -- the bits that the word describes are counted
          obtain ⟨list, hlist⟩ := runWalk_ok hok
          obtain ⟨hlength, hfits⟩ := cell_length (by omega) hlist
          have hrun := @runWalk_pieces σ func list s counter
          rw [hlist] at hok ⊢
          rw [hrun] at hok ⊢
          have hcount := runItems_counter hfunc hfits (Option.some.inj hok)
          dsimp only
          rw [ih, hcount, hlength]
          congr 2
          omega

end process

theorem pieces_append {pre post : List (Option Item)} {list : List Piece} :
    Pieces (pre ++ post) list ↔ ∃ first second, list = first ++ second ∧ Pieces pre first ∧ Pieces post second := by
  unfold Pieces
  rw [eq_comm, List.map_eq_append_iff]
  constructor
  · rintro ⟨first, second, rfl, rfl, rfl⟩
    exact ⟨first, second, rfl, rfl, rfl⟩
  · rintro ⟨first, second, rfl, rfl, rfl⟩
    exact ⟨first, second, rfl, rfl, rfl⟩

/-- The bits that are asked for are found, unless the walk is stopped. -/
theorem walk_length {cells : List Cell} {left : Nat} {list : List Piece} (h : Pieces (walk cells left) list) :
    (list.flatMap Piece.bits).length = left ∧ ∀ p ∈ list, p.Fits := by
  induction cells generalizing left list with
  | nil =>
    unfold walk at h
    split at h
    · rename_i hzero
      rw [pieces_nil h]
      exact ⟨hzero.symm, nofun⟩
    · obtain ⟨_, _, -, hnone, -⟩ := pieces_cons h
      cases hnone
  | cons c rest ih =>
    unfold walk at h
    split at h
    · rename_i hzero
      rw [pieces_nil h]
      exact ⟨hzero.symm, nofun⟩
    · rename_i hleft
      split at h
      · obtain ⟨_, _, -, hbad, -⟩ := pieces_cons h
        cases hbad
      · obtain ⟨first, second, rfl, hfirst, hsecond⟩ := pieces_append.mp h
        obtain ⟨hlength, hfits⟩ := cell_length (Nat.pos_of_ne_zero hleft) hfirst
        obtain ⟨hlength', hfits'⟩ := ih hsecond
        refine ⟨?_, List.forall_mem_append.mpr ⟨hfits, hfits'⟩⟩
        rw [List.flatMap_append, List.length_append, hlength, hlength']
        omega

end EspIdf.Efuse
