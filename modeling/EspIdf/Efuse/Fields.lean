import EspIdf.Efuse.Utility

/-!
# A walk over a field, bit by bit

* `Piece`, `items` : the registers a walk meets, in their order; `process_eq` : the walk is a run
  over them;
* `regPieces_bits`, `items_bits` : together they are the bits of the field;
* `blob_run` : what a blob stages, up to the first register that refuses it;
* `cnt_run` : a count stages the first bits that are not burned.
-/

namespace EspIdf.Efuse

/-! ## The registers of a field -/

/-- Consecutive bits of one register. -/
structure Piece where
  block : Block
  reg : Nat
  start : Nat
  count : Nat
deriving Repr, DecidableEq

def Piece.bits (p : Piece) : List Pos := (List.range' (32 * p.reg + p.start) p.count).map fun i => (p.block, i)

def Piece.Fits (p : Piece) : Prop := p.start + p.count ≤ 32

/-- The registers of a description, for at most `left` bits. -/
def regPieces (d : Desc) : List Nat → (startBit left : Nat) → List Piece
  | [], _, _ => []
  | numReg :: rest, startBit, left =>
    let use := min (d.useBits numReg startBit) left
    ⟨d.block, numReg, startBit, use⟩ :: if left ≤ use then [] else regPieces d rest 0 (left - use)

def Desc.pieces (d : Desc) (left : Nat) : List Piece :=
  regPieces d (List.range' d.firstReg (d.lastReg - d.firstReg + 1)) (d.bitStart % 32) left

/-- What a walk meets: a register, or a description out of the range of its block. -/
inductive Item
  | piece (p : Piece)
  | badRange
deriving Repr, DecidableEq

def items : List Desc → (left : Nat) → List Item
  | [], _ => []
  | d :: rest, left =>
    if left = 0 then []
    else if !d.inRange then [.badRange]
    else (d.pieces left).map Item.piece ++ items rest (left - d.bitCount)

section run
variable {σ : Type} (func : FuncProc σ)

def runItems : List Item → σ → Nat → Err × σ × Nat
  | [], s, counter => (.ok, s, counter)
  | .badRange :: _, s, counter => (.coding, s, counter)
  | .piece p :: rest, s, counter =>
    let r := func p.reg p.block p.start p.count s counter
    if r.1 ≠ .ok then r else runItems rest r.2.1 r.2.2

/-- A function that gets through a register counts its bits. -/
def Advances : Prop :=
  ∀ numReg blk bitStart bitCount s counter, bitStart + bitCount ≤ 32 →
    (func numReg blk bitStart bitCount s counter).1 = .ok →
      (func numReg blk bitStart bitCount s counter).2.2 = counter + bitCount

variable {func}

theorem runItems_append {pre : List Item} {post : List Item} {s s' : σ} {counter counter' : Nat}
    (h : runItems func pre s counter = (.ok, s', counter')) :
    runItems func (pre ++ post) s counter = runItems func post s' counter' := by
  induction pre generalizing s counter with
  | nil => cases h; rfl
  | cons item pre ih =>
    cases item with
    | badRange => cases h
    | piece p =>
      simp only [runItems, List.cons_append] at h ⊢
      split at h
      · rename_i hne
        rw [h] at hne
        exact absurd rfl hne
      · rename_i hok
        rw [if_neg hok]
        exact ih h

theorem runItems_stop {pre : List Item} (post : List Item) {s : σ} {counter : Nat}
    (h : (runItems func pre s counter).1 ≠ .ok) : runItems func (pre ++ post) s counter = runItems func pre s counter := by
  induction pre generalizing s counter with
  | nil => exact absurd rfl h
  | cons item pre ih =>
    cases item with
    | badRange => rfl
    | piece p =>
      simp only [runItems, List.cons_append] at h ⊢
      split
      · rfl
      · rename_i hok
        rw [if_neg hok] at h
        exact ih h

theorem runItems_counter (hfunc : Advances func) {list : List Piece} (hfits : ∀ p ∈ list, p.Fits) {s : σ} {counter : Nat}
    (h : (runItems func (list.map Item.piece) s counter).1 = .ok) :
    (runItems func (list.map Item.piece) s counter).2.2 = counter + (list.flatMap Piece.bits).length := by
  induction list generalizing s counter with
  | nil => rfl
  | cons p list ih =>
    simp only [runItems, List.map_cons] at h ⊢
    split at h
    · rename_i hne
      exact absurd h hne
    · rename_i hok
      rw [Decidable.not_not] at hok
      rw [if_neg (by rw [hok]; decide), ih (fun q hq => hfits q (List.mem_cons_of_mem _ hq)) h,
        hfunc _ _ _ _ _ _ (hfits p List.mem_cons_self) hok, List.flatMap_cons, List.length_append]
      simp [Piece.bits]
      omega

end run

/-! ## The bits a description covers -/

theorem take_range' (s n k : Nat) : (List.range' s n).take k = List.range' s (min k n) := by
  rcases Nat.le_total n k with h | h
  · rw [List.take_range'_of_length_le h, Nat.min_eq_right h]
  · rw [List.take_range'_of_length_ge h, Nat.min_eq_left h]

theorem useBits_eq {d : Desc} {st n : Nat} (hend : st + n = d.bitStart + d.bitCount) (hn : 0 < n)
    (haligned : st = d.bitStart ∨ st % 32 = 0) :
    d.useBits (st / 32) (st % 32) = min (32 - st % 32) n := by
  unfold Desc.useBits Desc.firstReg Desc.lastReg Desc.endBit
  dsimp only
  have hfirst : (if st / 32 = d.bitStart / 32 then st % 32 % 32 else 0) = st % 32 := by
    split
    · omega
    · rcases haligned with h | h <;> omega
  rw [hfirst]
  split <;> omega

/-- The registers of a description cover its bits in order, as many as are asked for. -/
theorem regPieces_bits {d : Desc} {m st n left : Nat} (hend : st + n = d.bitStart + d.bitCount) (hn : 0 < n)
    (hlow : d.bitStart ≤ st) (haligned : st = d.bitStart ∨ st % 32 = 0) (hm : st / 32 + m = d.lastReg + 1)
    (hleft : 0 < left) :
    (regPieces d (List.range' (st / 32) m) (st % 32) left).flatMap Piece.bits =
        ((List.range' st n).map fun i => (d.block, i)).take left ∧
      ∀ p ∈ regPieces d (List.range' (st / 32) m) (st % 32) left, p.Fits := by
  have hlast : d.lastReg = (st + n - 1) / 32 := by
    unfold Desc.lastReg Desc.endBit
    rw [hend]
  induction m generalizing st n left with
  | zero => omega
  | succ m ih =>
    obtain ⟨use, huse⟩ : ∃ use, use = min (min (32 - st % 32) n) left := ⟨_, rfl⟩
    have hbits : (⟨d.block, st / 32, st % 32, use⟩ : Piece).bits = (List.range' st use).map fun i => (d.block, i) := by
      unfold Piece.bits
      rw [show 32 * (st / 32) + st % 32 = st by omega]
    have hfit : (⟨d.block, st / 32, st % 32, use⟩ : Piece).Fits := by
      change st % 32 + use ≤ 32
      omega
    rw [List.range'_succ]
    unfold regPieces
    dsimp only
    rw [useBits_eq hend hn haligned, ← huse]
    split
    · rename_i hdone
      refine ⟨?_, ?_⟩
      · rw [List.flatMap_cons, List.flatMap_nil, List.append_nil, hbits, ← List.map_take, take_range',
          show min left n = use by omega]
      · intro p hp
        rw [List.mem_singleton] at hp
        subst hp
        exact hfit
    · rename_i hmore
      by_cases hwhole : use = n
      · -- the last register of the description
        have hm0 : m = 0 := by omega
        subst hm0
        refine ⟨?_, ?_⟩
        · rw [List.flatMap_cons, hbits, ← List.map_take, take_range', hwhole, Nat.min_eq_right (by omega)]
          simp [regPieces]
        · intro p hp
          rw [List.range'_zero] at hp
          simp only [regPieces, List.mem_singleton] at hp
          subst hp
          exact hfit
      · have hstep : use = 32 - st % 32 := by omega
        have hnext := @ih (st + use) (n - use) (left - use) (by omega) (by omega) (by omega)
          (by omega) (by omega) (by omega) (by rw [hlast]; congr 1; omega)
        rw [show (st + use) / 32 = st / 32 + 1 by omega, show (st + use) % 32 = 0 by omega] at hnext
        refine ⟨?_, ?_⟩
        · rw [List.flatMap_cons, hbits, hnext.1, ← List.map_take, ← List.map_take, ← List.map_append, take_range',
            take_range', show min left n = use + min (left - use) (n - use) by omega, List.range'_append_1]
        · intro p hp
          rcases List.mem_cons.mp hp with rfl | hp
          · exact hfit
          · exact hnext.2 p hp

theorem pieces_bits (d : Desc) {left : Nat} (hleft : 0 < left) :
    (d.pieces left).flatMap Piece.bits = d.bits.take left ∧ ∀ p ∈ d.pieces left, p.Fits := by
  have hpos := d.pos
  have hle : d.firstReg ≤ d.lastReg := by
    unfold Desc.firstReg Desc.lastReg Desc.endBit
    omega
  exact regPieces_bits rfl hpos (Nat.le_refl _) (.inl rfl) (by unfold Desc.firstReg at hle ⊢; omega) hleft

def Item.bits : Item → List Pos
  | .piece p => p.bits
  | .badRange => []

def Item.Fits : Item → Prop
  | .piece p => p.Fits
  | .badRange => True

/-- The bits a walk gets to, unless a function stops it before. -/
def reach (list : List Item) : List Pos := list.flatMap Item.bits

@[simp] theorem reach_nil : reach [] = [] := rfl

@[simp] theorem reach_cons (item : Item) (list : List Item) : reach (item :: list) = item.bits ++ reach list := rfl

@[simp] theorem reach_append (pre post : List Item) : reach (pre ++ post) = reach pre ++ reach post :=
  List.flatMap_append

@[simp] theorem reach_pieces (list : List Piece) : reach (list.map Item.piece) = list.flatMap Piece.bits := by
  unfold reach
  rw [List.flatMap_map]
  rfl

theorem Desc.length_bits (d : Desc) : d.bits.length = d.bitCount := by
  simp [Desc.bits]

theorem fieldSize_eq (descs : List Desc) : fieldSize descs = (descs.flatMap Desc.bits).length := by
  induction descs with
  | nil => rfl
  | cons d rest ih => rw [fieldSize, ih, List.flatMap_cons, List.length_append, d.length_bits]

theorem items_fit (descs : List Desc) (left : Nat) : ∀ item ∈ items descs left, item.Fits := by
  induction descs generalizing left with
  | nil => nofun
  | cons d rest ih =>
    unfold items
    split
    · nofun
    · rename_i hleft
      split
      · intro item hitem
        rw [List.mem_singleton] at hitem
        subst hitem
        trivial
      · intro item hitem
        rcases List.mem_append.mp hitem with hitem | hitem
        · obtain ⟨p, hp, rfl⟩ := List.mem_map.mp hitem
          exact (pieces_bits d (by omega)).2 p hp
        · exact ih _ item hitem

/-- The bits a walk gets to are the first of the field, all that are asked for unless a description is out of range. -/
theorem items_bits (descs : List Desc) (left : Nat) :
    reach (items descs left) <+: (descs.flatMap Desc.bits).take left ∧
      (.badRange ∉ items descs left → reach (items descs left) = (descs.flatMap Desc.bits).take left) := by
  induction descs generalizing left with
  | nil => simp [items]
  | cons d rest ih =>
    unfold items
    split
    · rename_i hleft
      subst hleft
      simp
    · rename_i hleft
      split
      · refine ⟨?_, fun h => absurd List.mem_cons_self h⟩
        exact List.nil_prefix
      · obtain ⟨hbits, -⟩ := pieces_bits d (Nat.pos_of_ne_zero hleft)
        have htake : ((d :: rest).flatMap Desc.bits).take left =
            d.bits.take left ++ (rest.flatMap Desc.bits).take (left - d.bitCount) := by
          rw [List.flatMap_cons, List.take_append, d.length_bits]
        rw [reach_append, reach_pieces, hbits, htake]
        obtain ⟨hpre, heq⟩ := ih (left - d.bitCount)
        refine ⟨(List.prefix_append_right_inj _).mpr hpre, fun h => ?_⟩
        rw [heq fun hbad => h (List.mem_append_right _ hbad)]

/-! ## The walk is a run over them -/

section process
variable {σ : Type} {func : FuncProc σ}

theorem processRegs_eq (hfunc : Advances func) {d : Desc} {reqSize : Nat} {regs : List Nat} {startBit counter : Nat} {s : σ}
    (hfits : ∀ p ∈ regPieces d regs startBit (reqSize - counter), p.Fits) :
    processRegs func reqSize d regs startBit s counter =
      runItems func ((regPieces d regs startBit (reqSize - counter)).map Item.piece) s counter := by
  induction regs generalizing startBit counter s with
  | nil => rfl
  | cons numReg rest ih =>
    unfold processRegs
    unfold regPieces at hfits ⊢
    dsimp only at hfits ⊢
    have huse : (if counter + d.useBits numReg startBit > reqSize then reqSize - counter else d.useBits numReg startBit) =
        min (d.useBits numReg startBit) (reqSize - counter) := by
      split <;> omega
    rw [huse]
    obtain ⟨use, huse'⟩ : ∃ use, use = min (d.useBits numReg startBit) (reqSize - counter) := ⟨_, rfl⟩
    rw [← huse'] at hfits ⊢
    rw [List.map_cons]
    simp only [runItems]
    by_cases hok : (func numReg d.block startBit use s counter).1 = .ok
    · have hcount : (func numReg d.block startBit use s counter).2.2 = counter + use :=
        hfunc _ _ _ _ _ _ (hfits _ List.mem_cons_self) hok
      rw [if_neg (by rw [hok]; decide : ¬(func numReg d.block startBit use s counter).1 ≠ .ok)]
      by_cases hdone : reqSize - counter ≤ use
      · rw [if_pos (.inr (by omega)), if_pos hdone]
        simp only [List.map_nil, runItems, ← hok]
      · rw [if_neg (by rw [hok, hcount]; rintro (h | h) <;> [exact h rfl; omega]), if_neg hdone]
        rw [if_neg hdone] at hfits
        have hsub : reqSize - counter - use = reqSize - (counter + use) := by omega
        rw [ih, hcount, hsub]
        intro p hp
        rw [hcount, ← hsub] at hp
        exact hfits p (List.mem_cons_of_mem _ hp)
    · rw [if_pos hok, if_pos (.inl hok)]

theorem processDescs_eq (hfunc : Advances func) {reqSize : Nat} {descs : List Desc} {counter : Nat} {s : σ} :
    processDescs func reqSize descs s counter = runItems func (items descs (reqSize - counter)) s counter := by
  induction descs generalizing counter s with
  | nil => rfl
  | cons d rest ih =>
    unfold processDescs items
    by_cases hdone : reqSize ≤ counter
    · rw [if_pos hdone, if_pos (by omega)]
      rfl
    · rw [if_neg hdone, if_neg (show ¬reqSize - counter = 0 by omega)]
      cases hrange : d.inRange with
      | false => rfl
      | true =>
        simp only [Bool.not_true, Bool.false_eq_true, if_false]
        obtain ⟨hbits, hfits⟩ := pieces_bits d (show 0 < reqSize - counter by omega)
        have hregs := processRegs_eq hfunc (s := s) hfits
        have hpieces : processRegs func reqSize d (List.range' d.firstReg (d.lastReg - d.firstReg + 1)) (d.bitStart % 32) s
            counter = runItems func ((d.pieces (reqSize - counter)).map Item.piece) s counter := hregs
        rw [hpieces]
        split
        · rename_i hne
          rw [runItems_stop _ hne]
        · rename_i hok
          rw [Decidable.not_not] at hok
          have hcount := runItems_counter hfunc hfits hok
          rw [hbits, List.length_take, d.length_bits] at hcount
          obtain ⟨r, hr⟩ : ∃ r, r = runItems func ((d.pieces (reqSize - counter)).map Item.piece) s counter := ⟨_, rfl⟩
          rw [← hr] at hok hcount ⊢
          have hpre : runItems func ((d.pieces (reqSize - counter)).map Item.piece) s counter = (.ok, r.2.1, r.2.2) := by
            rw [← hr, ← hok]
          rw [runItems_append hpre, ih, hcount]
          -- the bits still wanted after this description
          by_cases hlast : reqSize - counter ≤ d.bitCount
          · have hnone : reqSize - counter - d.bitCount = 0 := by omega
            rw [hnone, show reqSize - (counter + min (reqSize - counter) d.bitCount) = 0 by omega]
          · rw [show reqSize - (counter + min (reqSize - counter) d.bitCount) = reqSize - counter - d.bitCount by omega]

end process

/-- The number of bits a walk asks for. -/
def Field.wanted (field : Field) (sizeBits : Nat) : Nat :=
  if sizeBits = 0 then field.bits.length else min sizeBits field.bits.length

theorem process_eq {σ : Type} {func : FuncProc σ} (hfunc : Advances func) (field : Field) (s : σ) (sizeBits : Nat) :
    process field s sizeBits func = runItems func (items field.descs (field.wanted sizeBits)) s 0 := by
  unfold process Field.wanted Field.bits
  dsimp only
  rw [processDescs_eq hfunc, fieldSize_eq, Nat.sub_zero]

/-! ## What a blob asks for -/

/-- The position is the `i`-th of the list, and bit `k + i` of the blob is set. -/
def asks (blob : Blob) : Nat → List Pos → Pos → Bool
  | _, [], _ => false
  | k, p :: ps, pos => (decide (p = pos) && blobBit blob k) || asks blob (k + 1) ps pos

theorem asks_append (blob : Blob) (k : Nat) (xs ys : List Pos) (pos : Pos) :
    asks blob k (xs ++ ys) pos = (asks blob k xs pos || asks blob (k + xs.length) ys pos) := by
  induction xs generalizing k with
  | nil => simp [asks]
  | cons x xs ih =>
    rw [List.cons_append, asks, asks, ih, Bool.or_assoc, List.length_cons, show k + (xs.length + 1) = k + 1 + xs.length by omega]

theorem asks_iff {blob : Blob} {k : Nat} {ps : List Pos} {pos : Pos} :
    asks blob k ps pos = true ↔ ∃ i, ∃ h : i < ps.length, ps[i] = pos ∧ blobBit blob (k + i) = true := by
  induction ps generalizing k with
  | nil => simp [asks]
  | cons p ps ih =>
    rw [asks, Bool.or_eq_true, Bool.and_eq_true, decide_eq_true_eq, ih]
    constructor
    · rintro (⟨rfl, hbit⟩ | ⟨i, hi, hpos, hbit⟩)
      · exact ⟨0, Nat.zero_lt_succ _, rfl, hbit⟩
      · refine ⟨i + 1, Nat.succ_lt_succ hi, hpos, ?_⟩
        rw [show k + (i + 1) = k + 1 + i by omega]
        exact hbit
    · rintro ⟨i, hi, hpos, hbit⟩
      cases i with
      | zero => exact .inl ⟨hpos, hbit⟩
      | succ i =>
        refine .inr ⟨i, Nat.lt_of_succ_lt_succ hi, hpos, ?_⟩
        rw [show k + 1 + i = k + (i + 1) by omega]
        exact hbit

theorem asks_range (blob : Blob) (k : Nat) (b : Block) (s n : Nat) (pos : Pos) :
    asks blob k ((List.range' s n).map fun i => (b, i)) pos =
      (decide (pos.1 = b ∧ s ≤ pos.2 ∧ pos.2 < s + n) && blobBit blob (k + (pos.2 - s))) := by
  rw [Bool.eq_iff_iff, asks_iff, Bool.and_eq_true, decide_eq_true_eq]
  constructor
  · rintro ⟨i, hi, hpos, hbit⟩
    rw [List.length_map, List.length_range'] at hi
    rw [List.getElem_map, List.getElem_range', Nat.one_mul] at hpos
    subst hpos
    refine ⟨⟨rfl, Nat.le_add_right _ _, by dsimp only; omega⟩, ?_⟩
    rw [show (b, s + i).2 - s = i by dsimp only; omega]
    exact hbit
  · rintro ⟨⟨hb, hlow, hhigh⟩, hbit⟩
    refine ⟨pos.2 - s, by simp; omega, ?_, hbit⟩
    rw [List.getElem_map, List.getElem_range', Nat.one_mul, show s + (pos.2 - s) = pos.2 by omega, ← hb]

/-! ## Words and bits -/

theorem bitAt_writeReg (staged : Blocks) (blk : Block) (numReg : Nat) (value : Reg) (pos : Pos) :
    bitAt (writeReg staged blk numReg value) pos =
      (bitAt staged pos || (decide (pos.1 = blk ∧ pos.2 / 32 = numReg) && value.getLsbD (pos.2 % 32))) := by
  unfold bitAt writeReg
  split
  · rename_i h
    rw [BitVec.getLsbD_or, decide_eq_true h, Bool.true_and]
  · rename_i h
    rw [decide_eq_false h, Bool.false_and, Bool.or_false]

theorem and_ne_zero_iff (x y : Reg) : x &&& y ≠ 0 ↔ ∃ j, j < 32 ∧ x.getLsbD j = true ∧ y.getLsbD j = true := by
  constructor
  · intro hne
    by_cases h : ∃ j, j < 32 ∧ x.getLsbD j = true ∧ y.getLsbD j = true
    · exact h
    · refine absurd (BitVec.eq_of_getLsbD_eq fun j hj => ?_) hne
      rw [BitVec.getLsbD_and, show (0 : Reg).getLsbD j = false from BitVec.getLsbD_zero]
      cases hx : x.getLsbD j with
      | false => rfl
      | true =>
        cases hy : y.getLsbD j with
        | false => rfl
        | true => exact absurd ⟨j, hj, hx, hy⟩ h
  · rintro ⟨j, -, hx, hy⟩ hzero
    have hbit := congrArg (fun r => BitVec.getLsbD r j) hzero
    simp [hx, hy] at hbit

/-! ## A blob -/

theorem writeBlob_advances (burned : Blocks) (blob : Blob) : Advances (writeBlob burned blob) := by
  intro numReg blk bitStart bitCount s counter hfit _
  exact (fillReg_holds blob hfit counter).2

/-- The register of the piece, or the range of the description, refuses the blob from bit `k` on. -/
def Refused (burned : Blocks) (blob : Blob) (k : Nat) : Item → Prop
  | .badRange => True
  | .piece p => ∃ pos, asks blob k p.bits pos = true ∧ bitAt burned pos = true

theorem fillReg_bit {blob : Blob} {p : Piece} (hfit : p.Fits) (k : Nat) (pos : Pos) :
    (decide (pos.1 = p.block ∧ pos.2 / 32 = p.reg) && (fillReg p.start p.count blob k).1.getLsbD (pos.2 % 32)) =
      asks blob k p.bits pos := by
  unfold Piece.Fits at hfit
  unfold Piece.bits
  rw [asks_range, (fillReg_holds blob hfit k).1 _ (Nat.mod_lt _ (by decide)), ← Bool.and_assoc, ← Bool.decide_and]
  by_cases h : pos.1 = p.block ∧ 32 * p.reg + p.start ≤ pos.2 ∧ pos.2 < 32 * p.reg + p.start + p.count
  · obtain ⟨hb, hlow, hhigh⟩ := h
    have hreg : pos.2 / 32 = p.reg := by omega
    rw [decide_eq_true ⟨⟨hb, hreg⟩, by omega, by omega⟩, decide_eq_true ⟨hb, hlow, hhigh⟩,
      show pos.2 % 32 - p.start = pos.2 - (32 * p.reg + p.start) by omega]
  · have hword : ¬((pos.1 = p.block ∧ pos.2 / 32 = p.reg) ∧ p.start ≤ pos.2 % 32 ∧ pos.2 % 32 < p.start + p.count) := by
      rintro ⟨⟨hb, hreg⟩, hlow, hhigh⟩
      exact h ⟨hb, by omega, by omega⟩
    rw [decide_eq_false h, decide_eq_false hword, Bool.false_and, Bool.false_and]

theorem refused_iff {burned : Blocks} {blob : Blob} {k : Nat} {p : Piece} (hfit : p.Fits) :
    burned p.block p.reg &&& (fillReg p.start p.count blob k).1 ≠ 0 ↔ Refused burned blob k (.piece p) := by
  rw [and_ne_zero_iff]
  constructor
  · rintro ⟨j, hj, hburned, hword⟩
    refine ⟨(p.block, 32 * p.reg + j), ?_, ?_⟩
    · rw [← fillReg_bit hfit]
      dsimp only
      rw [show (32 * p.reg + j) / 32 = p.reg by omega, show (32 * p.reg + j) % 32 = j by omega, hword]
      simp
    · unfold bitAt
      dsimp only
      rw [show (32 * p.reg + j) / 32 = p.reg by omega, show (32 * p.reg + j) % 32 = j by omega, hburned]
  · rintro ⟨pos, hasks, hburned⟩
    rw [← fillReg_bit hfit, Bool.and_eq_true, decide_eq_true_eq] at hasks
    obtain ⟨⟨hb, hreg⟩, hword⟩ := hasks
    unfold bitAt at hburned
    rw [hb, hreg] at hburned
    exact ⟨pos.2 % 32, Nat.mod_lt _ (by decide), hburned, hword⟩

/-- What a blob has staged once its walk is over: all it asks for, or what it asks for before the first item that
refuses it. -/
theorem blob_run {burned : Blocks} {blob : Blob} {list : List Item} (hfits : ∀ item ∈ list, item.Fits) (staged : Blocks)
    (k : Nat) :
    ((runItems (writeBlob burned blob) list staged k).1 = .ok ∧ .badRange ∉ list ∧
        (∀ pos, asks blob k (reach list) pos = true → bitAt burned pos = false) ∧
        ∀ pos, bitAt (runItems (writeBlob burned blob) list staged k).2.1 pos =
          (bitAt staged pos || asks blob k (reach list) pos)) ∨
    ∃ pre bad post, list = pre ++ bad :: post ∧ (runItems (writeBlob burned blob) list staged k).1 ≠ .ok ∧
      .badRange ∉ pre ∧ (∀ pos, asks blob k (reach pre) pos = true → bitAt burned pos = false) ∧
      Refused burned blob (k + (reach pre).length) bad ∧
      ∀ pos, bitAt (runItems (writeBlob burned blob) list staged k).2.1 pos =
        (bitAt staged pos || asks blob k (reach pre) pos) := by
  induction list generalizing staged k with
  | nil => exact .inl ⟨rfl, nofun, nofun, fun pos => by simp [runItems, asks]⟩
  | cons item list ih =>
    cases item with
    | badRange =>
      refine .inr ⟨[], .badRange, list, rfl, nofun, nofun, nofun, trivial, fun pos => ?_⟩
      simp [runItems, asks]
    | piece p =>
      have hfit : p.Fits := hfits _ List.mem_cons_self
      have hfits' : ∀ item ∈ list, item.Fits := fun item h => hfits item (List.mem_cons_of_mem _ h)
      have hword := @refused_iff burned blob k p hfit
      by_cases href : Refused burned blob k (.piece p)
      · -- the register already has one of the bits
        have hr : writeBlob burned blob p.reg p.block p.start p.count staged k =
            (.repeatedProg, staged, (fillReg p.start p.count blob k).2) := by
          unfold writeBlob utilityWriteReg
          dsimp only
          rw [if_pos (hword.mpr href)]
        simp only [runItems, hr]
        exact .inr ⟨[], .piece p, list, rfl, nofun, nofun, nofun, href, fun pos => by simp [asks]⟩
      · have hr : writeBlob burned blob p.reg p.block p.start p.count staged k =
            (.ok, writeReg staged p.block p.reg (fillReg p.start p.count blob k).1, k + p.bits.length) := by
          have hc := (fillReg_holds blob hfit k).2
          unfold writeBlob utilityWriteReg
          dsimp only
          rw [if_neg (fun h => href (hword.mp h)), hc]
          simp [Piece.bits]
        have hbits : ∀ pos, bitAt (writeReg staged p.block p.reg (fillReg p.start p.count blob k).1) pos =
            (bitAt staged pos || asks blob k p.bits pos) := by
          intro pos
          rw [bitAt_writeReg, fillReg_bit hfit]
        have hfree : ∀ pos, asks blob k p.bits pos = true → bitAt burned pos = false := by
          intro pos hasks
          cases hburned : bitAt burned pos with
          | false => rfl
          | true => exact absurd ⟨pos, hasks, hburned⟩ href
        have hrun : runItems (writeBlob burned blob) (.piece p :: list) staged k =
            runItems (writeBlob burned blob) list (writeReg staged p.block p.reg (fillReg p.start p.count blob k).1)
              (k + p.bits.length) := by
          simp only [runItems, hr]
          rfl
        rw [hrun]
        rcases ih hfits' (writeReg staged p.block p.reg (fillReg p.start p.count blob k).1) (k + p.bits.length) with
          ⟨hok, hrange, hclear, hstaged⟩ | ⟨pre, bad, post, rfl, herr, hrange, hclear, hbad, hstaged⟩
        · refine .inl ⟨hok, ?_, ?_, ?_⟩
          · exact fun h => hrange (by simpa using h)
          · intro pos hasks
            rw [reach_cons, asks_append, Bool.or_eq_true] at hasks
            exact hasks.elim (hfree pos) (hclear pos)
          · intro pos
            rw [hstaged, hbits, reach_cons, asks_append, Bool.or_assoc]
            rfl
        · refine .inr ⟨.piece p :: pre, bad, post, rfl, herr, ?_, ?_, ?_, ?_⟩
          · exact fun h => hrange (by simpa using h)
          · intro pos hasks
            rw [reach_cons, asks_append, Bool.or_eq_true] at hasks
            exact hasks.elim (hfree pos) (hclear pos)
          · rw [reach_cons, List.length_append, ← Nat.add_assoc]
            exact hbad
          · intro pos
            rw [hstaged, hbits, reach_cons, asks_append, Bool.or_assoc]
            rfl

/-! ## A count -/

/-- The free bits of a list, in its order. -/
def free (burned : Blocks) (list : List Pos) : List Pos := list.filter fun pos => !bitAt burned pos

@[simp] theorem free_nil (burned : Blocks) : free burned [] = [] := rfl

@[simp] theorem free_append (burned : Blocks) (xs ys : List Pos) :
    free burned (xs ++ ys) = free burned xs ++ free burned ys :=
  List.filter_append ..

theorem mem_free {burned : Blocks} {list : List Pos} {pos : Pos} :
    pos ∈ free burned list ↔ pos ∈ list ∧ bitAt burned pos = false := by
  unfold free
  rw [List.mem_filter]
  simp

/-- `set_cnt_in_reg` sets the first free bits. -/
theorem setCntInReg_bits {reg : Reg} {i n cnt : Nat} (hcnt : 0 < cnt) (hfit : i + n ≤ 32) :
    (∀ j, (setCntInReg reg i n cnt).1.getLsbD j =
        decide (j ∈ ((List.range' i n).filter fun j => !reg.getLsbD j).take cnt)) ∧
      (setCntInReg reg i n cnt).2 = cnt - ((List.range' i n).filter fun j => !reg.getLsbD j).length := by
  induction n generalizing i cnt with
  | zero => simp [setCntInReg]
  | succ n ih =>
    rw [List.range'_succ]
    unfold setCntInReg
    cases hbit : reg.getLsbD i with
    | true =>
      rw [if_neg (by decide), List.filter_cons_of_neg (by simp [hbit])]
      exact ih hcnt (by omega)
    | false =>
      rw [if_pos rfl, List.filter_cons_of_pos (by simp [hbit]), List.length_cons]
      obtain ⟨c, rfl⟩ : ∃ c, cnt = c + 1 := ⟨cnt - 1, by omega⟩
      rw [List.take_succ_cons, Nat.add_sub_cancel, Nat.add_sub_add_right]
      split
      · rename_i hlast
        subst hlast
        refine ⟨fun j => ?_, by simp⟩
        rw [getLsbD_one_shiftLeft (by omega)]
        simp
      · rename_i hmore
        obtain ⟨hword, hleft⟩ := @ih (i + 1) c (by omega) (by omega)
        refine ⟨fun j => ?_, hleft⟩
        dsimp only
        rw [BitVec.getLsbD_or, getLsbD_one_shiftLeft (by omega), hword]
        simp

section cnt
variable {burned : Blocks}

theorem writeCnt_advances : Advances (writeCnt burned) := by
  intro numReg blk bitStart bitCount s counter _ _
  rfl

/-- The free bits of a piece, as bits of its register. -/
theorem free_piece {p : Piece} (hfit : p.Fits) :
    free burned p.bits = ((List.range' p.start p.count).filter fun j =>
      !(burned p.block p.reg &&& getMask p.count p.start).getLsbD j).map fun j => (p.block, 32 * p.reg + j) := by
  unfold Piece.Fits at hfit
  have hrange : p.bits = (List.range' p.start p.count).map fun j => (p.block, 32 * p.reg + j) := by
    unfold Piece.bits
    rw [← List.map_add_range', List.map_map]
    rfl
  unfold free
  rw [hrange, List.filter_map]
  congr 1
  refine List.filter_congr fun j hj => ?_
  rw [List.mem_range'_1] at hj
  have hmask : (getMask p.count p.start).getLsbD j = true := by
    rw [getLsbD_getMask (by omega) (by omega)]
    exact decide_eq_true ⟨hj.1, by omega⟩
  have hbit : bitAt burned (p.block, 32 * p.reg + j) = (burned p.block p.reg).getLsbD j := by
    unfold bitAt
    dsimp only
    rw [show (32 * p.reg + j) / 32 = p.reg by omega, show (32 * p.reg + j) % 32 = j by omega]
  rw [Function.comp_apply, hbit, BitVec.getLsbD_and, hmask, Bool.and_true]

/-- One register of a count: it stages the first free bits of the piece. -/
theorem writeCnt_piece {p : Piece} (hfit : p.Fits) (staged : Blocks) {n : Nat} (hn : 0 < n) (k : Nat) :
    (∀ pos, bitAt (writeCnt burned p.reg p.block p.start p.count (staged, n) k).2.1.1 pos =
        (bitAt staged pos || decide (pos ∈ (free burned p.bits).take n))) ∧
      (writeCnt burned p.reg p.block p.start p.count (staged, n) k).2.1.2 = n - (free burned p.bits).length := by
  obtain ⟨masked, hmasked⟩ : ∃ r, r = burned p.block p.reg &&& getMask p.count p.start := ⟨_, rfl⟩
  have hfree := @free_piece burned p hfit
  rw [← hmasked] at hfree
  unfold writeCnt
  dsimp only
  rw [← hmasked]
  have hfit' : p.start + p.count ≤ 32 := hfit
  obtain ⟨hword, hleft⟩ := @setCntInReg_bits masked _ _ _ hn hfit'
  split
  · refine ⟨fun pos => ?_, ?_⟩
    · rw [bitAt_writeReg, hword, hfree, ← List.map_take]
      congr 1
      rw [← Bool.decide_and]
      refine decide_eq_decide.mpr ?_
      rw [List.mem_map]
      constructor
      · rintro ⟨⟨hb, hreg⟩, hmem⟩
        refine ⟨pos.2 % 32, hmem, ?_⟩
        rw [← hb, ← hreg, show 32 * (pos.2 / 32) + pos.2 % 32 = pos.2 by omega]
      · rintro ⟨j, hmem, rfl⟩
        have hj := List.mem_range'_1.mp (List.mem_filter.mp (List.mem_of_mem_take hmem)).1
        dsimp only
        rw [show (32 * p.reg + j) / 32 = p.reg by omega, show (32 * p.reg + j) % 32 = j by omega]
        exact ⟨⟨rfl, rfl⟩, hmem⟩
    · rw [hleft, hfree, List.length_map]
  · -- every bit of the piece is burned
    rename_i hfull
    have hnone : free burned p.bits = [] := by
      rw [hfree, List.map_eq_nil_iff, List.filter_eq_nil_iff]
      intro j hj
      rw [List.mem_range'_1] at hj
      have hbit := congrArg (fun r => BitVec.getLsbD r j) (Decidable.not_not.mp hfull)
      simp only [BitVec.getLsbD_xor, show (0 : Reg).getLsbD j = false from BitVec.getLsbD_zero] at hbit
      rw [getLsbD_getMask (by omega) (by omega), decide_eq_true ⟨hj.1, by omega⟩] at hbit
      simpa using hbit
    refine ⟨fun pos => ?_, ?_⟩
    · simp [hnone]
    · simp [hnone]

theorem cnt_pieces {list : List Piece} (hfits : ∀ p ∈ list, p.Fits) (staged : Blocks) {n : Nat} (hn : 0 < n) (k : Nat) :
    (∀ pos, bitAt (runItems (writeCnt burned) (list.map Item.piece) (staged, n) k).2.1.1 pos =
        (bitAt staged pos || decide (pos ∈ (free burned (list.flatMap Piece.bits)).take n))) ∧
      (runItems (writeCnt burned) (list.map Item.piece) (staged, n) k).2.1.2 =
        n - (free burned (list.flatMap Piece.bits)).length ∧
      (runItems (writeCnt burned) (list.map Item.piece) (staged, n) k).1 =
        if n ≤ (free burned (list.flatMap Piece.bits)).length then .okCnt else .ok := by
  induction list generalizing staged n k with
  | nil =>
    refine ⟨fun pos => by simp [runItems], by simp [runItems], ?_⟩
    rw [List.flatMap_nil, free_nil, List.length_nil, if_neg (by omega)]
    rfl
  | cons p list ih =>
    have hfit := hfits p List.mem_cons_self
    obtain ⟨hbits, hleft⟩ := @writeCnt_piece burned _ hfit staged _ hn k
    rw [List.flatMap_cons, free_append, List.length_append]
    simp only [runItems, List.map_cons]
    obtain ⟨r, hr⟩ : ∃ r, r = writeCnt burned p.reg p.block p.start p.count (staged, n) k := ⟨_, rfl⟩
    have hcode : r.1 = if r.2.1.2 = 0 then .okCnt else .ok := by
      rw [hr]
      rfl
    rw [← hr] at hbits hleft ⊢
    by_cases hdone : n ≤ (free burned p.bits).length
    · have hzero : r.2.1.2 = 0 := by omega
      rw [if_pos hzero] at hcode
      rw [if_pos (by rw [hcode]; decide), hcode, if_pos (show n ≤ _ by omega)]
      refine ⟨fun pos => ?_, by omega, rfl⟩
      rw [hbits, List.take_append_of_le_length hdone]
    · have hmore : r.2.1.2 ≠ 0 := by omega
      rw [if_neg hmore] at hcode
      rw [if_neg (by rw [hcode]; decide)]
      obtain ⟨ihbits, ihleft, ihcode⟩ := ih (fun q hq => hfits q (List.mem_cons_of_mem _ hq)) r.2.1.1
        (Nat.pos_of_ne_zero hmore) r.2.2
      rw [show (r.2.1.1, r.2.1.2) = r.2.1 from rfl] at ihbits ihleft ihcode
      refine ⟨fun pos => ?_, by omega, ?_⟩
      · rw [ihbits, hbits, hleft, List.take_append, List.take_of_length_le (l := free burned p.bits) (by omega), Bool.or_assoc]
        congr 1
        rw [← Bool.decide_or]
        exact decide_eq_decide.mpr List.mem_append.symm
      · rw [ihcode, hleft]
        by_cases hlast : n - (free burned p.bits).length ≤ (free burned (list.flatMap Piece.bits)).length
        · rw [if_pos hlast, if_pos (by omega)]
        · rw [if_neg hlast, if_neg (by omega)]

/-- Only the last item of a walk can be out of range. -/
theorem items_split (descs : List Desc) (left : Nat) :
    ∃ (list : List Piece) (tail : List Item), items descs left = list.map Item.piece ++ tail ∧ (tail = [] ∨ tail = [.badRange]) ∧
      ∀ p ∈ list, p.Fits := by
  induction descs generalizing left with
  | nil => exact ⟨[], [], rfl, .inl rfl, nofun⟩
  | cons d rest ih =>
    unfold items
    split
    · exact ⟨[], [], rfl, .inl rfl, nofun⟩
    · rename_i hleft
      split
      · exact ⟨[], [.badRange], rfl, .inr rfl, nofun⟩
      · obtain ⟨list, tail, heq, htail, hfits⟩ := ih (left - d.bitCount)
        refine ⟨d.pieces left ++ list, tail, ?_, htail, ?_⟩
        · rw [heq, List.map_append, List.append_assoc]
        · intro p hp
          rcases List.mem_append.mp hp with hp | hp
          · exact (pieces_bits d (by omega)).2 p hp
          · exact hfits p hp

/-- A count stages the first free bits of the walk, whether they are enough or not. -/
theorem cnt_run (descs : List Desc) (left : Nat) (staged : Blocks) {n : Nat} (hn : 0 < n) (k : Nat) :
    (∀ pos, bitAt (runItems (writeCnt burned) (items descs left) (staged, n) k).2.1.1 pos =
        (bitAt staged pos || decide (pos ∈ (free burned (reach (items descs left))).take n))) ∧
      (runItems (writeCnt burned) (items descs left) (staged, n) k).2.1.2 =
        n - (free burned (reach (items descs left))).length ∧
      (n ≤ (free burned (reach (items descs left))).length →
        (runItems (writeCnt burned) (items descs left) (staged, n) k).1 = .okCnt) := by
  obtain ⟨list, tail, heq, htail, hfits⟩ := items_split descs left
  obtain ⟨hbits, hleft, hcode⟩ := @cnt_pieces burned _ hfits staged _ hn k
  have hreach : reach (items descs left) = list.flatMap Piece.bits := by
    rw [heq, reach_append, reach_pieces]
    rcases htail with rfl | rfl <;> simp [Item.bits]
  rw [hreach]
  obtain ⟨r, hr⟩ : ∃ r, r = runItems (writeCnt burned) (list.map Item.piece) (staged, n) k := ⟨_, rfl⟩
  rw [← hr] at hbits hleft hcode
  by_cases hfull : n ≤ (free burned (list.flatMap Piece.bits)).length
  · rw [if_pos hfull] at hcode
    rw [heq, runItems_stop tail (by rw [← hr, hcode]; decide), ← hr]
    exact ⟨hbits, hleft, fun _ => hcode⟩
  · rw [if_neg hfull] at hcode
    have hpre : runItems (writeCnt burned) (list.map Item.piece) (staged, n) k = (.ok, r.2.1, r.2.2) := by
      rw [← hr, ← hcode]
    rw [heq, runItems_append hpre]
    have htail' : (runItems (writeCnt burned) tail r.2.1 r.2.2).2.1 = r.2.1 := by
      rcases htail with rfl | rfl <;> rfl
    rw [htail']
    exact ⟨hbits, hleft, fun h => absurd h hfull⟩

end cnt

end EspIdf.Efuse
