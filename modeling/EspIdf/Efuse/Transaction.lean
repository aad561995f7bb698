import EspIdf.Efuse.Batch
import Mathlib.Data.List.Perm.Subperm

/-!
# Whether a batch of eFuse writes is a transaction

* `fillBlob_cases`, `fillCnt_spec`, `writeFieldBit_spec` : what each write does to the staged registers;
* `contract_iff` : a call keeps to its contract when it is clean;
* `transactional_iff` : so does a run;
* `second_count_lost` : two counts on one field.
-/

namespace EspIdf.Efuse

@[simp] theorem bitAt_union (x y : Blocks) (pos : Pos) : bitAt (union x y) pos = (bitAt x pos || bitAt y pos) :=
  BitVec.getLsbD_or

@[simp] theorem bitAt_noBits (pos : Pos) : bitAt noBits pos = false :=
  BitVec.getLsbD_zero

theorem blocks_ext {x y : Blocks} (h : ∀ pos, bitAt x pos = bitAt y pos) : x = y := by
  funext b r
  refine BitVec.eq_of_getLsbD_eq fun j hj => ?_
  have hbit := h (b, 32 * r + j)
  unfold bitAt at hbit
  dsimp only at hbit
  rw [show (32 * r + j) / 32 = r by omega, show (32 * r + j) % 32 = j by omega] at hbit
  exact hbit

theorem union_noBits (x : Blocks) : union x noBits = x := by
  refine blocks_ext fun pos => ?_
  simp

theorem gains_union {burned staged staged' : Blocks} {f : Pos → Bool}
    (h : ∀ pos, bitAt staged' pos = (bitAt staged pos || f pos)) : Gains (union burned staged) (union burned staged') f := by
  intro pos
  rw [bitAt_union, bitAt_union, h, Bool.or_assoc]

/-! ## A blob -/

theorem take_wanted {field : Field} {sizeBits : Nat} (h : sizeBits ≠ 0) :
    field.bits.take (field.wanted sizeBits) = field.bits.take sizeBits := by
  unfold Field.wanted
  rw [if_neg h]
  exact List.take_eq_take_min.symm

/-- The first item that refuses a blob is the only one that is first. -/
theorem refused_unique {burned : Blocks} {blob : Blob} {pre pre' post post' : List Item} {bad bad' : Item}
    (heq : pre ++ bad :: post = pre' ++ bad' :: post') (haccepts : Accepts burned blob pre)
    (hbad : Refused burned blob (reach pre).length bad) (haccepts' : Accepts burned blob pre')
    (hbad' : Refused burned blob (reach pre').length bad') : pre = pre' := by
  have habsurd : ∀ {p q : List Item} {b : Item}, (∃ t, p = q ++ b :: t) → Refused burned blob (reach q).length b →
      Accepts burned blob p → False := by
    rintro p q b ⟨t, rfl⟩ href ⟨hrange, hclear⟩
    cases b with
    | badRange => exact hrange (by simp)
    | piece p =>
      obtain ⟨pos, hasks, hburned⟩ := href
      have h := hclear pos (by
        rw [reach_append, asks_append, Nat.zero_add, reach_cons, asks_append, Item.bits, hasks]
        simp)
      rw [hburned] at h
      cases h
  rcases List.append_eq_append_iff.mp heq with ⟨t, rfl, ht⟩ | ⟨t, rfl, ht⟩
  · cases t with
    | nil => exact (List.append_nil _).symm
    | cons c t =>
      cases ht
      exact (habsurd ⟨t, rfl⟩ hbad haccepts').elim
  · cases t with
    | nil => exact List.append_nil _
    | cons c t =>
      cases ht
      exact (habsurd ⟨t, rfl⟩ hbad' haccepts).elim

/-- A blob is staged whole, or up to the first item that refuses it. -/
theorem fillBlob_cases (burned staged : Blocks) (field : Field) (src : Blob) {sizeBits : Nat} (hsize : sizeBits ≠ 0) :
    ((fillBlob burned field src sizeBits staged).1 = .ok ∧ Accepts burned src (items field.descs (field.wanted sizeBits)) ∧
        ∀ pos, bitAt (fillBlob burned field src sizeBits staged).2 pos =
          (bitAt staged pos || asks src 0 (field.bits.take sizeBits) pos)) ∨
    ∃ pre bad post, items field.descs (field.wanted sizeBits) = pre ++ bad :: post ∧
      (fillBlob burned field src sizeBits staged).1 ≠ .ok ∧ Accepts burned src pre ∧
      Refused burned src (reach pre).length bad ∧
      ∀ pos, bitAt (fillBlob burned field src sizeBits staged).2 pos = (bitAt staged pos || asks src 0 (reach pre) pos) := by
  unfold fillBlob
  dsimp only
  rw [process_eq (writeBlob_advances burned src)]
  rcases @blob_run burned src _ (items_fit field.descs (field.wanted sizeBits)) staged 0 with
    ⟨hok, hrange, hclear, hbits⟩ | ⟨pre, bad, post, heq, herr, hrange, hclear, hbad, hbits⟩
  · refine .inl ⟨hok, ⟨hrange, hclear⟩, fun pos => ?_⟩
    rw [hbits, (items_bits field.descs _).2 hrange, ← take_wanted hsize]
    rfl
  · rw [Nat.zero_add] at hbad
    exact .inr ⟨pre, bad, post, heq, herr, ⟨hrange, hclear⟩, hbad, hbits⟩

/-! ## A count -/

theorem reach_subset (field : Field) : ∀ pos ∈ reach (items field.descs (field.wanted 0)), pos ∈ field.bits := by
  intro pos hpos
  have hsub := (items_bits field.descs (field.wanted 0)).1.subset hpos
  exact List.mem_of_mem_take hsub

theorem free_nodup (burned : Blocks) (field : Field) : (free burned (reach (items field.descs (field.wanted 0)))).Nodup := by
  have hwalk := (items_bits field.descs (field.wanted 0)).1.sublist.trans (List.take_sublist _ _)
  exact List.Pairwise.sublist (List.filter_sublist.trans hwalk) field.nodup

/-- A count stages the first bits of the field that are not burned, and fails when there are not enough. -/
theorem fillCnt_spec (burned staged : Blocks) (field : Field) {cnt : Nat} (hcnt : cnt ≠ 0) :
    (∀ pos, bitAt (fillCnt burned field cnt staged).2 pos = (bitAt staged pos ||
        decide (pos ∈ (free burned (reach (items field.descs (field.wanted 0)))).take cnt))) ∧
      ((fillCnt burned field cnt staged).1 = .ok ↔
        cnt ≤ (free burned (reach (items field.descs (field.wanted 0)))).length) := by
  obtain ⟨hbits, hleft, hcode⟩ := @cnt_run burned field.descs (field.wanted 0) staged _ (Nat.pos_of_ne_zero hcnt) 0
  unfold fillCnt
  dsimp only
  rw [process_eq writeCnt_advances]
  refine ⟨hbits, ?_⟩
  rw [hleft]
  by_cases henough : cnt ≤ (free burned (reach (items field.descs (field.wanted 0)))).length
  · rw [if_neg (show ¬cnt - _ ≠ 0 by omega), hcode henough, if_pos rfl]
    exact ⟨fun _ => henough, fun _ => rfl⟩
  · rw [if_pos (show cnt - _ ≠ 0 by omega)]
    exact ⟨nofun, fun h => absurd h henough⟩

/-! ## A bit -/

theorem fillBuffBytes_counter {aligned : Reg} {fuel bitCount counter sumShift shiftBit : Nat} {blob : Blob}
    (hfuel : bitCount ≤ fuel) :
    (fillBuffBytes aligned fuel bitCount counter sumShift shiftBit blob).2 = counter + bitCount := by
  induction fuel generalizing bitCount counter sumShift shiftBit blob with
  | zero =>
    have hzero : bitCount = 0 := by omega
    subst hzero
    rfl
  | succ fuel ih =>
    unfold fillBuffBytes
    split
    · rename_i hzero
      subst hzero
      rfl
    · dsimp only
      obtain ⟨m, hm⟩ : ∃ m, m = if bitCount > 8 then 8 else bitCount := ⟨_, rfl⟩
      rw [← hm]
      have hmc : m ≤ bitCount ∧ 0 < m := by
        rw [hm]
        split <;> omega
      rw [ih (by omega)]
      omega

theorem fillBuff_advances (burned : Blocks) : Advances (fillBuff burned) := by
  intro numReg blk bitStart bitCount s counter _ _
  unfold fillBuff
  dsimp only
  split
  · obtain ⟨m, hm⟩ : ∃ m, m = if 8 - counter % 8 < bitCount then 8 - counter % 8 else bitCount := ⟨_, rfl⟩
    rw [← hm, fillBuffBytes_counter (by omega)]
    have hmc : m ≤ bitCount := by
      rw [hm]
      split <;> omega
    omega
  · exact fillBuffBytes_counter (Nat.le_refl _)

/-- A field of which one bit is wanted. -/
theorem items_one {d : Desc} {rest : List Desc} :
    items (d :: rest) 1 = if d.inRange then [.piece ⟨d.block, d.firstReg, d.bitStart % 32, 1⟩] else [.badRange] := by
  have hpos := d.pos
  have huse : d.useBits d.firstReg (d.bitStart % 32) = min (32 - d.bitStart % 32) d.bitCount := useBits_eq rfl hpos (.inl rfl)
  have hregs : d.pieces 1 = [⟨d.block, d.firstReg, d.bitStart % 32, 1⟩] := by
    unfold Desc.pieces
    rw [List.range'_succ]
    unfold regPieces
    dsimp only
    rw [huse, show min (min (32 - d.bitStart % 32) d.bitCount) 1 = 1 by omega, if_pos (Nat.le_refl _)]
  have hnone : items rest (1 - d.bitCount) = [] := by
    rw [show 1 - d.bitCount = 0 by omega]
    cases rest with
    | nil => rfl
    | cons e rest =>
      unfold items
      rw [if_pos rfl]
  unfold items
  rw [if_neg (by decide), hregs, hnone]
  cases d.inRange <;> rfl

/-- The bit is read where it lies. -/
theorem readFieldBlob_one {burned : Blocks} {field : Field} {d : Desc} {rest : List Desc} (hdescs : field.descs = d :: rest) :
    (readFieldBlob burned field 1).1 = (if d.inRange then .ok else .coding) ∧
      (d.inRange = true → ((readFieldBlob burned field 1).2 0 ≠ 0 ↔ bitAt burned (d.block, d.bitStart) = true)) := by
  have hwanted : field.wanted 1 = 1 := by
    have hpos := d.pos
    have hlen : 0 < field.bits.length := by
      unfold Field.bits
      rw [hdescs, List.flatMap_cons, List.length_append, d.length_bits]
      omega
    unfold Field.wanted
    rw [if_neg (by decide)]
    omega
  unfold readFieldBlob
  dsimp only
  rw [process_eq (fillBuff_advances burned), hwanted, hdescs, items_one]
  cases hrange : d.inRange with
  | false => exact ⟨rfl, nofun⟩
  | true =>
    refine ⟨rfl, fun _ => ?_⟩
    have hmod : d.bitStart % 32 < 32 := Nat.mod_lt _ (by decide)
    have hvalue : (runItems (fillBuff burned) [.piece ⟨d.block, d.firstReg, d.bitStart % 32, 1⟩] (fun _ => 0) 0).2.1 0 =
        ((burned d.block d.firstReg >>> (d.bitStart % 32)) &&& getMask 1 0).setWidth 8 := by
      simp [runItems, fillBuff, fillBuffBytes, setByte]
    rw [if_pos rfl, hvalue]
    constructor
    · intro hne
      cases hbit : bitAt burned (d.block, d.bitStart) with
      | true => rfl
      | false =>
        refine absurd (BitVec.eq_of_getLsbD_eq fun j hj => ?_) hne
        rw [BitVec.getLsbD_setWidth, BitVec.getLsbD_and, getLsbD_lowMask (by decide), BitVec.getLsbD_ushiftRight,
          show (0 : BitVec 8).getLsbD j = false from BitVec.getLsbD_zero]
        cases j with
        | zero =>
          have hword : (burned d.block d.firstReg).getLsbD (d.bitStart % 32 + 0) = false := hbit
          rw [hword]
          rfl
        | succ j => simp
    · intro hbit hzero
      have hbyte := congrArg (fun x => BitVec.getLsbD x 0) hzero
      have hword : (burned d.block d.firstReg).getLsbD (d.bitStart % 32) = true := hbit
      rw [BitVec.getLsbD_setWidth, BitVec.getLsbD_and, getLsbD_lowMask (by decide), BitVec.getLsbD_ushiftRight, Nat.add_zero,
        hword] at hbyte
      cases hbyte

/-! ## The contract of a write -/

/-- What the registers of a write are to hold. -/
def Meets (op : Op) (s : State) (r : Err × Blocks) : Prop :=
  (r.1 ≠ .ok → r.2 = s.staged) ∧ (r.1 = .ok → Asks op s.view (union s.burned r.2))

theorem writeContract_batch {s : State} {op : Op} {fill : Blocks → Err × Blocks} (hstep : step s op = s.writeCall fill)
    (hbatch : s.batchWritingMode ≠ 0) : WriteContract s op ↔ Meets op s (fill s.staged) := by
  unfold WriteContract Meets State.writeCall at *
  rw [hstep, if_neg hbatch]
  dsimp only
  constructor
  · rintro ⟨herr, hok, -⟩
    exact ⟨fun h => (herr h).1, hok⟩
  · rintro ⟨herr, hok⟩
    exact ⟨fun h => ⟨herr h, rfl⟩, hok, fun _ => rfl⟩

theorem writeContract_single {s : State} {op : Op} {fill : Blocks → Err × Blocks} (hstep : step s op = s.writeCall fill)
    (hsingle : s.batchWritingMode = 0) (hstaged : s.staged = noBits) (hasks : (fill s.staged).1 = .ok →
      Asks op s.view (union s.burned (fill s.staged).2)) : WriteContract s op := by
  unfold WriteContract
  rw [hstep]
  unfold State.writeCall
  rw [if_pos hsingle, State.reset]
  dsimp only
  rw [hstaged] at hasks ⊢
  by_cases hok : (fill noBits).1 = .ok
  · rw [if_pos hok]
    refine ⟨fun h => absurd rfl h, fun _ => ?_, fun h => absurd hsingle h⟩
    have h := hasks hok
    unfold State.view at h ⊢
    rw [hstaged] at h
    change Asks op (union s.burned s.staged) (union (union s.burned (fill noBits).2) noBits)
    rw [union_noBits, hstaged]
    exact h
  · rw [if_neg hok]
    exact ⟨fun _ => ⟨rfl, rfl⟩, fun h => absurd h hok, fun _ => rfl⟩

/-- A write that goes no further than its checks. -/
theorem writeContract_refused {s : State} {op : Op} {err : Err} (hstep : step s op = (err, s))
    (hasks : err = .ok → Asks op s.view s.view) : WriteContract s op := by
  unfold WriteContract
  rw [hstep]
  exact ⟨fun _ => ⟨rfl, rfl⟩, hasks, fun _ => rfl⟩

theorem meets_blob_iff (s : State) (field : Field) (src : Blob) {sizeBits : Nat} (hsize : sizeBits ≠ 0) :
    Meets (.writeFieldBlob (some field) (some src) sizeBits) s (fillBlob s.burned field src sizeBits s.staged) ↔
      ∀ pre bad post, items field.descs (field.wanted sizeBits) = pre ++ bad :: post → Accepts s.burned src pre →
        Refused s.burned src (reach pre).length bad → ∀ pos, asks src 0 (reach pre) pos = true → bitAt s.staged pos = true := by
  rcases fillBlob_cases s.burned s.staged field src hsize with
    ⟨hok, haccepts, hbits⟩ | ⟨pre, bad, post, heq, herr, haccepts, hbad, hbits⟩
  · constructor
    · -- nothing refuses the blob
      rintro - pre bad post heq - hbad
      have hasked : Accepts s.burned src (pre ++ bad :: post) := heq ▸ haccepts
      cases bad with
      | badRange => exact absurd (by simp) hasked.1
      | piece p =>
        obtain ⟨pos, hasks, hburned⟩ := hbad
        have h := hasked.2 pos (by
          rw [reach_append, asks_append, Nat.zero_add, reach_cons, asks_append, Item.bits, hasks]
          simp)
        rw [hburned] at h
        cases h
    · intro _
      exact ⟨fun h => absurd hok h, fun _ => gains_union hbits⟩
  · constructor
    · rintro ⟨hstages, -⟩ pre' bad' post' heq' haccepts' hbad' pos hasks
      have hpre := refused_unique (heq.symm.trans heq') haccepts hbad haccepts' hbad'
      subst hpre
      have h := hbits pos
      rw [hstages herr, hasks, Bool.or_true] at h
      exact h
    · intro hclean
      refine ⟨fun _ => blocks_ext fun pos => ?_, fun h => absurd h herr⟩
      rw [hbits]
      cases hasks : asks src 0 (reach pre) pos with
      | false => exact Bool.or_false _
      | true =>
        rw [Bool.or_true]
        exact (hclean pre bad post heq haccepts hbad pos hasks).symm

/-- What a count picks is what it asks for if none of it is staged. -/
theorem asks_cnt {burned staged : Blocks} {field : Field} {cnt : Nat} (hcnt : cnt ≠ 0)
    (hok : (fillCnt burned field cnt staged).1 = .ok)
    (hfresh : ∀ pos ∈ (free burned (reach (items field.descs (field.wanted 0)))).take cnt, bitAt staged pos = false) :
    Asks (.writeFieldCnt (some field) cnt) (union burned staged) (union burned (fillCnt burned field cnt staged).2) := by
  obtain ⟨hbits, henough⟩ := fillCnt_spec burned staged field hcnt
  refine ⟨_, (free_nodup burned field).sublist (List.take_sublist cnt _), ?_, fun pos hpos => ⟨?_, ?_⟩, gains_union hbits⟩
  · rw [List.length_take, Nat.min_eq_left (henough.mp hok)]
  · exact reach_subset field pos (mem_free.mp (List.mem_of_mem_take hpos)).1
  · rw [bitAt_union, (mem_free.mp (List.mem_of_mem_take hpos)).2, hfresh pos hpos]
    rfl

theorem meets_cnt_iff (s : State) (field : Field) {cnt : Nat} (hcnt : cnt ≠ 0) :
    Meets (.writeFieldCnt (some field) cnt) s (fillCnt s.burned field cnt s.staged) ↔
      if cnt ≤ (free s.burned (reach (items field.descs (field.wanted 0)))).length then
        ∀ pos ∈ (free s.burned (reach (items field.descs (field.wanted 0)))).take cnt, bitAt s.staged pos = false
      else ∀ pos ∈ free s.burned (reach (items field.descs (field.wanted 0))), bitAt s.staged pos = true := by
  obtain ⟨hbits, henough⟩ := fillCnt_spec s.burned s.staged field hcnt
  have hnodup := free_nodup s.burned field
  obtain ⟨bits, hbits'⟩ : ∃ bits, bits = free s.burned (reach (items field.descs (field.wanted 0))) := ⟨_, rfl⟩
  rw [← hbits'] at hbits henough hnodup ⊢
  split
  · rename_i hfits
    constructor
    · rintro ⟨-, hasks⟩ pos hpos
      obtain ⟨picked, hpicked, hlength, hmem, hgains⟩ := hasks (henough.mpr hfits)
      -- the bits that are new are among those set, and there are as many
      have hsub : ∀ q ∈ picked, q ∈ bits.take cnt := by
        intro q hq
        have h := hgains q
        have hfresh := (hmem q hq).2
        rw [State.view, bitAt_union, Bool.or_eq_false_iff] at hfresh
        rw [State.view, bitAt_union, bitAt_union, hbits, hfresh.1, hfresh.2] at h
        simpa [hq] using h
      have hperm : picked.Subperm (bits.take cnt) := List.subperm_of_subset hpicked hsub
      have hall : pos ∈ picked := by
        have hlen : (bits.take cnt).length ≤ picked.length := by
          rw [hlength, List.length_take]
          omega
        exact (hperm.perm_of_length_le hlen).mem_iff.mpr hpos
      have hfresh := (hmem pos hall).2
      rw [State.view, bitAt_union, Bool.or_eq_false_iff] at hfresh
      exact hfresh.2
    · intro hfresh
      refine ⟨fun h => absurd (henough.mpr hfits) h, fun hok => ?_⟩
      rw [hbits'] at hfresh
      exact asks_cnt hcnt hok hfresh
  · rename_i hfull
    have herr : (fillCnt s.burned field cnt s.staged).1 ≠ .ok := fun h => hfull (henough.mp h)
    have htake : bits.take cnt = bits := List.take_of_length_le (by omega)
    rw [htake] at hbits
    constructor
    · rintro ⟨hstages, -⟩ pos hpos
      have h := hbits pos
      rw [hstages herr, decide_eq_true hpos, Bool.or_true] at h
      exact h
    · intro hstaged
      refine ⟨fun _ => blocks_ext fun pos => ?_, fun h => absurd h herr⟩
      rw [hbits]
      by_cases hpos : pos ∈ bits
      · rw [hstaged pos hpos, Bool.true_or]
      · rw [decide_eq_false hpos, Bool.or_false]

/-- A bit is read first, and a blob of one bit stages all of it or nothing. -/
theorem writeContract_bit (s : State) (field : Field) (hfirst : ∀ f, some field = some f → f.descs ≠ [])
    (hstaged : s.batchWritingMode = 0 → s.staged = noBits) : WriteContract s (.writeFieldBit (some field) hfirst) := by
  obtain ⟨d, rest, hdescs⟩ := List.exists_cons_of_ne_nil (hfirst field rfl)
  have hhead : field.bits.head? = some (d.block, d.bitStart) := by
    obtain ⟨n, hn⟩ : ∃ n, d.bitCount = n + 1 := ⟨d.bitCount - 1, by have := d.pos; omega⟩
    unfold Field.bits Desc.bits
    rw [hdescs, List.flatMap_cons, hn]
    simp [List.range'_succ]
  by_cases hcount : (field.descs.head (hfirst field rfl)).bitCount ≠ 1
  · have hstep : step s (.writeFieldBit (some field) hfirst) = (.invalidArg, s) := by
      simp only [step, State.writeFieldBit, if_pos hcount]
    exact writeContract_refused hstep nofun
  · obtain ⟨hread, hvalue⟩ := @readFieldBlob_one s.burned _ _ _ hdescs
    by_cases hstop : (readFieldBlob s.burned field 1).1 ≠ .ok ∨ (readFieldBlob s.burned field 1).2 0 ≠ 0
    · have hstep : step s (.writeFieldBit (some field) hfirst) = ((readFieldBlob s.burned field 1).1, s) := by
        simp only [step, State.writeFieldBit, if_neg hcount, if_pos hstop]
      refine writeContract_refused hstep fun hok => ?_
      have hset := hstop.resolve_left (fun h => h hok)
      have hrange : d.inRange = true := by
        cases hrange : d.inRange with
        | true => rfl
        | false =>
          rw [hread, hrange] at hok
          cases hok
      -- the bit is burned already
      intro pos
      dsimp only
      by_cases hpos : field.bits.head? = some pos
      · rw [hhead] at hpos
        cases hpos
        rw [State.view, bitAt_union, (hvalue hrange).mp hset]
        rfl
      · rw [decide_eq_false hpos, Bool.or_false]
    · have hstep : step s (.writeFieldBit (some field) hfirst) =
          s.writeCall (fillBlob s.burned field (fun _ => 1) 1) := by
        simp only [step, State.writeFieldBit, if_neg hcount, if_neg hstop, State.writeFieldBlob]
        rfl
      have hone : ∀ pos, asks (fun _ => 1) 0 (field.bits.take 1) pos = decide (field.bits.head? = some pos) := by
        intro pos
        cases hbits : field.bits with
        | nil => rfl
        | cons p ps => simp [asks, blobBit]
      have hmeets : Meets (.writeFieldBit (some field) hfirst) s (fillBlob s.burned field (fun _ => 1) 1 s.staged) := by
        rcases fillBlob_cases s.burned s.staged field (fun _ => 1) Nat.one_ne_zero with
          ⟨hok, -, hbits⟩ | ⟨pre, bad, post, heq, herr, -, -, hbits⟩
        · refine ⟨fun h => absurd hok h, fun _ => gains_union fun pos => ?_⟩
          rw [hbits, hone]
        · have hpre : pre = [] := by
            have hlen := congrArg List.length heq
            have hwanted : field.wanted 1 ≤ 1 := by
              unfold Field.wanted
              rw [if_neg (by decide)]
              exact Nat.min_le_left _ _
            have hone : field.wanted 1 = 0 ∨ field.wanted 1 = 1 := by omega
            rcases hone with h | h
            · rw [h, hdescs] at hlen
              simp [items] at hlen
            · rw [h, hdescs, items_one] at hlen
              refine List.length_eq_zero_iff.mp ?_
              rw [List.length_append, List.length_cons] at hlen
              cases hr : d.inRange <;> simp [hr] at hlen <;> omega
          subst hpre
          refine ⟨fun _ => blocks_ext fun pos => ?_, fun h => absurd h herr⟩
          rw [hbits, reach_nil, asks, Bool.or_false]
      by_cases hbatch : s.batchWritingMode = 0
      · exact writeContract_single hstep hbatch (hstaged hbatch) hmeets.2
      · exact (writeContract_batch hstep hbatch).mpr hmeets

theorem writeContract_reg (s : State) (blk : Block) (numReg : Nat) (val : Reg)
    (hstaged : s.batchWritingMode = 0 → s.staged = noBits) : WriteContract s (.writeReg blk numReg val) := by
  have hmeets : Meets (.writeReg blk numReg val) s (utilityWriteReg s.burned s.staged blk numReg val) := by
    unfold utilityWriteReg
    split
    · exact ⟨fun _ => rfl, nofun⟩
    · exact ⟨fun h => absurd rfl h, fun _ => gains_union fun pos => bitAt_writeReg _ _ _ _ _⟩
  have hstep : step s (.writeReg blk numReg val) =
      s.writeCall fun staged => utilityWriteReg s.burned staged blk numReg val := rfl
  by_cases hbatch : s.batchWritingMode = 0
  · exact writeContract_single hstep hbatch (hstaged hbatch) hmeets.2
  · exact (writeContract_batch hstep hbatch).mpr hmeets

/-- A write keeps to its contract when it is clean. -/
theorem writeContract_iff {s : State} (hstaged : s.batchWritingMode = 0 → s.staged = noBits) {op : Op}
    (hwrite : op.isWrite = true) : WriteContract s op ↔ Clean s op := by
  unfold Clean
  cases op with
  | begin => cases hwrite
  | cancel => cases hwrite
  | commit => cases hwrite
  | writeReg blk numReg val => exact iff_of_true (writeContract_reg s blk numReg val hstaged) (.inr trivial)
  | writeFieldBit field hfirst =>
    refine iff_of_true ?_ (.inr trivial)
    cases field with
    | none => exact writeContract_refused rfl nofun
    | some field => exact writeContract_bit s field hfirst hstaged
  | writeFieldBlob field src sizeBits =>
    cases field with
    | none => exact iff_of_true (writeContract_refused rfl nofun) (.inr trivial)
    | some field =>
      cases src with
      | none => exact iff_of_true (writeContract_refused rfl nofun) (.inr trivial)
      | some src =>
        dsimp only
        by_cases hsize : sizeBits = 0
        · exact iff_of_true (@writeContract_refused _ _ .invalidArg (if_pos hsize) nofun) (.inr (.inl hsize))
        · have hstep : step s (.writeFieldBlob (some field) (some src) sizeBits) =
              s.writeCall (fillBlob s.burned field src sizeBits) := if_neg hsize
          by_cases hbatch : s.batchWritingMode = 0
          · refine iff_of_true (writeContract_single hstep hbatch (hstaged hbatch) fun hok => ?_) (.inl hbatch)
            rcases fillBlob_cases s.burned s.staged field src hsize with ⟨-, -, hbits⟩ | ⟨_, _, _, -, herr, -⟩
            · exact gains_union hbits
            · exact absurd hok herr
          · rw [writeContract_batch hstep hbatch, meets_blob_iff s field src hsize, or_iff_right hbatch, or_iff_right hsize]
  | writeFieldCnt field cnt =>
    cases field with
    | none => exact iff_of_true (writeContract_refused rfl nofun) (.inr trivial)
    | some field =>
      dsimp only
      by_cases hcnt : cnt = 0
      · exact iff_of_true (@writeContract_refused _ _ .invalidArg (if_pos hcnt) nofun) (.inr (.inl hcnt))
      · have hstep : step s (.writeFieldCnt (some field) cnt) = s.writeCall (fillCnt s.burned field cnt) := if_neg hcnt
        by_cases hbatch : s.batchWritingMode = 0
        · refine iff_of_true (writeContract_single hstep hbatch (hstaged hbatch) fun hok => ?_) (.inl hbatch)
          refine asks_cnt hcnt hok fun pos _ => ?_
          rw [hstaged hbatch, bitAt_noBits]
        · rw [writeContract_batch hstep hbatch, meets_cnt_iff s field hcnt, or_iff_right hbatch, or_iff_right hcnt]

/-! ## Runs -/

/-- Between the calls of a run that keeps to its contract. -/
structure Ledger.Inv (l : Ledger) : Prop where
  burned : l.state.burned = l.base
  applied : Applied l.base l.done l.state.view
  idle : l.state.batchWritingMode = 0 → l.state.staged = noBits

theorem Ledger.inv_start (burned : Blocks) : (Ledger.start burned).Inv where
  burned := rfl
  applied := by
    rw [show (Ledger.start burned).state.view = burned from union_noBits burned]
    exact .nil
  idle := fun _ => rfl

/-- A state outside a batch, with nothing staged, starts a new ledger. -/
theorem Ledger.inv_idle {s : State} (hstaged : s.staged = noBits) :
    ({ state := s, base := s.burned, done := [] } : Ledger).Inv where
  burned := rfl
  applied := by
    have hview : s.view = s.burned := by
      rw [State.view, hstaged, union_noBits]
    rw [show ({ state := s, base := s.burned, done := [] } : Ledger).state.view = s.burned from hview]
    exact .nil
  idle := fun _ => hstaged

theorem writeCall_mode (s : State) (fill : Blocks → Err × Blocks) :
    (s.writeCall fill).2.batchWritingMode = s.batchWritingMode ∧
      (s.batchWritingMode = 0 → (s.writeCall fill).2.staged = noBits) := by
  unfold State.writeCall
  split
  · dsimp only
    split <;> exact ⟨rfl, fun _ => rfl⟩
  · rename_i h
    exact ⟨rfl, fun h' => absurd h' h⟩

/-- A write does not open or close a batch. -/
theorem write_mode {s : State} {op : Op} (hwrite : op.isWrite = true) (hstaged : s.batchWritingMode = 0 → s.staged = noBits) :
    (step s op).2.batchWritingMode = s.batchWritingMode ∧ (s.batchWritingMode = 0 → (step s op).2.staged = noBits) := by
  have hsame : ∀ err : Err, (err, s).2.batchWritingMode = s.batchWritingMode ∧
      (s.batchWritingMode = 0 → (err, s).2.staged = noBits) := fun _ => ⟨rfl, hstaged⟩
  have hblob : ∀ field src sizeBits, (s.writeFieldBlob field src sizeBits).2.batchWritingMode = s.batchWritingMode ∧
      (s.batchWritingMode = 0 → (s.writeFieldBlob field src sizeBits).2.staged = noBits) := by
    intro field src sizeBits
    unfold State.writeFieldBlob
    split
    · split
      · exact hsame _
      · exact writeCall_mode s _
    · exact hsame _
  cases op with
  | begin => cases hwrite
  | cancel => cases hwrite
  | commit => cases hwrite
  | writeFieldBlob field src sizeBits => exact hblob field src sizeBits
  | writeReg blk numReg val => exact writeCall_mode s _
  | writeFieldCnt field cnt =>
    cases field with
    | none => exact hsame _
    | some field =>
      unfold step State.writeFieldCnt
      dsimp only
      split
      · exact hsame _
      · exact writeCall_mode s _
  | writeFieldBit field hfirst =>
    cases field with
    | none => exact hsame _
    | some field =>
      unfold step State.writeFieldBit
      dsimp only
      split
      · exact hsame _
      · split
        · exact hsame _
        · exact hblob _ _ _

theorem inv_write {l : Ledger} (h : l.Inv) {op : Op} (hwrite : op.isWrite = true) (hcontract : WriteContract l.state op) :
    (l.next op).Inv := by
  obtain ⟨hmode, hidle⟩ := write_mode hwrite h.idle
  obtain ⟨herr, hok, hburned⟩ := hcontract
  unfold Ledger.next
  dsimp only
  split
  · rename_i hsingle
    exact Ledger.inv_idle (hidle (hmode ▸ hsingle))
  · rename_i hbatch
    rw [hmode] at hbatch
    have hsame : (step l.state op).2.burned = l.state.burned := hburned hbatch
    refine ⟨hsame.trans h.burned, ?_, fun h' => absurd (hmode ▸ h') hbatch⟩
    dsimp only
    by_cases hcode : (step l.state op).1 = .ok
    · rw [if_pos ⟨hwrite, hcode⟩]
      exact .snoc op h.applied (hok hcode)
    · rw [if_neg (fun hc => hcode hc.2)]
      have hview : (step l.state op).2.view = l.state.view := by
        rw [State.view, (herr hcode).1, hsame]
        rfl
      rw [hview]
      exact h.applied

theorem Ledger.Inv.keep {l : Ledger} (h : l.Inv) {s : State} (hburned : s.burned = l.state.burned)
    (hstaged : s.staged = l.state.staged) (hbatch : s.batchWritingMode ≠ 0) :
    ({ state := s, base := l.base, done := l.done } : Ledger).Inv where
  burned := hburned.trans h.burned
  applied := by
    have hview : s.view = l.state.view := by
      unfold State.view
      rw [hburned, hstaged]
    exact hview.symm ▸ h.applied
  idle := fun h' => absurd h' hbatch

/-- The calls around the writes keep to their contract, and lead to a ledger that is in order. -/
theorem contract_around {l : Ledger} (h : l.Inv) {op : Op} (haround : op.isWrite = false) :
    Contract l op ∧ (l.next op).Inv := by
  unfold Contract Ledger.next
  simp only [haround, Bool.false_eq_true, if_false, false_and]
  cases op with
  | writeFieldBlob field src sizeBits => cases haround
  | writeFieldCnt field cnt => cases haround
  | writeFieldBit field hfirst => cases haround
  | writeReg blk numReg val => cases haround
  | begin =>
    have hstep : step l.state .begin =
        (.ok, { l.state with batchWritingMode := l.state.batchWritingMode + 1 }) := by
      unfold step State.batchWriteBegin
      dsimp only
      split
      · rename_i hfirst
        have hstaged := h.idle (by omega)
        rw [State.reset, ← hstaged]
      · rfl
    rw [hstep]
    refine ⟨rfl, ?_⟩
    rw [if_neg (Nat.succ_ne_zero _)]
    exact h.keep rfl rfl (Nat.succ_ne_zero _)
  | cancel =>
    by_cases hidle : l.state.batchWritingMode = 0
    · have hstep : step l.state .cancel = (.invalidState, l.state) := if_pos hidle
      rw [hstep, if_pos hidle]
      exact ⟨rfl, Ledger.inv_idle (h.idle hidle)⟩
    · by_cases hlast : l.state.batchWritingMode - 1 = 0
      · have hstep : step l.state .cancel =
            (.ok, ({ l.state with batchWritingMode := l.state.batchWritingMode - 1 } : State).reset) := by
          unfold step State.batchWriteCancel
          rw [if_neg hidle]
          dsimp only
          rw [if_pos hlast]
        rw [hstep]
        exact ⟨rfl, (if_pos hlast).symm ▸ Ledger.inv_idle rfl⟩
      · have hstep : step l.state .cancel =
            (.ok, { l.state with batchWritingMode := l.state.batchWritingMode - 1 }) := by
          unfold step State.batchWriteCancel
          rw [if_neg hidle]
          dsimp only
          rw [if_neg hlast]
        rw [hstep]
        exact ⟨rfl, (if_neg hlast).symm ▸ h.keep rfl rfl hlast⟩
  | commit =>
    by_cases hidle : l.state.batchWritingMode = 0
    · have hstep : step l.state .commit = (.invalidState, l.state) := if_pos hidle
      have hopen : ¬(l.state.batchWritingMode = 1 ∧ Err.invalidState = .ok) := nofun
      rw [hstep, if_pos hidle, if_neg hopen]
      exact ⟨rfl, Ledger.inv_idle (h.idle hidle)⟩
    · by_cases hlast : l.state.batchWritingMode - 1 = 0
      · have hstep : step l.state .commit =
            (.ok, ({ l.state with batchWritingMode := l.state.batchWritingMode - 1 } : State).burnEfuses) := by
          unfold step State.batchWriteCommit
          rw [if_neg hidle]
          dsimp only
          rw [if_pos hlast]
          rfl
        rw [hstep, if_pos ⟨by omega, rfl⟩]
        exact ⟨h.applied, (if_pos hlast).symm ▸ Ledger.inv_idle rfl⟩
      · have hstep : step l.state .commit =
            (.ok, { l.state with batchWritingMode := l.state.batchWritingMode - 1 }) := by
          unfold step State.batchWriteCommit
          rw [if_neg hidle]
          dsimp only
          rw [if_neg hlast]
        rw [hstep, if_neg (fun hc => hlast (by omega))]
        exact ⟨rfl, (if_neg hlast).symm ▸ h.keep rfl rfl hlast⟩

theorem contract_iff {l : Ledger} (h : l.Inv) (op : Op) : Contract l op ↔ Clean l.state op := by
  cases hwrite : op.isWrite with
  | true =>
    rw [← writeContract_iff h.idle hwrite]
    unfold Contract
    simp only [hwrite, if_true]
  | false =>
    refine iff_of_true (contract_around h hwrite).1 (.inr ?_)
    cases op with
    | begin => trivial
    | cancel => trivial
    | commit => trivial
    | writeFieldBlob field src sizeBits => cases hwrite
    | writeFieldCnt field cnt => cases hwrite
    | writeFieldBit field hfirst => cases hwrite
    | writeReg blk numReg val => cases hwrite

theorem inv_next {l : Ledger} (h : l.Inv) {op : Op} (hcontract : Contract l op) : (l.next op).Inv := by
  cases hwrite : op.isWrite with
  | true =>
    unfold Contract at hcontract
    simp only [hwrite, if_true] at hcontract
    exact inv_write h hwrite hcontract
  | false => exact (contract_around h hwrite).2

theorem next_state (l : Ledger) (op : Op) : (l.next op).state = (step l.state op).2 := by
  unfold Ledger.next
  dsimp only
  split <;> rfl

theorem transactional_of_inv {l : Ledger} (h : l.Inv) (ops : List Op) : Transactional l ops ↔ CleanRun l.state ops := by
  induction ops generalizing l with
  | nil => exact Iff.rfl
  | cons op ops ih =>
    unfold Transactional CleanRun
    rw [← contract_iff h op, ← next_state]
    constructor
    · rintro ⟨hcontract, hrest⟩
      exact ⟨hcontract, (ih (inv_next h hcontract)).mp hrest⟩
    · rintro ⟨hcontract, hrest⟩
      exact ⟨hcontract, (ih (inv_next h hcontract)).mpr hrest⟩

/-- A run is transactional exactly when all its calls are clean. -/
theorem transactional_iff (burned : Blocks) (ops : List Op) :
    Transactional (.start burned) ops ↔ CleanRun (.start burned) ops :=
  transactional_of_inv (Ledger.inv_start burned) ops

/-- Two bits of block 3. -/
def twoBits : Field where
  descs := [⟨3, 0, 2, by decide, nofun⟩]
  nodup := by decide

/-- Two calls that each ask for one more bit are both accepted, and one bit is burned. -/
theorem second_count_lost :
    let first := step (step (.start noBits) .begin).2 (.writeFieldCnt (some twoBits) 1)
    let second := step first.2 (.writeFieldCnt (some twoBits) 1)
    let last := step second.2 .commit
    first.1 = .ok ∧ second.1 = .ok ∧ last.1 = .ok ∧ last.2.burned 3 0 = 1 ∧
      ¬Transactional (.start noBits)
        [.begin, .writeFieldCnt (some twoBits) 1, .writeFieldCnt (some twoBits) 1, .commit] := by
  refine ⟨by decide +kernel, by decide +kernel, by decide +kernel, by decide +kernel, fun h => ?_⟩
  obtain ⟨-, -, hsecond, -⟩ := (transactional_of_inv (Ledger.inv_start noBits) _).mp h
  rcases hsecond with hsingle | hzero | hfresh
  · revert hsingle
    decide +kernel
  · cases hzero
  · have hstaged := hfresh (3, 0) (by decide +kernel)
    revert hstaged
    decide +kernel

/-- A blob over two registers, of which the second refuses it, leaves the first one staged. -/
example :
    let field : Field := { descs := [⟨3, 0, 1, by decide, nofun⟩, ⟨3, 32, 1, by decide, nofun⟩], nodup := by decide }
    let burned := writeReg noBits 3 1 1
    let r := step (step (.start burned) .begin).2 (.writeFieldBlob (some field) (some fun _ => 3) 2)
    r.1 = .repeatedProg ∧ r.2.staged 3 0 = 1 := by
  decide +kernel

end EspIdf.Efuse
