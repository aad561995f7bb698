import EspIdf.Flash.Balance

/-!
# Encrypted writes on the bus

* `row_cuts` : the rows of an encrypted write make up its range;
* `rowsOnce_trace` : the rows of a write that holds the bus throughout;
* `rowsEach_sound_iff` : the rows of a write that acquires the bus for each;
* `Request`, `bus_sound_iff` : the requests and the failures for which a function is sound.
-/

namespace EspIdf.Flash

open Calls Pieces

section rows
variable {answers : Nat → EspErr} {row : Nat → Row} {address length n : Nat}

/-- The rows of a write. -/
def rows (row : Nat → Row) (length : Nat) : List Piece := pieces (fun i _ => (row i).rowSizeLength) length 0 length

/-- A row is not empty, and not longer than what is left. -/
def RowsFit (row : Nat → Row) (length : Nat) : Prop :=
  Cuts (fun i _ => (row i).rowSizeLength) fun i left => i + left = length ∧ i % 16 = 0

theorem nextRow_fit (target : Target) (mem : Mem) {address length : Nat} (hlength : length % 16 = 0) :
    RowsFit (nextRow target mem address length) length := by
  rintro i left ⟨hsum, hi⟩ hleft
  have hleft' : length - i = left := by omega
  have h16 : left % 16 = 0 := by omega
  have hsize : 0 < (nextRow target mem address length i).rowSizeLength ∧
      (nextRow target mem address length i).rowSizeLength ≤ left ∧
      (nextRow target mem address length i).rowSizeLength % 16 = 0 := by
    unfold nextRow
    cases target with
    | esp32 preBuf postBuf =>
      dsimp only
      rw [hleft']
      split_ifs
      · dsimp only
        omega
      · dsimp only
        omega
      · dsimp only
        omega
    | xts blockMax64 =>
      dsimp only
      rw [hleft']
      split_ifs
      · omega
      · omega
      · omega
  refine ⟨hsize.1, hsize.2.1, ?_, ?_⟩
  · dsimp only
    omega
  · dsimp only
    omega

/-- The calls behind a failure: the bus is released, and acquired again for the flush. -/
def restoreTrace (answers : Nat → EspErr) (address length n : Nat) : List (Call × EspErr) :=
  (.finish, answers n) :: flushTrace answers address length false (n + 1)

theorem restoreCache_trace (err : EspErr) :
    (restoreCache err address length).trace answers n = restoreTrace answers address length n := by
  unfold restoreCache restoreTrace
  rw [trace_bind, trace_bind, trace_pure, List.append_nil, flashEndFlushCache_trace, spiflashEnd_trace,
    List.length_singleton, List.singleton_append]

theorem restoreTrace_settled : Settled address length (restoreTrace answers address length n) :=
  (settled_cons (flushTrace_ne_nil _) (by simp)).mpr (flushTrace_settled _)

theorem restoreTrace_flushed : Flushed address length (restoreTrace answers address length n) :=
  ⟨fun h => absurd h Bool.false_ne_true, flushTrace_flushed _⟩

theorem restoreTrace_depth (d : Nat) :
    depth Call.kind succeeds d (restoreTrace answers address length n) = if d = 0 then none else some (d - 1) := by
  unfold restoreTrace
  simp [depth, flushTrace_depth]

/-! ## The bus is held throughout -/

theorem rowOnce_ok {fuel i : Nat} (hlt : i < length) (hwrite : answers n = ESP_OK) :
    (rowLoop true row length (fuel + 1) i).trace answers n =
      (.writeEncrypted (row i).address (row i).data, answers n) ::
        (rowLoop true row length fuel (i + (row i).rowSizeLength)).trace answers (n + 1) ∧
    (rowLoop true row length (fuel + 1) i).result answers n =
      (rowLoop true row length fuel (i + (row i).rowSizeLength)).result answers (n + 1) := by
  simp [rowLoop, hlt, hwrite]

theorem rowOnce_failed {fuel i : Nat} (hlt : i < length) (hwrite : answers n ≠ ESP_OK) :
    (rowLoop true row length (fuel + 1) i).trace answers n =
      [(.writeEncrypted (row i).address (row i).data, answers n)] ∧
    (rowLoop true row length (fuel + 1) i).result answers n = answers n := by
  simp [rowLoop, hlt, hwrite]

/-- The rows are written one after the other, until one fails. -/
theorem rowsOnce_trace (hrow : RowsFit row length) {fuel i left : Nat} (hinv : i + left = length ∧ i % 16 = 0)
    (hfuel : left ≤ fuel) :
    (∀ ce ∈ (rowLoop true row length fuel i).trace answers n, ce.1.kind = .inside) ∧
    ((rowLoop true row length fuel i).result answers n = ESP_OK ↔
      ∀ j < (pieces (fun i _ => (row i).rowSizeLength) fuel i left).length, answers (n + j) = ESP_OK) ∧
    ((rowLoop true row length fuel i).result answers n = ESP_OK →
      ((rowLoop true row length fuel i).trace answers n).length =
        (pieces (fun i _ => (row i).rowSizeLength) fuel i left).length) := by
  induction fuel generalizing i left n with
  | zero =>
    simp [rowLoop, pieces]
  | succ fuel ih =>
    by_cases hleft : left = 0
    · have hnot : ¬i < length := by omega
      simp [rowLoop, hnot, hleft, pieces_zero]
    · obtain ⟨hpos, hle, hinv'⟩ := hrow i left hinv (Nat.pos_of_ne_zero hleft)
      dsimp only at hpos hle hinv'
      have hlt : i < length := by omega
      obtain ⟨hinside, hresult, hlength⟩ := @ih (n + 1) (i + (row i).rowSizeLength)
        (left - (row i).rowSizeLength) hinv' (by omega)
      rw [pieces_cons hleft]
      have hall : ∀ m, (∀ j < m + 1, answers (n + j) = ESP_OK) ↔
          answers n = ESP_OK ∧ ∀ j < m, answers (n + 1 + j) = ESP_OK := by
        intro m
        rw [Nat.forall_lt_succ_left]
        simp only [Nat.add_zero, Nat.add_assoc, Nat.add_comm 1]
      rw [List.length_cons, hall]
      by_cases hwrite : answers n = ESP_OK
      · obtain ⟨ht, hr⟩ := @rowOnce_ok answers row length n fuel i hlt hwrite
        rw [ht, hr]
        refine ⟨fun ce hce => ?_, hresult.trans ⟨fun h => ⟨hwrite, h⟩, fun h => h.2⟩, fun hok => ?_⟩
        · rcases List.mem_cons.mp hce with rfl | hce
          · rfl
          · exact hinside ce hce
        · rw [List.length_cons, hlength hok]
      · obtain ⟨ht, hr⟩ := @rowOnce_failed answers row length n fuel i hlt hwrite
        rw [ht, hr]
        refine ⟨fun ce hce => ?_, ⟨fun h => absurd h hwrite, fun h => absurd h.1 hwrite⟩, fun h => absurd h hwrite⟩
        rw [List.mem_singleton.mp hce]
        rfl

/-- Calls inside the bracket leave it open. -/
theorem depth_inside {t : List (Call × EspErr)} (ht : ∀ ce ∈ t, ce.1.kind = .inside) (d : Nat) :
    depth Call.kind succeeds (d + 1) t = some (d + 1) := by
  induction t with
  | nil => rfl
  | cons ce t ih =>
    simp only [depth, ht ce List.mem_cons_self, Nat.succ_ne_zero, if_false]
    exact ih fun ce hce => ht ce (List.mem_cons_of_mem _ hce)

/-- The calls of a write that holds the bus throughout, once it has it. -/
theorem writeRows_once_trace (hstart : answers 0 = ESP_OK) :
    (writeRows true row address length).trace answers 0 =
      (.start, ESP_OK) :: ((rowLoop true row length length 0).trace answers 1 ++
        if (rowLoop true row length length 0).result answers 1 ≠ ESP_OK then
          restoreTrace answers address length (1 + ((rowLoop true row length length 0).trace answers 1).length)
        else
          (.finish, answers (1 + ((rowLoop true row length length 0).trace answers 1).length)) ::
            if answers (1 + ((rowLoop true row length length 0).trace answers 1).length) ≠ ESP_OK then
              restoreTrace answers address length (1 + ((rowLoop true row length length 0).trace answers 1).length + 1)
            else
              flushTrace answers address length false
                (1 + ((rowLoop true row length length 0).trace answers 1).length + 1)) := by
  by_cases hrows : (rowLoop true row length length 0).result answers 1 = ESP_OK
  · by_cases hfinish : answers (1 + ((rowLoop true row length length 0).trace answers 1).length) = ESP_OK
    · simp [writeRows, hstart, hrows, hfinish, flashEndFlushCache_trace]
    · simp [writeRows, hstart, hrows, hfinish, restoreCache_trace]
  · simp [writeRows, hstart, hrows, restoreCache_trace]

/-- A write that holds the bus throughout is sound unless its `end` is the first to fail. -/
theorem writeRows_once_sound_iff (hrow : RowsFit row length) :
    Sound address length ((writeRows true row address length).trace answers 0) ↔
      ¬FirstFailure succeeds answers 0 ((rows row length).length + 1) := by
  by_cases hstart : answers 0 = ESP_OK
  · obtain ⟨hinside, hresult, hlength⟩ := @rowsOnce_trace answers row length 1 hrow length 0 length
      ⟨Nat.zero_add _, rfl⟩ (Nat.le_refl _)
    rw [writeRows_once_trace hstart]
    by_cases hrows : (rowLoop true row length length 0).result answers 1 ≠ ESP_OK
    · rw [if_pos hrows]
      refine iff_of_true ⟨?_, fun h => absurd h Bool.false_ne_true,
        flushed_append (List.cons_ne_nil _ _) restoreTrace_settled restoreTrace_flushed⟩ fun hfirst => hrows ?_
      · simp [depth, depth_append, depth_inside hinside, restoreTrace_depth]
      · rw [hresult]
        intro j hj
        have := hfirst.2 (1 + j) (by rw [Nat.add_comm]; exact Nat.succ_lt_succ hj)
        rwa [Nat.zero_add, succeeds_iff] at this
    · rw [if_neg hrows]
      rw [not_ne_iff] at hrows
      have hall := hresult.mp hrows
      rw [hlength hrows]
      have hbefore : ∀ j < (rows row length).length + 1, succeeds (answers (0 + j)) = true := by
        intro j hj
        rw [Nat.zero_add, succeeds_iff]
        cases j with
        | zero => exact hstart
        | succ j => exact Nat.add_comm 1 j ▸ hall j (Nat.lt_of_succ_lt_succ hj)
      have hindex : 1 + (rows row length).length = 0 + ((rows row length).length + 1) := by omega
      change Sound address length ((.start, ESP_OK) :: ((rowLoop true row length length 0).trace answers 1 ++
        (.finish, answers (1 + (rows row length).length)) ::
          if answers (1 + (rows row length).length) ≠ ESP_OK then
            restoreTrace answers address length (1 + (rows row length).length + 1)
          else flushTrace answers address length false (1 + (rows row length).length + 1))) ↔ _
      by_cases hfinish : answers (1 + (rows row length).length) ≠ ESP_OK
      · rw [if_pos hfinish]
        refine iff_of_false (fun h => ?_) (not_not.mpr ⟨?_, hbefore⟩)
        · have hdepth := h.balanced
          simp [depth, depth_append, depth_inside hinside, restoreTrace_depth] at hdepth
        · rw [← hindex]
          exact succeeds_false_iff.mpr hfinish
      · rw [if_neg hfinish]
        refine iff_of_true ⟨?_, fun h => absurd h Bool.false_ne_true, ?_⟩ fun hfirst => ?_
        · simp [depth, depth_append, depth_inside hinside, flushTrace_depth]
        · exact flushed_append (List.cons_ne_nil _ _) ((settled_cons (flushTrace_ne_nil _) (by simp)).mpr
            (flushTrace_settled _)) ⟨fun h => absurd h Bool.false_ne_true, flushTrace_flushed _⟩
        · have hfail := hfirst.1
          rw [← hindex] at hfail
          exact hfinish (succeeds_false_iff.mp hfail)
  · have htrace : (writeRows true row address length).trace answers 0 = [(.start, answers 0)] := by
      simp [writeRows, hstart]
    rw [htrace]
    refine iff_of_true ⟨?_, ?_⟩ fun h => hstart (succeeds_iff.mp (h.2 0 (Nat.succ_pos _)))
    · simp [depth, hstart]
    · exact ⟨fun h => absurd h Bool.false_ne_true, trivial⟩

/-! ## The bus is acquired for each row -/

/-- What is behind the rows. -/
def behindRows (address length : Nat) (err : EspErr) : Api EspErr :=
  if err ≠ ESP_OK then restoreCache err address length else flashEndFlushCache ESP_OK false address length

theorem writeRows_each_trace :
    (writeRows false row address length).trace answers n =
      (rowLoop false row length length 0 >>= behindRows address length).trace answers n := by
  unfold writeRows behindRows
  by_cases hrows : (rowLoop false row length length 0).result answers n = ESP_OK
  · simp [hrows]
  · simp [hrows]

theorem rowsEach_done {fuel i : Nat} (hdone : ¬i < length ∨ fuel = 0) :
    (rowLoop false row length fuel i >>= behindRows address length).trace answers n =
      flushTrace answers address length false n := by
  cases fuel with
  | zero => simp [rowLoop, behindRows, flashEndFlushCache_trace]
  | succ fuel =>
    have hnot : ¬i < length := hdone.resolve_right (Nat.succ_ne_zero fuel)
    simp [rowLoop, hnot, behindRows, flashEndFlushCache_trace]

/-- The calls of a row, and what follows. -/
theorem rowsEach_trace {fuel i : Nat} (hlt : i < length) :
    (rowLoop false row length (fuel + 1) i >>= behindRows address length).trace answers n =
      (.start, answers n) ::
        if answers n ≠ ESP_OK then restoreTrace answers address length (n + 1)
        else
          (.writeEncrypted (row i).address (row i).data, answers (n + 1)) ::
            if answers (n + 1) ≠ ESP_OK then restoreTrace answers address length (n + 2)
            else
              (.finish, answers (n + 2)) ::
                if answers (n + 2) ≠ ESP_OK then restoreTrace answers address length (n + 3)
                else (rowLoop false row length fuel (i + (row i).rowSizeLength) >>=
                  behindRows address length).trace answers (n + 3) := by
  have hbehind : ∀ err m, err ≠ ESP_OK →
      (behindRows address length err).trace answers m = restoreTrace answers address length m := by
    intro err m herr
    unfold behindRows
    rw [if_pos herr, restoreCache_trace]
  by_cases hstart : answers n = ESP_OK
  · by_cases hwrite : answers (n + 1) = ESP_OK
    · by_cases hfinish : answers (n + 2) = ESP_OK
      · have hindex : ∀ l, n + (1 + (1 + (1 + l))) = n + (3 + l) := fun l => by omega
        simp [rowLoop, hlt, hstart, hwrite, hfinish, Nat.add_assoc, Nat.add_comm, Nat.add_left_comm, hindex]
      · simp [rowLoop, hlt, hstart, hwrite, hfinish, hbehind]
    · simp [rowLoop, hlt, hstart, hwrite, hbehind]
  · simp [rowLoop, hlt, hstart, hbehind]

theorem rowsEach_settled (fuel i : Nat) :
    (rowLoop false row length fuel i >>= behindRows address length).trace answers n ≠ [] ∧
    Settled address length ((rowLoop false row length fuel i >>= behindRows address length).trace answers n) := by
  induction fuel generalizing i n with
  | zero =>
    rw [rowsEach_done (.inr rfl)]
    exact ⟨flushTrace_ne_nil _, flushTrace_settled _⟩
  | succ fuel ih =>
    by_cases hlt : i < length
    · have hcons : ∀ {c : Call} {e : EspErr} {t : List (Call × EspErr)}, c ≠ .flushCache address length →
          t ≠ [] ∧ Settled address length t → (c, e) :: t ≠ [] ∧ Settled address length ((c, e) :: t) :=
        fun hc h => ⟨List.cons_ne_nil _ _, (settled_cons h.1 hc).mpr h.2⟩
      have hrestore : ∀ m, restoreTrace answers address length m ≠ [] ∧
          Settled address length (restoreTrace answers address length m) :=
        fun m => ⟨List.cons_ne_nil _ _, restoreTrace_settled⟩
      rw [rowsEach_trace hlt]
      refine hcons (by simp) ?_
      split_ifs
      · exact hrestore _
      · exact hcons (by simp) (hrestore _)
      · exact hcons (by simp) (hcons (by simp) (hrestore _))
      · exact hcons (by simp) (hcons (by simp) (ih _))
    · rw [rowsEach_done (.inl hlt)]
      exact ⟨flushTrace_ne_nil _, flushTrace_settled _⟩

/-- The first failure among the calls of `count` rows is that of a write. -/
def OnlyWritesFail (answers : Nat → EspErr) (n count : Nat) : Prop :=
  ∀ k, FirstFailure succeeds answers n k → k < 3 * count → k % 3 = 1

theorem onlyWritesFail_of_first {k count : Nat} (hk : FirstFailure succeeds answers n k) :
    OnlyWritesFail answers n count ↔ (k < 3 * count → k % 3 = 1) := by
  constructor
  · intro h
    exact h k hk
  · intro h l hl
    rw [← hk.unique hl]
    exact h

theorem onlyWritesFail_succ {count : Nat} :
    OnlyWritesFail answers n (count + 1) ↔
      answers n = ESP_OK ∧ (answers (n + 1) = ESP_OK →
        answers (n + 2) = ESP_OK ∧ OnlyWritesFail answers (n + 3) count) := by
  have hfirst : ∀ k, (∀ j < k, answers (n + j) = ESP_OK) → answers (n + k) ≠ ESP_OK →
      FirstFailure succeeds answers n k := fun k hok hfail =>
    ⟨succeeds_false_iff.mpr hfail, fun j hj => succeeds_iff.mpr (hok j hj)⟩
  by_cases hstart : answers n = ESP_OK
  · have hone : ∀ j < 1, answers (n + j) = ESP_OK := by
      intro j hj
      rwa [Nat.lt_one_iff.mp hj]
    by_cases hwrite : answers (n + 1) = ESP_OK
    · have htwo : ∀ j < 2, answers (n + j) = ESP_OK := by
        intro j hj
        rcases Nat.lt_succ_iff_lt_or_eq.mp hj with h | rfl
        · exact hone j h
        · exact hwrite
      simp only [hstart, hwrite, true_and, true_implies]
      by_cases hfinish : answers (n + 2) = ESP_OK
      · have hthree : ∀ j < 3, succeeds (answers (n + j)) = true := by
          intro j hj
          rw [succeeds_iff]
          rcases Nat.lt_succ_iff_lt_or_eq.mp hj with h | rfl
          · exact htwo j h
          · exact hfinish
        simp only [hfinish, true_and]
        constructor
        · intro h k hk hlt
          have := h (3 + k) ((firstFailure_add hthree).mpr hk) (by omega)
          omega
        · intro h k hk hlt
          obtain ⟨l, rfl⟩ := Nat.exists_eq_add_of_le (hk.le_of_ok hthree)
          have := h l ((firstFailure_add hthree).mp hk) (by omega)
          omega
      · rw [onlyWritesFail_of_first (hfirst 2 htwo hfinish)]
        exact iff_of_false (fun h => absurd (h (by omega)) (by decide)) fun h => hfinish h.1
    · rw [onlyWritesFail_of_first (hfirst 1 hone hwrite)]
      exact iff_of_true (fun _ => rfl) ⟨hstart, fun h => absurd h hwrite⟩
  · rw [onlyWritesFail_of_first (hfirst 0 (fun j hj => absurd hj (Nat.not_lt_zero j)) hstart)]
    exact iff_of_false (fun h => absurd (h (by omega)) (by decide)) fun h => hstart h.1

/-- A write that acquires the bus for each row is sound unless a `start` or an `end` is the first to fail. -/
theorem rowsEach_sound_iff (hrow : RowsFit row length) {fuel i left : Nat} (hinv : i + left = length ∧ i % 16 = 0)
    (hfuel : left ≤ fuel) :
    Sound address length ((rowLoop false row length fuel i >>= behindRows address length).trace answers n) ↔
      OnlyWritesFail answers n (pieces (fun i _ => (row i).rowSizeLength) fuel i left).length := by
  induction fuel generalizing i left n with
  | zero =>
    rw [rowsEach_done (.inr rfl)]
    exact iff_of_true ⟨flushTrace_depth false 0, flushTrace_flushed false⟩ fun k _ h => absurd h (Nat.not_lt_zero k)
  | succ fuel ih =>
    by_cases hleft : left = 0
    · have hnot : ¬i < length := by omega
      rw [rowsEach_done (.inl hnot), hleft, pieces_zero]
      exact iff_of_true ⟨flushTrace_depth false 0, flushTrace_flushed false⟩ fun k _ h => absurd h (Nat.not_lt_zero k)
    obtain ⟨hpos, hle, hinv'⟩ := hrow i left hinv (Nat.pos_of_ne_zero hleft)
    dsimp only at hpos hle hinv'
    have hlt : i < length := by omega
    rw [pieces_cons hleft, List.length_cons, rowsEach_trace hlt, onlyWritesFail_succ]
    by_cases hstart : answers n ≠ ESP_OK
    · rw [if_pos hstart]
      refine iff_of_false (fun h => ?_) fun h => hstart h.1
      have hdepth := h.balanced
      simp [depth, hstart, restoreTrace_depth] at hdepth
    rw [if_neg hstart]
    rw [not_ne_iff] at hstart
    by_cases hwrite : answers (n + 1) ≠ ESP_OK
    · rw [if_pos hwrite]
      refine iff_of_true ⟨?_, fun h => absurd h Bool.false_ne_true, fun _ => restoreTrace_settled,
        restoreTrace_flushed⟩ ⟨hstart, fun h => absurd h hwrite⟩
      simp [depth, Call.kind, hstart, restoreTrace_depth]
    rw [if_neg hwrite]
    rw [not_ne_iff] at hwrite
    simp only [hstart, hwrite, true_and, true_implies]
    by_cases hfinish : answers (n + 2) ≠ ESP_OK
    · rw [if_pos hfinish]
      refine iff_of_false (fun h => ?_) fun h => hfinish h.1
      have hdepth := h.balanced
      simp [depth, Call.kind, restoreTrace_depth] at hdepth
    · rw [if_neg hfinish]
      rw [not_ne_iff] at hfinish
      obtain ⟨hne, hsettled⟩ := @rowsEach_settled answers row address length (n + 3) fuel (i + (row i).rowSizeLength)
      rw [← ih hinv' (by omega)]
      refine ⟨fun h => ⟨hfinish, ?_, h.flushed.2.2.2⟩, fun h => ⟨?_, fun hc => absurd hc Bool.false_ne_true, fun _ => ?_,
        fun hc => absurd hc Bool.false_ne_true, h.2.flushed⟩⟩
      · simpa [depth, Call.kind] using h.balanced
      · simpa [depth, Call.kind] using h.2.balanced
      · exact (settled_cons hne (by simp)).mpr hsettled

theorem writeRows_each_sound_iff (hrow : RowsFit row length) :
    Sound address length ((writeRows false row address length).trace answers 0) ↔
      OnlyWritesFail answers 0 (rows row length).length := by
  rw [writeRows_each_trace]
  exact rowsEach_sound_iff hrow ⟨Nat.zero_add _, rfl⟩ (Nat.le_refl _)

end rows

section encrypted
variable {cfg : Config} {chip : Chip} {lockOnce : Bool} {buffer : Option Mem} {address length : UInt32}
  {answers : Nat → EspErr}

/-- An encrypted write is begun. -/
def EncryptedBegun (chip : Chip) (buffer : Option Mem) (address length : UInt32) : Prop :=
  chip.isDefault = true ∧ checkWriteAddress chip address length = none ∧ buffer ≠ none ∧ Fits chip address length ∧
    address % 16 = 0 ∧ length % 16 = 0 ∧ length ≠ 0

/-- How many rows it has; what is written does not matter to that. -/
def rowCount (cfg : Config) (address length : Nat) : Nat :=
  (rows (nextRow cfg.target (fun _ => 0) address length) length).length

theorem rows_length (mem : Mem) (address length : Nat) :
    (rows (nextRow cfg.target mem address length) length).length = rowCount cfg address length := by
  have hsize : ∀ i, (nextRow cfg.target mem address length i).rowSizeLength =
      (nextRow cfg.target (fun _ => 0) address length i).rowSizeLength := by
    intro i
    unfold nextRow
    cases cfg.target with
    | esp32 preBuf postBuf =>
      dsimp only
      split_ifs
      · rfl
      · rfl
      · rfl
    | xts blockMax64 => rfl
  unfold rowCount rows
  simp only [hsize]

/-- Where the bus is held throughout, its `end` is not the first to fail; else only writes are. -/
def RowsHarmless (lockOnce : Bool) (answers : Nat → EspErr) (count : Nat) : Prop :=
  if lockOnce then ¬FirstFailure succeeds answers 0 (count + 1) else OnlyWritesFail answers 0 count

theorem encrypted_sound_iff :
    Sound address.toNat length.toNat
      ((espFlashWriteEncrypted cfg chip lockOnce address buffer length).trace answers 0) ↔
      (EncryptedBegun chip buffer address length →
        RowsHarmless lockOnce answers (rowCount cfg address.toNat length.toNat)) := by
  unfold espFlashWriteEncrypted EncryptedBegun
  cases hdefault : chip.isDefault with
  | false => exact iff_of_true sound_nil fun h => absurd h.1 Bool.false_ne_true
  | true =>
    simp only [Bool.not_true, Bool.false_eq_true, if_false]
    cases hallowed : checkWriteAddress chip address length with
    | some err => exact iff_of_true sound_nil fun h => absurd h.2.1 (by simp)
    | none =>
      cases buffer with
      | none => exact iff_of_true sound_nil fun h => absurd rfl h.2.2.1
      | some mem =>
        dsimp only
        split_ifs with hfit haddress hlen hlength
        · exact iff_of_true sound_nil fun h => absurd hfit (fits_iff.mp h.2.2.2.1)
        · exact iff_of_true sound_nil fun h => absurd h.2.2.2.2.1 haddress
        · exact iff_of_true sound_nil fun h => absurd hlen h.2.2.2.2.2.2
        · exact iff_of_true sound_nil fun h => absurd h.2.2.2.2.2.1 hlength
        · rw [not_not] at haddress hlength
          have hmod : length.toNat % 16 = 0 := by
            have := congrArg UInt32.toNat hlength
            rwa [UInt32.toNat_mod] at this
          have hbegun : True ∧ none = (none : Option EspErr) ∧ some mem ≠ none ∧ Fits chip address length ∧
              address % 16 = 0 ∧ length % 16 = 0 ∧ length ≠ 0 :=
            ⟨trivial, rfl, by simp, fits_iff.mpr hfit, haddress, hlength, hlen⟩
          have hfitrows : RowsFit (nextRow cfg.target mem address.toNat length.toNat) length.toNat :=
            nextRow_fit cfg.target mem hmod
          rw [← rows_length mem]
          unfold RowsHarmless
          cases lockOnce with
          | true =>
            rw [writeRows_once_sound_iff hfitrows, if_pos rfl]
            exact ⟨fun h _ => h, fun h => h hbegun⟩
          | false =>
            rw [writeRows_each_sound_iff hfitrows, if_neg Bool.false_ne_true]
            exact ⟨fun h _ => h, fun h => h hbegun⟩

end encrypted

/-! ## Requests -/

inductive Request
  | read (flash : Mem) (place : Place) (buffer : Option Mem) (address length : UInt32)
  | write (direct : Bool) (buffer : Option Mem) (address length : UInt32)
  | erase (start len : UInt32)
  | writeEncrypted (lockOnce : Bool) (address : UInt32) (buffer : Option Mem) (length : UInt32)

namespace Request

/-- The calls that a request makes. -/
def trace (cfg : Config) (chip : Chip) (answers : Nat → EspErr) : Request → List (Call × EspErr)
  | .read flash place buffer address length =>
    (espFlashRead flash cfg chip place buffer address length).trace answers 0
  | .write direct buffer address length => (espFlashWrite cfg chip direct buffer address length).trace answers 0
  | .erase start len => (espFlashEraseRegion cfg chip start len).trace answers 0
  | .writeEncrypted lockOnce address buffer length =>
    (espFlashWriteEncrypted cfg chip lockOnce address buffer length).trace answers 0

def range : Request → UInt32 × UInt32
  | .read _ _ _ address length => (address, length)
  | .write _ _ address length => (address, length)
  | .erase start len => (start, len)
  | .writeEncrypted _ address _ length => (address, length)

/-- What may fail. -/
def Harmless (cfg : Config) (chip : Chip) (answers : Nat → EspErr) : Request → Prop
  | .read _ _ _ _ _ => True
  | .write direct buffer address length =>
    WriteBegun chip buffer address length →
      Safe chip.yields answers 0 (writePieces cfg direct address.toNat length.toNat).length false
  | .erase start len =>
    EraseBegun chip start len → LookUpPasses chip start len answers →
      Safe chip.yields answers (lookUpLength chip) (erasePieces cfg chip start.toNat len.toNat).length false
  | .writeEncrypted lockOnce address buffer length =>
    EncryptedBegun chip buffer address length →
      RowsHarmless lockOnce answers (rowCount cfg address.toNat length.toNat)

end Request

/-- The bus is released as often as it is acquired, and the cache is flushed, exactly if what fails is harmless. -/
theorem bus_sound_iff (cfg : Config) (chip : Chip) (answers : Nat → EspErr) (req : Request) :
    Sound req.range.1.toNat req.range.2.toNat (req.trace cfg chip answers) ↔ req.Harmless cfg chip answers := by
  cases req with
  | read flash place buffer address length => exact iff_of_true (read_sound cfg chip place buffer address length) trivial
  | write direct buffer address length => exact write_sound_iff
  | erase start len => exact erase_sound_iff
  | writeEncrypted lockOnce address buffer length => exact encrypted_sound_iff

/-- The `end` between two pieces of a write fails: the bus is released twice. -/
theorem released_twice :
    ¬ ∀ (cfg : Config) (chip : Chip) (answers : Nat → EspErr) (req : Request),
      Sound req.range.1.toNat req.range.2.toNat (req.trace cfg chip answers) := by
  intro h
  have hsound := h .default chip4M (fun n => if n = 3 then -1 else ESP_OK) (.write false (some fun _ => 0) 0x1000 64)
  exact absurd hsound.balanced (by decide)

end EspIdf.Flash
