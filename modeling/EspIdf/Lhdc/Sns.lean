import EspIdf.Lhdc.BitReader

/-!
# LHDC V5: the scale factors of the noise shaping

* `chk` : 32-bit arithmetic that fails where it would overflow;
* `snsAdsqInverse` : the scale factors from their side bits, with the states that it goes through;
* `snsPostSmooth` : mean removal, the sliding window and the clamp;
* `snsDirect` : the same from the sum over each window;
* `lhdcSnsDecodeParams`, `snsGainIndex` : the side information of a channel, and the index of a gain;
* `sns_synthesis` : nothing overflows, the sliding window is the direct one, and everything is in range.
-/

namespace EspIdf.Lhdc

/-- An `int32_t`, unless the value does not fit. -/
def chk (n : Int) : Option Int := if -2147483648 ≤ n ∧ n < 2147483648 then some n else none

/-- The same for an `int64_t`. -/
def chk64 (n : Int) : Option Int := if -9223372036854775808 ≤ n ∧ n < 9223372036854775808 then some n else none

theorem chk_of {n : Int} (h0 : -2147483648 ≤ n) (h : n < 2147483648) : chk n = some n := if_pos ⟨h0, h⟩

theorem chk64_of {n : Int} (h0 : -9223372036854775808 ≤ n) (h : n < 9223372036854775808) : chk64 n = some n := if_pos ⟨h0, h⟩

def LHDC_SNS_STEP_POS : List Int :=
  [6, 13, 19, 26, 32, 38, 45, 51, 58, 64, 77, 90, 102, 115, 128, 141, 154, 166, 186, 205, 224, 243,
   262, 282, 301, 326, 352, 378, 403, 429, 461, 493, 525, 557, 595, 634, 672, 717, 762, 813, 870,
   934, 1005, 1082, 1165, 1254, 1350, 1453, 1562, 1677, 1798, 1926, 2061, 2202, 2349, 2502,
   2662, 2829, 3002, 3187, 3386, 3603, 3840, 4096]

def snsStep (bit : Bool) (state : Int) : Int :=
  let state := if state < 0 then 0 else state
  let state := if state > 63 then 63 else state
  let s := LHDC_SNS_STEP_POS.getD state.toNat 0
  if bit then -s else s

/-! ## The side bits -/

/-- The variables of `sns_adsq_inverse`, with the scale factors so far and the states they were stepped by. -/
structure Adsq where
  sf : List Int
  state : Int
  run : Int
  prev : Option Bool
  states : List Int

/-- The state and the run for the next bit. -/
def adsqState (a : Adsq) (bit : Bool) : Option (Int × Int) :=
  if 2 ≤ a.sf.length then
    if a.prev = some bit then do
      let run ← chk (a.run + 1)
      let state ← chk (a.state + run)
      some (if state > 63 then 63 else state, run)
    else do
      let three ← chk (3 * a.state)
      let state ← chk (three + 2)
      some (if state >>> (2 : Nat) < 0 then 0 else state >>> (2 : Nat), 1)
  else some (a.state, a.run)

def adsqStep (a : Adsq) (bit : Bool) : Option Adsq := do
  let next ← adsqState a bit
  let v ← chk (a.sf.getLastD 0 + snsStep bit next.1)
  some { sf := a.sf ++ [v], state := next.1, run := next.2, prev := some bit, states := a.states ++ [next.1] }

def snsAdsqInverse (sideBits : List Bool) (snsMode : Int) : Option Adsq :=
  sideBits.foldlM adsqStep { sf := [0], state := snsMode, run := 1, prev := none, states := [] }

/-! ## Smoothing -/

def snsDivRound4 (x : Int) : Option Int := (chk (x + 2)).map fun y : Int => y >>> (2 : Nat)

def snsDiv3 (x : Int) : Option Int := (chk64 (x * 715827882)).bind fun y => chk (y >>> (31 : Nat))

/-- `round(2^31 / n)` -/
def numInv (n : Nat) : Int := if n = 24 then 89478485 else 67108864

def snsClamp (v : Int) : Int :=
  let v := if v < -2560 then -2560 else v
  if v > 1024 then 1024 else v

/-- The loop of the sliding window, with `left` turns to go, and the sum it leaves behind. -/
def smoothLoop (se : List Int) : (left i : Nat) → Int → Option (List Int × Int)
  | 0, _, total => some ([], total)
  | left + 1, i, total => do
    let change ← chk (se.getD (i + 2) 0 - se.getD (i - 2) 0)
    let total ← chk (total + change)
    let o ← snsDivRound4 total
    let rest ← smoothLoop se left (i + 1) total
    some (o :: rest.1, rest.2)

/-- The scale factors less their mean; the first one is zero on entry. -/
def meanRemove (sf : List Int) : Option (List Int) := do
  let sum ← (sf.drop 1).foldlM (fun sum v => chk (sum + v)) 0
  let neg ← chk (-sum)
  let product ← chk64 (neg * numInv sf.length)
  let s0 ← chk (product >>> (31 : Nat))
  let rest ← (sf.drop 1).mapM fun v => chk (v + s0)
  some (s0 :: rest)

/-- The window over `se`, which has at least four values. -/
def smooth (se : List Int) : Option (List Int) := do
  let two ← chk (se.getD 0 0 + se.getD 1 0)
  let three ← chk (two + se.getD 2 0)
  let total ← chk (three + se.getD 3 0)
  let second ← snsDivRound4 total
  let middle ← smoothLoop se (se.length - 4) 2 total
  let total ← chk (middle.2 - se.getD (se.length - 4) 0)
  let third ← snsDiv3 total
  some (se.getD 0 0 :: second :: (middle.1 ++ [third, se.getD (se.length - 2) 0]))

def snsPostSmooth (sf : List Int) : Option (List Int) :=
  if sf.length < 4 then some sf
  else do
    let se ← meanRemove sf
    let out ← smooth se
    out.mapM fun v => chk (-snsClamp v)

/-! ## The direct formula -/

/-- The sum over the `width` values from `a` on. -/
def windowSum (se : List Int) (a width : Nat) : Int := ((List.range' a width).map fun j => se.getD j 0).sum

/-- `x / 3`, rounded as the source does it. -/
def third (x : Int) : Int := (x * 715827882) / 2147483648

/-- One value below and two above, as far as there are any: the first value stands alone, and the last window is that of
the value below. -/
def average (se : List Int) (i : Nat) : Int :=
  if i = 0 then windowSum se 0 1
  else if i + 2 < se.length then (windowSum se (i - 1) 4 + 2) / 4
  else if i + 2 = se.length then third (windowSum se (i - 1) 3)
  else windowSum se (i - 1) 1

/-- The negated mean of the scale factors behind the first. -/
def negMean (sf : List Int) : Int := (-(sf.drop 1).sum * numInv sf.length) / 2147483648

def snsDirect (sf : List Int) : List Int :=
  let se := negMean sf :: (sf.drop 1).map (· + negMean sf)
  (List.range sf.length).map fun i => -max (-2560) (min 1024 (average se i))

/-! ## The side information of a channel -/

/-- The index into the table of gains, before it is clamped. -/
def snsGainIndex (sf : Int) : Option Int := if sf ≥ 0 then some (sf >>> (4 : Nat)) else (chk (sf + 0xa0f)).map fun y : Int => y >>> (4 : Nat)

def LHDC_DEC_MAX_SFB : Nat := 32

/-- One bit for each scale factor but the first. -/
def readSideBits : Nat → BitReader → List Bool × BitReader
  | 0, br => ([], br)
  | n + 1, br =>
    let bit := bitReaderRead br 1
    let rest := readSideBits n bit.2
    (decide (bit.1 % 2 = 1) :: rest.1, rest.2)

/-- `lhdc_sns_decode_params`: the mode and the scale factors; `none` within is a computation that overflows. -/
def lhdcSnsDecodeParams (br : BitReader) (numSfb : Nat) : Option (Int × Option (List Int)) × BitReader :=
  if numSfb < 1 ∨ numSfb > LHDC_DEC_MAX_SFB then (none, br)
  else
    let field := bitReaderRead br 4
    let snsMode : Int := field.1 + 8
    let side := readSideBits (numSfb - 1) field.2
    if snsMode = 23 then (some (snsMode, some (List.replicate numSfb 0)), side.2)
    else (some (snsMode, (snsAdsqInverse side.1 snsMode).bind fun a => snsPostSmooth a.sf), side.2)

/-! ## The side bits, decoded -/

theorem mem_step_bounds : ∀ s ∈ LHDC_SNS_STEP_POS, 0 ≤ s ∧ s ≤ 4096 := by decide

theorem snsStep_bounds (bit : Bool) (state : Int) : -4096 ≤ snsStep bit state ∧ snsStep bit state ≤ 4096 := by
  unfold snsStep
  dsimp only
  generalize (if (if state < 0 then 0 else state) > 63 then 63 else if state < 0 then 0 else state).toNat = i
  have hentry : 0 ≤ LHDC_SNS_STEP_POS.getD i 0 ∧ LHDC_SNS_STEP_POS.getD i 0 ≤ 4096 := by
    rw [List.getD_eq_getElem?_getD]
    cases hi : LHDC_SNS_STEP_POS[i]? with
    | none => decide
    | some s => exact mem_step_bounds s (List.mem_of_getElem? hi)
  split <;> omega

/-- What holds before each side bit. -/
structure Adsq.Ok (a : Adsq) : Prop where
  pos : 1 ≤ a.sf.length
  run : 1 ≤ a.run ∧ a.run ≤ a.sf.length
  state : 0 ≤ a.state ∧ a.state ≤ 63
  sf : ∀ v ∈ a.sf, -(4096 * a.sf.length : Int) ≤ v ∧ v ≤ 4096 * a.sf.length
  states : ∀ s ∈ a.states, 0 ≤ s ∧ s ≤ 63

theorem adsqState_spec {a : Adsq} (h : a.Ok) (hlen : a.sf.length ≤ 32) (bit : Bool) :
    ∃ state run, adsqState a bit = some (state, run) ∧ (0 ≤ state ∧ state ≤ 63) ∧ 1 ≤ run ∧ run ≤ a.sf.length + 1 := by
  have hrun := h.run
  have hstate := h.state
  unfold adsqState
  by_cases hlater : 2 ≤ a.sf.length
  · rw [if_pos hlater]
    by_cases hsame : a.prev = some bit
    · rw [if_pos hsame, chk_of (by omega) (by omega), Option.bind_eq_bind, Option.bind_some, chk_of (by omega) (by omega)]
      refine ⟨_, _, rfl, ?_, by omega, by omega⟩
      split <;> omega
    · rw [if_neg hsame, chk_of (by omega) (by omega), Option.bind_eq_bind, Option.bind_some, chk_of (by omega) (by omega)]
      refine ⟨_, _, rfl, ?_, by omega, by omega⟩
      rw [Int.shiftRight_eq_div_pow]
      split <;> omega
  · rw [if_neg hlater]
    exact ⟨_, _, rfl, hstate, hrun.1, by omega⟩

theorem adsqStep_spec {a : Adsq} (h : a.Ok) (hlen : a.sf.length ≤ 32) (bit : Bool) :
    ∃ a', adsqStep a bit = some a' ∧ a'.Ok ∧ a'.sf.length = a.sf.length + 1 := by
  obtain ⟨state, run, hnext, hstate, hrun⟩ := adsqState_spec h hlen bit
  have hstep := snsStep_bounds bit state
  have hlast : -(4096 * a.sf.length : Int) ≤ a.sf.getLastD 0 ∧ a.sf.getLastD 0 ≤ 4096 * a.sf.length := by
    have hne : a.sf ≠ [] := List.ne_nil_of_length_pos h.pos
    rw [List.getLastD_eq_getLast?, List.getLast?_eq_getLast_of_ne_nil hne]
    exact h.sf _ (List.getLast_mem hne)
  have hgrown : (a.sf ++ [a.sf.getLastD 0 + snsStep bit state]).length = a.sf.length + 1 := List.length_append
  refine ⟨⟨a.sf ++ [a.sf.getLastD 0 + snsStep bit state], state, run, some bit, a.states ++ [state]⟩, ?_, ?_, hgrown⟩
  · unfold adsqStep
    rw [hnext, Option.bind_eq_bind, Option.bind_some]
    dsimp only
    rw [chk_of (by omega) (by omega)]
    rfl
  · refine ⟨by dsimp only; omega, ⟨hrun.1, by dsimp only; omega⟩, hstate, fun v hv => ?_, fun s hs => ?_⟩
    · rw [hgrown]
      rcases List.mem_append.mp hv with hv | hv
      · have hold := h.sf v hv
        omega
      · rw [List.mem_singleton.mp hv]
        omega
    · rcases List.mem_append.mp hs with hs | hs
      · exact h.states s hs
      · rw [List.mem_singleton.mp hs]
        exact hstate

/-- Every string of side bits is decoded. -/
theorem adsqRun_spec (bits : List Bool) {a : Adsq} (h : a.Ok) (hlen : a.sf.length + bits.length ≤ 33) :
    ∃ a', bits.foldlM adsqStep a = some a' ∧ a'.Ok ∧ a'.sf.length = a.sf.length + bits.length := by
  induction bits generalizing a with
  | nil => exact ⟨a, rfl, h, rfl⟩
  | cons bit bits ih =>
    rw [List.length_cons] at hlen
    obtain ⟨mid, hmid, hok, hsize⟩ := adsqStep_spec h (by omega) bit
    obtain ⟨a', ha', hok', hsize'⟩ := ih hok (by omega)
    refine ⟨a', ?_, hok', by rw [List.length_cons]; omega⟩
    rw [List.foldlM_cons, hmid]
    exact ha'

theorem snsAdsqInverse_spec {bits : List Bool} {snsMode : Int} (hbits : bits.length ≤ 31)
    (hmode : 0 ≤ snsMode ∧ snsMode ≤ 63) : ∃ a, snsAdsqInverse bits snsMode = some a ∧ a.Ok ∧ a.sf.length = bits.length + 1 := by
  have hok : Adsq.Ok { sf := [0], state := snsMode, run := 1, prev := none, states := [] } := by
    refine ⟨Nat.le_refl _, ⟨Int.le_refl 1, Int.le_refl 1⟩, hmode, fun v hv => ?_, fun s hs => nomatch hs⟩
    rw [List.mem_singleton.mp hv, List.length_singleton]
    omega
  obtain ⟨a, ha, hok', hlen⟩ := adsqRun_spec bits hok (by rw [List.length_singleton]; omega)
  exact ⟨a, ha, hok', by rw [hlen, List.length_singleton, Nat.add_comm]⟩

/-! ## The window, slid along -/

/-- Every value of a list is within `b` of zero. -/
def Bounded (b : Int) (l : List Int) : Prop := ∀ v ∈ l, -b ≤ v ∧ v ≤ b

section smooth
variable {b : Int} {l se sf : List Int}

theorem Bounded.sum (h : Bounded b l) : -(b * l.length) ≤ l.sum ∧ l.sum ≤ b * l.length := by
  induction l with
  | nil => simp
  | cons v l ih =>
    have hv := h v List.mem_cons_self
    have hl := ih fun x hx => h x (List.mem_cons_of_mem _ hx)
    rw [List.sum_cons, List.length_cons, Nat.cast_succ, mul_add, mul_one]
    omega

theorem Bounded.getD (h : Bounded b l) (hb : 0 ≤ b) (i : Nat) : -b ≤ l.getD i 0 ∧ l.getD i 0 ≤ b := by
  rw [List.getD_eq_getElem?_getD]
  cases hi : l[i]? with
  | none => exact ⟨by simpa using hb, hb⟩
  | some v => exact h v (List.mem_of_getElem? hi)

theorem sumM_eq (h : Bounded b l) (hb : 0 ≤ b) {acc : Int} (h0 : -2147483648 ≤ acc - b * l.length)
    (h1 : acc + b * l.length < 2147483648) : l.foldlM (fun sum v => chk (sum + v)) acc = some (acc + l.sum) := by
  induction l generalizing acc with
  | nil => simp
  | cons v l ih =>
    have hv := h v List.mem_cons_self
    have hnonneg : 0 ≤ b * l.length := mul_nonneg hb (Int.natCast_nonneg _)
    rw [List.length_cons, Nat.cast_succ, mul_add, mul_one] at h0 h1
    rw [List.foldlM_cons, chk_of (by omega) (by omega), Option.bind_eq_bind, Option.bind_some,
      ih (fun x hx => h x (List.mem_cons_of_mem _ hx)) (by omega) (by omega), List.sum_cons, add_assoc]

theorem mapM_chk {f : Int → Int} (h : ∀ v ∈ l, chk (f v) = some (f v)) : l.mapM (fun v => chk (f v)) = some (l.map f) := by
  induction l with
  | nil => rfl
  | cons v l ih =>
    rw [List.mapM_cons, h v List.mem_cons_self, ih fun x hx => h x (List.mem_cons_of_mem _ hx)]
    rfl

theorem windowSum_four (se : List Int) (a : Nat) :
    windowSum se a 4 = se.getD a 0 + se.getD (a + 1) 0 + se.getD (a + 2) 0 + se.getD (a + 3) 0 := by
  simp only [windowSum, List.range', List.map_cons, List.map_nil, List.sum_cons, List.sum_nil]
  ring

theorem windowSum_three (se : List Int) (a : Nat) :
    windowSum se a 3 = se.getD a 0 + se.getD (a + 1) 0 + se.getD (a + 2) 0 := by
  simp only [windowSum, List.range', List.map_cons, List.map_nil, List.sum_cons, List.sum_nil]
  ring

theorem windowSum_one (se : List Int) (a : Nat) : windowSum se a 1 = se.getD a 0 := by
  simp only [windowSum, List.range', List.map_cons, List.map_nil, List.sum_cons, List.sum_nil, add_zero]

theorem snsDivRound4_eq {x : Int} (h0 : -2147483648 ≤ x) (h : x < 2147483646) : snsDivRound4 x = some ((x + 2) / 4) := by
  unfold snsDivRound4
  rw [chk_of (by omega) (by omega), Option.map_some, Int.shiftRight_eq_div_pow]
  rfl

theorem snsDiv3_eq {x : Int} (h0 : -2147483648 ≤ x) (h : x < 2147483648) : snsDiv3 x = some (third x) := by
  unfold snsDiv3 third
  rw [chk64_of (by omega) (by omega), Option.bind_some, Int.shiftRight_eq_div_pow]
  exact chk_of (by omega) (by omega)

/-- Before index `i + 2`, the sum is that of the window before. -/
theorem smoothLoop_eq (h : Bounded 400000 se) (left i : Nat) :
    smoothLoop se left (i + 2) (windowSum se i 4) =
      some ((List.range' (i + 2) left).map fun k => (windowSum se (k - 1) 4 + 2) / 4, windowSum se (i + left) 4) := by
  induction left generalizing i with
  | zero => rfl
  | succ left ih =>
    have hbound := h.getD (by decide)
    have h0 := hbound i
    have h1 := hbound (i + 1)
    have h2 := hbound (i + 2)
    have h3 := hbound (i + 3)
    have h4 := hbound (i + 4)
    have hslide : windowSum se i 4 + (se.getD (i + 4) 0 - se.getD i 0) = windowSum se (i + 1) 4 := by
      rw [windowSum_four, windowSum_four]
      ring
    have hsum := windowSum_four se (i + 1)
    simp only [Nat.add_assoc, Nat.reduceAdd] at hsum
    rw [smoothLoop, Nat.add_sub_cancel]
    simp only [Nat.add_assoc, Nat.reduceAdd]
    rw [chk_of (by omega) (by omega), Option.bind_eq_bind, Option.bind_some, hslide, chk_of (by omega) (by omega), Option.bind_some, snsDivRound4_eq (by omega) (by omega), Option.bind_some]
    have hrest := ih (i + 1)
    simp only [Nat.add_assoc, Nat.reduceAdd] at hrest
    rw [hrest, Nat.add_comm 1 left]
    rfl

theorem average_middle {m k : Nat} (hlen : se.length = m + 4) (hk : k ∈ List.range' 2 m) :
    average se k = (windowSum se (k - 1) 4 + 2) / 4 := by
  obtain ⟨hlow, hhigh⟩ := List.mem_range'_1.mp hk
  unfold average
  rw [if_neg (by omega), if_pos (by omega)]

theorem smooth_eq (h : Bounded 400000 se) (hlen : 4 ≤ se.length) :
    smooth se = some ((List.range se.length).map (average se)) := by
  obtain ⟨m, hm⟩ := Nat.exists_eq_add_of_le' hlen
  have hbound := h.getD (by decide)
  have h0 := hbound 0
  have h1 := hbound 1
  have h2 := hbound 2
  have h3 := hbound 3
  have hfirst := windowSum_four se 0
  have hlast := windowSum_four se m
  have hthree := windowSum_three se (m + 1)
  simp only [Nat.zero_add, Nat.add_assoc, Nat.reduceAdd] at hfirst hthree
  have hrange : List.range (m + 4) = 0 :: 1 :: (List.range' 2 m ++ [m + 2, m + 3]) := by
    rw [List.range_eq_range', List.range'_succ, List.range'_succ, List.range'_concat, List.range'_concat, List.append_assoc]
    simp [Nat.add_comm]
  have hmiddle : (List.range' 2 m).map (average se) = (List.range' 2 m).map fun k => (windowSum se (k - 1) 4 + 2) / 4 :=
    List.map_congr_left fun k hk => average_middle hm hk
  have hfirsts : average se 0 = se.getD 0 0 ∧ average se 1 = (windowSum se 0 4 + 2) / 4 :=
    ⟨windowSum_one se 0, by rw [average, if_neg Nat.one_ne_zero, if_pos (by omega)]⟩
  have hlasts : average se (m + 2) = third (windowSum se (m + 1) 3) ∧ average se (m + 3) = se.getD (m + 2) 0 := by
    unfold average
    rw [if_neg (by omega), if_neg (by omega), if_pos (by omega), if_neg (by omega), if_neg (by omega), if_neg (by omega)]
    exact ⟨rfl, windowSum_one se (m + 2)⟩
  have hloop : smoothLoop se m 2 (windowSum se 0 4) = _ := smoothLoop_eq h m 0
  rw [Nat.zero_add, Nat.zero_add] at hloop
  have hend : -1200000 ≤ windowSum se (m + 1) 3 ∧ windowSum se (m + 1) 3 ≤ 1200000 := by
    have hm1 := hbound (m + 1)
    have hm2 := hbound (m + 2)
    have hm3 := hbound (m + 3)
    omega
  have hdrop : windowSum se m 4 - se.getD m 0 = windowSum se (m + 1) 3 := by omega
  unfold smooth
  rw [chk_of (by omega) (by omega), Option.bind_eq_bind, Option.bind_some, chk_of (by omega) (by omega), Option.bind_some,
    ← hfirst, chk_of (by omega) (by omega), Option.bind_some, snsDivRound4_eq (by omega) (by omega), Option.bind_some, hm,
    Nat.add_sub_cancel, hloop]
  simp only [Option.bind_eq_bind, Option.bind_some]
  rw [hdrop, chk_of (by omega) (by omega), Option.bind_some, snsDiv3_eq (by omega) (by omega), Option.bind_some, hrange]
  simp only [List.map_cons, List.map_append, List.map_nil, hmiddle, hfirsts, hlasts]
  rfl

/-- The mean of bounded scale factors is taken off without overflow. -/
theorem meanRemove_eq (h : Bounded 131072 sf) (hlen : sf.length ≤ 32) :
    meanRemove sf = some (negMean sf :: (sf.drop 1).map (· + negMean sf)) ∧
      Bounded 400000 (negMean sf :: (sf.drop 1).map (· + negMean sf)) := by
  have hdrop : Bounded 131072 (sf.drop 1) := fun v hv => h v (List.mem_of_mem_drop hv)
  have hsize : (sf.drop 1).length ≤ 31 := by rw [List.length_drop]; omega
  have hsum := hdrop.sum
  have hinv : numInv sf.length = 89478485 ∨ numInv sf.length = 67108864 := by
    unfold numInv
    split
    · exact .inl rfl
    · exact .inr rfl
  have hmean : negMean sf = (-(sf.drop 1).sum * numInv sf.length) / 2147483648 := rfl
  have hproduct : -363672000000000 ≤ -(sf.drop 1).sum * numInv sf.length ∧
      -(sf.drop 1).sum * numInv sf.length ≤ 363672000000000 := by
    rcases hinv with hinv | hinv
    · rw [hinv]
      omega
    · rw [hinv]
      omega
  have hsmall : -169400 ≤ negMean sf ∧ negMean sf ≤ 169400 := by omega
  constructor
  · unfold meanRemove
    rw [sumM_eq hdrop (by decide) (by omega) (by omega), Option.bind_eq_bind, Option.bind_some, Int.zero_add,
      chk_of (by omega) (by omega), Option.bind_some, chk64_of (by omega) (by omega), Option.bind_some,
      Int.shiftRight_eq_div_pow]
    have hcast : -(sf.drop 1).sum * numInv sf.length / ((2 ^ 31 : Nat) : Int) = negMean sf := rfl
    rw [hcast, chk_of (by omega) (by omega), Option.bind_some, mapM_chk fun v hv => ?_]
    · rfl
    · have hv' := hdrop v hv
      exact chk_of (by omega) (by omega)
  · intro v hv
    rcases List.mem_cons.mp hv with rfl | hv
    · omega
    · obtain ⟨u, hu, rfl⟩ := List.mem_map.mp hv
      have hu' := hdrop u hu
      omega

theorem snsClamp_eq (v : Int) : snsClamp v = max (-2560) (min 1024 v) := by
  unfold snsClamp
  dsimp only
  split_ifs <;> omega

/-- The sliding window gives what the direct formula gives. -/
theorem snsPostSmooth_eq (h : Bounded 131072 sf) (h4 : 4 ≤ sf.length) (hlen : sf.length ≤ 32) :
    snsPostSmooth sf = some (snsDirect sf) := by
  obtain ⟨hmean, hbound⟩ := meanRemove_eq h hlen
  have hsize : (negMean sf :: (sf.drop 1).map (· + negMean sf)).length = sf.length := by
    rw [List.length_cons, List.length_map, List.length_drop]
    omega
  unfold snsPostSmooth
  rw [if_neg (by omega), hmean, Option.bind_eq_bind, Option.bind_some, smooth_eq hbound (by omega), Option.bind_some,
    mapM_chk fun v _ => ?_]
  · rw [List.map_map, hsize]
    refine congrArg some (List.map_congr_left fun i _ => ?_)
    rw [Function.comp_apply, snsClamp_eq]
  · rw [snsClamp_eq]
    exact chk_of (by omega) (by omega)

theorem snsDirect_bounds {v : Int} (h : v ∈ snsDirect sf) : -1024 ≤ v ∧ v ≤ 2560 := by
  obtain ⟨i, -, rfl⟩ := List.mem_map.mp h
  omega

/-- The index of a gain is in the table before it is clamped. -/
theorem snsGainIndex_bounds {v : Int} (h : -1024 ≤ v ∧ v ≤ 2560) : ∃ i, snsGainIndex v = some i ∧ 0 ≤ i ∧ i ≤ 160 := by
  unfold snsGainIndex
  by_cases hv : v ≥ 0
  · rw [if_pos hv, Int.shiftRight_eq_div_pow]
    exact ⟨_, rfl, by omega, by omega⟩
  · rw [if_neg hv, chk_of (by omega) (by omega), Option.map_some, Int.shiftRight_eq_div_pow]
    exact ⟨_, rfl, by omega, by omega⟩

end smooth

/-- The two steps together: nothing overflows. -/
theorem sns_spec {bits : List Bool} {snsMode : Int} (hmode : 0 ≤ snsMode ∧ snsMode ≤ 63) (h3 : 3 ≤ bits.length)
    (hbits : bits.length ≤ 31) :
    ∃ a, snsAdsqInverse bits snsMode = some a ∧ a.sf.length = bits.length + 1 ∧ (∀ s ∈ a.states, 0 ≤ s ∧ s ≤ 63) ∧
      snsPostSmooth a.sf = some (snsDirect a.sf) := by
  obtain ⟨a, ha, hok, hlen⟩ := snsAdsqInverse_spec hbits hmode
  have hbound : Bounded 131072 a.sf := fun v hv => by
    have hv' := hok.sf v hv
    omega
  exact ⟨a, ha, hlen, hok.states, snsPostSmooth_eq hbound (by omega) (by omega)⟩

/-- For every string of side bits, every mode and both numbers of bands. -/
theorem sns_synthesis {bits : List Bool} {snsMode : Int} {numSfb : Nat} (hmode : 8 ≤ snsMode ∧ snsMode ≤ 22)
    (hbands : numSfb = 24 ∨ numSfb = 32) (hbits : bits.length = numSfb - 1) :
    ∃ a sf, snsAdsqInverse bits snsMode = some a ∧ a.sf.length = numSfb ∧ (∀ s ∈ a.states, 0 ≤ s ∧ s ≤ 63) ∧
      snsPostSmooth a.sf = some sf ∧ sf = snsDirect a.sf ∧
      ∀ v ∈ sf, (-1024 ≤ v ∧ v ≤ 2560) ∧ ∃ i, snsGainIndex v = some i ∧ 0 ≤ i ∧ i ≤ 160 := by
  obtain ⟨a, ha, hlen, hstates, hsmooth⟩ := @sns_spec bits snsMode (by omega) (by omega) (by omega)
  refine ⟨a, snsDirect a.sf, ha, by omega, hstates, hsmooth, rfl, fun v hv => ?_⟩
  have hrange := snsDirect_bounds hv
  exact ⟨hrange, snsGainIndex_bounds hrange⟩

/-- Twenty-four bands, all of whose side bits are set. -/
theorem sns_synthesis_ones : ∃ a sf, snsAdsqInverse (List.replicate 23 true) 11 = some a ∧ a.sf.length = 24 ∧
    (∀ s ∈ a.states, 0 ≤ s ∧ s ≤ 63) ∧ snsPostSmooth a.sf = some sf ∧ sf = snsDirect a.sf ∧
    ∀ v ∈ sf, (-1024 ≤ v ∧ v ≤ 2560) ∧ ∃ i, snsGainIndex v = some i ∧ 0 ≤ i ∧ i ≤ 160 :=
  sns_synthesis (by decide) (.inl rfl) (by decide)

end EspIdf.Lhdc
