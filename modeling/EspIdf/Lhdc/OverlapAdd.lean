import Mathlib.Algebra.Ring.Int.Defs
import Mathlib.Data.List.Basic

/-!
# LHDC V5: windowing and overlap-add

* `scan`, `checkAll`, `fill` : loops over arrays, which fail where an index is out of bounds;
* `windowPrepare` : the analysis of a window, and the descriptor it leaves;
* `overlapAdd` : the structured path, and the loop over the whole window;
* `Shape` : what a descriptor says about its window, `describe_shape`, `prepared_describes`;
* `structured_eq_generic` : after any analyses the two paths agree.

The samples are those of any semiring.
-/

namespace EspIdf.Lhdc.Overlap

variable {R : Type}

/-! ## Loops over arrays -/

/-- `while (i < limit && p(w[i])) i++`, with `left` places to go. -/
def scan (p : R → Bool) (w : List R) : (left i : Nat) → Option Nat
  | 0, i => some i
  | left + 1, i => (w[i]?).bind fun v => if p v then scan p w left (i + 1) else some i

/-- `for (k = 0; k < n; k++) if (!f(k)) return;` -/
def checkAll (f : Nat → Option Bool) : (n k : Nat) → Option Bool
  | 0, _ => some true
  | n + 1, k => (f k).bind fun b => if b then checkAll f n (k + 1) else some false

/-- `for (k = 0; k < n; k++) a[start + k] = f(k);` -/
def fill (f : Nat → Option R) (start : Nat) : (n k : Nat) → List R → Option (List R)
  | 0, _, a => some a
  | n + 1, k, a => (f k).bind fun v => if start + k < a.length then fill f start n (k + 1) (a.set (start + k) v) else none

section loops
variable {w : List R} {p : R → Bool}

theorem scan_spec (left i : Nat) (h : i + left ≤ w.length) :
    ∃ j, scan p w left i = some j ∧ i ≤ j ∧ j ≤ i + left ∧ (∀ k v, i ≤ k → k < j → w[k]? = some v → p v = true) := by
  induction left generalizing i with
  | zero => exact ⟨i, rfl, Nat.le_refl i, Nat.le_refl i, fun k v hk hj => absurd hk (Nat.not_le_of_lt hj)⟩
  | succ left ih =>
    have hread : w[i]? = some w[i] := List.getElem?_eq_getElem (by omega)
    rw [scan, hread, Option.bind_some]
    by_cases hp : p w[i] = true
    · obtain ⟨j, hj, hij, hle, hall⟩ := ih (i + 1) (by omega)
      rw [if_pos hp]
      refine ⟨j, hj, by omega, by omega, fun k v hk hkj hv => ?_⟩
      rcases Nat.eq_or_lt_of_le hk with rfl | hlt
      · rw [hread] at hv
        exact Option.some.inj hv ▸ hp
      · exact hall k v hlt hkj hv
    · rw [if_neg hp]
      exact ⟨i, rfl, Nat.le_refl i, by omega, fun k v hk hj => absurd hk (Nat.not_le_of_lt hj)⟩

theorem checkAll_spec {f : Nat → Option Bool} {g : Nat → Bool} (n k : Nat) (h : ∀ i, k ≤ i → i < k + n → f i = some (g i)) :
    ∃ b, checkAll f n k = some b ∧ (b = true → ∀ i, k ≤ i → i < k + n → g i = true) := by
  induction n generalizing k with
  | zero => exact ⟨true, rfl, fun _ i hi hlt => absurd hi (Nat.not_le_of_lt hlt)⟩
  | succ n ih =>
    rw [checkAll, h k (Nat.le_refl k) (by omega), Option.bind_some]
    cases hg : g k with
    | false => exact ⟨false, rfl, fun hb => nomatch hb⟩
    | true =>
      obtain ⟨b, hb, hall⟩ := ih (k + 1) fun i hi hlt => h i (by omega) (by omega)
      refine ⟨b, hb, fun hok i hi hlt => ?_⟩
      rcases Nat.eq_or_lt_of_le hi with rfl | hlater
      · exact hg
      · exact hall hok i hlater (by omega)

theorem fill_spec {f : Nat → Option R} {g : Nat → R} {start : Nat} (n k : Nat) (a : List R)
    (h : ∀ i, k ≤ i → i < k + n → f i = some (g i)) (hlen : start + k + n ≤ a.length) :
    ∃ b, fill f start n k a = some b ∧ b.length = a.length ∧
      ∀ i, b[i]? = if start + k ≤ i ∧ i < start + k + n then some (g (i - start)) else a[i]? := by
  induction n generalizing k a with
  | zero => exact ⟨a, rfl, rfl, fun i => (if_neg (by omega)).symm⟩
  | succ n ih =>
    obtain ⟨b, hb, hsize, hread⟩ := ih (k + 1) (a.set (start + k) (g k)) (fun i hi hlt => h i (by omega) (by omega))
      (by rw [List.length_set]; omega)
    rw [fill, h k (Nat.le_refl k) (by omega), Option.bind_some, if_pos (by omega)]
    refine ⟨b, hb, hsize.trans List.length_set, fun i => ?_⟩
    rw [hread i]
    rcases Nat.lt_trichotomy i (start + k) with hlt | rfl | hgt
    · rw [if_neg (by omega), if_neg (by omega), List.getElem?_set_ne (by omega)]
    · rw [if_neg (by omega), if_pos (by omega), List.getElem?_set_self (by omega), Nat.add_sub_cancel_left]
    · by_cases hin : i < start + k + (n + 1)
      · rw [if_pos (by omega), if_pos (by omega)]
      · rw [if_neg (by omega), if_neg (by omega), List.getElem?_set_ne (by omega)]

theorem getElem?_getD [Zero R] {l : List R} {i : Nat} (h : i < l.length) : l[i]? = some (l.getD i 0) := by
  rw [List.getD_eq_getElem?_getD, List.getElem?_eq_getElem h, Option.getD_some]

/-- The values of an array of values, stored one after the other. -/
theorem fill_at {f : Nat → Option R} {g : Nat → R} {start : Nat} (n : Nat) (a : List R)
    (h : ∀ k, k < n → f k = some (g (start + k))) (hlen : start + n ≤ a.length) :
    ∃ b, fill f start n 0 a = some b ∧ b.length = a.length ∧
      ∀ i, b[i]? = if start ≤ i ∧ i < start + n then some (g i) else a[i]? := by
  obtain ⟨b, hb, hsize, hread⟩ := @fill_spec R f (fun k => g (start + k)) start n 0 a
    (fun k _ hk => h k (by omega)) (by omega)
  refine ⟨b, hb, hsize, fun i => ?_⟩
  rw [hread i, Nat.add_zero]
  by_cases hin : start ≤ i ∧ i < start + n
  · rw [if_pos hin, if_pos hin]
    exact congrArg some (congrArg g (by omega))
  · rw [if_neg hin, if_neg hin]

end loops

/-! ## The window -/

variable [Semiring R] [DecidableEq R]

/-- `lhdc_win_desc_t` -/
structure Desc (R : Type) where
  n : Nat
  h : Nat
  z : Nat
  t : Nat
  ramp : Option (List R)

/-- After `lhdc_dec_window_free_desc` -/
def Desc.freed : Desc R := ⟨0, 0, 0, 0, none⟩

/-- The runs `z` and `t` of a window that passes every check, `some none` for one that does not. -/
def describe (w : List R) (mdctSize : Nat) : Option (Option (Nat × Nat)) :=
  let h := mdctSize / 2
  (scan (fun v => decide (v = 0)) w mdctSize 0).bind fun z =>
    if z = 0 ∨ z ≥ h then some none
    else
      (scan (fun v => decide (v ≠ 1)) w (mdctSize - z) z).bind fun zt =>
        let t := zt - z
        if t = 0 ∨ z + t > h then some none
        else if z ≠ (h - t) / 2 then some none
        else
          (checkAll (fun k => (w[z + t + k]?).map fun v => decide (v = 1)) (h + z - (z + t)) 0).bind fun flat =>
            if !flat then some none
            else
              (checkAll (fun k => (w[h + z + k]?).bind fun a => (w[z + t - 1 - k]?).map fun b => decide (a = b)) t 0).bind
                fun mirror =>
                  if !mirror then some none
                  else
                    (checkAll (fun k => (w[h + z + t + k]?).map fun v => decide (v = 0)) (mdctSize - (h + z + t)) 0).map
                      fun tail => if tail then some (z, t) else none

/-- The contents of the window of each size. -/
abbrev Windows (R : Type) := Nat → List R

/-- A call of `lhdc_dec_window_prepare`: whether `lhdc_dec_get_window` has the window, and whether there is memory for the
ramp. -/
structure Prepare where
  mdctSize : Nat
  gotWindow : Bool
  malloced : Bool

section window
variable (window : Windows R)

/-- `lhdc_dec_window_prepare` -/
def windowPrepare (desc : Desc R) (call : Prepare) : Option (Desc R) :=
  let n := call.mdctSize
  if desc.n = n then some desc
  else if !call.gotWindow ∨ n < 4 ∨ n % 2 = 1 then some .freed
  else (describe (window n) n).map fun
    | none => .freed
    | some (z, t) => if call.malloced then ⟨n, n / 2, z, t, some (((window n).drop z).take t)⟩ else .freed

/-- The analyses of a run, one after the other. -/
def prepareAll : List Prepare → Desc R → Option (Desc R)
  | [], desc => some desc
  | call :: rest, desc => (windowPrepare window desc call).bind (prepareAll rest)

/-- The path that goes by the descriptor: `pcm_out` and the new overlap buffer. -/
def structured (ramp : List R) (z t overlap : Nat) (mdctOut pcmOut overlapBuf : List R) : Option (List R × List R) :=
  (fill (fun k => overlapBuf[k]?) 0 z 0 pcmOut).bind fun pcmOut =>
  (fill (fun k => (mdctOut[z + k]?).bind fun m => (ramp[k]?).bind fun r => (overlapBuf[z + k]?).map fun o => m * r + o)
    z t 0 pcmOut).bind fun pcmOut =>
  (fill (fun k => (mdctOut[z + t + k]?).bind fun m => (overlapBuf[z + t + k]?).map fun o => m + o)
    (z + t) (overlap - (z + t)) 0 pcmOut).bind fun pcmOut =>
  (fill (fun k => mdctOut[overlap + k]?) 0 z 0 overlapBuf).bind fun overlapBuf =>
  (fill (fun k => (mdctOut[overlap + z + k]?).bind fun m => (ramp[t - 1 - k]?).map fun r => m * r) z t 0 overlapBuf).bind
    fun overlapBuf =>
  (fill (fun _ => some 0) (z + t) (overlap - z - t) 0 overlapBuf).map fun overlapBuf => (pcmOut, overlapBuf)

/-- The loop over the whole window. -/
def generic (w : List R) (overlap : Nat) (mdctOut pcmOut overlapBuf : List R) : Option (List R × List R) :=
  (fill (fun k => (mdctOut[k]?).bind fun m => (w[k]?).bind fun v => (overlapBuf[k]?).map fun o => m * v + o)
    0 overlap 0 pcmOut).bind fun pcmOut =>
  (fill (fun k => (mdctOut[overlap + k]?).bind fun m => (w[overlap + k]?).map fun v => m * v) 0 overlap 0 overlapBuf).map
    fun overlapBuf => (pcmOut, overlapBuf)

/-- `lhdc_dec_overlap_add`; `gotWindow` is whether `lhdc_dec_get_window` has the window. -/
def overlapAdd (desc : Desc R) (mdctSize : Nat) (gotWindow : Bool) (mdctOut pcmOut overlapBuf : List R) :
    Option (List R × List R) :=
  let overlap := mdctSize / 2
  match desc.ramp, decide (desc.n = mdctSize) with
  | some ramp, true => structured ramp desc.z desc.t overlap mdctOut pcmOut overlapBuf
  | _, _ =>
    if gotWindow then generic (window mdctSize) overlap mdctOut pcmOut overlapBuf
    else
      (fill (fun _ => some 0) 0 overlap 0 pcmOut).bind fun pcmOut =>
      (fill (fun _ => some 0) 0 overlap 0 overlapBuf).map fun overlapBuf => (pcmOut, overlapBuf)

end window

/-! ## What a descriptor says -/

/-- Zeros, a ramp, ones, the ramp backwards, zeros. -/
structure Shape (w : List R) (n z t : Nat) : Prop where
  size : w.length = n
  even : n % 2 = 0
  fits : z + t ≤ n / 2
  zeros : ∀ i, i < z → w[i]? = some 0
  flat : ∀ i, z + t ≤ i → i < n / 2 + z → w[i]? = some 1
  mirror : ∀ k, k < t → w[n / 2 + z + k]? = w[z + t - 1 - k]?
  tail : ∀ i, n / 2 + z + t ≤ i → i < n → w[i]? = some 0

section shape
variable {w : List R} {n z t : Nat}

/-- The analysis stays within the window, and what it accepts has the shape. -/
theorem describe_shape (hsize : w.length = n) (heven : n % 2 = 0) :
    ∃ r, describe w n = some r ∧ ∀ z t, r = some (z, t) → Shape w n z t := by
  obtain ⟨z, hz, -, -, hzeros⟩ := @scan_spec R w (fun v => decide (v = 0)) n 0 (by omega)
  unfold describe
  dsimp only
  rw [hz, Option.bind_some]
  by_cases hhalf : z = 0 ∨ z ≥ n / 2
  · rw [if_pos hhalf]
    exact ⟨none, rfl, fun _ _ hr => nomatch hr⟩
  obtain ⟨zt, hzt, hge, hle, -⟩ := @scan_spec R w (fun v => decide (v ≠ 1)) (n - z) z (by omega)
  rw [if_neg hhalf, hzt, Option.bind_some]
  generalize hrun : zt - z = t
  by_cases hfits : t = 0 ∨ z + t > n / 2
  · rw [if_pos hfits]
    exact ⟨none, rfl, fun _ _ hr => nomatch hr⟩
  rw [if_neg hfits]
  by_cases hcentre : z ≠ (n / 2 - t) / 2
  · rw [if_pos hcentre]
    exact ⟨none, rfl, fun _ _ hr => nomatch hr⟩
  rw [if_neg hcentre]
  have hread : ∀ k, 0 ≤ k → k < 0 + (n / 2 + z - (z + t)) →
      (w[z + t + k]?).map (fun v => decide (v = 1)) = some (decide (w.getD (z + t + k) 0 = 1)) := fun k _ hk => by
    rw [getElem?_getD (by omega), Option.map_some]
  obtain ⟨flat, hflat, hones⟩ := checkAll_spec _ 0 hread
  rw [hflat, Option.bind_some]
  cases flat with
  | false => exact ⟨none, rfl, fun _ _ hr => nomatch hr⟩
  | true =>
    have hread : ∀ k, 0 ≤ k → k < 0 + t →
        ((w[n / 2 + z + k]?).bind fun a => (w[z + t - 1 - k]?).map fun b => decide (a = b)) =
          some (decide (w.getD (n / 2 + z + k) 0 = w.getD (z + t - 1 - k) 0)) := fun k _ hk => by
      rw [getElem?_getD (by omega), Option.bind_some, getElem?_getD (by omega), Option.map_some]
    obtain ⟨mirror, hmirror, hramp⟩ := checkAll_spec t 0 hread
    rw [if_neg (by decide), hmirror, Option.bind_some]
    cases mirror with
    | false => exact ⟨none, rfl, fun _ _ hr => nomatch hr⟩
    | true =>
      have hread : ∀ k, 0 ≤ k → k < 0 + (n - (n / 2 + z + t)) →
          (w[n / 2 + z + t + k]?).map (fun v => decide (v = 0)) = some (decide (w.getD (n / 2 + z + t + k) 0 = 0)) :=
        fun k _ hk => by rw [getElem?_getD (by omega), Option.map_some]
      obtain ⟨tail, htail, hend⟩ := checkAll_spec _ 0 hread
      rw [if_neg (by decide), htail, Option.map_some]
      cases tail with
      | false => exact ⟨none, rfl, fun _ _ hr => nomatch hr⟩
      | true =>
        refine ⟨some (z, t), rfl, fun z' t' hr => ?_⟩
        obtain ⟨rfl, rfl⟩ := Prod.mk.inj (Option.some.inj hr)
        refine ⟨hsize, heven, by omega, fun i hi => ?_, fun i h0 h1 => ?_, fun k hk => ?_, fun i h0 h1 => ?_⟩
        · have hv := getElem?_getD (l := w) (i := i) (by omega)
          rw [hv, of_decide_eq_true (hzeros i _ (Nat.zero_le i) hi hv)]
        · have hone := of_decide_eq_true (hones rfl (i - (z + t)) (Nat.zero_le _) (by omega))
          rw [Nat.add_sub_cancel' h0] at hone
          rw [getElem?_getD (by omega), hone]
        · have heq := of_decide_eq_true (hramp rfl k (Nat.zero_le k) (by omega))
          rw [getElem?_getD (by omega), getElem?_getD (l := w) (i := z + t - 1 - k) (by omega), heq]
        · have hzero := of_decide_eq_true (hend rfl (i - (n / 2 + z + t)) (Nat.zero_le _) (by omega))
          rw [Nat.add_sub_cancel' h0] at hzero
          rw [getElem?_getD (by omega), hzero]

/-- The six loops of the structured path do what the two loops of the generic one do. -/
theorem structured_eq (h : Shape w n z t) {mdctOut pcmOut overlapBuf : List R} (hmdct : n ≤ mdctOut.length)
    (hpcm : n / 2 ≤ pcmOut.length) (hbuf : n / 2 ≤ overlapBuf.length) :
    ∃ r, structured ((w.drop z).take t) z t (n / 2) mdctOut pcmOut overlapBuf = some r ∧
      generic w (n / 2) mdctOut pcmOut overlapBuf = some r := by
  have hsize := h.size
  have heven := h.even
  have hfits := h.fits
  let pcm : Nat → R := fun i => mdctOut.getD i 0 * w.getD i 0 + overlapBuf.getD i 0
  let buf : Nat → R := fun i => mdctOut.getD (n / 2 + i) 0 * w.getD (n / 2 + i) 0
  have hvalue : ∀ {i v}, w[i]? = some v → w.getD i 0 = v := fun {i v} hv => by
    rw [List.getD_eq_getElem?_getD, hv, Option.getD_some]
  have hramp : ∀ k, k < t → ((w.drop z).take t)[k]? = some (w.getD (z + k) 0) := fun k hk => by
    rw [List.getElem?_take_of_lt hk, List.getElem?_drop, getElem?_getD (by omega)]
  -- the generic path
  obtain ⟨gpcm, hgpcm, hgsize, hgread⟩ := @fill_at R
    (fun k => (mdctOut[k]?).bind fun m => (w[k]?).bind fun v => (overlapBuf[k]?).map fun o => m * v + o) pcm 0 (n / 2) pcmOut
    (fun k hk => by
      rw [getElem?_getD (by omega), Option.bind_some, getElem?_getD (by omega), Option.bind_some, getElem?_getD (by omega),
        Nat.zero_add]
      rfl) (by omega)
  obtain ⟨gbuf, hgbuf, hgsize', hgread'⟩ := @fill_at R
    (fun k => (mdctOut[n / 2 + k]?).bind fun m => (w[n / 2 + k]?).map fun v => m * v) buf 0 (n / 2) overlapBuf
    (fun k hk => by
      rw [getElem?_getD (by omega), Option.bind_some, getElem?_getD (by omega), Nat.zero_add]
      rfl) (by omega)
  -- the first half of the structured one
  obtain ⟨p1, hp1, hs1, hr1⟩ := @fill_at R (fun k => overlapBuf[k]?) pcm 0 z pcmOut (fun k hk => by
    have hzero : pcm (0 + k) = overlapBuf.getD k 0 := by
      simp only [pcm, Nat.zero_add, hvalue (h.zeros k hk), mul_zero, zero_add]
    rw [hzero]
    exact getElem?_getD (by omega)) (by omega)
  obtain ⟨p2, hp2, hs2, hr2⟩ := @fill_at R (fun k => (mdctOut[z + k]?).bind fun m => (((w.drop z).take t)[k]?).bind fun r =>
      (overlapBuf[z + k]?).map fun o => m * r + o) pcm z t p1 (fun k hk => by
    rw [getElem?_getD (by omega), Option.bind_some, hramp k hk, Option.bind_some, getElem?_getD (by omega)]
    rfl) (by omega)
  obtain ⟨p3, hp3, hs3, hr3⟩ := @fill_at R (fun k => (mdctOut[z + t + k]?).bind fun m =>
      (overlapBuf[z + t + k]?).map fun o => m + o) pcm (z + t) (n / 2 - (z + t)) p2 (fun k hk => by
    have hone : pcm (z + t + k) = mdctOut.getD (z + t + k) 0 + overlapBuf.getD (z + t + k) 0 := by
      simp only [pcm, hvalue (h.flat (z + t + k) (by omega) (by omega)), mul_one]
    rw [getElem?_getD (by omega), Option.bind_some, getElem?_getD (by omega), hone]
    rfl) (by omega)
  -- and the second
  obtain ⟨b1, hb1, ht1, hv1⟩ := @fill_at R (fun k => mdctOut[n / 2 + k]?) buf 0 z overlapBuf (fun k hk => by
    have hone : buf (0 + k) = mdctOut.getD (n / 2 + k) 0 := by
      simp only [buf, Nat.zero_add, hvalue (h.flat (n / 2 + k) (by omega) (by omega)), mul_one]
    rw [hone]
    exact getElem?_getD (by omega)) (by omega)
  obtain ⟨b2, hb2, ht2, hv2⟩ := @fill_at R (fun k => (mdctOut[n / 2 + z + k]?).bind fun m =>
      (((w.drop z).take t)[t - 1 - k]?).map fun r => m * r) buf z t b1 (fun k hk => by
    have hback : w.getD (n / 2 + (z + k)) 0 = w.getD (z + (t - 1 - k)) 0 := by
      have hmirror := h.mirror k hk
      rw [getElem?_getD (l := w) (i := z + t - 1 - k) (by omega)] at hmirror
      rw [← Nat.add_assoc, hvalue hmirror]
      exact congrArg (w.getD · 0) (by omega)
    rw [getElem?_getD (by omega), Option.bind_some, hramp (t - 1 - k) (by omega), Option.map_some, ← hback]
    simp only [buf, Nat.add_assoc]) (by omega)
  obtain ⟨b3, hb3, ht3, hv3⟩ := @fill_at R (fun _ => some 0) buf (z + t) (n / 2 - z - t) b2 (fun k hk => by
    simp only [buf, hvalue (h.tail (n / 2 + (z + t + k)) (by omega) (by omega)), mul_zero]) (by omega)
  have hpcm' : p3 = gpcm := by
    apply List.ext_getElem?
    intro i
    rw [hr3, hr2, hr1, hgread]
    split_ifs <;> first | rfl | omega
  have hbuf' : b3 = gbuf := by
    apply List.ext_getElem?
    intro i
    rw [hv3, hv2, hv1, hgread']
    split_ifs <;> first | rfl | omega
  refine ⟨(gpcm, gbuf), ?_, ?_⟩
  · unfold structured
    rw [hp1, Option.bind_some, hp2, Option.bind_some, hp3, Option.bind_some, hb1, Option.bind_some, hb2, Option.bind_some,
      hb3, Option.map_some, hpcm', hbuf']
  · unfold generic
    rw [hgpcm, Option.bind_some, hgbuf, Option.map_some]

end shape

section run
variable (window : Windows R)

/-- A ramp is there only for a window of the shape, and is the window's own. -/
def Describes (desc : Desc R) : Prop :=
  ∀ ramp, desc.ramp = some ramp →
    Shape (window desc.n) desc.n desc.z desc.t ∧ ramp = ((window desc.n).drop desc.z).take desc.t

variable {window}

omit [DecidableEq R] in
theorem describes_freed : Describes window (.freed : Desc R) := fun _ h => nomatch h

theorem describes_prepare (hsize : ∀ n, (window n).length = n) {desc : Desc R} (h : Describes window desc) (call : Prepare) :
    ∃ desc', windowPrepare window desc call = some desc' ∧ Describes window desc' := by
  unfold windowPrepare
  dsimp only
  by_cases hsame : desc.n = call.mdctSize
  · rw [if_pos hsame]
    exact ⟨desc, rfl, h⟩
  rw [if_neg hsame]
  by_cases hearly : !call.gotWindow ∨ call.mdctSize < 4 ∨ call.mdctSize % 2 = 1
  · rw [if_pos hearly]
    exact ⟨.freed, rfl, describes_freed⟩
  rw [if_neg hearly]
  have heven : call.mdctSize % 2 = 0 := by omega
  obtain ⟨r, hr, hshape⟩ := describe_shape (hsize call.mdctSize) heven
  rw [hr, Option.map_some]
  match r, hshape with
  | none, _ => exact ⟨.freed, rfl, describes_freed⟩
  | some (z, t), hshape =>
    refine ⟨_, rfl, ?_⟩
    cases hmem : call.malloced with
    | false => exact describes_freed
    | true =>
      rintro ramp hramp
      exact ⟨hshape z t rfl, (Option.some.inj hramp).symm⟩

theorem prepared_describes (hsize : ∀ n, (window n).length = n) (calls : List Prepare) {desc : Desc R}
    (h : Describes window desc) : ∃ desc', prepareAll window calls desc = some desc' ∧ Describes window desc' := by
  induction calls generalizing desc with
  | nil => exact ⟨desc, rfl, h⟩
  | cons call rest ih =>
    obtain ⟨mid, hmid, hdesc⟩ := describes_prepare hsize h call
    rw [prepareAll, hmid, Option.bind_some]
    exact ih hdesc

/-- After any analyses, the overlap-add that goes by the descriptor and the loop over the whole window both stay within
their arrays, and leave the same samples and the same overlap buffer. -/
theorem structured_eq_generic (hsize : ∀ n, (window n).length = n) (calls : List Prepare) :
    ∃ desc : Desc R, prepareAll window calls .freed = some desc ∧
      ∀ ramp, desc.ramp = some ramp → ∀ gotWindow mdctOut pcmOut overlapBuf, desc.n ≤ mdctOut.length →
        desc.n / 2 ≤ pcmOut.length → desc.n / 2 ≤ overlapBuf.length →
        ∃ r, overlapAdd window desc desc.n gotWindow mdctOut pcmOut overlapBuf = some r ∧
          overlapAdd window .freed desc.n true mdctOut pcmOut overlapBuf = some r := by
  obtain ⟨desc, hdesc, hinv⟩ := prepared_describes hsize calls (@describes_freed R _ window)
  refine ⟨desc, hdesc, fun ramp hramp gotWindow mdctOut pcmOut overlapBuf hmdct hpcm hbuf => ?_⟩
  obtain ⟨hshape, rfl⟩ := hinv ramp hramp
  obtain ⟨r, hs, hg⟩ := structured_eq hshape hmdct hpcm hbuf
  refine ⟨r, ?_, hg⟩
  unfold overlapAdd
  rw [hramp, decide_eq_true rfl]
  exact hs

end run

/-- Eight samples, with a ramp of two. -/
def eight : Windows ℤ
  | 8 => [0, 2, 3, 1, 1, 3, 2, 0]
  | n => List.replicate n 0

theorem eight_size (n : Nat) : (eight n).length = n := by
  unfold eight
  split
  · rfl
  · exact List.length_replicate

theorem structured_eq_generic_eight :
    prepareAll eight [⟨8, true, true⟩] .freed = some ⟨8, 4, 1, 2, some [2, 3]⟩ ∧
      ∃ r, overlapAdd eight ⟨8, 4, 1, 2, some [2, 3]⟩ 8 true [1, 2, 3, 4, 5, 6, 7, 8] [0, 0, 0, 0] [9, 8, 7, 6] = some r ∧
        overlapAdd eight .freed 8 true [1, 2, 3, 4, 5, 6, 7, 8] [0, 0, 0, 0] [9, 8, 7, 6] = some r := by
  have hrun : prepareAll eight [⟨8, true, true⟩] .freed = some ⟨8, 4, 1, 2, some [2, 3]⟩ := rfl
  obtain ⟨desc, hdesc, hall⟩ := structured_eq_generic eight_size [⟨8, true, true⟩]
  obtain rfl := Option.some.inj (hdesc.symm.trans hrun)
  exact ⟨hrun, hall [2, 3] rfl true _ _ _ (by decide) (by decide) (by decide)⟩

end EspIdf.Lhdc.Overlap
