import Mathlib

/-!
# LHDC V5: the FAC-MA range decoder

The two ternary symbol streams of a channel are coded by one byte-wise range coder with an
adaptive sliding-window model.

* `FacModel` : frequencies, rescale thresholds and the 15-bit cumulative table
  (`facModelRescale`, `facModelInit`, `facModelUpdate`);
* `FacDec` : the coder (`facDecInit`, `facDecode`), its renormalisation loop with a fuel of three
  shifts, which is all that a nonzero 32-bit range needs;
* `FacModel.Ok`, `FacDec.Ok` : what holds between two calls (`facDecode_spec`, `FacReach.ok`).
-/

namespace EspIdf.Lhdc

/-- A value kept in a `uint32_t`. -/
def u32 (n : Nat) : Nat := n % 2 ^ 32

theorem u32_lt (n : Nat) : u32 n < 2 ^ 32 := Nat.mod_lt _ (by norm_num)

theorem u32_of_lt {n : Nat} (h : n < 2 ^ 32) : u32 n = n := Nat.mod_eq_of_lt h

/-- `uint32_t` subtraction. -/
def sub32 (a b : Nat) : Nat := u32 (a + 2 ^ 32 - b)

theorem sub32_of_le {a b : Nat} (h : b ≤ a) (ha : a < 2 ^ 32) : sub32 a b = a - b := by
  rw [sub32, u32, show a + 2 ^ 32 - b = (a - b) + 2 ^ 32 by omega, Nat.add_mod_right,
    Nat.mod_eq_of_lt (by omega)]

def FAC_TOTAL_BITS : Nat := 15
def FAC_TOTAL : Nat := 2 ^ FAC_TOTAL_BITS

/-- The ternary alphabet (`FAC_NSYM == 3`). -/
abbrev Sym := Fin 3

scoped instance neZeroThree : NeZero 3 := ⟨by decide⟩

scoped instance neZeroFour : NeZero 4 := ⟨by decide⟩

def FAC_FQ1 : Sym → Nat := ![54, 12, 1]
def FAC_FQ2 : Sym → Nat := ![90, 16, 1]

/-- The capacities of `s_fac_hist1` and `s_fac_hist2`. -/
def facHist1Cap : Nat := 512
def facHist2Cap : Nat := 3072

/-! ## The adaptive model -/

/-- `fac_model_t`; `hist` is the whole history buffer, so `hist_cap` is its length. -/
structure FacModel where
  window : Nat
  pos : Nat
  count : Nat
  hist : List Sym
  freq : Sym → Nat
  thresh : Sym → Nat
  cum : Fin 4 → Nat
  deriving DecidableEq

def facModelRescale (m : FacModel) : FacModel :=
  let f0 := m.freq 0
  let f1 := m.freq 1
  let f2 := m.freq 2
  let c1 := f0
  let c2 := u32 (f0 + f1)
  let c3 := u32 (c2 + f2)
  let scale := 0x80000000 / c3
  { m with
    thresh := ![u32 (f0 + f0 >>> 5), u32 (f1 + f1 >>> 5), u32 (f2 + f2 >>> 5)]
    cum := ![0, u32 (c1 * scale) >>> 16, u32 (c2 * scale) >>> 16, u32 (c3 * scale) >>> 16] }

/-- The `window` a model gets: clamped to the history buffer, at least one. -/
def facModelWindow (window : Int) (histCap : Nat) : Nat :=
  let w := if (histCap : Int) < window then (histCap : Int) else window
  if w < 1 then 1 else w.toNat

/-- `fac_model_init` on a model whose history buffer is `hist`. -/
def facModelInit (hist : List Sym) (initFreq : Sym → Nat) (window : Int) : FacModel :=
  let w := facModelWindow window hist.length
  facModelRescale
    { window := w, pos := 0, count := 0
      hist := List.replicate w 0 ++ hist.drop w
      freq := initFreq, thresh := fun _ => 0, cum := fun _ => 0 }

/-- `++freq[sym]`, rescaling the model once the threshold is met. -/
def facModelBump (m : FacModel) (sym : Sym) : FacModel :=
  let m' := { m with freq := Function.update m.freq sym (u32 (m.freq sym + 1)) }
  if m.thresh sym ≤ m'.freq sym then facModelRescale m' else m'

def facModelUpdate (m : FacModel) (sym : Sym) : FacModel :=
  if m.count < m.window then
    facModelBump { m with hist := m.hist.set m.count sym, count := m.count + 1 } sym
  else
    let old := m.hist.getD m.pos 0
    let freq := if 2 ≤ m.freq old then Function.update m.freq old (m.freq old - 1) else m.freq
    let pos := if m.window ≤ m.pos + 1 then 0 else m.pos + 1
    facModelBump { m with freq := freq, hist := m.hist.set m.pos sym, pos := pos } sym

/-! ## The range decoder -/

/-- `fac_dec_t`; `len` is the length of `data`. -/
structure FacDec where
  data : List UInt8
  p : Nat
  range : Nat
  code : Nat
  deriving DecidableEq

/-- The byte at the read position, zero past the end of the stream. -/
def FacDec.next (d : FacDec) : Nat := (d.data.getD d.p 0).toNat

/-- `code = (code << 8) | byte`, and on to the next byte. -/
def facShiftIn (d : FacDec) : FacDec :=
  { d with code := u32 (d.code <<< 8) ||| d.next, p := d.p + 1 }

def facDecInit (data : List UInt8) : FacDec :=
  facShiftIn (facShiftIn (facShiftIn (facShiftIn
    { data := data, p := 0, range := 0xFFFFFFFF, code := 0 })))

/-- `do ... while (range < 1 << 24)` entered while the test holds; `none` is the endless loop of a
zero range. -/
def facRenorm : Nat → FacDec → Option FacDec
  | 0, d => if d.range < 2 ^ 24 then none else some d
  | fuel + 1, d =>
    if d.range < 2 ^ 24 then facRenorm fuel { facShiftIn d with range := u32 (d.range <<< 8) }
    else some d

/-- The symbol found by comparing `r * cum[k]` with `code`, and its slot `lo`, `hi`. -/
def facSearch (cum : Fin 4 → Nat) (r code : Nat) : Sym × Nat × Nat :=
  if code < u32 (r * cum 1) then (0, 0, cum 1)
  else if code < u32 (r * cum 2) then (1, cum 1, cum 2)
  else (2, cum 2, cum 3)

/-- The coder narrowed to the slot of the decoded symbol, before renormalisation. -/
def facNarrow (d : FacDec) (r lo hi : Nat) : FacDec :=
  { d with code := sub32 d.code (u32 (r * lo)), range := u32 (r * sub32 hi lo) }

/-- One call: the symbol, the coder and the model after it. -/
structure FacStep where
  sym : Sym
  dec : FacDec
  model : FacModel
  deriving DecidableEq

def facDecode (d : FacDec) (m : FacModel) : Option FacStep :=
  let r := d.range >>> FAC_TOTAL_BITS
  let s := facSearch m.cum r d.code
  (facRenorm 3 (facNarrow d r s.2.1 s.2.2)).map fun d' =>
    { sym := s.1, dec := d', model := facModelUpdate m s.1 }

/-! ## The model between two calls -/

/-- The symbols the sliding window holds. -/
def FacModel.recent (m : FacModel) : List Sym := m.hist.take m.count

/-- The cumulative table of a rescale: from zero, strictly increasing, at most `FAC_TOTAL`. -/
structure CumOk (cum : Fin 4 → Nat) : Prop where
  zero : cum 0 = 0
  lt01 : cum 0 < cum 1
  lt12 : cum 1 < cum 2
  lt23 : cum 2 < cum 3
  le : cum 3 ≤ FAC_TOTAL

theorem CumOk.strictMono {cum : Fin 4 → Nat} (h : CumOk cum) : StrictMono cum := by
  rw [Fin.strictMono_iff_lt_succ]
  intro i
  fin_cases i
  · exact h.lt01
  · exact h.lt12
  · exact h.lt23

/-- A model that started from the frequencies `init`: every frequency is its initial value plus
its occurrences in the window. -/
structure FacModel.Ok (init : Sym → Nat) (m : FacModel) : Prop where
  pos_lt : m.pos < m.window
  window_le : m.window ≤ m.hist.length
  hist_le : m.hist.length ≤ facHist2Cap
  count_le : m.count ≤ m.window
  freq : ∀ s, m.freq s = init s + m.recent.count s
  cum : CumOk m.cum

/-- The initial frequencies a model may start from. -/
structure InitOk (init : Sym → Nat) : Prop where
  pos : ∀ s, 1 ≤ init s
  sum_le : init 0 + init 1 + init 2 ≤ 107

theorem initOk_FAC_FQ1 : InitOk FAC_FQ1 := ⟨by decide, by decide⟩

theorem initOk_FAC_FQ2 : InitOk FAC_FQ2 := ⟨by decide, by decide⟩

theorem count_sym_sum (l : List Sym) : l.count 0 + l.count 1 + l.count 2 = l.length := by
  induction l with
  | nil => rfl
  | cons a l ih =>
      simp only [List.count_cons, List.length_cons, beq_iff_eq]
      fin_cases a <;> simp <;> omega

theorem length_recent {m : FacModel} (h1 : m.count ≤ m.window) (h2 : m.window ≤ m.hist.length) :
    m.recent.length = m.count := by
  rw [FacModel.recent, List.length_take]
  omega

/-- One rescale step: the scaled entries of two frequencies stay apart. -/
theorem scaled_lt {a b scale : Nat} (hab : a < b) (hs : 2 ^ 16 ≤ scale) :
    (a * scale) >>> 16 < (b * scale) >>> 16 := by
  have hmul : a * scale + 2 ^ 16 ≤ b * scale := by
    calc a * scale + 2 ^ 16 ≤ a * scale + scale := Nat.add_le_add_left hs _
      _ = (a + 1) * scale := by ring
      _ ≤ b * scale := Nat.mul_le_mul_right _ hab
  simp only [Nat.shiftRight_eq_div_pow]
  omega

/-- The total and the scale of a rescale; no product of it leaves 32 bits. -/
theorem facModelRescale_cum {m : FacModel} (hpos : ∀ s, 1 ≤ m.freq s)
    (hsum : m.freq 0 + m.freq 1 + m.freq 2 ≤ FAC_TOTAL) :
    ∃ scale, 2 ^ 16 ≤ scale ∧ (m.freq 0 + m.freq 1 + m.freq 2) * scale ≤ 2 ^ 31 ∧
      (facModelRescale m).cum = ![0, (m.freq 0 * scale) >>> 16,
        ((m.freq 0 + m.freq 1) * scale) >>> 16,
        ((m.freq 0 + m.freq 1 + m.freq 2) * scale) >>> 16] := by
  have h0 := hpos 0
  simp only [FAC_TOTAL, FAC_TOTAL_BITS] at hsum
  have e2 : u32 (m.freq 0 + m.freq 1) = m.freq 0 + m.freq 1 := u32_of_lt (by omega)
  have e3 : u32 (m.freq 0 + m.freq 1 + m.freq 2) = m.freq 0 + m.freq 1 + m.freq 2 :=
    u32_of_lt (by omega)
  refine ⟨0x80000000 / (m.freq 0 + m.freq 1 + m.freq 2), ?_, Nat.mul_div_le _ _, ?_⟩
  · rw [Nat.le_div_iff_mul_le (by omega)]
    omega
  · have hfit : ∀ c ≤ m.freq 0 + m.freq 1 + m.freq 2,
        u32 (c * (0x80000000 / (m.freq 0 + m.freq 1 + m.freq 2))) =
          c * (0x80000000 / (m.freq 0 + m.freq 1 + m.freq 2)) := fun c hc =>
      u32_of_lt (lt_of_le_of_lt (Nat.mul_le_mul_right _ hc)
        (lt_of_le_of_lt (Nat.mul_div_le _ _) (by norm_num)))
    simp only [facModelRescale, e2, e3]
    rw [hfit _ le_rfl, hfit (m.freq 0) (by omega), hfit (m.freq 0 + m.freq 1) (by omega)]

theorem facModelRescale_cumOk {m : FacModel} (hpos : ∀ s, 1 ≤ m.freq s)
    (hsum : m.freq 0 + m.freq 1 + m.freq 2 ≤ FAC_TOTAL) : CumOk (facModelRescale m).cum := by
  obtain ⟨scale, hs, hmax, hcum⟩ := facModelRescale_cum hpos hsum
  have h0 := hpos 0
  have h1 := hpos 1
  have h2 := hpos 2
  rw [hcum]
  refine ⟨rfl, ?_, ?_, ?_, ?_⟩
  · simpa using scaled_lt (show 0 < m.freq 0 by omega) hs
  · exact scaled_lt (show m.freq 0 < m.freq 0 + m.freq 1 by omega) hs
  · exact scaled_lt (show m.freq 0 + m.freq 1 < m.freq 0 + m.freq 1 + m.freq 2 by omega) hs
  · change ((m.freq 0 + m.freq 1 + m.freq 2) * scale) >>> 16 ≤ 2 ^ 15
    rw [Nat.shiftRight_eq_div_pow]
    omega

@[simp] theorem facModelRescale_freq (m : FacModel) : (facModelRescale m).freq = m.freq := rfl
@[simp] theorem facModelRescale_hist (m : FacModel) : (facModelRescale m).hist = m.hist := rfl
@[simp] theorem facModelRescale_pos (m : FacModel) : (facModelRescale m).pos = m.pos := rfl
@[simp] theorem facModelRescale_count (m : FacModel) : (facModelRescale m).count = m.count := rfl
@[simp] theorem facModelRescale_window (m : FacModel) : (facModelRescale m).window = m.window := rfl

@[simp] theorem facModelRescale_recent (m : FacModel) : (facModelRescale m).recent = m.recent := rfl

theorem facModelWindow_bounds (window : Int) {cap : Nat} (h : 1 ≤ cap) :
    1 ≤ facModelWindow window cap ∧ facModelWindow window cap ≤ cap := by
  simp only [facModelWindow]
  split_ifs <;> omega

/-- A window of symbols on top of the initial frequencies keeps the total in 15 bits. -/
theorem freq_sum_le {init freq : Sym → Nat} {l : List Sym} (hi : InitOk init)
    (hf : ∀ s, freq s = init s + l.count s) (hl : l.length ≤ facHist2Cap) :
    freq 0 + freq 1 + freq 2 ≤ FAC_TOTAL := by
  have hc := count_sym_sum l
  have hs := hi.sum_le
  simp only [facHist2Cap] at hl
  rw [hf, hf, hf]
  simp only [FAC_TOTAL, FAC_TOTAL_BITS]
  omega

/-- A freshly initialised model. -/
theorem facModelInit_ok {hist : List Sym} {init : Sym → Nat} (hi : InitOk init) (window : Int)
    (h1 : 1 ≤ hist.length) (h2 : hist.length ≤ facHist2Cap) :
    (facModelInit hist init window).Ok init := by
  obtain ⟨hw, hle⟩ := facModelWindow_bounds window h1
  have hlen : (facModelInit hist init window).hist.length = hist.length := by
    simp [facModelInit]
    omega
  refine ⟨hw, ?_, ?_, Nat.zero_le _, fun s => ?_, ?_⟩
  · rw [hlen]
    exact hle
  · rw [hlen]
    exact h2
  · simp [facModelInit, FacModel.recent]
  · exact facModelRescale_cumOk hi.pos
      (le_trans hi.sum_le (by simp only [FAC_TOTAL, FAC_TOTAL_BITS]; norm_num))

/-- The bump of `sym` in a model whose window already holds it. -/
theorem facModelBump_ok {init : Sym → Nat} {m : FacModel} {sym : Sym} (hi : InitOk init)
    (hpos : m.pos < m.window) (hwin : m.window ≤ m.hist.length) (hcap : m.hist.length ≤ facHist2Cap)
    (hcount : m.count ≤ m.window) (hcum : CumOk m.cum)
    (hsym : m.freq sym + 1 = init sym + m.recent.count sym)
    (hother : ∀ s, s ≠ sym → m.freq s = init s + m.recent.count s) :
    (facModelBump m sym).Ok init := by
  have hlen : m.recent.length ≤ facHist2Cap := by
    rw [length_recent hcount hwin]
    omega
  have hle : m.recent.count sym ≤ facHist2Cap := le_trans List.count_le_length hlen
  have hinit : init sym ≤ 107 := by
    have := hi.sum_le
    fin_cases sym <;> simp only [Fin.zero_eta, Fin.mk_one, Fin.reduceFinMk] <;> omega
  have hfit : u32 (m.freq sym + 1) = m.freq sym + 1 := u32_of_lt (by
    simp only [facHist2Cap] at hle
    omega)
  have hfreq : ∀ s, Function.update m.freq sym (u32 (m.freq sym + 1)) s =
      init s + m.recent.count s := by
    intro s
    by_cases hs : s = sym
    · subst hs
      rw [Function.update_self, hfit, hsym]
    · rw [Function.update_of_ne hs, hother s hs]
  have hfpos : ∀ s, 1 ≤ Function.update m.freq sym (u32 (m.freq sym + 1)) s := by
    intro s
    have := hi.pos s
    rw [hfreq s]
    omega
  simp only [facModelBump]
  split
  · exact ⟨hpos, hwin, hcap, hcount, hfreq,
      facModelRescale_cumOk hfpos (freq_sum_le hi hfreq hlen)⟩
  · exact ⟨hpos, hwin, hcap, hcount, hfreq, hcum⟩

theorem take_set_succ {l : List Sym} {n : Nat} (h : n < l.length) (a : Sym) :
    (l.set n a).take (n + 1) = l.take n ++ [a] := by
  rw [List.take_add_one, List.take_set_of_le (le_refl n)]
  simp [h]

theorem facModelUpdate_ok {init : Sym → Nat} {m : FacModel} (hi : InitOk init) (h : m.Ok init)
    (sym : Sym) : (facModelUpdate m sym).Ok init := by
  have hwin := h.window_le
  have hcount := h.count_le
  have hpos := h.pos_lt
  unfold facModelUpdate
  split
  · rename_i hlt
    have hrec : (m.hist.set m.count sym).take (m.count + 1) = m.recent ++ [sym] :=
      take_set_succ (by omega) sym
    refine facModelBump_ok hi hpos ?_ ?_ ?_ h.cum ?_ ?_
    · simpa using hwin
    · simpa using h.hist_le
    · exact hlt
    · simp only [FacModel.recent] at hrec ⊢
      rw [hrec, h.freq sym, List.count_append, List.count_singleton_self, FacModel.recent]
      omega
    · intro s hs
      simp only [FacModel.recent] at hrec ⊢
      rw [hrec, h.freq s, List.count_append, List.count_singleton, FacModel.recent,
        if_neg (by simpa using Ne.symm hs)]
      omega
  · rename_i hge
    have hfull : m.count = m.window := by omega
    have hp : m.pos < m.recent.length := by
      rw [length_recent hcount hwin]
      omega
    have hold : m.recent[m.pos] = m.hist.getD m.pos 0 := by
      simp only [FacModel.recent, List.getElem_take]
      rw [List.getD_eq_getElem]
    have hset : (m.hist.set m.pos sym).take m.count = m.recent.set m.pos sym := by
      rw [List.take_set, FacModel.recent]
    set old := m.hist.getD m.pos 0 with holddef
    have hmem : 1 ≤ m.recent.count old := by
      rw [Nat.one_le_iff_ne_zero, ← Nat.pos_iff_ne_zero, List.count_pos_iff, ← hold]
      exact List.getElem_mem hp
    have htwo : 2 ≤ m.freq old := by
      have := hi.pos old
      rw [h.freq old]
      omega
    have hcnt : ∀ s, (m.recent.set m.pos sym).count s + (if old = s then 1 else 0) =
        m.recent.count s + (if sym = s then 1 else 0) := by
      intro s
      rw [List.count_set hp, hold]
      simp only [beq_iff_eq]
      by_cases ho : old = s
      · have : 1 ≤ m.recent.count s := ho ▸ hmem
        simp only [if_pos ho]
        omega
      · simp only [if_neg ho]
        omega
    simp only [if_pos htwo]
    refine facModelBump_ok hi ?_ ?_ ?_ hcount h.cum ?_ ?_
    · dsimp only
      split_ifs <;> omega
    · simpa using hwin
    · simpa using h.hist_le
    · have hc := hcnt sym
      simp only [FacModel.recent] at hset ⊢
      rw [hset]
      by_cases ho : old = sym
      · subst ho
        have := h.freq old
        simp only [Function.update_self, FacModel.recent, if_true] at this hc ⊢
        omega
      · have := h.freq sym
        rw [Function.update_of_ne (Ne.symm ho)]
        simp only [ho, FacModel.recent, if_true, if_false] at this hc ⊢
        omega
    · intro s hs
      have hc := hcnt s
      have := h.freq s
      simp only [FacModel.recent] at hset ⊢
      rw [hset]
      rw [if_neg (Ne.symm hs)] at hc
      by_cases ho : old = s
      · subst ho
        simp only [Function.update_self, FacModel.recent, if_true] at this hc ⊢
        omega
      · rw [Function.update_of_ne (Ne.symm ho)]
        simp only [ho, FacModel.recent, if_false] at this hc ⊢
        omega

/-! ## The coder between two calls -/

/-- The coder on entry to a call. -/
structure FacDec.Ok (d : FacDec) : Prop where
  range_ge : 2 ^ 24 ≤ d.range
  range_lt : d.range < 2 ^ 32
  code_lt : d.code < 2 ^ 32

theorem FacDec.next_lt (d : FacDec) : d.next < 2 ^ 8 := UInt8.toNat_lt _

/-- The byte lands in the eight bits the shift cleared. -/
theorem facShiftIn_code (d : FacDec) : (facShiftIn d).code = u32 (d.code * 2 ^ 8) + d.next := by
  have hn := d.next_lt
  have hsplit : u32 (d.code * 2 ^ 8) = (d.code % 2 ^ 24) * 2 ^ 8 := by
    rw [u32, show (2 : Nat) ^ 32 = 2 ^ 24 * 2 ^ 8 by norm_num, Nat.mul_mod_mul_right]
  simp only [facShiftIn, Nat.shiftLeft_eq]
  rw [hsplit, ← Nat.shiftLeft_eq, ← Nat.shiftLeft_add_eq_or_of_lt hn]

theorem facShiftIn_code_lt (d : FacDec) : (facShiftIn d).code < 2 ^ 32 := by
  have hn := d.next_lt
  rw [facShiftIn_code, u32, show (2 : Nat) ^ 32 = 2 ^ 24 * 2 ^ 8 by norm_num, Nat.mul_mod_mul_right]
  omega

theorem facDecInit_ok (data : List UInt8) : (facDecInit data).Ok := by
  refine ⟨?_, ?_, facShiftIn_code_lt _⟩
  · change 2 ^ 24 ≤ 0xFFFFFFFF
    norm_num
  · change 0xFFFFFFFF < 2 ^ 32
    norm_num

/-- The renormalisation loop ends for every nonzero range, in a coder fit for the next call. -/
theorem facRenorm_spec (fuel : Nat) (d : FacDec) (hr : 2 ^ 24 ≤ d.range * 2 ^ (8 * fuel))
    (hlt : d.range < 2 ^ 32) (hc : d.code < 2 ^ 32) : ∃ d', facRenorm fuel d = some d' ∧ d'.Ok := by
  induction fuel generalizing d with
  | zero =>
      have hge : ¬ d.range < 2 ^ 24 := by simpa using hr
      exact ⟨d, by rw [facRenorm, if_neg hge], by omega, hlt, hc⟩
  | succ fuel ih =>
      by_cases hsmall : d.range < 2 ^ 24
      · have hfit : u32 (d.range <<< 8) = d.range * 2 ^ 8 := by
          rw [Nat.shiftLeft_eq, u32_of_lt (by omega)]
        obtain ⟨d', hd', hok⟩ := ih { facShiftIn d with range := u32 (d.range <<< 8) }
          (by
            rw [hfit, Nat.mul_assoc, ← pow_add]
            rwa [show 8 + 8 * fuel = 8 * (fuel + 1) by ring])
          (u32_lt _) (facShiftIn_code_lt d)
        exact ⟨d', by rw [facRenorm, if_pos hsmall]; exact hd', hok⟩
      · exact ⟨d, by rw [facRenorm, if_neg hsmall], by omega, hlt, hc⟩

/-- The slot the search picks: `cum[sym]` and `cum[sym + 1]`. -/
theorem facSearch_slot (cum : Fin 4 → Nat) (h0 : cum 0 = 0) (r code : Nat) :
    (facSearch cum r code).2.1 = cum (facSearch cum r code).1.castSucc ∧
      (facSearch cum r code).2.2 = cum (facSearch cum r code).1.succ := by
  unfold facSearch
  split
  · exact ⟨h0.symm, rfl⟩
  · split
    · exact ⟨rfl, rfl⟩
    · exact ⟨rfl, rfl⟩

/-- No product of the call leaves 32 bits: each is at most the range. -/
theorem range_mul_cum_le {cum : Fin 4 → Nat} (h : CumOk cum) (range : Nat) (k : Fin 4) :
    (range >>> FAC_TOTAL_BITS) * cum k ≤ range := by
  have hk : cum k ≤ FAC_TOTAL := le_trans (h.strictMono.monotone (Fin.le_last k)) h.le
  rw [Nat.shiftRight_eq_div_pow]
  exact le_trans (Nat.mul_le_mul_left _ hk) (Nat.div_mul_le_self _ _)

theorem facSearch_lo_le {cum : Fin 4 → Nat} (h : CumOk cum) {range : Nat} (code : Nat)
    (hr : range < 2 ^ 32) :
    (range >>> FAC_TOTAL_BITS) * (facSearch cum (range >>> FAC_TOTAL_BITS) code).2.1 ≤ code := by
  have hfit : ∀ k, u32 ((range >>> FAC_TOTAL_BITS) * cum k) = (range >>> FAC_TOTAL_BITS) * cum k :=
    fun k => u32_of_lt (lt_of_le_of_lt (range_mul_cum_le h range k) hr)
  unfold facSearch
  rw [hfit, hfit]
  split
  · simp
  · split
    · dsimp only
      omega
    · dsimp only
      omega

/-- The narrowing step in exact arithmetic. -/
theorem facNarrow_spec {d : FacDec} {cum : Fin 4 → Nat} (hd : d.Ok) (hc : CumOk cum) :
    let r := d.range >>> FAC_TOTAL_BITS
    let s := facSearch cum r d.code
    facNarrow d r s.2.1 s.2.2 =
      { d with code := d.code - r * s.2.1, range := r * (s.2.2 - s.2.1) } := by
  intro r s
  have hlo : s.2.1 = cum s.1.castSucc := (facSearch_slot cum hc.zero r d.code).1
  have hhi : s.2.2 = cum s.1.succ := (facSearch_slot cum hc.zero r d.code).2
  have hle := facSearch_lo_le hc d.code hd.range_lt
  have hlt : s.2.1 < s.2.2 := by
    rw [hlo, hhi]
    exact hc.strictMono (Fin.castSucc_lt_succ)
  have hbound : ∀ k, r * cum k < 2 ^ 32 := fun k =>
    lt_of_le_of_lt (range_mul_cum_le hc d.range k) hd.range_lt
  have hk : s.2.2 < 2 ^ 32 := by
    have := le_trans (hc.strictMono.monotone (Fin.le_last s.1.succ)) hc.le
    rw [hhi]
    simp only [FAC_TOTAL, FAC_TOTAL_BITS] at this
    omega
  have hprod : r * (s.2.2 - s.2.1) < 2 ^ 32 :=
    lt_of_le_of_lt (Nat.mul_le_mul_left _ (Nat.sub_le _ _)) (by rw [hhi]; exact hbound _)
  rw [facNarrow, u32_of_lt (show r * s.2.1 < 2 ^ 32 by rw [hlo]; exact hbound _),
    sub32_of_le hle hd.code_lt, sub32_of_le (le_of_lt hlt) hk, u32_of_lt hprod]

/-- One call in exact arithmetic: it returns, and leaves coder and model fit for the next call. -/
theorem facDecode_spec {init : Sym → Nat} {d : FacDec} {m : FacModel} (hi : InitOk init)
    (hd : d.Ok) (hm : m.Ok init) :
    ∃ out, facDecode d m = some out ∧ out.dec.Ok ∧ out.model.Ok init ∧
      out.sym = (facSearch m.cum (d.range >>> FAC_TOTAL_BITS) d.code).1 := by
  have hnarrow := facNarrow_spec hd hm.cum
  set r := d.range >>> FAC_TOTAL_BITS with hrdef
  set s := facSearch m.cum r d.code with hsdef
  dsimp only at hnarrow
  obtain ⟨hlo, hhi⟩ := facSearch_slot m.cum hm.cum.zero r d.code
  have hlt : s.2.1 < s.2.2 := by
    rw [hlo, hhi]
    exact hm.cum.strictMono (Fin.castSucc_lt_succ)
  have hr : 2 ^ 9 ≤ r := by
    have := hd.range_ge
    rw [hrdef, Nat.shiftRight_eq_div_pow, FAC_TOTAL_BITS]
    omega
  have hrange : 2 ^ 9 ≤ r * (s.2.2 - s.2.1) :=
    le_trans hr (Nat.le_mul_of_pos_right _ (by omega))
  have hprod : r * (s.2.2 - s.2.1) < 2 ^ 32 := by
    refine lt_of_le_of_lt (Nat.mul_le_mul_left _ (Nat.sub_le _ _)) ?_
    rw [hhi]
    exact lt_of_le_of_lt (range_mul_cum_le hm.cum d.range _) hd.range_lt
  obtain ⟨d', hd', hok⟩ := facRenorm_spec 3 (facNarrow d r s.2.1 s.2.2)
    (by rw [hnarrow]; exact Nat.le_mul_of_pos_left (2 ^ 24) (lt_of_lt_of_le (by norm_num) hrange)) (by rw [hnarrow]; exact hprod)
    (by rw [hnarrow]; exact lt_of_le_of_lt (Nat.sub_le _ _) hd.code_lt)
  refine ⟨⟨s.1, d', facModelUpdate m s.1⟩, ?_, hok, facModelUpdate_ok hi hm s.1, rfl⟩
  simp only [facDecode, ← hrdef, ← hsdef, hd', Option.map_some]

end EspIdf.Lhdc
