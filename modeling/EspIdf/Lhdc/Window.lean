import EspIdf.Lhdc.RangeDecoder

/-!
# LHDC V5: the sliding window of a model

* `lastSyms` : the symbols that a window of some size still holds;
* `FacModel.after` : a model that has been fed a sequence;
* `Ring` : the history, read from its oldest symbol on, is the end of the sequence;
* `window_exact` : every frequency counts the window, and no decrement is suppressed.
-/

namespace EspIdf.Lhdc

/-- The last `window` symbols of a sequence, or all of a shorter one. -/
def lastSyms (window : Nat) (syms : List Sym) : List Sym := syms.drop (syms.length - window)

theorem length_lastSyms (window : Nat) (syms : List Sym) : (lastSyms window syms).length = min syms.length window := by
  rw [lastSyms, List.length_drop]
  omega

theorem lastSyms_short {window : Nat} {syms : List Sym} (h : syms.length ≤ window) : lastSyms window syms = syms := by
  rw [lastSyms, Nat.sub_eq_zero_of_le h, List.drop_zero]

/-- A full window loses its oldest symbol to the next. -/
theorem lastSyms_full {window : Nat} {syms : List Sym} (h : window ≤ syms.length) (hpos : 0 < window) (sym : Sym) :
    lastSyms window (syms ++ [sym]) = (lastSyms window syms).tail ++ [sym] := by
  have hstart : (syms ++ [sym]).length - window = syms.length - window + 1 := by
    rw [List.length_append, List.length_singleton]
    omega
  rw [lastSyms, hstart, List.drop_append_of_le_length (by omega), lastSyms, List.tail_drop]

def FacModel.after (m : FacModel) (syms : List Sym) : FacModel := syms.foldl facModelUpdate m

theorem after_concat (m : FacModel) (syms : List Sym) (sym : Sym) :
    m.after (syms ++ [sym]) = facModelUpdate (m.after syms) sym := List.foldl_concat ..

/-- Read from `pos` on and round, the history is the end of `syms`. -/
structure Ring (window : Nat) (syms : List Sym) (m : FacModel) : Prop where
  width : m.window = window
  count : m.count = min syms.length window
  filling : m.count < m.window → m.pos = 0
  turned : m.recent.drop m.pos ++ m.recent.take m.pos = lastSyms window syms

@[simp] theorem facModelBump_window (m : FacModel) (sym : Sym) : (facModelBump m sym).window = m.window := by
  unfold facModelBump
  dsimp only
  split <;> rfl

@[simp] theorem facModelBump_count (m : FacModel) (sym : Sym) : (facModelBump m sym).count = m.count := by
  unfold facModelBump
  dsimp only
  split <;> rfl

@[simp] theorem facModelBump_pos (m : FacModel) (sym : Sym) : (facModelBump m sym).pos = m.pos := by
  unfold facModelBump
  dsimp only
  split <;> rfl

@[simp] theorem facModelBump_recent (m : FacModel) (sym : Sym) : (facModelBump m sym).recent = m.recent := by
  unfold facModelBump
  dsimp only
  split <;> rfl

theorem ring_init (hist : List Sym) (init : Sym → Nat) (window : Int) :
    Ring (facModelInit hist init window).window [] (facModelInit hist init window) where
  width := rfl
  count := (Nat.zero_min _).symm
  filling _ := rfl
  turned := (lastSyms_short (Nat.zero_le _)).symm

/-- What a window that turns is like behind the overwritten symbol. -/
theorem turned_set {l : List Sym} {pos : Nat} (h : pos < l.length) (sym : Sym) :
    (l.set pos sym).drop (pos + 1) ++ (l.set pos sym).take (pos + 1) = (l.drop pos ++ l.take pos).tail ++ [sym] := by
  rw [List.drop_set_of_lt (Nat.lt_succ_self pos), take_set_succ h, List.drop_eq_getElem_cons h, List.cons_append,
    List.tail_cons, List.append_assoc]

theorem ring_update {window : Nat} {syms : List Sym} {m : FacModel} {init : Sym → Nat} (h : Ring window syms m)
    (hok : m.Ok init) (sym : Sym) : Ring window (syms ++ [sym]) (facModelUpdate m sym) := by
  have hwindow := h.width
  have hcount := h.count
  have hpos := hok.pos_lt
  have hlen : m.recent.length = m.count := length_recent hok.count_le hok.window_le
  have hsyms : (syms ++ [sym]).length = syms.length + 1 := List.length_append
  by_cases hfill : m.count < m.window
  · have hzero := h.filling hfill
    have hshort : syms.length < window := by omega
    have hrecent : m.recent = syms := by
      have hturned := h.turned
      rwa [hzero, List.drop_zero, List.take_zero, List.append_nil, lastSyms_short (Nat.le_of_lt hshort)] at hturned
    have hgrown : (m.hist.set m.count sym).take (m.count + 1) = syms ++ [sym] := by
      rw [take_set_succ (Nat.lt_of_lt_of_le hfill hok.window_le)]
      exact congrArg (· ++ [sym]) hrecent
    have hupdate : facModelUpdate m sym =
        facModelBump { m with hist := m.hist.set m.count sym, count := m.count + 1 } sym := if_pos hfill
    rw [hupdate]
    refine ⟨by simpa using hwindow, by simp; omega, fun _ => by simpa using hzero, ?_⟩
    rw [facModelBump_recent, facModelBump_pos, lastSyms_short (by omega)]
    simp only [FacModel.recent, hzero, hgrown, List.drop_zero, List.take_zero, List.append_nil]
  · have hfull : m.count = m.window := Nat.le_antisymm hok.count_le (Nat.le_of_not_lt hfill)
    have hin : m.pos < m.recent.length := by omega
    set freq := if 2 ≤ m.freq (m.hist.getD m.pos 0) then
      Function.update m.freq (m.hist.getD m.pos 0) (m.freq (m.hist.getD m.pos 0) - 1) else m.freq with hfreq
    set pos := if m.window ≤ m.pos + 1 then 0 else m.pos + 1 with hnew
    have hupdate : facModelUpdate m sym =
        facModelBump { m with freq := freq, hist := m.hist.set m.pos sym, pos := pos } sym := if_neg hfill
    rw [hupdate]
    refine ⟨by simpa using hwindow, by simp; omega, fun hlt => absurd (by simpa using hlt) hfill, ?_⟩
    rw [facModelBump_recent, facModelBump_pos, lastSyms_full (by omega) (by omega), ← h.turned, ← turned_set hin]
    have hset : (m.hist.set m.pos sym).take m.count = m.recent.set m.pos sym := by rw [List.take_set, FacModel.recent]
    simp only [FacModel.recent] at hset ⊢
    rw [hset]
    by_cases hround : m.window ≤ m.pos + 1
    · have hend : ((m.hist.take m.count).set m.pos sym).length ≤ m.pos + 1 := by
        rw [List.length_set]
        exact (Nat.le_of_eq hlen).trans (hfull ▸ hround)
      rw [hnew, if_pos hround, List.drop_zero, List.take_zero, List.append_nil, List.drop_eq_nil_of_le hend,
        List.take_of_length_le hend, List.nil_append]
    · rw [hnew, if_neg hround]

/-- From a fresh model on, over any sequence. -/
theorem after_ok {init : Sym → Nat} {m : FacModel} (h : FreshModel init m) (syms : List Sym) :
    (m.after syms).Ok init ∧ Ring m.window syms (m.after syms) := by
  induction syms using List.reverseRecOn with
  | nil =>
    refine ⟨h.ok.2, ?_⟩
    cases h with
    | stream1 hist window h => exact ring_init hist FAC_FQ1 window
    | stream2 hist window h => exact ring_init hist FAC_FQ2 window
  | append_singleton syms sym ih =>
    rw [after_concat]
    exact ⟨facModelUpdate_ok h.ok.1 ih.1 sym, ring_update ih.2 ih.1 sym⟩

/-- What every step of a sequence finds: the window in the frequencies, and the index in the history. -/
theorem window_exact {init : Sym → Nat} {m : FacModel} (h : FreshModel init m) (syms : List Sym) :
    (∀ s, (m.after syms).freq s = init s + (lastSyms m.window syms).count s) ∧
      (∀ s, init s ≤ (m.after syms).freq s) ∧
      ((m.after syms).window ≤ (m.after syms).count → 2 ≤ (m.after syms).freq ((m.after syms).hist.getD (m.after syms).pos 0)) ∧
      (m.after syms).freq 0 + (m.after syms).freq 1 + (m.after syms).freq 2 =
        init 0 + init 1 + init 2 + min syms.length m.window ∧
      (m.after syms).pos < (m.after syms).hist.length ∧
      ((m.after syms).count < (m.after syms).window → (m.after syms).count < (m.after syms).hist.length) := by
  obtain ⟨hok, hring⟩ := after_ok h syms
  have hperm : (m.after syms).recent.Perm (lastSyms m.window syms) := by
    rw [← hring.turned]
    exact (List.perm_append_comm.trans (List.Perm.of_eq (List.take_append_drop _ _))).symm
  have hfreq : ∀ s, (m.after syms).freq s = init s + (lastSyms m.window syms).count s := fun s => by
    rw [hok.freq s, hperm.count_eq]
  refine ⟨hfreq, fun s => hfreq s ▸ Nat.le_add_right _ _, fun hfull => ?_, ?_,
    Nat.lt_of_lt_of_le hok.pos_lt hok.window_le, fun hlt => Nat.lt_of_lt_of_le hlt hok.window_le⟩
  · -- the symbol that is about to leave is itself in the window
    have hin : (m.after syms).pos < (m.after syms).recent.length := by
      rw [length_recent hok.count_le hok.window_le]
      exact Nat.lt_of_lt_of_le hok.pos_lt hfull
    have hold : (m.after syms).recent[(m.after syms).pos] = (m.after syms).hist.getD (m.after syms).pos 0 := by
      have hpos := hok.pos_lt
      have hwindow := hok.window_le
      simp only [FacModel.recent, List.getElem_take]
      rw [List.getD_eq_getElem]
    have hmem : 0 < (m.after syms).recent.count ((m.after syms).hist.getD (m.after syms).pos 0) := by
      rw [List.count_pos_iff, ← hold]
      exact List.getElem_mem hin
    have hone := h.ok.1.pos ((m.after syms).hist.getD (m.after syms).pos 0)
    rw [hok.freq]
    omega
  · have hsum := count_sym_sum (lastSyms m.window syms)
    rw [length_lastSyms] at hsum
    rw [hfreq, hfreq, hfreq]
    omega

/-- A window of two symbols, over five. -/
theorem window_exact_five : ((facModelInit (List.replicate facHist1Cap 0) FAC_FQ1 2).after [0, 2, 1, 1, 2]).freq 2 =
    FAC_FQ1 2 + (lastSyms (facModelInit (List.replicate facHist1Cap 0) FAC_FQ1 2).window [0, 2, 1, 1, 2]).count 2 :=
  (window_exact (.stream1 (List.replicate facHist1Cap 0) 2 List.length_replicate) [0, 2, 1, 1, 2]).1 2

end EspIdf.Lhdc
