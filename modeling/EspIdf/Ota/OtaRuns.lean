import EspIdf.Ota.OtaEntries

/-!
# Runs of a device with two OTA entries

* `EntriesInv` : what holds of the two entries in every reachable state, and one lemma for each kind of change;
* `Device`, `OtaEvent`, `Reach` : runs of the application and of the bootloader from erased OTA data;
* `Calm` : the application running on without a restart.
-/

namespace EspIdf.Ota

open Word32 Crc32 NorFlash

/-! ## Which entry is active -/

@[simp] theorem other_other (i : Fin 2) : other (other i) = i := by
  match i with
  | 0 => rfl
  | 1 => rfl

theorem other_ne (i : Fin 2) : other i ≠ i := by
  match i with
  | 0 => decide
  | 1 => decide

theorem eq_or_other (i j : Fin 2) : j = i ∨ j = other i := by
  match i, j with
  | 0, 0 | 1, 1 => exact Or.inl rfl
  | 0, 1 | 1, 0 => exact Or.inr rfl

section Active

variable {two : TwoOtadata}

theorem max_eq_left_iff {x y : UInt32} : max x y = x ↔ y ≤ x := by
  change (if x ≤ y then y else x) = x ↔ y ≤ x
  by_cases h : x ≤ y
  · rw [if_pos h]
    exact ⟨fun e => e ▸ UInt32.le_refl _, fun h' => UInt32.le_antisymm h' h⟩
  · rw [if_neg h]
    exact ⟨fun _ => (UInt32.le_total x y).resolve_left h, fun _ => rfl⟩

theorem getActive_eq : getActiveOtadata two =
    if (two 0).SelectValid ∧ ((two 1).SelectValid → (two 1).otaSeq ≤ (two 0).otaSeq) then some 0
    else if (two 1).SelectValid then some 1 else none := by
  unfold getActiveOtadata selectOtadata
  by_cases h0 : (two 0).SelectValid <;> by_cases h1 : (two 1).SelectValid <;>
    simp only [h0, h1, decide_true, decide_false, Bool.and_self, Bool.and_true, Bool.and_false, Bool.false_eq_true,
      if_true, if_false, max_eq_left_iff, true_and, false_and, forall_const, IsEmpty.forall_iff]

theorem active_valid {a : Fin 2} (h : getActiveOtadata two = some a) : (two a).SelectValid := by
  rw [getActive_eq] at h
  split_ifs at h with h0 h1
  · exact Option.some.inj h ▸ h0.1
  · exact Option.some.inj h ▸ h1

theorem active_max {a : Fin 2} (h : getActiveOtadata two = some a) (hv : (two (other a)).SelectValid) :
    (two (other a)).otaSeq ≤ (two a).otaSeq := by
  rw [getActive_eq] at h
  split_ifs at h with h0 h1
  · obtain rfl := Option.some.inj h
    exact h0.2 hv
  · obtain rfl := Option.some.inj h
    by_contra hgt
    exact h0 ⟨hv, fun _ => (UInt32.le_total _ _).resolve_left hgt⟩

theorem active_none : getActiveOtadata two = none ↔ ∀ i, ¬(two i).SelectValid := by
  rw [getActive_eq]
  constructor
  · intro h i
    split_ifs at h with h0 h1
    match i with
    | 0 => exact fun hv => h0 ⟨hv, fun h => absurd h h1⟩
    | 1 => exact h1
  · intro h
    rw [if_neg (fun h0 => h 0 h0.1), if_neg (h 1)]

/-- The entry that is valid, with the larger number if both are. -/
theorem active_of {a : Fin 2} (hv : (two a).SelectValid)
    (hmax : (two (other a)).SelectValid → (two (other a)).otaSeq < (two a).otaSeq) : getActiveOtadata two = some a := by
  cases hb : getActiveOtadata two with
  | none => exact absurd hv (active_none.mp hb a)
  | some b =>
      rcases eq_or_other a b with rfl | rfl
      · rfl
      · have hlt := hmax (active_valid hb)
        have hle := active_max hb (by rw [other_other]; exact hv)
        rw [other_other] at hle
        exact absurd hlt (UInt32.not_lt.mpr hle)

end Active

/-! ## The invariant of the entries -/

namespace OtaSelectEntry

variable {s : OtaSelectEntry}

/-- An entry that was written completely, with a sequence number in range. -/
def Complete (s : OtaSelectEntry) : Prop := s.otaSeq ≠ seqMax ∧ s.otaSeq ≠ 0 ∧ s.crc = s.selectCrc

theorem Complete.valid_iff (h : s.Complete) : s.SelectValid ↔ s.otaState ≠ imgInvalid ∧ s.otaState ≠ imgAborted := by
  unfold SelectValid SelectInvalid
  constructor
  · exact fun hv => ⟨fun e => hv.1 (Or.inr (Or.inl e)), fun e => hv.1 (Or.inr (Or.inr e))⟩
  · rintro ⟨h1, h2⟩
    refine ⟨?_, h.2.2⟩
    rintro (e | e | e)
    · exact h.1 e
    · exact h1 e
    · exact h2 e

theorem Complete.not_initial (h : s.Complete) : ¬s.Initial := by
  rintro (e | e)
  · exact h.1 e
  · exact e h.2.2

theorem Complete.setState (h : s.Complete) (state : UInt32) : Complete { s with otaState := state } := h

theorem blank_not_complete : ¬blank.Complete := fun h => h.1 blank_otaSeq

theorem blank_selectInvalid : blank.SelectInvalid := Or.inl blank_otaSeq

theorem withSeq_complete {seq : UInt32} (h : seq ≠ seqMax) (h0 : seq ≠ 0) : (s.withSeq seq).Complete :=
  ⟨h, h0, withSeq_crc s seq⟩

/-- Writing an entry again with its own number changes its state only. -/
theorem withSeq_self (h : s.crc = s.selectCrc) (state : UInt32) :
    ({ s with otaState := state } : OtaSelectEntry).withSeq s.otaSeq = { s with otaState := state } := by
  obtain ⟨seq, label, st, crc⟩ := s
  have hcrc : crc = selectCrc ⟨seq, label, st, crc⟩ := h
  unfold withSeq
  simp only [OtaSelectEntry.mk.injEq, true_and]
  exact hcrc.symm

theorem blank_abortPending : blank.abortPending = blank := by
  decide

theorem Complete.abortPending (h : s.Complete) : s.abortPending.Complete := by
  unfold OtaSelectEntry.abortPending
  split_ifs
  · exact h.setState imgAborted
  · exact h

theorem abortPending_valid (h : s.abortPending.SelectValid) : s.SelectValid ∧ s.abortPending = s := by
  unfold OtaSelectEntry.abortPending at h ⊢
  split_ifs at h ⊢ with hp
  · exact absurd (Or.inr (Or.inr rfl)) h.1
  · exact ⟨h, rfl⟩

end OtaSelectEntry

/-- What holds of the entries that may be selected. -/
structure ValidInv (t : OtaTable) (two : TwoOtadata) : Prop where
  number : ∀ i, (two i).otaSeq ≠ 0
  slot_ne : (two 0).SelectValid → (two 1).SelectValid → t.slot (two 0) ≠ t.slot (two 1)

/-- What holds of the two entries in every state reached without power loss. -/
structure EntriesInv (t : OtaTable) (two : TwoOtadata) : Prop where
  complete : ∀ i, two i = .blank ∨ (two i).Complete
  slot_ne : (two 0).Complete → (two 1).SelectValid → t.slot (two 0) ≠ t.slot (two 1)

theorem slot_congr {t : OtaTable} {s s' : OtaSelectEntry} (h : s.otaSeq = s'.otaSeq) : t.slot s = t.slot s' := by
  unfold OtaTable.slot
  rw [h]

theorem OtaTable.slot_abortPending (t : OtaTable) (s : OtaSelectEntry) : t.slot s.abortPending = t.slot s :=
  slot_congr s.abortPending_otaSeq

namespace ValidInv

variable {t : OtaTable} {two : TwoOtadata}

theorem slots_distinct (h : ValidInv t two) {i : Fin 2} (hi : (two i).SelectValid)
    (ho : (two (other i)).SelectValid) : t.slot (two (other i)) ≠ t.slot (two i) := by
  match i, hi, ho with
  | 0, hi, ho => exact Ne.symm (h.slot_ne hi ho)
  | 1, hi, ho => exact h.slot_ne ho hi

/-- The active entry has the larger number. -/
theorem active_ne (h : ValidInv t two) {a : Fin 2} (ha : getActiveOtadata two = some a)
    (ho : (two (other a)).SelectValid) : (two (other a)).otaSeq < (two a).otaSeq := by
  have hne : (two (other a)).otaSeq ≠ (two a).otaSeq := fun e => h.slots_distinct (active_valid ha) ho (slot_congr e)
  exact UInt32.lt_of_le_of_ne (active_max ha ho) hne

end ValidInv

namespace EntriesInv

variable {t : OtaTable} {two : TwoOtadata}

theorem blank : EntriesInv t fun _ => .blank :=
  ⟨fun _ => Or.inl rfl, fun h => absurd h OtaSelectEntry.blank_not_complete⟩

theorem complete_of_valid (h : EntriesInv t two) {i : Fin 2} (hv : (two i).SelectValid) : (two i).Complete := by
  rcases h.complete i with hb | hc
  · rw [hb] at hv
    exact absurd OtaSelectEntry.blank_selectInvalid hv.1
  · exact hc

theorem selectInvalid (h : EntriesInv t two) {i : Fin 2} (hv : ¬(two i).SelectValid) : (two i).SelectInvalid := by
  rcases h.complete i with hb | hc
  · rw [hb]
    exact OtaSelectEntry.blank_selectInvalid
  · by_contra hn
    exact hv ⟨hn, hc.2.2⟩

theorem valid (h : EntriesInv t two) : ValidInv t two := by
  constructor
  · intro i
    rcases h.complete i with hb | hc
    · rw [hb, OtaSelectEntry.blank_otaSeq]
      decide
    · exact hc.2.1
  · exact fun h0 h1 => h.slot_ne (h.complete_of_valid h0) h1

/-- Changing the state of a valid entry. -/
theorem setState (h : EntriesInv t two) {i : Fin 2} (hv : (two i).SelectValid) (state : UInt32) :
    EntriesInv t (Function.update two i { two i with otaState := state }) := by
  have hc := h.complete_of_valid hv
  constructor
  · intro j
    by_cases hj : j = i
    · subst hj
      rw [Function.update_self]
      exact Or.inr (hc.setState state)
    · rw [Function.update_of_ne hj]
      exact h.complete j
  · intro h0 h1
    match i, hv, hc with
    | 0, hv, hc =>
        rw [Function.update_of_ne (show (1 : Fin 2) ≠ 0 by decide)] at h1 ⊢
        rw [Function.update_self] at h0 ⊢
        exact h.slot_ne hc h1
    | 1, hv, hc =>
        rw [Function.update_of_ne (by decide)] at h0 ⊢
        rw [Function.update_self] at h1 ⊢
        exact h.slot_ne h0 hv

/-- Erasing the sector of an entry. -/
theorem erase (h : EntriesInv t two) (i : Fin 2) : EntriesInv t (Function.update two i .blank) := by
  constructor
  · intro j
    by_cases hj : j = i
    · subst hj
      rw [Function.update_self]
      exact Or.inl rfl
    · rw [Function.update_of_ne hj]
      exact h.complete j
  · intro h0 h1
    match i with
    | 0 =>
        rw [Function.update_self] at h0
        exact absurd h0 OtaSelectEntry.blank_not_complete
    | 1 =>
        rw [Function.update_self] at h1
        exact absurd OtaSelectEntry.blank_selectInvalid h1.1

/-- Writing an entry for a slot that the other entry does not name. -/
theorem place (h : EntriesInv t two) {i : Fin 2} {s : OtaSelectEntry} (hs : s.Complete)
    (hslot : (two (other i)).SelectValid ∨ (i = 1 ∧ (two (other i)).Complete) → t.slot (two (other i)) ≠ t.slot s) :
    EntriesInv t (Function.update two i s) := by
  constructor
  · intro j
    by_cases hj : j = i
    · subst hj
      rw [Function.update_self]
      exact Or.inr hs
    · rw [Function.update_of_ne hj]
      exact h.complete j
  · intro h0 h1
    match i with
    | 0 =>
        rw [Function.update_of_ne (show (1 : Fin 2) ≠ 0 by decide)] at h1 ⊢
        rw [Function.update_self]
        exact Ne.symm (hslot (Or.inl h1))
    | 1 =>
        rw [Function.update_of_ne (show (0 : Fin 2) ≠ 1 by decide)] at h0 ⊢
        rw [Function.update_self]
        exact hslot (Or.inr ⟨rfl, h0⟩)

theorem aborted (h : EntriesInv t two) : EntriesInv t (aborted two) := by
  constructor
  · intro i
    rcases h.complete i with hb | hc
    · left
      unfold Ota.aborted
      rw [hb, OtaSelectEntry.blank_abortPending]
    · exact Or.inr hc.abortPending
  · intro h0 h1
    unfold Ota.aborted at h0 h1 ⊢
    rw [t.slot_abortPending, t.slot_abortPending]
    rcases h.complete 0 with hb | hc
    · rw [hb, OtaSelectEntry.blank_abortPending] at h0
      exact absurd h0 OtaSelectEntry.blank_not_complete
    · exact h.slot_ne hc (OtaSelectEntry.abortPending_valid h1).1

theorem marked (h : EntriesInv t two) : EntriesInv t (marked two) := by
  unfold Ota.marked
  cases ha : getActiveOtadata two with
  | none => exact h
  | some a =>
      by_cases hnew : (two a).otaState = imgNew
      · simp only [if_pos hnew]
        exact h.setState (active_valid ha) imgPendingVerify
      · simp only [if_neg hnew]
        exact h

end EntriesInv

/-! ## What the programs make of the entries -/

/-- The number and the place of a newly written entry for a slot. -/
inductive Numbered (t : OtaTable) (two : TwoOtadata) (slot : Nat) : Fin 2 → OtaSelectEntry → Prop
  | first {s} (ha : getActiveOtadata two = none) (hseq : s.otaSeq.toNat = slot + 1) : Numbered t two slot 0 s
  | again {a s} (ha : getActiveOtadata two = some a) (hsame : t.slot (two a) = slot)
      (hseq : s.otaSeq = (two a).otaSeq) : Numbered t two slot a s
  | next {a s} (ha : getActiveOtadata two = some a) (hne : t.slot (two a) ≠ slot) (hgt : (two a).otaSeq < s.otaSeq)
      (hlt : s.otaSeq.toNat < (two a).otaSeq.toNat + t.appCount) : Numbered t two slot (other a) s

/-- The number for any slot is below the end of its range. -/
def Room (t : OtaTable) (two : TwoOtadata) : Prop :=
  ∀ a, getActiveOtadata two = some a → (two a).otaSeq.toNat + t.appCount ≤ 2 ^ 32 - 1

/-- The first number of a slot. -/
theorem first_slot (t : OtaTable) {slot : Nat} (hslot : slot < t.appCount) :
    (UInt32.ofNat slot + 1).toNat = slot + 1 ∧ ((UInt32.ofNat slot + 1 - 1) % t.count).toNat = slot := by
  have hmax := t.le_max
  have hslot32 : (UInt32.ofNat slot).toNat = slot := toNat_ofNat_of_lt (by omega)
  have hone : (1 : UInt32).toNat = 1 := rfl
  constructor
  · rw [toNat_add_of_lt (by rw [hslot32, hone]; omega), hslot32, hone]
  · rw [UInt32.add_sub_cancel, UInt32.toNat_mod, hslot32, t.count_toNat, Nat.mod_eq_of_lt hslot]

/-- `nextOtadata` numbers the entry for a slot. -/
theorem nextOtadata_spec {t : OtaTable} {two : TwoOtadata} (h : ValidInv t two) {slot : Nat}
    (hslot : slot < t.appCount)
    (hroom : ∀ a, getActiveOtadata two = some a → (two a).otaSeq.toNat + t.appCount ≤ 2 ^ 32) :
    ∃ i seq, nextOtadata t two slot = some (i, seq) ∧ seq ≠ 0 ∧ ((seq - 1) % t.count).toNat = slot ∧
      ∀ s : OtaSelectEntry, s.otaSeq = seq → Numbered t two slot i s := by
  unfold nextOtadata
  cases ha : getActiveOtadata two with
  | none =>
      obtain ⟨hseq, hnames⟩ := first_slot t hslot
      refine ⟨0, _, rfl, ?_, hnames, fun s hs => .first ha (by rw [hs, hseq])⟩
      intro e
      rw [e] at hseq
      exact absurd hseq (by change ¬(0 = slot + 1); omega)
  | some a =>
      by_cases hsame : t.slot (two a) = slot
      · exact ⟨a, (two a).otaSeq, if_pos hsame, h.number a, hsame, fun s hs => .again ha hsame hs⟩
      · obtain ⟨seq, hcompute, hgt, hlt, hnames⟩ := computeOtaSeq_spec t hslot (h.number a) (hroom a ha) hsame
        have hrun : (computeOtaSeqForTargetSlot (two a).otaSeq (.ofNat slot) t.count).map (fun seq => (other a, seq)) =
            some (other a, seq) := by
          rw [hcompute]
          rfl
        refine ⟨other a, seq, (if_neg hsame).trans hrun, ?_, hnames, fun s hs => .next ha hsame (hs ▸ hgt) (hs ▸ hlt)⟩
        rintro rfl
        rw [UInt32.lt_iff_toNat_lt] at hgt
        exact Nat.not_lt_zero _ hgt

/-- `setBootPartition` writes one entry, for the slot, as new. -/
theorem setBoot_spec {t : OtaTable} {img : Image} (h : ValidInv t (entries t img)) {slot : Nat}
    (hslot : slot < t.appCount)
    (hroom : ∀ a, getActiveOtadata (entries t img) = some a → (entries t img a).otaSeq.toNat + t.appCount ≤ 2 ^ 32) :
    ∃ i s, setBootPartition t true (.ota slot) () img = ⟨.ok (), (), writeOps t i s⟩ ∧ s.otaState = imgNew ∧
      s.otaSeq ≠ 0 ∧ s.crc = s.selectCrc ∧ t.slot s = slot ∧ Numbered t (entries t img) slot i s := by
  obtain ⟨i, seq, hnext, hpos, hnames, hnumbered⟩ := nextOtadata_spec h hslot hroom
  have hrun := setBoot_ota_run t img hslot
  rw [hnext] at hrun
  exact ⟨i, _, hrun, rfl, hpos, rfl, hnames, hnumbered _ rfl⟩

namespace Numbered

variable {t : OtaTable} {two : TwoOtadata} {slot : Nat} {i : Fin 2} {s : OtaSelectEntry}

/-- The number is in range when there is room. -/
theorem ne_max (h : Numbered t two slot i s) (hslot : slot < t.appCount)
    (hroom : Room t two) : s.otaSeq ≠ seqMax := by
  have hmax := t.le_max
  have hones : seqMax.toNat = 2 ^ 32 - 1 := rfl
  intro e
  cases h with
  | first ha hseq =>
      rw [e] at hseq
      omega
  | again ha hsame hseq => exact (active_valid ha).1 (Or.inl (hseq.symm.trans e))
  | next ha hne hgt hlt =>
      have := hroom _ ha
      rw [e] at hlt
      omega

/-- The new entry is the active one. -/
theorem active (h : Numbered t two slot i s) (hinv : ValidInv t two) (hs : s.SelectValid) :
    getActiveOtadata (Function.update two i s) = some i := by
  apply active_of
  · rw [Function.update_self]
    exact hs
  · rw [Function.update_self, Function.update_of_ne (other_ne i)]
    intro ho
    cases h with
    | first ha hseq => exact absurd ho (active_none.mp ha _)
    | again ha hsame hseq =>
        rw [hseq]
        exact hinv.active_ne ha ho
    | next ha hne hgt hlt =>
        rw [other_other]
        exact hgt

theorem inv (h : Numbered t two slot i s) (hinv : EntriesInv t two) (hs : s.Complete) (hnames : t.slot s = slot) :
    EntriesInv t (Function.update two i s) := by
  apply hinv.place hs
  rw [hnames]
  cases h with
  | first ha hseq =>
      rintro (ho | ⟨h01, -⟩)
      · exact absurd ho (active_none.mp ha _)
      · exact absurd h01 (by decide)
  | again ha hsame hseq =>
      rw [← hsame]
      rintro (ho | ⟨rfl, ho⟩)
      · exact hinv.valid.slots_distinct (active_valid ha) ho
      · exact hinv.slot_ne ho (active_valid ha)
  | next ha hne hgt hlt =>
      intro _
      rw [other_other]
      exact hne

end Numbered

/-! ## The bootloader's choice -/

/-- What is selected when no entry but `s` is valid. -/
def fallbackIndex (t : OtaTable) (s : OtaSelectEntry) : Int :=
  if s.SelectValid then Int.ofNat (t.slot s) else if t.factory then -1 else 0

section Verdict

variable {t : OtaTable} {two : TwoOtadata}

theorem fallbackIndex_valid {s : OtaSelectEntry} (h : s.SelectValid) : fallbackIndex t s = Int.ofNat (t.slot s) :=
  if_pos h

theorem verdict_active {a : Fin 2} (ha : getActiveOtadata two = some a) :
    verdictOf t two = (Int.ofNat (t.slot (two a)), false) := by
  unfold verdictOf
  rw [if_neg, ha]
  intro hinv
  rw [getActive_none hinv] at ha
  exact absurd ha (by simp)

theorem verdict_none (h : EntriesInv t two) (ha : getActiveOtadata two = none) :
    verdictOf t two = if t.factory then (-1, false) else (0, decide ((two 0).Initial ∧ (two 1).Initial)) := by
  have hv := active_none.mp ha
  unfold verdictOf
  exact if_pos ⟨h.selectInvalid (hv 0), h.selectInvalid (hv 1)⟩

/-- An entry that is not valid leaves the choice to the other one. -/
theorem verdict_alone (h : EntriesInv t two) {i : Fin 2} (hi : ¬(two i).SelectValid) :
    (verdictOf t two).1 = fallbackIndex t (two (other i)) := by
  unfold fallbackIndex
  by_cases ho : (two (other i)).SelectValid
  · have ha : getActiveOtadata two = some (other i) := active_of ho (by rw [other_other]; exact fun hv => absurd hv hi)
    rw [verdict_active ha, if_pos ho]
  · have ha : getActiveOtadata two = none := by
      rw [active_none]
      intro j
      rcases eq_or_other i j with rfl | rfl
      · exact hi
      · exact ho
    rw [verdict_none h ha, if_neg ho]
    split_ifs <;> rfl

/-- The entries count as initial only when both are blank. -/
theorem verdict_initial (h : EntriesInv t two) (hinit : (verdictOf t two).2 = true) :
    getActiveOtadata two = none ∧ ∀ i, two i = .blank := by
  cases ha : getActiveOtadata two with
  | some a =>
      rw [verdict_active ha] at hinit
      exact absurd hinit (by simp)
  | none =>
      rw [verdict_none h ha] at hinit
      split_ifs at hinit
      · have hboth := of_decide_eq_true hinit
        refine ⟨rfl, fun i => (h.complete i).resolve_right fun hc => hc.not_initial ?_⟩
        match i with
        | 0 => exact hboth.1
        | 1 => exact hboth.2

theorem valid_setState {s : OtaSelectEntry} (h : s.SelectValid) {state : UInt32}
    (hs : state ≠ imgInvalid ∧ state ≠ imgAborted) : OtaSelectEntry.SelectValid { s with otaState := state } := by
  refine ⟨?_, h.2⟩
  rintro (e | e | e)
  · exact h.1 (Or.inl e)
  · exact hs.1 e
  · exact hs.2 e

/-- The active entry stays the active one in a state that may be selected. -/
theorem active_setState {i : Fin 2} (h : ValidInv t two) (ha : getActiveOtadata two = some i) {state : UInt32}
    (hs : state ≠ imgInvalid ∧ state ≠ imgAborted) :
    getActiveOtadata (Function.update two i { two i with otaState := state }) = some i := by
  apply active_of
  · rw [Function.update_self]
    exact valid_setState (active_valid ha) hs
  · rw [Function.update_self, Function.update_of_ne (other_ne i)]
    exact h.active_ne ha

/-- The active entry stays the active one, if it is not unconfirmed. -/
theorem aborted_active {i : Fin 2} (h : ValidInv t two) (ha : getActiveOtadata two = some i)
    (hp : (two i).otaState ≠ imgPendingVerify) : getActiveOtadata (aborted two) = some i ∧ aborted two i = two i := by
  have hsame : aborted two i = two i := if_neg hp
  refine ⟨active_of (by rw [hsame]; exact active_valid ha) ?_, hsame⟩
  intro hv
  obtain ⟨hvalid, e⟩ := OtaSelectEntry.abortPending_valid hv
  unfold aborted at hsame ⊢
  rw [hsame, e]
  exact h.active_ne ha hvalid

theorem partition?_lt {index : Int} {p : AppPartition} (h : t.partition? index = some p) (hpos : -1 < index) :
    index.toNat < t.appCount := by
  unfold OtaTable.partition? at h
  rw [if_neg (by omega)] at h
  split_ifs at h with hlt
  exact hlt.2

theorem firstBootable_partition {imageOk : AppPartition → Bool} {start index : Int} {p : AppPartition}
    (h : firstBootable t imageOk start = some (index, p)) : t.partition? index = some p := by
  obtain ⟨i, -, hi⟩ := List.exists_of_findSome?_eq_some h
  rw [Option.map_eq_some_iff] at hi
  obtain ⟨q, hq, e⟩ := hi
  obtain ⟨rfl, rfl⟩ := Prod.mk.inj e
  exact (Option.filter_eq_some_iff.mp hq).1

theorem actualEntry_complete {index : Int} (hlt : index.toNat < t.appCount) : (actualEntry index).Complete := by
  have hmax := t.le_max
  have hseq := (first_slot t hlt).1
  have hones : seqMax.toNat = 2 ^ 32 - 1 := rfl
  apply OtaSelectEntry.withSeq_complete
  · intro e
    rw [e] at hseq
    omega
  · intro e
    rw [e] at hseq
    change 0 = _ at hseq
    omega

/-- The bootloader keeps the invariant. -/
theorem EntriesInv.booted (h : EntriesInv t two) (imageOk : AppPartition → Bool) :
    EntriesInv t (booted t imageOk two) := by
  unfold Ota.booted settled
  cases hfirst : firstBootable t imageOk (verdictOf t (Ota.aborted two)).1 with
  | none => exact h.aborted.marked
  | some first =>
      obtain ⟨index, p⟩ := first
      dsimp only
      by_cases hcond : -1 < index ∧ (verdictOf t (Ota.aborted two)).2 = true
      · rw [if_pos hcond]
        obtain ⟨hnone, hblank⟩ := verdict_initial h.aborted hcond.2
        have hmarked : Ota.marked (Ota.aborted two) = Ota.aborted two := by
          unfold Ota.marked
          rw [hnone]
        rw [hmarked]
        apply h.aborted.place (actualEntry_complete (partition?_lt (firstBootable_partition hfirst) hcond.1))
        rintro (hv | ⟨h01, -⟩)
        · rw [hblank] at hv
          exact absurd OtaSelectEntry.blank_selectInvalid hv.1
        · exact absurd h01 (by decide)
      · rw [if_neg hcond]
        exact h.aborted.marked

end Verdict

/-! ## The device -/

/-- The flash and the app that runs, if any. -/
structure Device where
  img : Image
  running : Option AppPartition

/-- What happens to the entries: calls of the running app, and restarts. -/
inductive OtaEvent
  | setBoot (imageOk : Bool) (p : AppPartition)
  /-- `esp_ota_mark_app_valid_cancel_rollback`. -/
  | markValid
  /-- `esp_ota_mark_app_invalid_rollback_and_reboot`, with the images as the app and as the bootloader verify them. -/
  | rollbackAndReboot (imageOk bootOk : AppPartition → Bool)
  | begin (target : Nat) (inProgress : Bool)
  | reboot (imageOk : AppPartition → Bool)

/-- The index in the bootloader's table. -/
def AppPartition.index : AppPartition → Int
  | .factory => -1
  | .ota slot => Int.ofNat slot

/-- The index the bootloader selects at a restart. -/
def bootSelection (t : OtaTable) (img : Image) : Option Int :=
  match (getSelectedBootPartition t () img).result with
  | .ok r => some r.1
  | .error _ => none

namespace Device

variable (t : OtaTable) (d : Device)

/-- A call of the running app. -/
def call (p : OtaProg Unit) : Device := { d with img := applyAll (p () d.img).ops d.img }

/-- The bootloader runs. -/
def restart (imageOk : AppPartition → Bool) : Device where
  img := applyAll (boot t imageOk () d.img).ops d.img
  running :=
    match (boot t imageOk () d.img).result with
    | .ok r => some r.2
    | .error _ => none

/-- The device after an event. -/
def after : OtaEvent → Device
  | .setBoot imageOk p => d.call (setBootPartition t imageOk p)
  | .markValid => d.call (currentOtaIsWorkable t (fun _ => true) true)
  | .rollbackAndReboot imageOk bootOk =>
      match (currentOtaIsWorkable t imageOk false () d.img).result with
      | .ok _ => (d.call (currentOtaIsWorkable t imageOk false)).restart t bootOk
      | .error _ => d.call (currentOtaIsWorkable t imageOk false)
  | .begin target inProgress =>
      match d.running with
      | some app => d.call (otaBegin t app target inProgress)
      | none => d
  | .reboot imageOk => d.restart t imageOk

/-- The index the bootloader selects in an event, when the event restarts the device. -/
def selects : OtaEvent → Option Int
  | .rollbackAndReboot imageOk _ =>
      match (currentOtaIsWorkable t imageOk false () d.img).result with
      | .ok _ => bootSelection t (d.call (currentOtaIsWorkable t imageOk false)).img
      | .error _ => none
  | .reboot _ => bootSelection t d.img
  | _ => none

/-- Only a running app calls, and with a partition of the table. -/
def Possible : OtaEvent → Prop
  | .setBoot _ .factory => d.running.isSome ∧ t.factory
  | .setBoot _ (.ota slot) => d.running.isSome ∧ slot < t.appCount
  | .reboot _ => True
  | _ => d.running.isSome

/-- A new entry gets a number in range. -/
def HasRoom : OtaEvent → Prop
  | .setBoot _ _ => Room t (entries t d.img)
  | _ => True

end Device

/-- The states a device reaches from erased OTA data. -/
inductive Reach (t : OtaTable) : Device → Prop
  | start {d} (h : ∀ a, t.otadata ≤ a → a < t.otadata + t.otadataSize → d.img a = 0xFF) : Reach t d
  | step {d} (ev : OtaEvent) (h : Reach t d) (hp : d.Possible t ev) (hroom : d.HasRoom t ev) : Reach t (d.after t ev)

/-- The running app goes on, by events of a kind: no restart, and no partition selected. -/
inductive Calm (t : OtaTable) (kind : OtaEvent → Prop) : Device → Device → Prop
  | refl {d} : Calm t kind d d
  | step {d d'} (ev : OtaEvent) (h : Calm t kind d d') (hk : kind ev) (hno : d'.selects t ev = none)
      (hset : ∀ p, ev ≠ .setBoot true p) : Calm t kind d (d'.after t ev)

section Steps

variable {t : OtaTable} {d : Device}

theorem bootSelection_eq (t : OtaTable) (img : Image) :
    bootSelection t img = some (verdictOf t (aborted (entries t img))).1 := by
  unfold bootSelection
  rw [getSelected_run]

theorem entries_restart (imageOk : AppPartition → Bool) :
    entries t (d.restart t imageOk).img = booted t imageOk (entries t d.img) := by
  obtain ⟨ops, hrun, hafter⟩ := boot_run t d.img imageOk
  unfold Device.restart
  rw [hrun]
  exact hafter

/-- Marking changes the state of the active entry, or nothing. -/
theorem workable_entries (t : OtaTable) (d : Device) (imageOk : AppPartition → Bool) (valid : Bool) :
    entries t (d.call (currentOtaIsWorkable t imageOk valid)).img = entries t d.img ∨
      ∃ a, getActiveOtadata (entries t d.img) = some a ∧
        (valid = false → (currentOtaIsWorkable t imageOk valid () d.img).result = .ok ()) ∧
        entries t (d.call (currentOtaIsWorkable t imageOk valid)).img = Function.update (entries t d.img) a
          { entries t d.img a with otaState := if valid then imgValid else imgInvalid } := by
  have hrun := workable_run t d.img imageOk valid
  unfold Device.call
  cases ha : getActiveOtadata (entries t d.img) with
  | none =>
      rw [ha] at hrun
      rw [hrun]
      exact Or.inl rfl
  | some a =>
      rw [ha] at hrun
      dsimp only at hrun
      by_cases hfail : valid = false ∧ checkRollbackIsPossible t imageOk (entries t d.img) = false
      · rw [if_pos hfail] at hrun
        rw [hrun]
        exact Or.inl rfl
      · by_cases hdone : valid = true ∧ (entries t d.img a).otaState = imgValid
        · rw [if_neg hfail, if_pos hdone] at hrun
          rw [hrun]
          exact Or.inl rfl
        · rw [if_neg hfail, if_neg hdone, OtaSelectEntry.withSeq_self (active_valid ha).2] at hrun
          rw [hrun]
          exact Or.inr ⟨a, rfl, fun _ => rfl, entries_write t d.img a _⟩

/-- Starting an update erases the inactive entry, or nothing. -/
theorem begin_entries (app : AppPartition) (target : Nat) (inProgress : Bool) :
    entries t (d.call (otaBegin t app target inProgress)).img = entries t d.img ∨
      ∃ a, getActiveOtadata (entries t d.img) = some a ∧ runningPending t (entries t d.img) app = false ∧
        app ≠ .ota (t.slot (entries t d.img (other a))) ∧
        entries t (d.call (otaBegin t app target inProgress)).img =
          Function.update (entries t d.img) (other a) .blank := by
  obtain ⟨res, ops, hrun, hops⟩ := begin_run t d.img app target inProgress
  unfold Device.call
  rw [hrun]
  rcases hops with rfl | ⟨a, ha, rfl, hpending, hne⟩
  · exact Or.inl rfl
  · exact Or.inr ⟨a, ha, hpending, hne, entries_erase t d.img (other a)⟩

/-- What a successful selection of a slot does to the entries. -/
theorem setBoot_entries (h : ValidInv t (entries t d.img)) {slot : Nat} (hslot : slot < t.appCount)
    (hroom : Room t (entries t d.img)) :
    ∃ i s, (setBootPartition t true (.ota slot) () d.img).result = .ok () ∧ s.Complete ∧ s.otaState = imgNew ∧
      t.slot s = slot ∧ Numbered t (entries t d.img) slot i s ∧
      entries t (d.call (setBootPartition t true (.ota slot))).img = Function.update (entries t d.img) i s := by
  obtain ⟨i, s, hrun, hnew, hpos, hcrc, hnames, hnumbered⟩ :=
    setBoot_spec h hslot (fun a ha => (hroom a ha).trans (by omega))
  have hs : s.Complete := ⟨hnumbered.ne_max hslot hroom, hpos, hcrc⟩
  refine ⟨i, s, by rw [hrun], hs, hnew, hnames, hnumbered, ?_⟩
  unfold Device.call
  rw [hrun]
  exact entries_write t d.img i s

theorem inv_call_workable (h : EntriesInv t (entries t d.img)) (imageOk : AppPartition → Bool) (valid : Bool) :
    EntriesInv t (entries t (d.call (currentOtaIsWorkable t imageOk valid)).img) := by
  rcases workable_entries t d imageOk valid with e | ⟨a, ha, -, e⟩
  · rw [e]
    exact h
  · rw [e]
    exact h.setState (active_valid ha) _

theorem inv_restart (h : EntriesInv t (entries t d.img)) (imageOk : AppPartition → Bool) :
    EntriesInv t (entries t (d.restart t imageOk).img) := by
  rw [entries_restart]
  exact h.booted imageOk

theorem after_rollback (imageOk bootOk : AppPartition → Bool) : d.after t (.rollbackAndReboot imageOk bootOk) =
    match (currentOtaIsWorkable t imageOk false () d.img).result with
    | .ok _ => (d.call (currentOtaIsWorkable t imageOk false)).restart t bootOk
    | .error _ => d.call (currentOtaIsWorkable t imageOk false) := rfl

theorem after_begin (target : Nat) (inProgress : Bool) : d.after t (.begin target inProgress) =
    match d.running with
    | some app => d.call (otaBegin t app target inProgress)
    | none => d := rfl

/-- Every event keeps the invariant. -/
theorem inv_after (h : EntriesInv t (entries t d.img)) {ev : OtaEvent} (hp : d.Possible t ev) (hroom : d.HasRoom t ev) :
    EntriesInv t (entries t (d.after t ev).img) := by
  cases ev with
  | setBoot imageOk p =>
      cases imageOk with
      | false => exact h
      | true =>
          cases p with
          | factory =>
              change EntriesInv t (entries t ((Op.erase t.otadata t.otadataSize).apply d.img))
              rw [entries_eraseAll]
              exact EntriesInv.blank
          | ota slot =>
              obtain ⟨i, s, -, hs, -, hnames, hnumbered, e⟩ := setBoot_entries h.valid hp.2 hroom
              change EntriesInv t (entries t (d.call (setBootPartition t true (.ota slot))).img)
              rw [e]
              exact hnumbered.inv h hs hnames
  | markValid => exact inv_call_workable h _ true
  | rollbackAndReboot imageOk bootOk =>
      have hcall := inv_call_workable h imageOk false
      rw [after_rollback]
      cases (currentOtaIsWorkable t imageOk false () d.img).result with
      | ok _ => exact inv_restart hcall bootOk
      | error _ => exact hcall
  | begin target inProgress =>
      rw [after_begin]
      cases d.running with
      | none => exact h
      | some app =>
          rcases begin_entries app target inProgress with e | ⟨a, -, -, -, e⟩
          · dsimp only
            rw [e]
            exact h
          · dsimp only
            rw [e]
            exact h.erase _
  | reboot imageOk => exact inv_restart h imageOk

theorem Reach.inv (h : Reach t d) : EntriesInv t (entries t d.img) := by
  induction h with
  | @start d herased =>
      rw [entries_erased t herased]
      exact EntriesInv.blank
  | step ev _ hp hroom ih => exact inv_after ih hp hroom

end Steps

end EspIdf.Ota
