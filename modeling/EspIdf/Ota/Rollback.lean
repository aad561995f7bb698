import EspIdf.Ota.OtaRuns

/-!
# The rollback protocol

* `Chosen` : the state of the entries from `setBootPartition` to the next restart;
* `Trial` : the state of the device from there on, while the new app is not confirmed;
* `RollbackProtocol` : what restarts select in runs of the device.
-/

namespace EspIdf.Ota

open NorFlash

/-! ## Events that do not restart the device -/

section Calm

variable {t : OtaTable} {d : Device}

theorem selects_rollback (imageOk bootOk : AppPartition → Bool) : d.selects t (.rollbackAndReboot imageOk bootOk) =
    match (currentOtaIsWorkable t imageOk false () d.img).result with
    | .ok _ => bootSelection t (d.call (currentOtaIsWorkable t imageOk false)).img
    | .error _ => none := rfl

/-- What a calm event does to the entries. -/
inductive CalmChange (t : OtaTable) (d : Device) : OtaEvent → TwoOtadata → Prop
  | same {ev} : CalmChange t d ev (entries t d.img)
  | mark {a} (ha : getActiveOtadata (entries t d.img) = some a) :
      CalmChange t d .markValid (Function.update (entries t d.img) a { entries t d.img a with otaState := imgValid })
  | begin {target inProgress app a} (happ : d.running = some app) (ha : getActiveOtadata (entries t d.img) = some a)
      (hpending : runningPending t (entries t d.img) app = false)
      (hne : app ≠ .ota (t.slot (entries t d.img (other a)))) :
      CalmChange t d (.begin target inProgress) (Function.update (entries t d.img) (other a) .blank)

theorem calm_step {ev : OtaEvent} (hno : d.selects t ev = none)
    (hset : ∀ p, ev ≠ .setBoot true p) :
    (d.after t ev).running = d.running ∧ CalmChange t d ev (entries t (d.after t ev).img) := by
  cases ev with
  | setBoot imageOk p =>
      cases imageOk with
      | false => exact ⟨rfl, .same⟩
      | true => exact absurd rfl (hset p)
  | markValid =>
      refine ⟨rfl, ?_⟩
      change CalmChange t d _ (entries t (d.call (currentOtaIsWorkable t (fun _ => true) true)).img)
      rcases workable_entries t d (fun _ => true) true with e | ⟨a, ha, -, e⟩
      · rw [e]
        exact .same
      · rw [e]
        exact .mark ha
  | rollbackAndReboot imageOk bootOk =>
      rw [selects_rollback] at hno
      rw [after_rollback]
      rcases workable_entries t d imageOk false with e | ⟨a, ha, hok, -⟩
      · cases hres : (currentOtaIsWorkable t imageOk false () d.img).result with
        | ok _ =>
            rw [hres] at hno
            dsimp only at hno
            rw [bootSelection_eq] at hno
            exact absurd hno (by simp)
        | error _ =>
            dsimp only
            rw [e]
            exact ⟨rfl, .same⟩
      · rw [hok rfl] at hno
        dsimp only at hno
        rw [bootSelection_eq] at hno
        exact absurd hno (by simp)
  | begin target inProgress =>
      rw [after_begin]
      cases happ : d.running with
      | none => exact ⟨happ, .same⟩
      | some app =>
          refine ⟨happ, ?_⟩
          dsimp only
          rcases begin_entries app target inProgress with e | ⟨a, ha, hpending, hne, e⟩
          · rw [e]
            exact .same
          · rw [e]
            exact .begin happ ha hpending hne
  | reboot imageOk =>
      change bootSelection t d.img = none at hno
      rw [bootSelection_eq] at hno
      exact absurd hno (by simp)

end Calm

/-! ## From the selection of a slot to the restart -/

/-- The entry of a selected slot is the active one, and was not tried yet. -/
structure Chosen (t : OtaTable) (slot : Nat) (i : Fin 2) (two : TwoOtadata) : Prop where
  inv : EntriesInv t two
  active : getActiveOtadata two = some i
  names : t.slot (two i) = slot
  fresh : (two i).otaState = imgNew ∨ (two i).otaState = imgValid

section Chosen

variable {t : OtaTable} {two : TwoOtadata} {i : Fin 2}

theorem active_eraseOther (ha : getActiveOtadata two = some i) :
    getActiveOtadata (Function.update two (other i) .blank) = some i := by
  apply active_of
  · rw [Function.update_of_ne (other_ne i).symm]
    exact active_valid ha
  · rw [Function.update_self]
    exact fun hv => absurd OtaSelectEntry.blank_selectInvalid hv.1

/-- The next restart selects the slot. -/
theorem Chosen.selected {slot : Nat} (h : Chosen t slot i two) : (verdictOf t (aborted two)).1 = Int.ofNat slot := by
  have hp : (two i).otaState ≠ imgPendingVerify := by
    rcases h.fresh with e | e
    · rw [e]
      decide
    · rw [e]
      decide
  obtain ⟨ha, hsame⟩ := aborted_active h.inv.valid h.active hp
  rw [verdict_active ha, hsame, h.names]

theorem Chosen.calm_step {slot : Nat} {d : Device} (h : Chosen t slot i (entries t d.img)) {ev : OtaEvent}
    {two' : TwoOtadata} (hc : CalmChange t d ev two') : Chosen t slot i two' := by
  cases hc with
  | same => exact h
  | mark ha =>
      obtain rfl := Option.some.inj (h.active.symm.trans ha)
      refine ⟨h.inv.setState (active_valid ha) imgValid, active_setState h.inv.valid ha (by decide), ?_, ?_⟩
      · rw [Function.update_self]
        exact h.names
      · rw [Function.update_self]
        exact Or.inr rfl
  | begin happ ha hpending hne =>
      obtain rfl := Option.some.inj (h.active.symm.trans ha)
      refine ⟨h.inv.erase _, active_eraseOther ha, ?_, ?_⟩
      · rw [Function.update_of_ne (other_ne i).symm]
        exact h.names
      · rw [Function.update_of_ne (other_ne i).symm]
        exact h.fresh

theorem Chosen.calm {slot : Nat} {kind : OtaEvent → Prop} {d d' : Device} (h : Chosen t slot i (entries t d.img))
    (hc : Calm t kind d d') : Chosen t slot i (entries t d'.img) := by
  induction hc with
  | refl => exact h
  | step ev _ _ hno hset ih => exact ih.calm_step (Ota.calm_step hno hset).2

/-- An app that runs from the inactive entry's slot keeps that entry. -/
theorem Chosen.calm_kept {slot : Nat} {kind : OtaEvent → Prop} {d d' : Device} {s : OtaSelectEntry}
    (h : Chosen t slot i (entries t d.img)) (hother : entries t d.img (other i) = s)
    (hrun : d.running = some (.ota (t.slot s))) (hmark : ∀ ev, kind ev → ev ≠ .markValid) (hc : Calm t kind d d') :
    entries t d'.img = entries t d.img ∧ d'.running = d.running := by
  induction hc with
  | refl => exact ⟨rfl, rfl⟩
  | @step d' ev hc hk hno hset ih =>
      obtain ⟨htwo, hrunning⟩ := ih
      obtain ⟨hr, hchange⟩ := Ota.calm_step hno hset
      refine ⟨?_, hr.trans hrunning⟩
      generalize entries t (d'.after t ev).img = two' at hchange
      cases hchange with
      | same => exact htwo
      | mark ha => exact absurd rfl (hmark _ hk)
      | begin happ ha hpending hne =>
          obtain rfl := Option.some.inj ((h.calm hc).active.symm.trans ha)
          rw [htwo, hother] at hne
          rw [hrunning, hrun] at happ
          exact absurd (Option.some.inj happ).symm hne

end Chosen

/-! ## An app on trial -/

/-- The app of entry `i` runs and is not confirmed; `o` is the other entry. -/
structure Trial (t : OtaTable) (i : Fin 2) (o : OtaSelectEntry) (d : Device) : Prop where
  inv : EntriesInv t (entries t d.img)
  active : getActiveOtadata (entries t d.img) = some i
  pending : (entries t d.img i).otaState = imgPendingVerify
  running : d.running = some (.ota (t.slot (entries t d.img i)))
  other_eq : entries t d.img (other i) = o

section Trial

variable {t : OtaTable} {d : Device} {i : Fin 2} {o : OtaSelectEntry}

/-- `getStatePartition` finds the active entry. -/
theorem getState_active {two : TwoOtadata} (h : EntriesInv t two) (ha : getActiveOtadata two = some i) :
    getStatePartition t two (t.slot (two i)) = some (two i).otaState := by
  have hv := active_valid ha
  have hc := h.complete_of_valid hv
  unfold getStatePartition
  match i, hv, hc with
  | 0, hv, hc => exact if_pos ⟨rfl, hc.2.2⟩
  | 1, hv, hc =>
      have h0 : ¬(t.slot (two 0) = t.slot (two 1) ∧ (two 0).crc = (two 0).selectCrc) := by
        rintro ⟨hslot, hcrc⟩
        rcases h.complete 0 with hb | hc0
        · rw [hb] at hcrc
          exact absurd hcrc (by decide +kernel)
        · exact h.slot_ne hc0 hv hslot
      rw [if_neg h0]
      exact if_pos ⟨rfl, hc.2.2⟩

theorem runningPending_active {two : TwoOtadata} (h : EntriesInv t two) (ha : getActiveOtadata two = some i)
    (hp : (two i).otaState = imgPendingVerify) : runningPending t two (.ota (t.slot (two i))) = true := by
  have hstate := getState_active h ha
  rw [hp] at hstate
  exact decide_eq_true hstate

/-- Nothing but a restart, a selection or a confirmation ends the trial. -/
theorem Trial.calm {d' : Device} (h : Trial t i o d) (hc : Calm t (· ≠ .markValid) d d') : Trial t i o d' := by
  induction hc with
  | refl => exact h
  | @step d' ev hc hk hno hset ih =>
      obtain ⟨hr, hchange⟩ := Ota.calm_step hno hset
      have e : entries t (d'.after t ev).img = entries t d'.img := by
        generalize entries t (d'.after t ev).img = two' at hchange
        cases hchange with
        | same => rfl
        | mark ha => exact absurd rfl hk
        | begin happ ha hpending hne =>
            obtain rfl := Option.some.inj (ih.running.symm.trans happ)
            rw [runningPending_active ih.inv ih.active ih.pending] at hpending
            exact absurd hpending (by simp)
      constructor
      · rw [e]
        exact ih.inv
      · rw [e]
        exact ih.active
      · rw [e]
        exact ih.pending
      · rw [hr, e]
        exact ih.running
      · rw [e]
        exact ih.other_eq

/-- A restart that does not find the entry valid goes back to the other one. -/
theorem selection_back {img : Image} (h : EntriesInv t (entries t img)) (hi : ¬(aborted (entries t img) i).SelectValid)
    (ho : entries t img (other i) = o) (hstate : o.otaState ≠ imgPendingVerify) :
    bootSelection t img = some (fallbackIndex t o) := by
  have hsame : aborted (entries t img) (other i) = o := by
    unfold aborted
    rw [ho]
    exact if_neg hstate
  rw [bootSelection_eq, verdict_alone h.aborted hi, hsame]

/-- The restart that ends a trial goes back to the other entry. -/
theorem Trial.falls_back (h : Trial t i o d) (hstate : o.otaState ≠ imgPendingVerify) {ev : OtaEvent} {k : Int}
    (hk : d.selects t ev = some k) : k = fallbackIndex t o := by
  have habort : ¬(aborted (entries t d.img) i).SelectValid := by
    intro hv
    obtain ⟨-, e⟩ := OtaSelectEntry.abortPending_valid hv
    have hs : (entries t d.img i).abortPending.otaState = imgAborted := by
      unfold OtaSelectEntry.abortPending
      rw [if_pos h.pending]
    rw [e, h.pending] at hs
    exact absurd hs (by decide)
  cases ev with
  | reboot imageOk =>
      change bootSelection t d.img = some k at hk
      rw [selection_back h.inv habort h.other_eq hstate] at hk
      exact (Option.some.inj hk).symm
  | rollbackAndReboot imageOk bootOk =>
      rw [selects_rollback] at hk
      cases hres : (currentOtaIsWorkable t imageOk false () d.img).result with
      | error _ =>
          rw [hres] at hk
          exact absurd hk (by simp)
      | ok _ =>
          rw [hres] at hk
          dsimp only at hk
          have hinv := inv_call_workable h.inv imageOk false
          rcases workable_entries t d imageOk false with e | ⟨a, ha, -, e⟩
          · rw [selection_back hinv (by rw [e]; exact habort) (by rw [e]; exact h.other_eq) hstate] at hk
            exact (Option.some.inj hk).symm
          · obtain rfl := Option.some.inj (h.active.symm.trans ha)
            have hinvalid : ¬(aborted (entries t (d.call (currentOtaIsWorkable t imageOk false)).img) i).SelectValid := by
              rw [e]
              intro hv
              obtain ⟨hv', -⟩ := OtaSelectEntry.abortPending_valid hv
              rw [Function.update_self] at hv'
              exact hv'.1 (Or.inr (Or.inl rfl))
            have hother : entries t (d.call (currentOtaIsWorkable t imageOk false)).img (other i) = o := by
              rw [e, Function.update_of_ne (other_ne i)]
              exact h.other_eq
            rw [selection_back hinv hinvalid hother hstate] at hk
            exact (Option.some.inj hk).symm
  | setBoot _ _ => exact absurd hk (by change ¬(none = some k); simp)
  | markValid => exact absurd hk (by change ¬(none = some k); simp)
  | begin _ _ => exact absurd hk (by change ¬(none = some k); simp)

/-- The image that was selected is tried first. -/
theorem firstBootable_self {imageOk : AppPartition → Bool} {slot : Nat} (hslot : slot < t.appCount)
    (hok : imageOk (.ota slot) = true) :
    firstBootable t imageOk (Int.ofNat slot) = some (Int.ofNat slot, .ota slot) := by
  have hpartition : t.partition? (Int.ofNat slot) = some (.ota slot) := by
    unfold OtaTable.partition?
    have hne : Int.ofNat slot ≠ -1 := by
      have := Int.natCast_nonneg slot
      change (slot : Int) ≠ -1
      omega
    rw [if_neg hne, if_pos ⟨Int.natCast_nonneg slot, hslot⟩]
    rfl
  have horder : tryOrder t (Int.ofNat slot) = Int.ofNat slot :: (tryOrder t (Int.ofNat slot)).tail := by
    unfold tryOrder
    rw [show (Int.ofNat slot + 2).toNat = slot + 2 from rfl, List.range_succ_eq_map]
    simp only [List.map_cons, List.cons_append, List.tail_cons]
    rw [show Int.ofNat slot - ((0 : Nat) : Int) = Int.ofNat slot from Int.sub_zero _]
  unfold firstBootable
  rw [horder, List.findSome?_cons, hpartition]
  simp only [Option.filter_some, hok, if_true, Option.map_some]

/-- A restart that starts a new app puts it on trial. -/
theorem trial_restart (h : EntriesInv t (entries t d.img)) (ha : getActiveOtadata (aborted (entries t d.img)) = some i)
    (hnew : (aborted (entries t d.img) i).otaState = imgNew) {imageOk : AppPartition → Bool}
    (hok : imageOk (.ota (t.slot (aborted (entries t d.img) i))) = true) :
    bootSelection t d.img = some (Int.ofNat (t.slot (aborted (entries t d.img) i))) ∧
      Trial t i (aborted (entries t d.img) (other i)) (d.restart t imageOk) := by
  have hverdict := verdict_active (t := t) ha
  have hfirst := firstBootable_self (t.slot_lt (aborted (entries t d.img) i)) hok
  obtain ⟨ops, hrun, -⟩ := boot_run t d.img imageOk
  have hentries := entries_restart (d := d) (t := t) imageOk
  have hbooted : booted t imageOk (entries t d.img) = Function.update (aborted (entries t d.img)) i
      { aborted (entries t d.img) i with otaState := imgPendingVerify } := by
    unfold booted
    rw [hverdict]
    dsimp only
    rw [hfirst]
    unfold settled marked
    rw [ha]
    dsimp only
    rw [if_pos hnew]
    exact if_neg (fun h => absurd h.2 (by simp))
  rw [hbooted] at hentries
  have hrunning : (d.restart t imageOk).running = some (.ota (t.slot (aborted (entries t d.img) i))) := by
    unfold Device.restart
    rw [hrun, hverdict]
    unfold bootResult
    dsimp only
    rw [hfirst]
    rfl
  refine ⟨by rw [bootSelection_eq, hverdict], inv_restart h imageOk, ?_, ?_, ?_, ?_⟩
  · rw [hentries]
    exact active_setState h.aborted.valid ha (by decide)
  · rw [hentries, Function.update_self]
  · rw [hentries, Function.update_self]
    exact hrunning
  · rw [hentries, Function.update_of_ne (other_ne i)]

end Trial

/-! ## A device -/

theorem otadata_aligned : 4096 ∣ 0x10000 := by decide

def slots (n : Nat) (h : 2 ≤ n ∧ n ≤ 16) : OtaTable where
  otadata := 0x10000
  otadataSize := 0x2000
  appCount := n
  factory := false
  two_le := h.1
  le_max := h.2
  offset_ne := by decide
  aligned := otadata_aligned
  two_sectors := by decide

def twoSlots : OtaTable := slots 2 (by decide)

def threeSlots : OtaTable := slots 3 (by decide)

/-- A device with erased flash that runs the app in the first slot. -/
def erased : Device := ⟨fun _ => 0xFF, some (.ota 0)⟩

/-- Every image passes verification. -/
def allOk : AppPartition → Bool := fun _ => true

/-! ## The protocol -/

/-- What restarts make of the device's calls. -/
structure RollbackProtocol (t : OtaTable) (d : Device) : Prop where
  distinct : (entries t d.img 0).SelectValid → (entries t d.img 1).SelectValid →
    (entries t d.img 0).otaSeq ≠ (entries t d.img 1).otaSeq ∧ t.slot (entries t d.img 0) ≠ t.slot (entries t d.img 1)
  /-- The entry a selected slot gets. -/
  numbered : ∀ slot, d.Possible t (.setBoot true (.ota slot)) → Room t (entries t d.img) →
    (setBootPartition t true (.ota slot) () d.img).result = .ok () ∧
      ∃ i s, s.otaState = imgNew ∧ t.slot s = slot ∧ Numbered t (entries t d.img) slot i s ∧
        entries t (d.after t (.setBoot true (.ota slot))).img = Function.update (entries t d.img) i s
  /-- The next restart selects what was selected, whatever the app does in between. -/
  selected : ∀ p, d.Possible t (.setBoot true p) → Room t (entries t d.img) →
    ∀ d', Calm t (fun _ => True) (d.after t (.setBoot true p)) d' → bootSelection t d'.img = some p.index
  /-- A new app that a restart starts and that is not confirmed is left at the next restart. -/
  unconfirmed : ∀ a, getActiveOtadata (aborted (entries t d.img)) = some a →
    (aborted (entries t d.img) a).otaState = imgNew →
    ∀ imageOk : AppPartition → Bool, imageOk (.ota (t.slot (aborted (entries t d.img) a))) = true →
      bootSelection t d.img = some (Int.ofNat (t.slot (aborted (entries t d.img) a))) ∧
        ∀ d' ev k, Calm t (· ≠ .markValid) (d.restart t imageOk) d' → d'.selects t ev = some k →
          k = fallbackIndex t (aborted (entries t d.img) (other a))
  /-- An update that is not confirmed goes back to the app that made it. -/
  falls_back : ∀ a slot, getActiveOtadata (entries t d.img) = some a → (entries t d.img a).otaState = imgValid →
    d.running = some (.ota (t.slot (entries t d.img a))) → t.slot (entries t d.img a) ≠ slot →
    d.Possible t (.setBoot true (.ota slot)) → Room t (entries t d.img) →
    ∀ d₁, Calm t (· ≠ .markValid) (d.after t (.setBoot true (.ota slot))) d₁ →
      ∀ imageOk : AppPartition → Bool, imageOk (.ota slot) = true →
        ∀ d₂ ev k, Calm t (· ≠ .markValid) (d₁.restart t imageOk) d₂ → d₂.selects t ev = some k →
          k = Int.ofNat (t.slot (entries t d.img a))

section Protocol

variable {t : OtaTable} {d : Device}

/-- After the factory app is selected the entries stay blank. -/
theorem blank_calm {kind : OtaEvent → Prop} {d' : Device} (h : entries t d.img = fun _ => .blank)
    (hc : Calm t kind d d') : entries t d'.img = fun _ => .blank := by
  induction hc with
  | refl => exact h
  | @step d' ev _ _ hno hset ih =>
      have hnone : getActiveOtadata (entries t d'.img) = none := by
        rw [ih, active_none]
        exact fun _ hv => absurd OtaSelectEntry.blank_selectInvalid hv.1
      obtain ⟨-, hchange⟩ := Ota.calm_step hno hset
      generalize entries t (d'.after t ev).img = two' at hchange
      cases hchange with
      | same => exact ih
      | mark ha => exact absurd (hnone.symm.trans ha) (by simp)
      | begin _ ha _ _ => exact absurd (hnone.symm.trans ha) (by simp)

/-- A successful selection of a slot. -/
theorem chosen_setBoot (h : EntriesInv t (entries t d.img)) {slot : Nat} (hslot : slot < t.appCount)
    (hroom : Room t (entries t d.img)) :
    ∃ i s, s.otaState = imgNew ∧ Numbered t (entries t d.img) slot i s ∧
      entries t (d.after t (.setBoot true (.ota slot))).img = Function.update (entries t d.img) i s ∧
      Chosen t slot i (entries t (d.after t (.setBoot true (.ota slot))).img) := by
  obtain ⟨i, s, -, hs, hnew, hnames, hnumbered, e⟩ := setBoot_entries h.valid hslot hroom
  have hvalid : s.SelectValid := hs.valid_iff.mpr (by rw [hnew]; decide)
  refine ⟨i, s, hnew, hnumbered, e, ?_⟩
  change Chosen t slot i (entries t (d.call (setBootPartition t true (.ota slot))).img)
  rw [e]
  refine ⟨hnumbered.inv h hs hnames, hnumbered.active h.valid hvalid, ?_, ?_⟩
  · rw [Function.update_self]
    exact hnames
  · rw [Function.update_self]
    exact Or.inl hnew

theorem rollback_protocol (h : Reach t d) : RollbackProtocol t d where
  distinct h0 h1 := by
    have hslot := h.inv.slot_ne (h.inv.complete_of_valid h0) h1
    exact ⟨fun e => hslot (slot_congr e), hslot⟩
  numbered slot hp hroom := by
    obtain ⟨i, s, hok, -, hnew, hnames, hnumbered, e⟩ := setBoot_entries h.inv.valid hp.2 hroom
    exact ⟨hok, i, s, hnew, hnames, hnumbered, e⟩
  selected p hp hroom d' hc := by
    rw [bootSelection_eq]
    cases p with
    | factory =>
        have herased : entries t (d.after t (.setBoot true .factory)).img = fun _ => .blank :=
          entries_eraseAll t d.img
        have hblank := blank_calm herased hc
        have hnone : getActiveOtadata (fun _ : Fin 2 => OtaSelectEntry.blank) = none :=
          active_none.mpr fun _ hv => absurd OtaSelectEntry.blank_selectInvalid hv.1
        have hinv : EntriesInv t (fun _ => .blank) := EntriesInv.blank
        have haborted : aborted (fun _ : Fin 2 => OtaSelectEntry.blank) = fun _ => .blank := by
          funext i
          exact OtaSelectEntry.blank_abortPending
        rw [hblank, haborted, verdict_none hinv hnone, if_pos hp.2]
        rfl
    | ota slot =>
        obtain ⟨i, s, -, -, -, hchosen⟩ := chosen_setBoot h.inv hp.2 hroom
        rw [(hchosen.calm hc).selected]
        rfl
  unconfirmed a ha hnew imageOk hok := by
    obtain ⟨hsel, htrial⟩ := trial_restart h.inv ha hnew hok
    refine ⟨hsel, ?_⟩
    intro d' ev k hc hk
    have hstate : (aborted (entries t d.img) (other a)).otaState ≠ imgPendingVerify := by
      unfold aborted OtaSelectEntry.abortPending
      split_ifs with hp
      · exact show imgAborted ≠ imgPendingVerify by decide
      · exact hp
    exact (htrial.calm hc).falls_back hstate hk
  falls_back a slot ha hvalid hrun hne hp hroom d₁ hc₁ imageOk hok d₂ ev k hc₂ hk := by
    obtain ⟨i, s, hnew, hnumbered, e, hchosen⟩ := chosen_setBoot h.inv hp.2 hroom
    have hi : i = other a := by
      cases hnumbered with
      | first hnone => exact absurd (hnone.symm.trans ha) (by simp)
      | again ha' hsame => exact absurd (Option.some.inj (ha.symm.trans ha') ▸ hsame) hne
      | next ha' => exact congrArg other (Option.some.inj (ha'.symm.trans ha))
    subst hi
    have hkept : entries t (d.after t (.setBoot true (.ota slot))).img (other (other a)) = entries t d.img a := by
      rw [e, other_other, Function.update_of_ne (other_ne a).symm]
    obtain ⟨htwo, -⟩ := hchosen.calm_kept hkept hrun (fun _ h => h) hc₁
    have hchosen₁ := hchosen.calm hc₁
    have hstate : (entries t d₁.img (other a)).otaState = imgNew := by
      rw [htwo, e, Function.update_self]
      exact hnew
    obtain ⟨hactive, hsame⟩ := aborted_active hchosen₁.inv.valid hchosen₁.active (by rw [hstate]; decide)
    have hok₁ : imageOk (.ota (t.slot (aborted (entries t d₁.img) (other a)))) = true := by
      rw [hsame, hchosen₁.names]
      exact hok
    have hother : aborted (entries t d₁.img) (other (other a)) = entries t d.img a := by
      unfold aborted OtaSelectEntry.abortPending
      rw [htwo, hkept, hvalid]
      exact if_neg (by decide)
    obtain ⟨-, htrial⟩ := trial_restart hchosen₁.inv hactive (by rw [hsame]; exact hstate) hok₁
    rw [hother] at htrial
    rw [(htrial.calm hc₂).falls_back (by rw [hvalid]; decide) hk, fallbackIndex_valid (active_valid ha)]

theorem rollback_protocol_started : RollbackProtocol threeSlots (erased.after threeSlots (.reboot allOk)) :=
  rollback_protocol (.step (.reboot allOk) (.start fun _ _ _ => rfl) trivial trivial)

end Protocol

/-! ## Where the protocol stops short -/

/-- What the bootloader selects along a run. -/
def Device.trace (t : OtaTable) (d : Device) : List OtaEvent → List (Option Int)
  | [] => []
  | ev :: evs => d.selects t ev :: (d.after t ev).trace t evs

/-- Selecting the slots in turn counts up, as far as the numbers go. -/
theorem reach_number (k : Nat) (h1 : 1 ≤ k) (hk : k ≤ 2 ^ 32 - 2) : ∃ d a, Reach twoSlots d ∧ d.running.isSome ∧
    getActiveOtadata (entries twoSlots d.img) = some a ∧ (entries twoSlots d.img a).otaSeq.toNat = k ∧
    (entries twoSlots d.img a).otaState = imgNew := by
  induction k, h1 using Nat.le_induction with
  | base =>
      have hreach : Reach twoSlots erased := .start fun _ _ _ => rfl
      have hblank : entries twoSlots erased.img = fun _ => .blank := entries_erased twoSlots fun _ _ _ => rfl
      have hnone : getActiveOtadata (entries twoSlots erased.img) = none := by
        rw [hblank, active_none]
        exact fun _ hv => absurd OtaSelectEntry.blank_selectInvalid hv.1
      have hroom : Room twoSlots (entries twoSlots erased.img) := fun a ha => absurd (hnone.symm.trans ha) (by simp)
      have hp : erased.Possible twoSlots (.setBoot true (.ota 0)) := ⟨rfl, by decide⟩
      obtain ⟨i, s, hnew, hnumbered, e, hchosen⟩ := chosen_setBoot hreach.inv hp.2 hroom
      refine ⟨_, i, hreach.step _ hp hroom, rfl, hchosen.active, ?_⟩
      rw [e, Function.update_self]
      cases hnumbered with
      | first _ hseq => exact ⟨hseq, hnew⟩
      | again ha => exact absurd (hnone.symm.trans ha) (by simp)
      | next ha => exact absurd (hnone.symm.trans ha) (by simp)
  | succ k h1 ih =>
      obtain ⟨d, a, hreach, hrun, hactive, hseq, -⟩ := ih (by omega)
      have htwo : twoSlots.appCount = 2 := rfl
      have hroom : Room twoSlots (entries twoSlots d.img) := by
        intro b hb
        obtain rfl := Option.some.inj (hactive.symm.trans hb)
        rw [hseq, htwo]
        omega
      have hlt := twoSlots.slot_lt (entries twoSlots d.img a)
      rw [htwo] at hlt
      have hp : d.Possible twoSlots (.setBoot true (.ota (1 - twoSlots.slot (entries twoSlots d.img a)))) :=
        ⟨hrun, by rw [htwo]; omega⟩
      obtain ⟨i, s, hnew, hnumbered, e, hchosen⟩ := chosen_setBoot hreach.inv hp.2 hroom
      refine ⟨_, i, hreach.step _ hp hroom, hrun, hchosen.active, ?_⟩
      rw [e, Function.update_self]
      refine ⟨?_, hnew⟩
      cases hnumbered with
      | first ha => exact absurd (hactive.symm.trans ha) (by simp)
      | again ha hsame =>
          obtain rfl := Option.some.inj (hactive.symm.trans ha)
          omega
      | next ha _ hgt hlt' =>
          obtain rfl := Option.some.inj (hactive.symm.trans ha)
          rw [UInt32.lt_iff_toNat_lt] at hgt
          rw [htwo] at hlt'
          omega

/-- The number after the last one is not a number. -/
theorem last_number : ∃ d p, Reach twoSlots d ∧ d.Possible twoSlots (.setBoot true p) ∧
    (setBootPartition twoSlots true p () d.img).result = .ok () ∧
    bootSelection twoSlots (d.after twoSlots (.setBoot true p)).img ≠ some p.index := by
  obtain ⟨d, a, hreach, hrun, hactive, hseq, hnew⟩ := reach_number (2 ^ 32 - 2) (by omega) (by omega)
  have htwo : twoSlots.appCount = 2 := rfl
  have hlt := twoSlots.slot_lt (entries twoSlots d.img a)
  rw [htwo] at hlt
  have hslot : 1 - twoSlots.slot (entries twoSlots d.img a) < twoSlots.appCount := by
    rw [htwo]
    omega
  obtain ⟨i, s, hset, -, -, -, -, hnumbered⟩ := setBoot_spec hreach.inv.valid hslot (by
    intro b hb
    obtain rfl := Option.some.inj (hactive.symm.trans hb)
    rw [hseq, htwo]
    omega)
  refine ⟨d, .ota _, hreach, ⟨hrun, hslot⟩, by rw [hset], ?_⟩
  have e : entries twoSlots (d.after twoSlots (.setBoot true (.ota (1 - twoSlots.slot (entries twoSlots d.img a))))).img =
      Function.update (entries twoSlots d.img) i s := by
    change entries twoSlots (applyAll (setBootPartition twoSlots true _ () d.img).ops d.img) = _
    rw [hset]
    exact entries_write twoSlots d.img i s
  have hi : i = other a ∧ s.otaSeq = seqMax := by
    cases hnumbered with
    | first ha => exact absurd (hactive.symm.trans ha) (by simp)
    | again ha hsame =>
        obtain rfl := Option.some.inj (hactive.symm.trans ha)
        omega
    | next ha _ hgt hlt' =>
        obtain rfl := Option.some.inj (hactive.symm.trans ha)
        refine ⟨rfl, UInt32.toNat_inj.mp ?_⟩
        rw [UInt32.lt_iff_toNat_lt] at hgt
        rw [htwo] at hlt'
        change _ = 2 ^ 32 - 1
        omega
  obtain ⟨rfl, hmax⟩ := hi
  have hsame : aborted (Function.update (entries twoSlots d.img) (other a) s) a = entries twoSlots d.img a := by
    unfold aborted
    rw [Function.update_of_ne (other_ne a).symm]
    exact if_neg (by rw [hnew]; decide)
  have hselected : getActiveOtadata (aborted (Function.update (entries twoSlots d.img) (other a) s)) = some a := by
    apply active_of
    · rw [hsame]
      exact active_valid hactive
    · intro hv
      obtain ⟨hv', -⟩ := OtaSelectEntry.abortPending_valid hv
      rw [Function.update_self] at hv'
      exact absurd (Or.inl hmax) hv'.1
  rw [bootSelection_eq, e, verdict_active hselected, hsame]
  intro hk
  have hk' := Int.ofNat.inj (Option.some.inj hk)
  omega

/-- The entries after a slot is selected, and after it is selected again. -/
def Device.selectTwice (t : OtaTable) (d : Device) (slot : Nat) : TwoOtadata × TwoOtadata :=
  let once := d.after t (.setBoot true (.ota slot))
  (entries t once.img, entries t (once.after t (.setBoot true (.ota slot))).img)

/-- A second selection overwrites the entry of the app that made it; a selection is undone by a rollback; a slot that is
selected again keeps its number, and is tried again; and the numbers end. -/
theorem protocol_stops_short :
    erased.trace threeSlots [.reboot allOk, .setBoot true (.ota 1), .setBoot true (.ota 2), .reboot allOk,
      .reboot allOk] = [some 0, none, none, some 2, some 1] ∧
    erased.trace threeSlots [.reboot allOk, .setBoot true (.ota 1), .rollbackAndReboot allOk allOk] =
      [some 0, none, some 0] ∧
    erased.trace threeSlots [.reboot allOk, .setBoot true (.ota 1), .reboot allOk, .setBoot true (.ota 1),
      .reboot allOk] = [some 0, none, some 1, none, some 1] ∧
    ((erased.selectTwice threeSlots 1).1 0).otaSeq = 2 ∧ ((erased.selectTwice threeSlots 1).2 0).otaSeq = 2 ∧
    ∃ d p, Reach twoSlots d ∧ d.Possible twoSlots (.setBoot true p) ∧
      (setBootPartition twoSlots true p () d.img).result = .ok () ∧
      bootSelection twoSlots (d.after twoSlots (.setBoot true p)).img ≠ some p.index := by
  refine ⟨?_, ?_, ?_, ?_, ?_, last_number⟩
  · decide +kernel
  · decide +kernel
  · decide +kernel
  · decide +kernel
  · decide +kernel

end EspIdf.Ota
