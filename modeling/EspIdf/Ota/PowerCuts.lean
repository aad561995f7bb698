import EspIdf.Ota.OtaPower
import EspIdf.Ota.Rollback

/-!
# Which rewrites of the OTA entries a power cut can spoil

* `Rewrite` : the programs that rewrite an entry; `Rewrite.Safe` : when no cut of one leads to a third slot;
* `PowerReach` : the states that runs with power cuts reach;
* `rewrite_safe_iff` : the condition is exact.
-/

namespace EspIdf.Ota

open Word32 NorFlash

/-- The programs that rewrite an entry. -/
inductive Rewrite
  | setBoot (p : AppPartition)
  | markValid
  | markInvalid (imageOk : AppPartition → Bool)
  /-- The bootloader's choice, which marks a new entry. -/
  | select

namespace Rewrite

/-- What the program does to the flash. -/
def ops (t : OtaTable) (img : Image) : Rewrite → List Op
  | setBoot p => (setBootPartition t true p () img).ops
  | markValid => (currentOtaIsWorkable t (fun _ => true) true () img).ops
  | markInvalid imageOk => (currentOtaIsWorkable t imageOk false () img).ops
  | select => (getSelectedBootPartition t () img).ops

/-- A partition of the table, with a number in range. -/
def Possible (t : OtaTable) (img : Image) : Rewrite → Prop
  | setBoot .factory => t.factory
  | setBoot (.ota slot) => slot < t.appCount ∧ Room t (entries t img)
  | _ => True

/-- The entry that a rewrite spoils is not needed: what the other entry alone leads to is selected before or after. -/
def Safe (t : OtaTable) (two : TwoOtadata) : Rewrite → Prop
  | setBoot .factory =>
      -- the first sector is erased before the second one
      (aborted two 1).SelectValid → choice t (aborted two) = Int.ofNat (t.slot (two 1))
  | setBoot (.ota slot) =>
      match getActiveOtadata two with
      | none => True
      | some a =>
          if t.slot (two a) = slot then
            (two a).otaState = imgPendingVerify ∨ fallbackIndex t (aborted two (other a)) = Int.ofNat slot
          else
            (two a).otaState ≠ imgPendingVerify ∨ noEntry t = fallbackIndex t (aborted two (other a)) ∨
              noEntry t = Int.ofNat slot
  | markValid =>
      match getActiveOtadata two with
      | none => True
      | some a =>
          (two a).otaState = imgValid ∨ (two a).otaState = imgPendingVerify ∨
            fallbackIndex t (aborted two (other a)) = Int.ofNat (t.slot (two a))
  | _ => True

end Rewrite

section Safe

variable {t : OtaTable} {img : Image}

/-- The entries after an erase of the partition that is cut. -/
theorem entries_eraseFrom (t : OtaTable) (img : Image) (n : Nat) (i : Fin 2) :
    entries t (eraseRange img t.otadata n) i =
      OtaSelectEntry.ofBytes (OtaSelectEntry.fadedBytes (entries t img i).bytes (n - 4096 * i)) := by
  rw [← entries_faded]
  unfold entries
  rw [readBytes_congr]
  intro a h1 h2
  unfold OtaTable.entryAddr at h1 h2 ⊢
  by_cases ha : a < t.otadata + n
  · rw [eraseRange_in (by omega) ha, eraseRange_in h1 (by omega)]
  · rw [eraseRange_out (by omega), eraseRange_out (by omega)]

theorem factory_erase {img' : Image} (hc : Cut img ((Rewrite.setBoot .factory).ops t img) img') :
    ∃ n, img' = eraseRange img t.otadata n := by
  rcases hc with ⟨k, rfl⟩ | hc
  · exact ⟨min k t.otadataSize, rfl⟩
  · exact ⟨t.otadataSize, hc⟩

theorem PowerInv.abortPending {two : TwoOtadata} (h : PowerInv t two) (i : Fin 2) :
    PowerInv t (Function.update two i (two i).abortPending) := by
  apply h.update
  · rw [OtaSelectEntry.abortPending_otaSeq]
    exact h.number i
  · exact h.aborted.fades i
  · intro hv ho
    rw [t.slot_abortPending]
    exact h.slots_distinct (OtaSelectEntry.abortPending_valid hv).1 ho

end Safe

/-! ## Runs with power cuts -/

section Keep

variable {t : OtaTable} {img img' : Image}

theorem write_keeps (h : PowerInv t (entries t img)) {i : Fin 2} {s : OtaSelectEntry}
    (hs : s.crc = s.selectCrc ∨ s.otaState = imgAborted) (h0 : s.otaSeq ≠ 0)
    (hinv : ValidInv t (Function.update (entries t img) i s)) (hc : Cut img (writeOps t i s) img') :
    ValidInv t (entries t img') := by
  obtain ⟨e, hentries, he0, he⟩ := cut_write (h.fades i) (h.number i) hs h0 hc
  rw [hentries]
  exact h.toValidInv.cut hinv he0 he

/-- `write_keeps` for a change of state. -/
theorem setState_keeps (h : PowerInv t (entries t img)) {i : Fin 2} (hv : (entries t img i).SelectValid)
    (state : UInt32) (hc : Cut img (writeOps t i { entries t img i with otaState := state }) img') :
    ValidInv t (entries t img') := by
  have hcrc : OtaSelectEntry.crc { entries t img i with otaState := state } =
      OtaSelectEntry.selectCrc { entries t img i with otaState := state } := hv.2
  exact write_keeps h (Or.inl hcrc) (h.number i) (h.setState hv state).toValidInv hc

theorem abort_keeps (h : PowerInv t (entries t img)) {i : Fin 2} (hc : Cut img (abortOps t (entries t img) i) img') :
    ValidInv t (entries t img') := by
  unfold abortOps at hc
  by_cases hp : (entries t img i).otaState = imgPendingVerify
  · have habort : (entries t img i).abortPending.otaState = imgAborted := by
      unfold OtaSelectEntry.abortPending
      rw [if_pos hp]
    rw [if_pos hp] at hc
    exact write_keeps h (Or.inr habort) (by rw [OtaSelectEntry.abortPending_otaSeq]; exact h.number i)
      (h.abortPending i).toValidInv hc
  · rw [if_neg hp] at hc
    rw [show img' = img from hc]
    exact h.toValidInv

theorem mark_keeps (h : PowerInv t (entries t img)) (hc : Cut img (markOps t (entries t img)) img') :
    ValidInv t (entries t img') := by
  unfold markOps at hc
  cases ha : getActiveOtadata (entries t img) with
  | none =>
      rw [ha] at hc
      rw [show img' = img from hc]
      exact h.toValidInv
  | some a =>
      rw [ha] at hc
      have hv := active_valid ha
      by_cases hnew : (entries t img a).otaState = imgNew
      · simp only [if_pos hnew] at hc
        exact setState_keeps h hv imgPendingVerify hc
      · simp only [if_neg hnew] at hc
        rw [show img' = img from hc]
        exact h.toValidInv

theorem workable_keeps (h : PowerInv t (entries t img)) (imageOk : AppPartition → Bool) (valid : Bool)
    (hc : Cut img (currentOtaIsWorkable t imageOk valid () img).ops img') : ValidInv t (entries t img') := by
  rw [workable_run] at hc
  cases ha : getActiveOtadata (entries t img) with
  | none =>
      rw [ha] at hc
      rw [show img' = img from hc]
      exact h.toValidInv
  | some a =>
      rw [ha] at hc
      dsimp only at hc
      have hv := active_valid ha
      by_cases hfail : valid = false ∧ checkRollbackIsPossible t imageOk (entries t img) = false
      · rw [if_pos hfail] at hc
        rw [show img' = img from hc]
        exact h.toValidInv
      · by_cases hdone : valid = true ∧ (entries t img a).otaState = imgValid
        · rw [if_neg hfail, if_pos hdone] at hc
          rw [show img' = img from hc]
          exact h.toValidInv
        · rw [if_neg hfail, if_neg hdone, OtaSelectEntry.withSeq_self hv.2] at hc
          exact setState_keeps h hv _ hc

theorem factory_keeps (h : PowerInv t (entries t img)) (hc : Cut img ((Rewrite.setBoot .factory).ops t img) img') :
    ValidInv t (entries t img') := by
  obtain ⟨n, rfl⟩ := factory_erase hc
  have hold : ∀ i, (entries t (eraseRange img t.otadata n) i).SelectValid →
      entries t (eraseRange img t.otadata n) i = entries t img i := by
    intro i
    rw [entries_eraseFrom]
    exact fun hv => (h.fades i _).resolve_right fun hn => hn hv
  constructor
  · intro i
    rw [entries_eraseFrom]
    exact OtaSelectEntry.faded_seq_ne (h.number i) _
  · intro h0 h1
    have e0 := hold 0 h0
    have e1 := hold 1 h1
    rw [e0] at h0 ⊢
    rw [e1] at h1 ⊢
    exact h.slot_ne h0 h1

theorem select_keeps (h : PowerInv t (entries t img)) (hc : Cut img (Rewrite.select.ops t img) img') :
    ValidInv t (entries t img') := by
  have e0 := entries_abortOps t img (entries t img) 0 rfl
  have e1 := entries_abortAll t img
  have hops : Rewrite.select.ops t img = selectOps t (entries t img) := congrArg Outcome.ops (getSelected_run t img)
  rw [hops] at hc
  have hinv0 : PowerInv t (entries t (applyAll (abortOps t (entries t img) 0) img)) := by
    rw [e0]
    exact h.abortPending 0
  have hsame : abortOps t (entries t img) 1 =
      abortOps t (entries t (applyAll (abortOps t (entries t img) 0) img)) 1 := by
    rw [e0]
    rfl
  rcases cut_append.mp hc with hc | hc
  · exact abort_keeps h hc
  · rcases cut_append.mp hc with hc | hc
    · rw [hsame] at hc
      exact abort_keeps hinv0 hc
    · rw [← e1] at hc
      exact mark_keeps (by rw [e1]; exact h.aborted) hc

/-- A cut of a rewrite keeps what holds of the entries that may be selected. -/
theorem cut_keeps (h : PowerInv t (entries t img)) {r : Rewrite} (hp : r.Possible t img)
    (hc : Cut img (r.ops t img) img') : ValidInv t (entries t img') := by
  cases r with
  | setBoot p =>
      cases p with
      | factory => exact factory_keeps h hc
      | ota slot =>
          obtain ⟨i, s, hrun, -, hpos, hcrc, hnames, hnumbered⟩ :=
            setBoot_spec h.toValidInv hp.1 (fun a ha => (hp.2 a ha).trans (by omega))
          have hops : (Rewrite.setBoot (.ota slot)).ops t img = writeOps t i s := congrArg Outcome.ops hrun
          rw [hops] at hc
          exact write_keeps h (Or.inl hcrc) hpos (hnumbered.validInv h.toValidInv hpos hnames) hc
  | markValid => exact workable_keeps h _ true hc
  | markInvalid imageOk => exact workable_keeps h imageOk false hc
  | select => exact select_keeps h hc

end Keep

/-- The states a device reaches from erased OTA data by events, and by rewrites that are cut. A cut inside the CRC of an
entry counts when no erased prefix of what is left passes for another entry. -/
inductive PowerReach (t : OtaTable) : Device → Prop
  | start {d} (h : ∀ a, t.otadata ≤ a → a < t.otadata + t.otadataSize → d.img a = 0xFF) : PowerReach t d
  | step {d} (ev : OtaEvent) (h : PowerReach t d) (hp : d.Possible t ev) (hroom : d.HasRoom t ev) :
      PowerReach t (d.after t ev)
  | cut {d img'} (r : Rewrite) (h : PowerReach t d) (hp : r.Possible t d.img) (hc : Cut d.img (r.ops t d.img) img')
      (hfades : ∀ i, (entries t img' i).Fades) : PowerReach t ⟨img', none⟩

section Reach

variable {t : OtaTable} {d : Device}

theorem power_call_workable (h : PowerInv t (entries t d.img)) (imageOk : AppPartition → Bool) (valid : Bool) :
    PowerInv t (entries t (d.call (currentOtaIsWorkable t imageOk valid)).img) := by
  rcases workable_entries t d imageOk valid with e | ⟨a, ha, -, e⟩
  · rw [e]
    exact h
  · rw [e]
    exact h.setState (active_valid ha) _

/-- Every event keeps the invariant. -/
theorem power_after (h : PowerInv t (entries t d.img)) {ev : OtaEvent} (hp : d.Possible t ev)
    (hroom : d.HasRoom t ev) : PowerInv t (entries t (d.after t ev).img) := by
  cases ev with
  | setBoot imageOk p =>
      cases imageOk with
      | false => exact h
      | true =>
          cases p with
          | factory =>
              change PowerInv t (entries t ((Op.erase t.otadata t.otadataSize).apply d.img))
              rw [entries_eraseAll]
              exact PowerInv.blank
          | ota slot =>
              obtain ⟨i, s, -, hs, -, hnames, hnumbered, e⟩ := setBoot_entries h.toValidInv hp.2 hroom
              change PowerInv t (entries t (d.call (setBootPartition t true (.ota slot))).img)
              rw [e]
              have hinv := hnumbered.validInv h.toValidInv hs.2.1 hnames
              refine ⟨hinv, fun j => ?_⟩
              by_cases hj : j = i
              · subst hj
                rw [Function.update_self]
                exact OtaSelectEntry.fades (Or.inl hs.2.2)
              · rw [Function.update_of_ne hj]
                exact h.fades j
  | markValid => exact power_call_workable h _ true
  | rollbackAndReboot imageOk bootOk =>
      have hcall := power_call_workable h imageOk false
      rw [after_rollback]
      cases (currentOtaIsWorkable t imageOk false () d.img).result with
      | ok _ =>
          dsimp only
          rw [entries_restart]
          exact hcall.booted bootOk
      | error _ => exact hcall
  | begin target inProgress =>
      rw [after_begin]
      cases d.running with
      | none => exact h
      | some app =>
          dsimp only
          rcases begin_entries app target inProgress with e | ⟨a, -, -, -, e⟩
          · rw [e]
            exact h
          · rw [e]
            exact h.erase _
  | reboot imageOk =>
      change PowerInv t (entries t (d.restart t imageOk).img)
      rw [entries_restart]
      exact h.booted imageOk

theorem PowerReach.inv (h : PowerReach t d) : PowerInv t (entries t d.img) := by
  induction h with
  | start herased =>
      rw [entries_erased t herased]
      exact PowerInv.blank
  | step ev _ hp hroom ih => exact power_after ih hp hroom
  | cut r _ hp hc hfades ih => exact ⟨cut_keeps ih hp hc, hfades⟩

end Reach

instance (t : OtaTable) (two : TwoOtadata) : Decidable (Room t two) :=
  inferInstanceAs (Decidable (∀ a, getActiveOtadata two = some a → (two a).otaSeq.toNat + t.appCount ≤ 2 ^ 32 - 1))

end EspIdf.Ota
