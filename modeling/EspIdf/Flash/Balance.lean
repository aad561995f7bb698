import EspIdf.Flash.Bracket
import EspIdf.Flash.Covers

/-!
# The functions on the bus

* `read_sound` : a read is sound, whatever fails;
* `write_sound_iff`, `erase_sound_iff` : a write and an erase are unless a harmful call is the first to fail;
* `writeRows_sound_iff` : an encrypted write releases the bus behind every failure;
* `Request`, `bus_sound_iff` : the requests and the failures for which a function is sound.
-/

namespace EspIdf.Flash

open Calls Pieces

/-! ## Traces in parts -/

section parts
variable {address length : Nat} {t u : List (Call × EspErr)}

theorem sound_nil : Sound address length [] := ⟨rfl, trivial⟩

theorem settled_append (hu : u ≠ []) (h : Settled address length u) : Settled address length (t ++ u) := by
  rcases h with ⟨err, hmem⟩ | ⟨err, herr, hlast⟩
  · exact .inl ⟨err, List.mem_append_right t hmem⟩
  · exact .inr ⟨err, herr, by rw [List.getLast?_append_of_ne_nil t hu, hlast]⟩

/-- A part that is followed by a settled one. -/
theorem flushed_append (hu : u ≠ []) (hsettled : Settled address length u) (h : Flushed address length u) :
    Flushed address length (t ++ u) := by
  induction t with
  | nil => exact h
  | cons ce t ih => exact ⟨fun _ => settled_append hu hsettled, ih⟩

/-- A part that changes nothing. -/
theorem flushed_append_of_unchanged (ht : ∀ ce ∈ t, ce.1.changes = false) (h : Flushed address length u) :
    Flushed address length (t ++ u) := by
  induction t with
  | nil => exact h
  | cons ce t ih =>
    refine ⟨fun hc => ?_, ih fun ce hce => ht ce (List.mem_cons_of_mem _ hce)⟩
    exact absurd ((ht ce List.mem_cons_self).symm.trans hc) Bool.false_ne_true

/-- A part that changes nothing and leaves the bus as it was. -/
theorem sound_append_iff (ht : ∀ ce ∈ t, ce.1.changes = false) (hdepth : depth Call.kind succeeds 0 t = some 0) :
    Sound address length (t ++ u) ↔ Sound address length u := by
  have hbalance : depth Call.kind succeeds 0 (t ++ u) = depth Call.kind succeeds 0 u := by
    rw [depth_append, hdepth, Option.bind_some]
  constructor
  · rintro ⟨hb, hf⟩
    refine ⟨hbalance ▸ hb, ?_⟩
    clear hb hbalance hdepth ht
    induction t with
    | nil => exact hf
    | cons ce t ih => exact ih hf.2
  · rintro ⟨hb, hf⟩
    exact ⟨hbalance.trans hb, flushed_append_of_unchanged ht hf⟩

end parts

/-! ## Reads -/

section read
variable {flash : Mem} {answers : Nat → EspErr}

/-- A read changes nothing, and releases the bus as often as it acquires it. -/
theorem readLoop_balanced (chunk fuel address length offset : Nat) (mem : Mem) (n : Nat) :
    (∀ ce ∈ (readLoop flash chunk fuel address length offset mem).trace answers n, ce.1.changes = false) ∧
    depth Call.kind succeeds 0 ((readLoop flash chunk fuel address length offset mem).trace answers n) = some 0 := by
  induction fuel generalizing address length offset mem n with
  | zero => simp [readLoop, depth]
  | succ fuel ih =>
    unfold readLoop
    by_cases hstart : answers n = ESP_OK
    · by_cases hread : answers (n + 1) = ESP_OK
      · by_cases hmore : answers (n + 2) = ESP_OK ∧ length - min chunk length > 0
        · obtain ⟨hfinish, hleft⟩ := hmore
          have hnext := ih ((address + min chunk length) % 2 ^ 32) (length - min chunk length) (offset + min chunk length)
            (store mem offset (min chunk length) fun i => flash (address + i)) (n + 1 + 1 + 1)
          simpa [hstart, hread, hfinish, hleft, depth] using hnext
        · rcases not_and_or.mp hmore with hfinish | hleft
          · simp [hstart, hread, hfinish, depth]
          · simp [hstart, hread, hleft, depth]
      · simp [hstart, hread, depth]
    · simp [hstart, depth]

theorem read_sound (cfg : Config) (chip : Chip) (place : Place) (buffer : Option Mem) (address length : UInt32) :
    Sound address.toNat length.toNat ((espFlashRead flash cfg chip place buffer address length).trace answers 0) := by
  have hloop : ∀ chunk mem, Sound address.toNat length.toNat
      ((readLoop flash chunk length.toNat address.toNat length.toNat 0 mem).trace answers 0 ++ []) := fun chunk mem =>
    have h := readLoop_balanced chunk length.toNat address.toNat length.toNat 0 mem 0
    (sound_append_iff h.1 h.2).mpr sound_nil
  unfold espFlashRead
  cases buffer with
  | none => exact sound_nil
  | some mem =>
    dsimp only
    by_cases hcheck : address > chip.size ∨ address + length > chip.size
    · rw [if_pos hcheck]
      exact sound_nil
    by_cases hlen : length = 0
    · rw [if_neg hcheck, if_pos hlen]
      exact sound_nil
    rw [if_neg hcheck, if_neg hlen]
    cases place with
    | direct => exact hloop _ _
    | bounce temp =>
      cases temp with
      | none => exact sound_nil
      | some temp => exact hloop _ _

end read

/-! ## Writes and erases -/

theorem soundAfter_false {address length : Nat} {t : List (Call × EspErr)} :
    SoundAfter address length false t ↔ Sound address length t :=
  ⟨fun h => h.1, fun h => ⟨h, fun hc => absurd hc Bool.false_ne_true⟩⟩

section write
variable {cfg : Config} {chip : Chip} {direct : Bool} {buffer : Option Mem} {address length : UInt32}
  {answers : Nat → EspErr}

/-- A write is begun. -/
def WriteBegun (chip : Chip) (buffer : Option Mem) (address length : UInt32) : Prop :=
  checkWriteAddress chip address length = none ∧ buffer ≠ none ∧ Fits chip address length ∧ length ≠ 0

/-- The pieces of a write: chunks, or what fits in the buffer on the stack. -/
def writePieces (cfg : Config) (direct : Bool) (address length : Nat) : List Piece :=
  pieces (fun _ len => min (if direct then cfg.maxWriteChunk else 32) len) length address length

theorem writeRange_tails (address length : Nat) :
    Tails (fun out => match out with
      | .returned err => (return err : Api EspErr)
      | .tail err busAcquired => do
        let ret ← flashEndFlushCache err busAcquired address length
        return if err = ESP_OK then ret else err) address length :=
  ⟨fun _ _ _ => rfl, fun err busAcquired answers n => by
    rw [trace_bind, trace_pure, List.append_nil, flashEndFlushCache_trace]⟩

theorem writeRange_sound_iff {mem : Mem} (hfit : Fits chip address length) (hlen : length ≠ 0) (n : Nat) :
    Sound address.toNat length.toNat
      ((writeRange cfg chip direct mem address.toNat length.toNat).trace answers n) ↔
      Safe chip.yields answers n (writePieces cfg direct address.toNat length.toNat).length false := by
  have hlt : address.toNat + length.toNat < 2 ^ 32 := Nat.lt_of_le_of_lt hfit chip.size.toNat_lt
  rw [← soundAfter_false]
  exact rangeLoop_sound_iff (writeRange_tails _ _) (writePiece_follows cfg chip direct mem) (fun _ _ _ => rfl) trivial
    (Nat.pos_of_ne_zero (toNat_ne_zero hlen)) (Nat.le_refl _) hlt

theorem write_sound_iff :
    Sound address.toNat length.toNat ((espFlashWrite cfg chip direct buffer address length).trace answers 0) ↔
      (WriteBegun chip buffer address length →
        Safe chip.yields answers 0 (writePieces cfg direct address.toNat length.toNat).length false) := by
  unfold espFlashWrite WriteBegun
  cases hallowed : checkWriteAddress chip address length with
  | some err => exact iff_of_true sound_nil fun h => absurd h.1 (by simp)
  | none =>
    cases buffer with
    | none => exact iff_of_true sound_nil fun h => absurd rfl h.2.1
    | some mem =>
      dsimp only
      by_cases hfit : Fits chip address length
      · rw [if_neg (fits_iff.mp hfit)]
        by_cases hlen : length = 0
        · rw [if_pos hlen]
          exact iff_of_true sound_nil fun h => absurd hlen h.2.2.2
        · rw [if_neg hlen, writeRange_sound_iff hfit hlen]
          exact ⟨fun h _ => h, fun h => h ⟨rfl, by simp, hfit, hlen⟩⟩
      · rw [if_pos (not_not.mp (fits_iff.not.mp hfit))]
        exact iff_of_true sound_nil fun h => absurd h.2.2.1 hfit

end write

section erase
variable {cfg : Config} {chip : Chip} {start len : UInt32} {answers : Nat → EspErr}

/-- An erase is begun. -/
def EraseBegun (chip : Chip) (start len : UInt32) : Prop :=
  checkWriteAddress chip start len = none ∧ chip.sectorSize ≠ 0 ∧ chip.blockEraseSize % chip.sectorSize = 0 ∧
    Fits chip start len ∧ start % chip.sectorSize = 0 ∧ len % chip.sectorSize = 0 ∧ len ≠ 0

/-- The protection of the chip is looked up first. -/
def LooksUp (chip : Chip) : Prop := chip.readsProtection = true ∧ chip.protectableRegions.length > 0

instance (chip : Chip) : Decidable (LooksUp chip) := inferInstanceAs (Decidable (_ ∧ _))

/-- The calls of that. -/
def lookUpLength (chip : Chip) : Nat := if LooksUp chip then 3 else 0

/-- They succeed, and nothing that is protected is found. -/
def LookUpPasses (chip : Chip) (start len : UInt32) (answers : Nat → EspErr) : Prop :=
  LooksUp chip → answers 0 = ESP_OK ∧ answers 1 = ESP_OK ∧ answers 2 = ESP_OK ∧ meetsProtected chip start len = false

/-- The pieces of an erase: blocks and sectors. -/
def erasePieces (cfg : Config) (chip : Chip) (start len : Nat) : List Piece :=
  pieces (fun address len => (erasePiece cfg chip address 0 len).len) len start len

theorem checkProtected_trace :
    (∀ ce ∈ (checkProtected chip start len).trace answers 0, ce.1.changes = false) ∧
    depth Call.kind succeeds 0 ((checkProtected chip start len).trace answers 0) = some 0 := by
  unfold checkProtected
  by_cases hlook : chip.readsProtection = true ∧ chip.protectableRegions.length > 0
  · rw [if_pos hlook]
    by_cases hstart : answers 0 = ESP_OK
    · simp [hstart, depth]
    · simp [hstart, depth]
  · rw [if_neg hlook]
    simp [depth]

theorem checkProtected_passes :
    ((checkProtected chip start len).result answers 0 = ESP_OK ↔ LookUpPasses chip start len answers) ∧
    ((checkProtected chip start len).result answers 0 = ESP_OK →
      ((checkProtected chip start len).trace answers 0).length = lookUpLength chip) := by
  unfold checkProtected LookUpPasses lookUpLength LooksUp
  by_cases hlook : chip.readsProtection = true ∧ chip.protectableRegions.length > 0
  · rw [if_pos hlook]
    by_cases hstart : answers 0 = ESP_OK
    · by_cases hget : answers 1 = ESP_OK
      · cases hmeets : meetsProtected chip start len with
        | true => simp [hstart, hget, hlook.1, hlook.2, ESP_OK, ESP_ERR_FLASH_PROTECTED]
        | false => simp [hstart, hget, hlook.1, hlook.2]
      · simp [hstart, hget, hlook.1, hlook.2]
    · simp [hstart, hlook.1, hlook.2]
  · rw [if_neg hlook]
    simp [hlook]

theorem eraseRange_tails (start len : Nat) :
    Tails (fun out => match out with
      | .returned err => (return err : Api EspErr)
      | .tail err busAcquired => flashEndFlushCache err busAcquired start len) start len :=
  ⟨fun _ _ _ => rfl, fun err busAcquired answers n => by rw [flashEndFlushCache_trace]⟩

theorem erasePiece_changes (cfg : Config) (chip : Chip) (start done remain : Nat) :
    (erasePiece cfg chip start done remain).call.changes = true := by
  unfold erasePiece
  dsimp only
  split
  next => rfl
  next => rfl

theorem eraseRange_sound_iff (hbegun : EraseBegun chip start len) (n : Nat) :
    Sound start.toNat len.toNat ((eraseRange cfg chip start.toNat len.toNat).trace answers n) ↔
      Safe chip.yields answers n (erasePieces cfg chip start.toNat len.toNat).length false := by
  obtain ⟨_, hsector, hblock, hfit, _, haligned, hlen⟩ := hbegun
  have hlt : start.toNat + len.toNat < 2 ^ 32 := Nat.lt_of_le_of_lt hfit chip.size.toNat_lt
  have hmod : chip.blockEraseSize.toNat % chip.sectorSize.toNat = 0 := by
    rw [← UInt32.toNat_mod, hblock, UInt32.toNat_zero]
  have hinv : len.toNat % chip.sectorSize.toNat = 0 := by
    rw [← UInt32.toNat_mod, haligned, UInt32.toNat_zero]
  rw [← soundAfter_false]
  exact rangeLoop_sound_iff (eraseRange_tails _ _)
    (erasePiece_follows cfg chip (Nat.pos_of_ne_zero (toNat_ne_zero hsector)) hmod) (erasePiece_changes cfg chip) hinv
    (Nat.pos_of_ne_zero (toNat_ne_zero hlen)) (Nat.le_refl _) hlt

theorem eraseRegion_begun (hbegun : EraseBegun chip start len) :
    espFlashEraseRegion cfg chip start len = checkProtected chip start len >>= fun err =>
      if err ≠ ESP_OK then pure err else eraseRange cfg chip start.toNat len.toNat := by
  obtain ⟨hallowed, hsector, hblock, hfit, hstart, haligned, hlen⟩ := hbegun
  unfold espFlashEraseRegion
  simp only [hallowed]
  rw [if_neg (by simp [hsector, hblock]), if_neg (fits_iff.mp hfit), if_neg (by simp [hstart, haligned]), if_neg hlen]

theorem eraseRegion_refused (hnot : ¬EraseBegun chip start len) :
    (espFlashEraseRegion cfg chip start len).trace answers 0 = [] := by
  unfold espFlashEraseRegion
  cases hallowed : checkWriteAddress chip start len with
  | some err => rfl
  | none =>
    dsimp only
    split_ifs with hsector hfit hmod hlen
    · rfl
    · rfl
    · rfl
    · rfl
    · rw [not_or, not_not] at hsector
      rw [not_or, not_not, not_not] at hmod
      exact absurd ⟨hallowed, hsector.1, hsector.2, fits_iff.mpr hfit, hmod.1, hmod.2, hlen⟩ hnot

theorem erase_sound_iff :
    Sound start.toNat len.toNat ((espFlashEraseRegion cfg chip start len).trace answers 0) ↔
      (EraseBegun chip start len → LookUpPasses chip start len answers →
        Safe chip.yields answers (lookUpLength chip) (erasePieces cfg chip start.toNat len.toNat).length false) := by
  by_cases hbegun : EraseBegun chip start len
  · obtain ⟨hunchanged, hdepth⟩ := @checkProtected_trace chip start len answers
    obtain ⟨hpasses, hlength⟩ := @checkProtected_passes chip start len answers
    rw [eraseRegion_begun hbegun, trace_bind, sound_append_iff hunchanged hdepth]
    by_cases hok : (checkProtected chip start len).result answers 0 = ESP_OK
    · rw [if_neg (not_not.mpr hok), Nat.zero_add, hlength hok, eraseRange_sound_iff hbegun]
      exact ⟨fun h _ _ => h, fun h => h hbegun (hpasses.mp hok)⟩
    · rw [if_pos hok]
      exact iff_of_true sound_nil fun _ hpass => absurd (hpasses.mpr hpass) hok
  · rw [eraseRegion_refused hbegun]
    exact iff_of_true sound_nil fun h => absurd h hbegun

end erase

end EspIdf.Flash
