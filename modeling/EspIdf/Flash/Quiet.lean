import EspIdf.Flash.Api
import EspIdf.Lib.Pieces

/-!
# The loops, where no call fails

* `accesses` : the reads, writes and erases of the driver, `Call.range` their ranges;
* `readLoop_quiet` : a read goes over the chunks of its range, and stores them one behind the other;
* `Follows`, `pieceLoop_quiet` : a write and an erase go over the pieces of theirs.
-/

namespace EspIdf.Flash

open Calls Pieces

/-- No call fails. -/
def quiet : Nat → EspErr := fun _ => ESP_OK

def Call.isAccess : Call → Bool
  | .read _ _ => true
  | .write _ _ => true
  | .eraseSector _ => true
  | .eraseBlock _ => true
  | .writeEncrypted _ _ => true
  | _ => false

/-- The reads, writes and erases of the driver, in their order. -/
def accesses (t : List (Call × EspErr)) : List Call := (t.map Prod.fst).filter Call.isAccess

/-- Where an access begins, and how far it goes. -/
def Call.range (chip : Chip) : Call → Piece
  | .read address length => (address, length)
  | .write address data => (address, data.length)
  | .eraseSector address => (address, chip.sectorSize.toNat)
  | .eraseBlock address => (address, chip.blockEraseSize.toNat)
  | .writeEncrypted address data => (address, data.length)
  | .flushCache address length => (address, length)
  | _ => (0, 0)

section accesses
variable {t u : List (Call × EspErr)} {c : Call} {e : EspErr}

@[simp] theorem accesses_nil : accesses [] = [] := rfl

@[simp] theorem accesses_append : accesses (t ++ u) = accesses t ++ accesses u := by
  simp [accesses]

@[simp] theorem accesses_cons :
    accesses ((c, e) :: t) = if c.isAccess then c :: accesses t else accesses t := by
  simp [accesses, List.filter_cons]

end accesses

@[simp] theorem isAccess_start : Call.start.isAccess = false := rfl
@[simp] theorem isAccess_finish : Call.finish.isAccess = false := rfl
@[simp] theorem isAccess_yield : Call.yield.isAccess = false := rfl
@[simp] theorem isAccess_getProtectedRegions : Call.getProtectedRegions.isAccess = false := rfl
@[simp] theorem isAccess_flushCache (address length : Nat) : (Call.flushCache address length).isAccess = false := rfl
@[simp] theorem isAccess_read (address length : Nat) : (Call.read address length).isAccess = true := rfl

@[simp] theorem octets_length (mem : Mem) (offset n : Nat) : (octets mem offset n).length = n := by
  simp [octets]

theorem store_store (mem flash : Mem) (address offset n length : Nat) (h : n ≤ length) :
    store (store mem offset n fun i => flash (address + i)) (offset + n) (length - n)
        (fun i => flash (address + n + i)) =
      store mem offset length fun i => flash (address + i) := by
  funext i
  unfold store
  by_cases hhigh : offset + n ≤ i ∧ i < offset + n + (length - n)
  · have hall : offset ≤ i ∧ i < offset + length := by omega
    have hsrc : address + n + (i - (offset + n)) = address + (i - offset) := by omega
    rw [if_pos hhigh, if_pos hall]
    exact congrArg flash hsrc
  · rw [if_neg hhigh]
    by_cases hlow : offset ≤ i ∧ i < offset + n
    · have hall : offset ≤ i ∧ i < offset + length := by omega
      rw [if_pos hlow, if_pos hall]
    · have hnone : ¬(offset ≤ i ∧ i < offset + length) := by omega
      rw [if_neg hlow, if_neg hnone]

/-! ## Reads -/

@[simp] theorem quiet_apply (n : Nat) : quiet n = ESP_OK := rfl

@[simp] theorem spiflashEnd_accesses (err : EspErr) (answers : Nat → EspErr) (n : Nat) :
    accesses ((spiflashEnd err).trace answers n) = [] := by
  simp [spiflashEnd]

theorem min_cuts {chunk : Nat} (h : 0 < chunk) : Cuts (fun _ len => min chunk len) fun _ _ => True := by
  intro start len _ hlen
  exact ⟨Nat.lt_min.mpr ⟨h, hlen⟩, Nat.min_le_right _ _, trivial⟩

section read
variable (flash : Mem) {chunk fuel address length offset : Nat} (mem : Mem) (n : Nat)

/-- A turn of a read behind which octets remain. -/
theorem readLoop_more (hmore : length - min chunk length > 0) (hfit : address + length < 2 ^ 32) :
    (readLoop flash chunk (fuel + 1) address length offset mem).result quiet n =
      (readLoop flash chunk fuel (address + min chunk length) (length - min chunk length) (offset + min chunk length)
        (store mem offset (min chunk length) fun i => flash (address + i))).result quiet (n + 1 + 1 + 1) ∧
    accesses ((readLoop flash chunk (fuel + 1) address length offset mem).trace quiet n) =
      .read address (min chunk length) ::
        accesses ((readLoop flash chunk fuel (address + min chunk length) (length - min chunk length)
          (offset + min chunk length) (store mem offset (min chunk length) fun i => flash (address + i))).trace
            quiet (n + 1 + 1 + 1)) := by
  have hmod : (address + min chunk length) % 2 ^ 32 = address + min chunk length := Nat.mod_eq_of_lt (by omega)
  simp [readLoop, hmore, hmod, spiflashEnd, -Nat.reducePow]

/-- The last turn of a read. -/
theorem readLoop_last (hlast : length - min chunk length = 0) :
    (readLoop flash chunk (fuel + 1) address length offset mem).result quiet n =
      (ESP_OK, store mem offset (min chunk length) fun i => flash (address + i)) ∧
    accesses ((readLoop flash chunk (fuel + 1) address length offset mem).trace quiet n) =
      [.read address (min chunk length)] := by
  simp [readLoop, hlast, spiflashEnd]

theorem readLoop_quiet (hchunk : 0 < chunk) (hlen : 0 < length) (hfuel : length ≤ fuel)
    (hfit : address + length < 2 ^ 32) :
    (readLoop flash chunk fuel address length offset mem).result quiet n =
      (ESP_OK, store mem offset length fun i => flash (address + i)) ∧
    accesses ((readLoop flash chunk fuel address length offset mem).trace quiet n) =
      (pieces (fun _ len => min chunk len) fuel address length).map fun p => .read p.1 p.2 := by
  induction fuel generalizing address length offset mem n with
  | zero => omega
  | succ fuel ih =>
    rw [pieces_cons (by omega)]
    by_cases hmore : length - min chunk length > 0
    · have hstep := @readLoop_more flash chunk fuel address length offset mem n hmore hfit
      have hnext := @ih (address + min chunk length) (length - min chunk length) (offset + min chunk length)
        (store mem offset (min chunk length) fun i => flash (address + i)) (n + 1 + 1 + 1) hmore (by omega) (by omega)
      rw [hstep.1, hstep.2, hnext.1, hnext.2, store_store mem flash address offset _ _ (Nat.min_le_right _ _)]
      exact ⟨rfl, rfl⟩
    · have hlast : length - min chunk length = 0 := by omega
      have hall : min chunk length = length := by omega
      have hstep := @readLoop_last flash chunk fuel address length offset mem n hlast
      rw [hstep.1, hstep.2, hlast, pieces_zero, hall]
      exact ⟨rfl, rfl⟩

end read

/-- The accesses of a loop that begins are not none. -/
theorem readLoop_accesses (flash : Mem) (chunk fuel address length offset : Nat) (mem : Mem) (n : Nat) :
    accesses ((readLoop flash chunk (fuel + 1) address length offset mem).trace quiet n) ≠ [] := by
  by_cases hmore : length - min chunk length > 0
  · simp [readLoop, hmore, spiflashEnd]
  · simp [readLoop, hmore, spiflashEnd]

section pieces
variable {chip : Chip} {next : Nat → Nat → Nat → NextPiece} {fuel address done remain n : Nat}

/-- A turn behind which octets remain. -/
theorem pieceLoop_more (haccess : (next address done remain).call.isAccess = true)
    (hmore : ¬ remain - (next address done remain).len = 0) (hfit : address + (next address done remain).len < 2 ^ 32) :
    ∃ m, (pieceLoop chip next (fuel + 1) address done remain).result quiet n =
      (pieceLoop chip next fuel (address + (next address done remain).len) (done + (next address done remain).len)
        (remain - (next address done remain).len)).result quiet m ∧
    accesses ((pieceLoop chip next (fuel + 1) address done remain).trace quiet n) =
      (next address done remain).call ::
        accesses ((pieceLoop chip next fuel (address + (next address done remain).len)
          (done + (next address done remain).len) (remain - (next address done remain).len)).trace quiet m) := by
  have hmod := Nat.mod_eq_of_lt hfit
  cases hyield : chip.yields with
  | true =>
    refine ⟨n + 1 + 1 + 1 + 1, ?_⟩
    simp [pieceLoop, hyield, hmore, hmod, haccess, spiflashEnd, -Nat.reducePow]
  | false =>
    refine ⟨n + 1 + 1 + 1, ?_⟩
    simp [pieceLoop, hyield, hmore, hmod, haccess, spiflashEnd, -Nat.reducePow]

theorem pieceLoop_last (haccess : (next address done remain).call.isAccess = true)
    (hlast : remain - (next address done remain).len = 0) :
    (pieceLoop chip next (fuel + 1) address done remain).result quiet n = .tail ESP_OK true ∧
    accesses ((pieceLoop chip next (fuel + 1) address done remain).trace quiet n) =
      [(next address done remain).call] := by
  cases hyield : chip.yields with
  | true => simp [pieceLoop, hyield, hlast, haccess]
  | false => simp [pieceLoop, hyield, hlast, haccess]

/-- The driver's accesses are those of `next`; where `inv` holds of what is left, its pieces are cut by `cut`. -/
structure Follows (chip : Chip) (next : Nat → Nat → Nat → NextPiece) (cut : Nat → Nat → Nat) (inv : Nat → Nat → Prop) :
    Prop where
  cuts : Cuts cut inv
  len : ∀ address done remain, (next address done remain).len = cut address remain
  access : ∀ address done remain, (next address done remain).call.isAccess = true
  range : ∀ address done remain, (next address done remain).call.range chip = (address, cut address remain)

/-- The loop accesses the pieces of the range one after the other. -/
theorem pieceLoop_quiet {cut : Nat → Nat → Nat} {inv : Nat → Nat → Prop} (hnext : Follows chip next cut inv)
    (hinv : inv address remain) (hremain : 0 < remain) (hfuel : remain ≤ fuel) (hfit : address + remain < 2 ^ 32) :
    (pieceLoop chip next fuel address done remain).result quiet n = .tail ESP_OK true ∧
    (accesses ((pieceLoop chip next fuel address done remain).trace quiet n)).map (Call.range chip) =
      pieces cut fuel address remain ∧
    ∀ c ∈ accesses ((pieceLoop chip next fuel address done remain).trace quiet n),
      ∃ start left, address ≤ start ∧ c = (next start (done + (start - address)) left).call := by
  induction fuel generalizing address done remain n with
  | zero => omega
  | succ fuel ih =>
    obtain ⟨hpos, hle, hinv'⟩ := hnext.cuts address remain hinv hremain
    have haccess := hnext.access address done remain
    have hlen := hnext.len address done remain
    rw [pieces_cons (by omega)]
    by_cases hlast : remain - cut address remain = 0
    · obtain ⟨hresult, htrace⟩ := @pieceLoop_last chip next fuel address done remain n haccess (by rw [hlen, hlast])
      refine ⟨hresult, ?_, ?_⟩
      · rw [htrace, hlast, pieces_zero, List.map_singleton, hnext.range]
      · rw [htrace]
        intro c hc
        exact ⟨address, remain, Nat.le_refl _, by rw [List.mem_singleton.mp hc, Nat.sub_self, Nat.add_zero]⟩
    · obtain ⟨m, hresult, htrace⟩ :=
        @pieceLoop_more chip next fuel address done remain n haccess (by rw [hlen]; exact hlast) (by omega)
      rw [hlen] at hresult htrace
      obtain ⟨hr, ht, hc⟩ := @ih (address + cut address remain) (done + cut address remain)
        (remain - cut address remain) m hinv' (Nat.pos_of_ne_zero hlast) (by omega) (by omega)
      refine ⟨hresult.trans hr, ?_, ?_⟩
      · rw [htrace, List.map_cons, ht, hnext.range]
      · rw [htrace]
        intro c hmem
        rcases List.mem_cons.mp hmem with rfl | hmem
        · exact ⟨address, remain, Nat.le_refl _, by rw [Nat.sub_self, Nat.add_zero]⟩
        · obtain ⟨start, left, hstart, rfl⟩ := hc c hmem
          have hdone : done + cut address remain + (start - (address + cut address remain)) =
              done + (start - address) := by omega
          exact ⟨start, left, by omega, by rw [hdone]⟩

end pieces

theorem writePiece_follows (cfg : Config) (chip : Chip) (direct : Bool) (mem : Mem) :
    Follows chip (writePiece cfg direct mem) (fun _ len => min (if direct then cfg.maxWriteChunk else 32) len)
      fun _ _ => True := by
  refine ⟨min_cuts ?_, fun address done remain => Nat.min_comm _ _, fun _ _ _ => rfl, fun address done remain => ?_⟩
  · split
    · exact cfg.writeChunk_pos
    · decide
  · simp [writePiece, Call.range, Nat.min_comm]

theorem erasePiece_follows (cfg : Config) (chip : Chip) (hsector : 0 < chip.sectorSize.toNat)
    (hblock : chip.blockEraseSize.toNat % chip.sectorSize.toNat = 0) :
    Follows chip (erasePiece cfg chip) (fun address len => (erasePiece cfg chip address 0 len).len)
      fun _ len => len % chip.sectorSize.toNat = 0 := by
  refine ⟨fun address len hinv hlen => ?_, fun _ _ _ => rfl, fun address done remain => ?_,
    fun address done remain => ?_⟩
  · have hle : chip.sectorSize.toNat ≤ len := Nat.le_of_dvd hlen (Nat.dvd_of_mod_eq_zero hinv)
    simp only [erasePiece]
    split
    next h =>
      exact ⟨h.2.1, h.2.2.1,
        Nat.mod_eq_zero_of_dvd (Nat.dvd_sub (Nat.dvd_of_mod_eq_zero hinv) (Nat.dvd_of_mod_eq_zero hblock))⟩
    next => exact ⟨hsector, hle, Nat.mod_eq_zero_of_dvd (Nat.dvd_sub (Nat.dvd_of_mod_eq_zero hinv) (Nat.dvd_refl _))⟩
  · unfold erasePiece
    dsimp only
    split
    next => rfl
    next => rfl
  · unfold erasePiece
    dsimp only
    split
    next => rfl
    next => rfl

@[simp] theorem flashEndFlushCache_accesses (err : EspErr) (busAcquired : Bool) (address length : Nat)
    (answers : Nat → EspErr) (n : Nat) :
    accesses ((flashEndFlushCache err busAcquired address length).trace answers n) = [] := by
  cases busAcquired with
  | true => simp [flashEndFlushCache, ESP_OK]
  | false =>
    by_cases hstart : answers n = ESP_OK
    · simp [flashEndFlushCache, hstart]
    · simp [flashEndFlushCache, hstart]

theorem flashEndFlushCache_quiet (address length n : Nat) :
    (flashEndFlushCache ESP_OK true address length).result quiet n = ESP_OK := by
  simp [flashEndFlushCache, spiflashEnd]

end EspIdf.Flash
