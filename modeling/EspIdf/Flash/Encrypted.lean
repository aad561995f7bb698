import EspIdf.Flash.Covers
import EspIdf.Flash.Rows
import EspIdf.Lib.BlockCipher

/-!
# What an encrypted write leaves on the chip

* `espFlashReadEncrypted`, `Soc.target` : the halves of rows that are read before the write;
* `rowCalls`, `rowLoop_quiet` : the calls of the driver, where no call fails;
* `RowExact`, `nextRow_exact` : what a row holds, and which octets are its own;
* `writtenBy`, `afterWrites` : the chip behind the calls;
* `encrypted_write_exact` : the octets that are read back.
-/

namespace EspIdf.Flash

open Calls BlockCipher

/-- The chips of the series, by the rows that they encrypt. -/
inductive Soc
  | esp32
  | xts (blockMax64 : Bool)

/-- What a read through the cache rests on. -/
structure Mapping where
  /-- `g_rom_flashchip.chip_size`, which the default chip is given as its size. -/
  romChipSize : UInt32
  mmuPageSize : UInt32
  /-- `spi_flash_mmap`: its error for a range of pages. -/
  mmap : UInt32 → UInt32 → EspErr

/-- `esp_flash_read_encrypted`, with the buffer as it leaves it; `view` is the flash as the cache shows it. -/
def espFlashReadEncrypted (host : Mapping) (view : Mem) (buffer : Option Mem) (address length : UInt32) :
    EspErr × Option Mem :=
  if address + length > host.romChipSize then (ESP_ERR_INVALID_SIZE, buffer)
  else if length = 0 then (ESP_OK, buffer)
  else
    match buffer with
    | none => (ESP_ERR_INVALID_ARG, none)
    | some mem =>
      let mapSrc := address &&& ~~~(host.mmuPageSize - 1)
      let err := host.mmap mapSrc (length + (address - mapSrc))
      if err ≠ ESP_OK then (err, some mem)
      else (ESP_OK, some (store mem 0 length.toNat fun i => view (mapSrc.toNat + ((address - mapSrc).toNat + i))))

/-- `pre_buf` or `post_buf`: zeros, unless the half row is wanted and can be read. -/
def halfRow (host : Mapping) (view : Mem) (wanted : Bool) (address : UInt32) : List UInt8 :=
  let zeros : Mem := fun _ => 0
  if wanted then octets ((espFlashReadEncrypted host view (some zeros) address 16).2.getD zeros) 0 16 else octets zeros 0 16

/-- The rows of a chip, with what is read before they are written. -/
def Soc.target (soc : Soc) (host : Mapping) (view : Mem) (address length : UInt32) : Target :=
  match soc with
  | .esp32 =>
    .esp32 (halfRow host view (address % 32 != 0) (address - 16))
      (halfRow host view ((address + length) % 32 != 0) (address + length))
  | .xts blockMax64 => .xts blockMax64

/-- An encrypted write, from the octets that the cache shows before it. -/
def writeEncryptedOver (soc : Soc) (host : Mapping) (view : Mem) (cfg : Config) (chip : Chip) (lockOnce : Bool)
    (address : UInt32) (buffer : Option Mem) (length : UInt32) : Api EspErr :=
  espFlashWriteEncrypted { cfg with target := soc.target host view address length } chip lockOnce address buffer length

/-! ## The halves of rows -/

section half
variable {host : Mapping} {view : Mem} {address : UInt32}

/-- A half row that lies on the chip is read. -/
theorem halfRow_read (hrom : address.toNat + 16 ≤ host.romChipSize.toNat) (hmap : ∀ src size, host.mmap src size = ESP_OK) :
    halfRow host view true address = octets view address.toNat 16 := by
  have hsize := host.romChipSize.toNat_lt
  have hcheck : ¬address + 16 > host.romChipSize := by
    rw [gt_iff_lt, UInt32.lt_iff_toNat_lt, UInt32.toNat_add, show (16 : UInt32).toNat = 16 from rfl]
    omega
  have hsrc : (address &&& ~~~(host.mmuPageSize - 1)).toNat ≤ address.toNat := by
    rw [UInt32.toNat_and]
    exact Nat.and_le_left
  have hread : espFlashReadEncrypted host view (some fun _ => 0) address 16 =
      (ESP_OK, some (store (fun _ => 0) 0 16 fun i => view (address.toNat + i))) := by
    unfold espFlashReadEncrypted
    rw [if_neg hcheck, if_neg (by decide)]
    dsimp only
    rw [hmap, if_neg (not_not.mpr rfl), UInt32.toNat_sub_of_le _ _ (UInt32.le_iff_toNat_le.mpr hsrc)]
    simp only [← Nat.add_assoc, Nat.add_sub_cancel' hsrc]
    rfl
  unfold halfRow octets
  rw [if_pos rfl, hread]
  refine List.map_congr_left fun i hi => ?_
  have hlt := List.mem_range.mp hi
  change store (fun _ => 0) 0 16 (fun i => view (address.toNat + i)) (0 + i) = _
  unfold store
  rw [if_pos (by omega)]
  exact congrArg view (by omega)

end half

/-! ## The calls of the driver -/

/-- The address and the octets of a call to `write_encrypted`. -/
abbrev RowWrite := Nat × List UInt8

def RowWrite.call (r : RowWrite) : Call := .writeEncrypted r.1 r.2

/-- The rows from `i` on. -/
def rowCalls (row : Nat → Row) (length : Nat) : (fuel i : Nat) → List RowWrite
  | 0, _ => []
  | fuel + 1, i =>
    if i < length then ((row i).address, (row i).data) :: rowCalls row length fuel (i + (row i).rowSizeLength) else []

section rows
variable {row : Nat → Row} {address length : Nat}

theorem rowLoop_quiet (lockOnce : Bool) (fuel i n : Nat) :
    (rowLoop lockOnce row length fuel i).result quiet n = ESP_OK ∧
    accesses ((rowLoop lockOnce row length fuel i).trace quiet n) = (rowCalls row length fuel i).map RowWrite.call := by
  induction fuel generalizing i n with
  | zero => exact ⟨rfl, rfl⟩
  | succ fuel ih =>
    by_cases hlt : i < length
    · cases lockOnce with
      | true =>
        obtain ⟨hresult, htrace⟩ := ih (i + (row i).rowSizeLength) (n + 1)
        simp [rowLoop, rowCalls, hlt, hresult, htrace, RowWrite.call, Call.isAccess]
      | false =>
        obtain ⟨hresult, htrace⟩ := ih (i + (row i).rowSizeLength) (n + 1 + 1 + 1)
        simp [rowLoop, rowCalls, hlt, hresult, htrace, spiflashEnd, RowWrite.call, Call.isAccess]
    · simp [rowLoop, rowCalls, hlt]

theorem writeRows_quiet (lockOnce : Bool) :
    (writeRows lockOnce row address length).result quiet 0 = ESP_OK ∧
    accesses ((writeRows lockOnce row address length).trace quiet 0) = (rowCalls row length length 0).map RowWrite.call := by
  have hflush : ∀ n, (flashEndFlushCache ESP_OK false address length).result quiet n = ESP_OK := fun n => by
    simp [flashEndFlushCache, spiflashEnd]
  cases lockOnce with
  | true =>
    obtain ⟨hresult, htrace⟩ := @rowLoop_quiet row length true length 0 1
    simp [writeRows, hresult, htrace, hflush]
  | false =>
    obtain ⟨hresult, htrace⟩ := @rowLoop_quiet row length false length 0 0
    simp [writeRows, hresult, htrace, hflush]

end rows

/-! ## The rows -/

/-- The octets that the chip should show behind the write. -/
abbrev wanted (view mem : Mem) (address length : Nat) : Mem := store view address length mem

/-- The sizes of the rows. -/
def Soc.rowSizes : Soc → List Nat
  | .esp32 => [32]
  | .xts blockMax64 => if blockMax64 then [16, 32, 64] else [16, 32]

/-- The row at `i` has a size of the chip's, is aligned to it, holds what is wanted, and has of the range just its own
part. -/
structure RowExact (soc : Soc) (want : Mem) (address length i : Nat) (r : Row) : Prop where
  size : r.data.length ∈ soc.rowSizes
  aligned : r.address % r.data.length = 0
  data : r.data = octets want r.address r.data.length
  own : ∀ a, address ≤ a → a < address + length →
    (r.address ≤ a ∧ a < r.address + r.data.length ↔ address + i ≤ a ∧ a < address + i + r.rowSizeLength)

/-- The rows are those of the chip, and the halves beside the range are what the cache shows. -/
def Soc.Reads (view : Mem) (address length : Nat) : Soc → Target → Prop
  | .esp32, .esp32 preBuf postBuf =>
    (address % 32 ≠ 0 → preBuf = octets view (address - 16) 16) ∧
      ((address + length) % 32 ≠ 0 → postBuf = octets view (address + length) 16)
  | .xts blockMax64, .xts blockMax64' => blockMax64' = blockMax64
  | _, _ => False

/-- Where a row can begin: on the ESP32 only the first can begin within 32 octets. -/
def Soc.Begins (address length i : Nat) : Soc → Prop
  | .esp32 => i = 0 ∨ i = length ∨ (address + i) % 32 = 0
  | .xts _ => True

section exact
variable {view mem : Mem} {address length i n : Nat}

theorem octets_congr {src src' : Mem} {start start' : Nat} (h : ∀ k, k < n → src (start + k) = src' (start' + k)) :
    octets src start n = octets src' start' n :=
  List.map_congr_left fun k hk => h k (List.mem_range.mp hk)

theorem octets_append (src : Mem) (start m : Nat) : octets src start n ++ octets src (start + n) m = octets src start (n + m) := by
  unfold octets
  rw [List.range_add, List.map_append, List.map_map]
  exact congrArg _ (List.map_congr_left fun k _ => congrArg src (Nat.add_assoc _ _ _))

/-- Octets of the range are those of the buffer. -/
theorem octets_inside (hi : i + n ≤ length) : octets (wanted view mem address length) (address + i) n = octets mem i n :=
  octets_congr fun k hk => by
    unfold wanted store
    rw [if_pos (by omega)]
    exact congrArg mem (by omega)

/-- Octets beside the range stay. -/
theorem octets_outside {start : Nat} (h : start + n ≤ address ∨ address + length ≤ start) :
    octets (wanted view mem address length) start n = octets view start n :=
  octets_congr fun k hk => if_neg (by omega)

theorem esp32_exact {preBuf postBuf : List UInt8} (hfit : address + length < 2 ^ 32) (haddress : address % 16 = 0)
    (hlength : length % 16 = 0) (hreads : Soc.esp32.Reads view address length (.esp32 preBuf postBuf)) (hi : i % 16 = 0)
    (hlt : i < length) (hbegins : Soc.esp32.Begins address length i) :
    RowExact .esp32 (wanted view mem address length) address length i (nextRow (.esp32 preBuf postBuf) mem address length i) ∧
    Soc.esp32.Begins address length
      (i + (nextRow (.esp32 preBuf postBuf) mem address length i).rowSizeLength) := by
  obtain ⟨hpre, hpost⟩ := hreads
  have hmod : (address + i) % 2 ^ 32 = address + i := Nat.mod_eq_of_lt (by omega)
  unfold nextRow
  dsimp only
  rw [hmod]
  by_cases hfirst : i = 0 ∧ (address + i) % 32 ≠ 0
  · -- the second half of a row
    obtain ⟨rfl, hhalf⟩ := hfirst
    rw [if_pos ⟨rfl, hhalf⟩, hpre hhalf]
    have hdata : octets view (address - 16) 16 ++ octets mem 0 16 =
        octets (wanted view mem address length) (address + 0 - 16) 32 := by
      have hout : octets (wanted view mem address length) (address - 16) 16 = octets view (address - 16) 16 :=
        octets_outside (by omega)
      have hin : octets (wanted view mem address length) (address - 16 + 16) 16 = octets mem 0 16 := by
        rw [show address - 16 + 16 = address + 0 by omega]
        exact octets_inside (by omega)
      rw [← hout, ← hin, octets_append]
      rfl
    have hsize : (octets view (address - 16) 16 ++ octets mem 0 16).length = 32 := by simp
    refine ⟨⟨List.mem_singleton.mpr hsize, ?_, ?_, fun a h0 h1 => ?_⟩, .inr (.inr ?_)⟩
    · rw [hsize]
      dsimp only
      omega
    · rw [hsize]
      exact hdata
    · rw [hsize]
      dsimp only
      omega
    · dsimp only
      omega
  · rw [if_neg hfirst]
    have hrow : (address + i) % 32 = 0 := by
      unfold Soc.Begins at hbegins
      omega
    by_cases hlast : length - i = 16
    · -- the first half of one
      have hhalf : (address + length) % 32 ≠ 0 := by omega
      rw [if_pos hlast, hpost hhalf]
      have hdata : octets mem i 16 ++ octets view (address + length) 16 =
          octets (wanted view mem address length) (address + i) 32 := by
        have hin : octets (wanted view mem address length) (address + i) 16 = octets mem i 16 := octets_inside (by omega)
        have hout : octets (wanted view mem address length) (address + i + 16) 16 = octets view (address + length) 16 := by
          rw [show address + i + 16 = address + length by omega]
          exact octets_outside (by omega)
        rw [← hin, ← hout, octets_append]
      have hsize : (octets mem i 16 ++ octets view (address + length) 16).length = 32 := by simp
      refine ⟨⟨List.mem_singleton.mpr hsize, ?_, ?_, fun a h0 h1 => ?_⟩, .inr (.inl ?_)⟩
      · rw [hsize]
        exact hrow
      · rw [hsize]
        exact hdata
      · rw [hsize]
        dsimp only
        omega
      · dsimp only
        omega
    · rw [if_neg hlast]
      have hsize : (octets mem i 32).length = 32 := octets_length mem i 32
      refine ⟨⟨List.mem_singleton.mpr hsize, ?_, ?_, fun a h0 h1 => ?_⟩, .inr (.inr ?_)⟩
      · rw [hsize]
        exact hrow
      · rw [hsize]
        exact (octets_inside (by omega)).symm
      · rw [hsize]
      · dsimp only
        omega

theorem xts_exact {blockMax64 : Bool} (hfit : address + length < 2 ^ 32) (haddress : address % 16 = 0)
    (hlength : length % 16 = 0) (hi : i % 16 = 0) (hlt : i < length) :
    RowExact (.xts blockMax64) (wanted view mem address length) address length i (nextRow (.xts blockMax64) mem address length i) := by
  have hmod : (address + i) % 2 ^ 32 = address + i := Nat.mod_eq_of_lt (by omega)
  unfold nextRow
  dsimp only
  rw [hmod]
  generalize hrow : (if (address + i) % 64 = 0 ∧ length - i ≥ 64 ∧ blockMax64 = true then 64
    else if (address + i) % 32 = 0 ∧ length - i ≥ 32 then 32 else 16) = rowSize
  have hspec : rowSize ∈ (Soc.xts blockMax64).rowSizes ∧ (address + i) % rowSize = 0 ∧ i + rowSize ≤ length := by
    rw [← hrow]
    split_ifs with h64 h32
    · rw [h64.2.2]
      exact ⟨by decide, h64.1, by omega⟩
    · cases blockMax64 <;> exact ⟨by decide, h32.1, by omega⟩
    · cases blockMax64 <;> exact ⟨by decide, by omega, by omega⟩
  obtain ⟨hsizes, haligned, hle⟩ := hspec
  have hsize : (octets mem i rowSize).length = rowSize := octets_length mem i rowSize
  refine ⟨?_, ?_, ?_, fun a h0 h1 => ?_⟩
  · rw [hsize]
    exact hsizes
  · rw [hsize]
    exact haligned
  · rw [hsize]
    exact (octets_inside hle).symm
  · rw [hsize]

theorem nextRow_exact {soc : Soc} {target : Target} (hfit : address + length < 2 ^ 32) (haddress : address % 16 = 0)
    (hlength : length % 16 = 0) (hreads : soc.Reads view address length target) (hi : i % 16 = 0) (hlt : i < length)
    (hbegins : soc.Begins address length i) :
    RowExact soc (wanted view mem address length) address length i (nextRow target mem address length i) ∧
    soc.Begins address length (i + (nextRow target mem address length i).rowSizeLength) := by
  match soc, target, hreads with
  | .esp32, .esp32 _ _, hreads => exact esp32_exact hfit haddress hlength hreads hi hlt hbegins
  | .xts _, .xts _, rfl => exact ⟨xts_exact hfit haddress hlength hi hlt, trivial⟩

end exact

/-- The call writes the octet at `a`. -/
def RowWrite.Covers (r : RowWrite) (a : Nat) : Prop := r.1 ≤ a ∧ a < r.1 + r.2.length

instance (r : RowWrite) (a : Nat) : Decidable (r.Covers a) := inferInstanceAs (Decidable (_ ∧ _))

/-- The call is aligned to its size, which is one of the chip's, and writes what is wanted. -/
structure RowWrite.Exact (soc : Soc) (want : Mem) (r : RowWrite) : Prop where
  size : r.2.length ∈ soc.rowSizes
  aligned : r.1 % r.2.length = 0
  data : r.2 = octets want r.1 r.2.length

section run
variable {soc : Soc} {target : Target} {view mem : Mem} {address length : Nat}

/-- The calls from `i` on are exact, and cover what is left of the range once. -/
theorem rowCalls_exact (hfit : address + length < 2 ^ 32) (haddress : address % 16 = 0) (hlength : length % 16 = 0)
    (hreads : soc.Reads view address length target) (fuel i : Nat) (hi : i % 16 = 0) (hle : i ≤ length)
    (hbegins : soc.Begins address length i) (hfuel : length - i ≤ fuel) :
    (∀ r ∈ rowCalls (nextRow target mem address length) length fuel i, r.Exact soc (wanted view mem address length)) ∧
    ∀ a, address ≤ a → a < address + length →
      (rowCalls (nextRow target mem address length) length fuel i).countP (fun r => r.Covers a) =
        if address + i ≤ a then 1 else 0 := by
  induction fuel generalizing i with
  | zero => exact ⟨fun r hr => absurd hr List.not_mem_nil, fun a h0 h1 => (if_neg (by omega)).symm⟩
  | succ fuel ih =>
    unfold rowCalls
    by_cases hlt : i < length
    · obtain ⟨hexact, hnext⟩ := @nextRow_exact view mem address length i soc target hfit haddress hlength hreads hi hlt hbegins
      obtain ⟨hpos, hsize, -, hmod⟩ := @nextRow_fit target mem address length hlength i (length - i)
        ⟨by omega, hi⟩ (by omega)
      dsimp only at hpos hsize hmod
      obtain ⟨hrows, hcount⟩ := ih (i + (nextRow target mem address length i).rowSizeLength) (by omega) (by omega) hnext
        (by omega)
      rw [if_pos hlt]
      refine ⟨fun r hr => ?_, fun a h0 h1 => ?_⟩
      · rcases List.mem_cons.mp hr with rfl | hr
        · exact ⟨hexact.size, hexact.aligned, hexact.data⟩
        · exact hrows r hr
      · have hown := hexact.own a h0 h1
        rw [List.countP_cons, hcount a h0 h1]
        simp only [RowWrite.Covers, hown, decide_eq_true_eq]
        split_ifs <;> omega
    · rw [if_neg hlt]
      exact ⟨fun r hr => absurd hr List.not_mem_nil, fun a h0 h1 => (if_neg (by omega)).symm⟩

end run

/-! ## The chip behind the calls -/

scoped instance neZeroSixteen : NeZero 16 := ⟨by decide⟩

/-- What the call leaves on the chip: `put` says what programming a cell makes of it. -/
def writtenBy (put : UInt8 → UInt8 → UInt8) (c : Cipher 16 UInt8) (flash : Mem) (r : RowWrite) : Mem := fun a =>
  if r.Covers a then put (flash a) (encipher c (fun b => r.2.getD (b - r.1) 0) a) else flash a

def afterWrites (put : UInt8 → UInt8 → UInt8) (c : Cipher 16 UInt8) (flash : Mem) (rows : List RowWrite) : Mem :=
  rows.foldl (writtenBy put c) flash

section memory
variable {put : UInt8 → UInt8 → UInt8} {c : Cipher 16 UInt8} {soc : Soc} {want : Mem}

theorem rowSizes_blocks {n : Nat} (h : n ∈ soc.rowSizes) : n % 16 = 0 := by
  have hall : ∀ soc : Soc, ∀ n ∈ soc.rowSizes, n % 16 = 0
    | .esp32 => by decide
    | .xts true => by decide
    | .xts false => by decide
  exact hall soc n h

theorem blocks_of_aligned {n : Nat} (h : n ∈ soc.rowSizes) {a : Nat} (ha : a % n = 0) : a % 16 = 0 :=
  Nat.mod_eq_zero_of_dvd (Nat.dvd_trans (Nat.dvd_of_mod_eq_zero (rowSizes_blocks h)) (Nat.dvd_of_mod_eq_zero ha))

theorem octets_getD {src : Mem} {start n k : Nat} (h : k < n) : (octets src start n).getD k 0 = src (start + k) := by
  rw [List.getD_eq_getElem?_getD]
  unfold octets
  rw [List.getElem?_map, List.getElem?_range h]
  rfl

/-- An exact row writes whole blocks of what is wanted. -/
theorem writtenBy_exact {r : RowWrite} (h : r.Exact soc want) (flash : Mem) (a : Nat) :
    writtenBy put c flash r a = if r.Covers a then put (flash a) (encipher c want a) else flash a := by
  unfold writtenBy
  by_cases hcovers : r.Covers a
  · rw [if_pos hcovers, if_pos hcovers]
    refine congrArg (put (flash a)) (encipher_congr fun b hb => ?_)
    have hstart := blocks_of_aligned h.size h.aligned
    have hblocks := rowSizes_blocks h.size
    obtain ⟨h0, h1⟩ := hcovers
    rw [h.data, octets_getD (by omega)]
    exact congrArg want (by omega)
  · rw [if_neg hcovers, if_neg hcovers]

/-- Cells that are what is wanted, or take it, hold it behind the rows that cover them; the others stay. -/
theorem afterWrites_exact {rows : List RowWrite} (h : ∀ r ∈ rows, r.Exact soc want) (hsame : ∀ v, put v v = v) (flash : Mem)
    (htakes : ∀ a, put (flash a) (encipher c want a) = encipher c want a) (a : Nat) :
    afterWrites put c flash rows a = if ∃ r ∈ rows, r.Covers a then encipher c want a else flash a := by
  induction rows generalizing flash with
  | nil => exact (if_neg fun ⟨r, hr, _⟩ => absurd hr List.not_mem_nil).symm
  | cons r rows ih =>
    have hrow := @writtenBy_exact put c soc want r (h r List.mem_cons_self) flash
    have htakes' : ∀ b, put (writtenBy put c flash r b) (encipher c want b) = encipher c want b := fun b => by
      rw [hrow b]
      by_cases hb : r.Covers b
      · rw [if_pos hb, htakes b, hsame]
      · rw [if_neg hb, htakes b]
    have hstep : afterWrites put c flash (r :: rows) = afterWrites put c (writtenBy put c flash r) rows := rfl
    rw [hstep, ih (fun r hr => h r (List.mem_cons_of_mem _ hr)) _ htakes', hrow a]
    by_cases hlater : ∃ r ∈ rows, r.Covers a
    · obtain ⟨r', hr', hcovers⟩ := hlater
      rw [if_pos ⟨r', hr', hcovers⟩, if_pos ⟨r', List.mem_cons_of_mem _ hr', hcovers⟩]
    · rw [if_neg hlater]
      by_cases hcovers : r.Covers a
      · rw [if_pos hcovers, if_pos ⟨r, List.mem_cons_self, hcovers⟩, htakes a]
      · rw [if_neg hcovers, if_neg ?_]
        rintro ⟨r', hr', hcovers'⟩
        rcases List.mem_cons.mp hr' with rfl | hr'
        · exact hcovers hcovers'
        · exact hlater ⟨r', hr', hcovers'⟩

/-- Rows that cover a range of whole blocks leave there what is written, and the rest as it was. -/
theorem afterWrites_range {rows : List RowWrite} {flash mem : Mem} {address length : Nat} (haddress : address % 16 = 0)
    (hlength : length % 16 = 0) (h : ∀ r ∈ rows, r.Exact soc (wanted (decipher c flash) mem address length))
    (hcovers : ∀ a, address ≤ a → a < address + length → ∃ r ∈ rows, r.Covers a) (hsame : ∀ v, put v v = v)
    (htakes : ∀ a, address ≤ a → a < address + length → ∀ v, put (flash a) v = v) :
    decipher c (afterWrites put c flash rows) = wanted (decipher c flash) mem address length := by
  have hbeside : ∀ a, ¬(address ≤ a ∧ a < address + length) →
      encipher c (wanted (decipher c flash) mem address length) a = flash a := fun a ha => by
    have hblock : ∀ b, b / 16 = a / 16 → wanted (decipher c flash) mem address length b = decipher c flash b :=
      fun b hb => if_neg (by omega)
    rw [encipher_congr hblock, encipher_decipher]
  have hafter := @afterWrites_exact put c soc _ rows h hsame flash fun a => by
    by_cases ha : address ≤ a ∧ a < address + length
    · exact htakes a ha.1 ha.2 _
    · rw [hbeside a ha, hsame]
  have hall : afterWrites put c flash rows = encipher c (wanted (decipher c flash) mem address length) := by
    funext a
    rw [hafter a]
    by_cases ha : address ≤ a ∧ a < address + length
    · rw [if_pos (hcovers a ha.1 ha.2)]
    · rw [hbeside a ha]
      exact ite_self _
  rw [hall, decipher_encipher]

end memory

/-! ## A write as a whole -/

section whole
variable {soc : Soc} {host : Mapping} {view : Mem} {chip : Chip} {address length : UInt32}

/-- The halves beside the range lie on the chip. -/
theorem target_reads (hfit : Fits chip address length) (haddress : address.toNat % 16 = 0) (hlength : length.toNat % 16 = 0)
    (hsize : chip.size.toNat % 32 = 0) (hrom : host.romChipSize = chip.size)
    (hmap : ∀ src size, host.mmap src size = ESP_OK) :
    soc.Reads view address.toNat length.toNat (soc.target host view address length) := by
  have hlt := chip.size.toNat_lt
  have h32 : (32 : UInt32).toNat = 32 := rfl
  have h16 : (16 : UInt32).toNat = 16 := rfl
  unfold Fits at hfit
  cases soc with
  | xts blockMax64 => rfl
  | esp32 =>
    have hsum : (address + length).toNat = address.toNat + length.toNat := by
      rw [UInt32.toNat_add, Nat.mod_eq_of_lt (by omega)]
    refine ⟨fun hhalf => ?_, fun hhalf => ?_⟩
    · have hwanted : (address % 32 != 0) = true := by
        rw [bne_iff_ne]
        intro heq
        exact hhalf (by rw [← h32, ← UInt32.toNat_mod, heq]; rfl)
      have hsub : (address - 16).toNat = address.toNat - 16 := by
        rw [UInt32.toNat_sub_of_le _ _ (UInt32.le_iff_toNat_le.mpr (by omega)), h16]
      rw [hwanted, halfRow_read (by rw [hsub, hrom]; omega) hmap, hsub]
    · have hwanted : ((address + length) % 32 != 0) = true := by
        rw [bne_iff_ne]
        intro heq
        refine hhalf ?_
        rw [← hsum, ← h32, ← UInt32.toNat_mod, heq]
        rfl
      rw [hwanted, halfRow_read (by rw [hsum, hrom]; omega) hmap, hsum]

/-- The calls of an encrypted write are exact and cover its range once; where programming a cell with its own value does
not change it, and the cells of the range take every value, what is read back is the buffer within the range and what was
there beside it. -/
theorem encrypted_write_exact (soc : Soc) (host : Mapping) (cfg : Config) (chip : Chip) (lockOnce : Bool)
    (c : Cipher 16 UInt8) (flash mem : Mem) (address length : UInt32) (hdefault : chip.isDefault = true)
    (hallowed : checkWriteAddress chip address length = none) (hfit : Fits chip address length)
    (haddress : address.toNat % 16 = 0) (hlength : length.toNat % 16 = 0) (hsize : chip.size.toNat % 32 = 0)
    (hrom : host.romChipSize = chip.size) (hmap : ∀ src size, host.mmap src size = ESP_OK) :
    let run := writeEncryptedOver soc host (decipher c flash) cfg chip lockOnce address (some mem) length
    let want := wanted (decipher c flash) mem address.toNat length.toNat
    run.result quiet 0 = ESP_OK ∧ ∃ rows : List RowWrite, accesses (run.trace quiet 0) = rows.map RowWrite.call ∧
      (∀ r ∈ rows, r.Exact soc want) ∧
      (∀ a, address.toNat ≤ a → a < address.toNat + length.toNat → rows.countP (fun r => r.Covers a) = 1) ∧
      ∀ put : UInt8 → UInt8 → UInt8, (∀ v, put v v = v) →
        (∀ a, address.toNat ≤ a → a < address.toNat + length.toNat → ∀ v, put (flash a) v = v) →
        decipher c (afterWrites put c flash rows) = want := by
  intro run want
  have hreads := @target_reads soc host (decipher c flash) chip address length hfit haddress hlength hsize hrom hmap
  have hlt : address.toNat + length.toNat < 2 ^ 32 := Nat.lt_of_le_of_lt hfit chip.size.toNat_lt
  obtain ⟨hexact, hcount⟩ := @rowCalls_exact _ _ _ mem _ _ hlt haddress hlength hreads length.toNat 0 rfl
    (Nat.zero_le _)
    (by cases soc with
      | esp32 => exact .inl rfl
      | xts blockMax64 => trivial) (Nat.le_of_eq (Nat.sub_zero _))
  have hrun : run.result quiet 0 = ESP_OK ∧ accesses (run.trace quiet 0) =
      (rowCalls (nextRow (soc.target host (decipher c flash) address length) mem address.toNat length.toNat) length.toNat
        length.toNat 0).map RowWrite.call := by
    have h16 : (16 : UInt32).toNat = 16 := rfl
    have haligned : ¬address % 16 ≠ 0 := not_not.mpr (UInt32.toNat_inj.mp (by rw [UInt32.toNat_mod, h16, haddress]; rfl))
    have hwhole : ¬length % 16 ≠ 0 := not_not.mpr (UInt32.toNat_inj.mp (by rw [UInt32.toNat_mod, h16, hlength]; rfl))
    simp only [run, writeEncryptedOver, espFlashWriteEncrypted, hdefault, hallowed, if_neg (fits_iff.mp hfit),
      if_neg haligned, if_neg hwhole]
    by_cases hlen : length = 0
    · subst hlen
      exact ⟨rfl, rfl⟩
    · rw [if_neg hlen]
      exact writeRows_quiet lockOnce
  generalize rowCalls (nextRow (soc.target host (decipher c flash) address length) mem address.toNat length.toNat)
    length.toNat length.toNat 0 = rows at hexact hcount hrun
  have honce : ∀ a, address.toNat ≤ a → a < address.toNat + length.toNat → rows.countP (fun r => r.Covers a) = 1 :=
    fun a h0 h1 => (hcount a h0 h1).trans (if_pos h0)
  refine ⟨hrun.1, rows, hrun.2, hexact, honce, fun put hsame htakes => ?_⟩
  refine afterWrites_range haddress hlength hexact (fun a h0 h1 => ?_) hsame htakes
  obtain ⟨r, hr, hcovers⟩ := List.countP_pos_iff.mp (Nat.lt_of_lt_of_eq Nat.one_pos (honce a h0 h1).symm)
  exact ⟨r, hr, of_decide_eq_true hcovers⟩

end whole

/-- Each octet is taken with the number of its block. -/
def xorCipher : Cipher 16 UInt8 := fun k =>
  ⟨fun b i => b i ^^^ UInt8.ofNat k, fun b i => b i ^^^ UInt8.ofNat k, fun b => funext fun i => by simp,
    fun b => funext fun i => by simp⟩

/-- On an erased ESP32 flash, where programming clears bits: 32 octets from the middle of a row to the middle of the
next. -/
theorem encrypted_write_exact_rows :
    ∃ rows : List RowWrite, rows.length = 2 ∧
      decipher xorCipher (afterWrites (· &&& ·) xorCipher (fun _ => 0xFF) rows) =
        wanted (decipher xorCipher fun _ => 0xFF) (fun i => UInt8.ofNat i) 0x1010 32 := by
  obtain ⟨-, rows, hrows, -, -, hafter⟩ := encrypted_write_exact .esp32 ⟨0x400000, 0x10000, fun _ _ => ESP_OK⟩ .default chip4M
    true xorCipher (fun _ => 0xFF) (fun i => UInt8.ofNat i) 0x1010 32 rfl rfl (by unfold Fits; decide) rfl rfl rfl rfl
    fun _ _ => rfl
  refine ⟨rows, ?_, hafter _ (fun v => UInt8.and_self) fun _ _ _ v => UInt8.neg_one_and⟩
  have hlen : rows.length = (rows.map RowWrite.call).length := (List.length_map _).symm
  rw [hlen, ← hrows]
  rfl

end EspIdf.Flash
