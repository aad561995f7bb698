import EspIdf.Ota.OtaWrite

/-!
# What the calls of an update leave in the staging partition

* `ErasedFirst` : nothing is programmed that was not erased before;
* `Written` : the bytes written so far and how far the partition is erased, after a list of operations;
* one lemma a function : `eraseBefore_run`, `appendBytes_run`, `writeBlocks_run`, `flushPartial_run`.
-/

namespace EspIdf.Ota

open NorFlash

/-- Every byte the operations program was erased before, by them or as `erased` says. -/
def ErasedFirst (erased : Nat → Prop) : List Op → Prop
  | [] => True
  | .erase addr len :: ops => ErasedFirst (fun a => erased a ∨ addr ≤ a ∧ a < addr + len) ops
  | .write addr bytes :: ops => (∀ a, addr ≤ a → a < addr + bytes.length → erased a) ∧ ErasedFirst erased ops

/-- The end of the last sector of `n` bytes. -/
def sectorEnd (n : Nat) : Nat := (n + 4095) / 4096 * 4096

/-- After `ops`, the partition holds `xs`, is blank from there to `fresh`, and as before beyond; and nothing was programmed
that had not been erased. -/
structure Written (p : Staging) (img : Image) (ops : List Op) (xs : List UInt8) (fresh : Nat) : Prop where
  aligned : 4096 ∣ fresh
  le : xs.length ≤ fresh
  fits : fresh ≤ p.size
  bytes : ∀ i, applyAll ops img (p.address + i) =
    if i < xs.length then xs.getD i 0 else if i < fresh then 0xFF else img (p.address + i)
  first : ∀ later, ErasedFirst (fun _ => False) (ops ++ later) ↔
    ErasedFirst (fun a => p.address ≤ a ∧ a < p.address + fresh) later

section Written

variable {p : Staging} {img : Image} {ops : List Op} {xs : List UInt8} {fresh : Nat}

theorem Written.start (p : Staging) (img : Image) : Written p img [] [] 0 := by
  refine ⟨Nat.dvd_zero _, Nat.le_refl _, Nat.zero_le _, fun i => ?_, fun later => ?_⟩
  · rfl
  · have e : (fun a => p.address ≤ a ∧ a < p.address + 0) = fun _ => False := by
      funext a
      apply propext
      constructor
      · omega
      · exact False.elim
    rw [e, List.nil_append]

/-- Erasing further sectors. -/
theorem Written.erase (h : Written p img ops xs fresh) {s t : Nat} (hs : xs.length ≤ s) (hsf : s ≤ fresh) (hst : s ≤ t)
    (ht : 4096 ∣ t) (hfits : t ≤ p.size) :
    Written p img (ops ++ [.erase (p.address + s) (t - s)]) xs (max fresh t) := by
  have hle := h.le
  constructor
  · rcases Nat.le_total fresh t with hft | hft
    · rw [Nat.max_eq_right hft]
      exact ht
    · rw [Nat.max_eq_left hft]
      exact h.aligned
  · exact Nat.le_trans h.le (Nat.le_max_left _ _)
  · exact Nat.max_le.mpr ⟨h.fits, hfits⟩
  · intro i
    rw [applyAll_append]
    change eraseRange (applyAll ops img) (p.address + s) (t - s) (p.address + i) = _
    by_cases hi : s ≤ i ∧ i < t
    · rw [eraseRange_in (by omega) (by omega), if_neg (by omega), if_pos (by omega)]
    · rw [eraseRange_out (by omega), h.bytes i]
      by_cases hx : i < xs.length
      · rw [if_pos hx, if_pos hx]
      · rw [if_neg hx, if_neg hx]
        congr 1
        apply propext
        omega
  · intro later
    rw [List.append_assoc, h.first]
    change ErasedFirst (fun a => (p.address ≤ a ∧ a < p.address + fresh) ∨
      p.address + s ≤ a ∧ a < p.address + s + (t - s)) later ↔ _
    have e : (fun a => (p.address ≤ a ∧ a < p.address + fresh) ∨ p.address + s ≤ a ∧ a < p.address + s + (t - s)) =
        fun a => p.address ≤ a ∧ a < p.address + max fresh t := by
      funext a
      apply propext
      omega
    rw [e]

/-- Writing further bytes to blank sectors. -/
theorem Written.write (h : Written p img ops xs fresh) {bs : List UInt8} (hb : xs.length + bs.length ≤ fresh) :
    Written p img (ops ++ [.write (p.address + xs.length) bs]) (xs ++ bs) fresh := by
  have hlen : (xs ++ bs).length = xs.length + bs.length := List.length_append
  refine ⟨h.aligned, by omega, h.fits, ?_, ?_⟩
  · intro i
    rw [applyAll_append]
    change program (applyAll ops img) (p.address + xs.length) bs (p.address + i) = _
    by_cases hi : xs.length ≤ i ∧ i < xs.length + bs.length
    · rw [program_in (by omega) (by omega), h.bytes i, if_neg (by omega), if_pos (by omega), and_allOnes,
        if_pos (by omega), List.getD_append_right _ _ _ _ hi.1, Nat.add_sub_add_left]
      rw [List.getD_eq_getElem _ _ (by omega), List.getD_eq_getElem _ _ (by omega)]
    · rw [program_out (by omega), h.bytes i]
      by_cases hx : i < xs.length
      · rw [if_pos hx, if_pos (by omega), List.getD_append _ _ _ _ hx]
      · rw [if_neg hx, if_neg (show ¬i < (xs ++ bs).length by omega)]
  · intro later
    rw [List.append_assoc, h.first]
    exact and_iff_right fun a h1 h2 => ⟨by omega, by omega⟩

/-- Bytes written past the blank sectors were not erased. -/
theorem Written.write_unerased (h : Written p img ops xs fresh) {bs : List UInt8} {later : List Op}
    (hfull : xs.length = fresh) (hb : 0 < bs.length) :
    ¬ErasedFirst (fun _ => False) (ops ++ .write (p.address + xs.length) bs :: later) := by
  rw [h.first]
  intro hfirst
  have := (hfirst.1 (p.address + xs.length) (Nat.le_refl _) (by omega)).2
  omega

end Written

/-! ## Runs of the functions -/

section Runs

variable {p : Staging} {img F : Image} {ops : List Op} {xs : List UInt8} {fresh : Nat} {it : OtaOps}

theorem partitionErase_run {offset size : Nat} (hfits : offset + size ≤ p.size) (hsize : size % 4096 = 0)
    (hoffset : offset % 4096 = 0) :
    partitionErase p offset size it F = ⟨.ok (), it, [.erase (p.address + offset) size]⟩ := by
  unfold partitionErase
  rw [if_neg (by omega), if_neg (by omega), if_neg (by omega), if_neg (by omega)]
  rfl

theorem partitionErase_fail {offset size : Nat} (hfits : p.size < offset + size) :
    ∃ e, partitionErase p offset size it F = ⟨.error e, it, []⟩ ∧ e ≠ .notVerified := by
  unfold partitionErase
  by_cases h : p.size < offset
  · exact ⟨.invalidArg, by rw [if_pos h]; rfl, by decide⟩
  · exact ⟨.invalidSize, by rw [if_neg h, if_pos (by omega)]; rfl, by decide⟩

theorem partitionWrite_run {offset : Nat} {bs : List UInt8} (hfits : offset + bs.length ≤ p.size)
    (hblocks : p.flashEncryption = true → offset % 16 = 0 ∧ bs.length % 16 = 0) :
    partitionWrite p offset bs it F = ⟨.ok (), it, [.write (p.address + offset) bs]⟩ := by
  have haddr := p.address_dvd
  unfold partitionWrite
  rw [if_neg (by omega), if_neg (by omega), if_neg, if_neg]
  · rfl
  · exact fun h => h.2 (hblocks h.1).2
  · intro h
    have := (hblocks h.1).1
    omega

theorem sectorEnd_dvd (n : Nat) : 4096 ∣ sectorEnd n := Nat.dvd_mul_left _ _

/-- The sectors about to be written are erased, as far as they were not. -/
theorem eraseBefore_run (h : Written p img ops xs fresh) {m : Nat} (hm : 0 < m) (hsize : xs.length + m ≤ p.size) :
    ∃ ops', eraseBefore p xs.length m it F = ⟨.ok (), it, ops'⟩ ∧
      Written p img (ops ++ ops') xs (max fresh (sectorEnd (xs.length + m))) := by
  have hdvd := p.size_dvd
  have halign := h.aligned
  have hle := h.le
  unfold eraseBefore
  by_cases hfull : xs.length % 4096 = 0
  · have ht : xs.length + ((xs.length + m - 1) / 4096 - xs.length / 4096 + 1) * 4096 = sectorEnd (xs.length + m) := by
      unfold sectorEnd
      omega
    refine ⟨_, ?_, h.erase (Nat.le_refl xs.length) hle ?_ (sectorEnd_dvd (xs.length + m)) ?_⟩
    · rw [if_pos hfull, partitionErase_run (by rw [ht]; unfold sectorEnd; omega) (Nat.mul_mod_left _ _) hfull, ← ht,
        Nat.add_sub_cancel_left]
    · unfold sectorEnd
      omega
    · unfold sectorEnd
      omega
  · by_cases hsame : xs.length / 4096 = (xs.length + m - 1) / 4096
    · refine ⟨[], ?_, ?_⟩
      · rw [if_neg hfull, if_neg (by omega)]
        rfl
      · rw [Nat.max_eq_left (by unfold sectorEnd; omega), List.append_nil]
        exact h
    · have ht : (xs.length / 4096 + 1) * 4096 + ((xs.length + m - 1) / 4096 - xs.length / 4096) * 4096 =
          sectorEnd (xs.length + m) := by
        unfold sectorEnd
        omega
      refine ⟨_, ?_, h.erase (show xs.length ≤ (xs.length / 4096 + 1) * 4096 by omega) (by omega) ?_
        (sectorEnd_dvd (xs.length + m)) ?_⟩
      · rw [if_neg hfull, if_pos hsame, partitionErase_run (by rw [ht]; unfold sectorEnd; omega)
          (Nat.mul_mod_left _ _) (Nat.mul_mod_left _ _), ← ht, Nat.add_sub_cancel_left]
      · unfold sectorEnd
        omega
      · unfold sectorEnd
        omega

/-- Bytes that do not fit fail at the erase. -/
theorem eraseBefore_fail (h : Written p img ops xs fresh) {m : Nat} (hsize : p.size < xs.length + m) :
    ∃ e, eraseBefore p xs.length m it F = ⟨.error e, it, []⟩ ∧ e ≠ .notVerified := by
  have hdvd := p.size_dvd
  have halign := h.aligned
  have hle := h.le
  have hfits := h.fits
  unfold eraseBefore
  by_cases hfull : xs.length % 4096 = 0
  · rw [if_pos hfull]
    exact partitionErase_fail (by omega)
  · rw [if_neg hfull, if_pos (by omega)]
    exact partitionErase_fail (by omega)

theorem appendBytes_run (h : Written p img ops xs fresh) (hwrote : it.wroteSize = xs.length) {bs : List UInt8}
    (hb : xs.length + bs.length ≤ fresh) (hblocks : p.flashEncryption = true → xs.length % 16 = 0 ∧ bs.length % 16 = 0) :
    appendBytes p bs it F = ⟨.ok (), it.advance bs.length, [.write (p.address + xs.length) bs]⟩ := by
  have hfits := h.fits
  have hrun : partitionWrite p it.wroteSize bs it F = ⟨.ok (), it, [.write (p.address + xs.length) bs]⟩ := by
    rw [hwrote]
    exact partitionWrite_run (by omega) hblocks
  unfold appendBytes
  rw [bind_quiet rfl, bind_run hrun rfl]
  rfl

theorem patch_replicate {b : UInt8} {bs : List UInt8} :
    patch (List.replicate 16 b) 0 bs = bs ++ List.replicate (16 - bs.length) b := by
  unfold patch
  rw [List.take_zero, List.nil_append, Nat.zero_add, List.drop_replicate]

/-- The carried bytes, filled up with `pad`. -/
def carried (bs : List UInt8) (pad : UInt8) : List UInt8 := bs ++ List.replicate (16 - bs.length) pad

theorem carried_nil (pad : UInt8) : carried [] pad = List.replicate 16 pad := rfl

/-- More bytes in the buffer of carried ones. -/
theorem patch_carried (bs cs : List UInt8) (pad : UInt8) :
    patch (carried bs pad) bs.length cs = carried (bs ++ cs) pad := by
  unfold patch carried
  rw [List.take_left, List.drop_append, List.drop_eq_nil_of_le (by omega), List.nil_append, List.drop_replicate,
    List.length_append]
  congr 2
  omega

/-- The blocks of `data` are written, its last bytes carried. -/
theorem writeBlocks_run (h : Written p img ops xs fresh) (hwrote : it.wroteSize = xs.length) {data : List UInt8}
    (hblock : xs.length % 16 = 0) (hb : xs.length + (data.length - data.length % 16) ≤ fresh) :
    writeBlocks p data it F = ⟨.ok (), (it.saveTail data).advance (data.length - data.length % 16),
      [.write (p.address + xs.length) (data.take (data.length - data.length % 16))]⟩ := by
  have hmod := Nat.mod_le data.length 16
  have hlen : (data.take (data.length - data.length % 16)).length = data.length - data.length % 16 := by
    rw [List.length_take]
    omega
  have hwrote' : (it.saveTail data).wroteSize = xs.length := hwrote
  have hrun := appendBytes_run (F := F) h hwrote' (by rw [hlen]; exact hb) (fun _ => ⟨hblock, by rw [hlen]; omega⟩)
  rw [hlen] at hrun
  unfold writeBlocks
  rw [bind_quiet rfl]
  exact hrun

theorem saveTail_data {data : List UInt8} {pad : UInt8} (hdata : it.partialData = List.replicate 16 pad) :
    (it.saveTail data).partialData = carried (data.drop (data.length - data.length % 16)) pad := by
  unfold OtaOps.saveTail
  rw [hdata]
  by_cases hz : data.length % 16 = 0
  · rw [if_neg (by omega), hz, Nat.sub_zero, List.drop_length, carried_nil]
  · rw [if_pos hz, patch_replicate]
    rfl

/-- A full block of carried bytes is written. -/
theorem flushPartial_run (h : Written p img ops xs fresh) (hwrote : it.wroteSize = xs.length)
    (hfull : it.partialData.length = 16) (hblock : xs.length % 16 = 0) (hb : xs.length + 16 ≤ fresh) :
    flushPartial p it F = ⟨.ok (), it.clearPartial.advance 16, [.write (p.address + xs.length) it.partialData]⟩ := by
  have hfits := h.fits
  have hrun : partitionWrite p it.wroteSize it.partialData it F =
      ⟨.ok (), it, [.write (p.address + xs.length) it.partialData]⟩ := by
    rw [hwrote]
    exact partitionWrite_run (by omega) (fun _ => ⟨hblock, by omega⟩)
  unfold flushPartial
  rw [bind_quiet rfl, bind_run hrun rfl]
  rfl

end Runs

end EspIdf.Ota
