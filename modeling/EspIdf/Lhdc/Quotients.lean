import EspIdf.Lhdc.RiceLazy

/-!
# LHDC V5: the shifts of the quotients

* `channelCodes` : the codewords that a channel's coefficients are read from;
* `quotients_defined_iff` : the streams on which every shift is defined and every quotient has 32 bits;
* `seventeen_groups` : one on which they are not.
-/

namespace EspIdf.Lhdc

section channel
variable (h : FacHist) (data : List UInt8) (count : Nat) (split maWin1 maWin2 : Int)

/-- What the coefficients of a channel are read from. -/
def channelCodes : Option (List CoeffCode) :=
  (decodeS1 count (facDecInit data) (h.model1 maWin1)).bind fun (s1, d) =>
    (readCoeffs s2At (s2HardCap count + 1) (ricePivot2 s1 split) s1 0
      (s2Init d (h.model2 maWin2) (s2HardCap count)) 0).map fun r => r.1

/-- Every shift of a quotient is by less than 32, and every quotient has 32 bits. -/
def QuotientsDefined : Prop :=
  ∃ codes, channelCodes h data count split maWin1 maWin2 = some codes ∧ ∀ c ∈ codes, c.Defined

/-- The codewords of the second stream, as far as they are read, fit. -/
def StreamFits : Prop :=
  ∃ s1 d s2, decodeS1 count (facDecInit data) (h.model1 maWin1) = some (s1, d) ∧
    eagerS2 (s2HardCap count) d (h.model2 maWin2) = some s2 ∧
    ∀ t ∈ starts (quotientCount (ricePivot2 s1 split) 0 s1) s2, Fits t

/-- The lazy reader reads the codewords of the stream that the range coder produces. -/
theorem channelCodes_spec : ∃ s1 d s2 codes, decodeS1 count (facDecInit data) (h.model1 maWin1) = some (s1, d) ∧
    eagerS2 (s2HardCap count) d (h.model2 maWin2) = some s2 ∧
    channelCodes h data count split maWin1 maWin2 = some codes ∧
    ((∀ c ∈ codes, c.Defined) ↔ ∀ t ∈ starts (quotientCount (ricePivot2 s1 split) 0 s1) s2, Fits t) := by
  obtain ⟨s1, d, hs1, hd⟩ := decodeS1_spec initOk_FAC_FQ1 count (facDecInit_ok data) (h.model1_ok maWin1)
  obtain ⟨s2, hs2, he⟩ := eagerS2_spec initOk_FAC_FQ2 (s2HardCap count) hd (h.model2_ok maWin2)
  have hfuel : s2.length < s2HardCap count + 1 := Nat.lt_succ_of_le he.length_le
  obtain ⟨codes, used, hread, hiff⟩ := readCoeffs_array (s2HardCap count + 1) (ricePivot2 s1 split) s1 0 0 hfuel
  refine ⟨s1, d, s2, codes, hs1, hs2, ?_, hiff⟩
  have hagree := readCoeffs_agree (s2_readerSim he) (s2HardCap count + 1) (ricePivot2 s1 split) s1 0
    (j := 0) ⟨rfl, s2Init_sim d (h.model2 maWin2) (s2HardCap count) s2 0⟩
  rw [hread] at hagree
  unfold channelCodes
  rw [hs1]
  exact hagree.value

/-- For every byte stream, and every number of coefficients, split and window. -/
theorem quotients_defined_iff :
    QuotientsDefined h data count split maWin1 maWin2 ↔ StreamFits h data count split maWin1 maWin2 := by
  obtain ⟨s1, d, s2, codes, hs1, hs2, hcodes, hiff⟩ := channelCodes_spec h data count split maWin1 maWin2
  constructor
  · rintro ⟨codes', hcodes', hdefined⟩
    obtain rfl := Option.some.inj (hcodes.symm.trans hcodes')
    exact ⟨s1, d, s2, hs1, hs2, hiff.mp hdefined⟩
  · rintro ⟨s1', d', s2', hs1', hs2', hfits⟩
    obtain ⟨rfl, rfl⟩ := Prod.mk.inj (Option.some.inj (hs1.symm.trans hs1'))
    obtain rfl := Option.some.inj (hs2.symm.trans hs2')
    exact ⟨codes, hcodes, hiff.mpr hfits⟩

end channel

/-- A channel of four coefficients, the last of which is escaped by seventeen groups. -/
def seventeenGroups : List UInt8 :=
  [0x87, 0x6D, 0xBF, 0x06, 0x50, 0x60, 0xAE, 0x12, 0x3D, 0x8D, 0xEA, 0x48, 0xCD, 0xD9, 0x59, 0x81, 0x22, 0x66, 0x40, 0,
    0, 0, 0, 0]

/-- The history buffers, cleared. -/
def clearedHist : FacHist :=
  ⟨List.replicate facHist1Cap 0, List.replicate facHist2Cap 0, List.length_replicate, List.length_replicate⟩

/-- The seventeenth group is shifted by 32, and the run of ones by 34. -/
theorem seventeen_groups : ¬QuotientsDefined clearedHist seventeenGroups 4 0 256 256 := by
  rintro ⟨codes, hcodes, hdefined⟩
  obtain ⟨s1, d, s2, codes', hs1, hs2, hcodes', hiff⟩ := channelCodes_spec clearedHist seventeenGroups 4 0 256 256
  obtain rfl := Option.some.inj (hcodes.symm.trans hcodes')
  have hrun : (decodeS1 4 (facDecInit seventeenGroups) (clearedHist.model1 256)).bind (fun r =>
      (eagerS2 (s2HardCap 4) r.2 (clearedHist.model2 256)).map fun s2 => (r.1, decide (Fits s2))) =
        some ([0, 0, 0, 2], false) := by
    decide +kernel
  rw [hs1, Option.bind_some, hs2, Option.map_some] at hrun
  obtain ⟨rfl, hnot⟩ := Prod.mk.inj (Option.some.inj hrun)
  exact of_decide_eq_false hnot (hiff.mp hdefined s2 List.mem_cons_self)

end EspIdf.Lhdc
