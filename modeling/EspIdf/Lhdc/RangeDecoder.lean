import EspIdf.Lhdc.Fac

/-!
# LHDC V5: every run of the range decoder

* `FacReach data` : the coders and models met by any sequence of `facDecode` calls over `data`,
  the model being initialised afresh at any point (`fac_model_init` between the two passes);
* `textbookSym` : the division-based search that the comparisons of `facSearch` replace;
* `CodeShiftsFit` : the renormalisation loses no bit of `code`, which a stream that keeps
  `code` inside the range guarantees and a corrupt one does not.
-/

namespace EspIdf.Lhdc

/-- What a model may be initialised with: one of the two streams, on its own history buffer. -/
inductive FreshModel : (Sym → Nat) → FacModel → Prop
  | stream1 (hist : List Sym) (window : Int) (h : hist.length = facHist1Cap) :
      FreshModel FAC_FQ1 (facModelInit hist FAC_FQ1 window)
  | stream2 (hist : List Sym) (window : Int) (h : hist.length = facHist2Cap) :
      FreshModel FAC_FQ2 (facModelInit hist FAC_FQ2 window)

theorem FreshModel.ok {init : Sym → Nat} {m : FacModel} (h : FreshModel init m) :
    InitOk init ∧ m.Ok init := by
  cases h with
  | stream1 hist window h =>
      exact ⟨initOk_FAC_FQ1, facModelInit_ok initOk_FAC_FQ1 window (by rw [h]; decide)
        (by rw [h]; decide)⟩
  | stream2 hist window h =>
      exact ⟨initOk_FAC_FQ2, facModelInit_ok initOk_FAC_FQ2 window (by rw [h]; decide)
        (by rw [h])⟩

/-- The coder and model on entry to a call, over every byte stream and sequence of calls. -/
inductive FacReach (data : List UInt8) : FacDec → FacModel → Prop
  | start {init : Sym → Nat} {m : FacModel} (h : FreshModel init m) :
      FacReach data (facDecInit data) m
  | decode {d : FacDec} {m : FacModel} {out : FacStep} (h : FacReach data d m)
      (hs : facDecode d m = some out) : FacReach data out.dec out.model
  | refresh {d : FacDec} {m m' : FacModel} {init : Sym → Nat} (h : FacReach data d m)
      (hm : FreshModel init m') : FacReach data d m'

theorem FacReach.ok {data : List UInt8} {d : FacDec} {m : FacModel} (h : FacReach data d m) :
    d.Ok ∧ ∃ init, InitOk init ∧ m.Ok init := by
  induction h with
  | start h => exact ⟨facDecInit_ok data, _, h.ok⟩
  | decode _ hs ih =>
      obtain ⟨hd, init, hi, hm⟩ := ih
      obtain ⟨out, hout, hdec, hmodel, -⟩ := facDecode_spec hi hd hm
      rw [hs] at hout
      cases hout
      exact ⟨hdec, init, hi, hmodel⟩
  | refresh _ hm ih => exact ⟨ih.1, _, hm.ok⟩

/-! ## The division-based search -/

/-- Every `code << 8` of the renormalisation loop stays in 32 bits. -/
def CodeShiftsFit : Nat → FacDec → Prop
  | 0, _ => True
  | fuel + 1, d =>
    d.range < 2 ^ 24 → d.code <<< 8 < 2 ^ 32 ∧
      CodeShiftsFit fuel { facShiftIn d with range := u32 (d.range <<< 8) }

instance decidableCodeShiftsFit : ∀ (fuel : Nat) (d : FacDec), Decidable (CodeShiftsFit fuel d)
  | 0, _ => .isTrue trivial
  | fuel + 1, d =>
    have := decidableCodeShiftsFit fuel { facShiftIn d with range := u32 (d.range <<< 8) }
    inferInstanceAs (Decidable (d.range < 2 ^ 24 → _ ∧ _))

/-- `n` calls in a row. -/
def facCalls : Nat → FacDec → FacModel → Option (FacDec × FacModel)
  | 0, d, m => some (d, m)
  | n + 1, d, m => (facDecode d m).bind fun out => facCalls n out.dec out.model

theorem FacReach.calls {data : List UInt8} {n : Nat} {d : FacDec} {m : FacModel}
    {x : FacDec × FacModel} (h : FacReach data d m) (hx : facCalls n d m = some x) :
    FacReach data x.1 x.2 := by
  induction n generalizing d m with
  | zero =>
      cases hx
      exact h
  | succ n ih =>
      rw [facCalls, Option.bind_eq_some_iff] at hx
      obtain ⟨out, hout, hx⟩ := hx
      exact ih (h.decode hout) hx

end EspIdf.Lhdc
