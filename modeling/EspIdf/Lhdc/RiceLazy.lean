import EspIdf.Lhdc.Codewords

/-!
# LHDC V5: the lazy stream is the eager one

* `ReaderSim` : two symbol readers that agree on every index from a cursor on; the Rice inverse
  over one is then the Rice inverse over the other (`riceDecodeCoeffsUsed_agree`);
* `S2Sim` : the lazy stream against the array decoded beforehand. At most one symbol is decoded
  ahead of the cursor, which is what lets `s2StateAfter` report the state saved before it.
-/

namespace EspIdf.Lhdc

/-! ## Readers that agree from a cursor on -/

section Sim
variable {ρ σ α β : Type} {sym₁ : ρ → Nat → Option (S2Val × ρ)}
  {sym₂ : σ → Nat → Option (S2Val × σ)} {R : ρ → σ → Nat → Prop}
  {ub : BitVec 32 → Nat → BitVec 32}

/-- Both readers return, give the same value at any index from the cursor on, and stay related. -/
structure ReaderSim (sym₁ : ρ → Nat → Option (S2Val × ρ)) (sym₂ : σ → Nat → Option (S2Val × σ))
    (R : ρ → σ → Nat → Prop) : Prop where
  mono : ∀ {a b i j}, R a b i → i ≤ j → R a b j
  read : ∀ {a b j}, R a b j →
    ∃ v a' b', sym₁ a j = some (v, a') ∧ sym₂ b j = some (v, b') ∧ R a' b' j

/-- Two runs with the same values and cursors, over related readers, or neither returning. -/
inductive Agree (R : ρ → σ → Nat → Prop) : Option (α × ρ × Nat) → Option (α × σ × Nat) → Prop
  | none : Agree R none none
  | some {v a b j} (h : R a b j) : Agree R (some (v, a, j)) (some (v, b, j))

theorem Agree.bind {x : Option (α × ρ × Nat)} {y : Option (α × σ × Nat)}
    {f : α × ρ × Nat → Option (β × ρ × Nat)} {g : α × σ × Nat → Option (β × σ × Nat)}
    (h : Agree R x y) (hfg : ∀ v a b j, R a b j → Agree R (f (v, a, j)) (g (v, b, j))) :
    Agree R (x.bind f) (y.bind g) := by
  cases h with
  | none => exact .none
  | some h => exact hfg _ _ _ _ h

theorem Agree.map {x : Option (α × ρ × Nat)} {y : Option (α × σ × Nat)} (f : α → β)
    (h : Agree R x y) :
    Agree R (x.map fun (v, a, j) => (f v, a, j)) (y.map fun (v, b, j) => (f v, b, j)) := by
  cases h with
  | none => exact .none
  | some h => exact .some h

theorem Agree.value {x : Option (α × ρ × Nat)} {v : α} {b : σ} {j : Nat} (h : Agree R x (.some (v, b, j))) :
    x.map (fun r => r.1) = .some v := by
  cases h with
  | some h => rfl

theorem ReaderSim.bind (hs : ReaderSim sym₁ sym₂ R) {a : ρ} {b : σ} {i j : Nat} (h : R a b i)
    (hij : i ≤ j) {f : S2Val × ρ → Option (β × ρ × Nat)} {g : S2Val × σ → Option (β × σ × Nat)}
    (hfg : ∀ v a b, R a b j → Agree R (f (v, a)) (g (v, b))) :
    Agree R ((sym₁ a j).bind f) ((sym₂ b j).bind g) := by
  obtain ⟨v, a', b', h1, h2, hR⟩ := hs.read (hs.mono h hij)
  rw [h1, h2]
  exact hfg v a' b' hR

theorem readGroups_agree (hs : ReaderSim sym₁ sym₂ R) (fuel : Nat) {a : ρ} {b : σ} {j : Nat}
    (h : R a b j) : Agree R (readGroups sym₁ fuel a j) (readGroups sym₂ fuel b j) := by
  induction fuel generalizing a b j with
  | zero => exact .none
  | succ fuel ih =>
      refine hs.bind h le_rfl fun v a b h => ?_
      by_cases hv : v = some 2
      · simp only [if_pos hv]
        refine hs.bind h (by omega) fun v1 a b h => ?_
        refine hs.bind h (by omega) fun v0 a b h => ?_
        exact (ih (hs.mono h (by omega))).map (groupBits v1 v0 :: ·)
      · simp only [if_neg hv]
        exact .some h

theorem riceOnes_agree (hs : ReaderSim sym₁ sym₂ R) (fuel : Nat) {a : ρ} {b : σ} {j : Nat}
    (h : R a b j) (ones : Nat) :
    Agree R (riceOnes sym₁ fuel a j ones) (riceOnes sym₂ fuel b j ones) := by
  induction fuel generalizing a b j ones with
  | zero => exact .none
  | succ fuel ih =>
      refine hs.bind h le_rfl fun v a b h => ?_
      by_cases hv : v = some 1
      · simp only [if_pos hv]
        exact ih (hs.mono h (by omega)) _
      · simp only [if_neg hv]
        exact .some h

theorem riceOnesUpTo_agree (hs : ReaderSim sym₁ sym₂ R) (left : Nat) {a : ρ} {b : σ} {j : Nat}
    (h : R a b j) (ones : Nat) :
    Agree R (riceOnesUpTo sym₁ left a j ones) (riceOnesUpTo sym₂ left b j ones) := by
  induction left generalizing a b j ones with
  | zero => exact .some h
  | succ left ih =>
      refine hs.bind h le_rfl fun v a b h => ?_
      by_cases hv : v = some 1
      · simp only [if_pos hv]
        exact ih (hs.mono h (by omega)) _
      · simp only [if_neg hv]
        exact .some h

theorem riceStop_agree (hs : ReaderSim sym₁ sym₂ R) {a : ρ} {b : σ} {j : Nat} (h : R a b j)
    (v : α) :
    Agree R ((riceStop sym₁ a j).map fun (z, j) => (v, z, j))
      ((riceStop sym₂ b j).map fun (z, j) => (v, z, j)) := by
  obtain ⟨w, a', b', h1, h2, hR⟩ := hs.read h
  simp only [riceStop, h1, h2, Option.map_some]
  exact .some (hs.mono hR (by split <;> omega))

theorem readCodeword_agree (hs : ReaderSim sym₁ sym₂ R) (fuel : Nat) {a : ρ} {b : σ} {j : Nat}
    (h : R a b j) : Agree R (readCodeword sym₁ fuel a j) (readCodeword sym₂ fuel b j) := by
  refine hs.bind h le_rfl fun v a b h => ?_
  by_cases hv : v = some 2
  · simp only [if_pos hv]
    refine (readGroups_agree hs fuel h).bind fun groups a b j h => ?_
    refine (riceOnes_agree hs fuel h 0).bind fun ones a b j h => ?_
    exact riceStop_agree hs h _
  · simp only [if_neg hv]
    refine (riceOnesUpTo_agree hs 3 h 0).bind fun ones a b j h => ?_
    by_cases ho : ones = 3
    · simp only [if_pos ho]
      exact .some h
    · simp only [if_neg ho]
      exact riceStop_agree hs h _

theorem readCoeffs_agree (hs : ReaderSim sym₁ sym₂ R) (fuel pivot2 : Nat) (s1 : List Sym) (i : Nat)
    {a : ρ} {b : σ} {j : Nat} (h : R a b j) :
    Agree R (readCoeffs sym₁ fuel pivot2 s1 i a j) (readCoeffs sym₂ fuel pivot2 s1 i b j) := by
  induction s1 generalizing a b i j with
  | nil => exact .some h
  | cons s rest ih =>
      refine Agree.bind ?_ fun c a b j h => (ih (i + 1) h).map (c :: ·)
      have hq : Agree R (readCodeword sym₁ fuel a j) (readCodeword sym₂ fuel b j) :=
        readCodeword_agree hs fuel h
      by_cases hi : i ≤ pivot2
      · by_cases h2 : s = 2
        · simp only [if_pos hi, if_pos h2]
          exact hq.map CoeffCode.quotient
        · simp only [if_pos hi, if_neg h2]
          exact .some h
      · simp only [if_neg hi]
        exact hq.map fun w => CoeffCode.above w s

theorem riceDecodeCoeffsUsed_agree (hs : ReaderSim sym₁ sym₂ R) (fuel : Nat) (s1 : List Sym)
    (split : Int) {a : ρ} {b : σ} (h : R a b 0) :
    Agree R (riceDecodeCoeffsUsed sym₁ ub fuel s1 a split)
      (riceDecodeCoeffsUsed sym₂ ub fuel s1 b split) := by
  unfold riceDecodeCoeffsUsed
  rw [riceCoeffs_eq, riceCoeffs_eq]
  exact (readCoeffs_agree hs fuel _ s1 0 h).map (List.map (CoeffCode.value ub))

end Sim

/-- The array reader returns. -/
theorem riceDecodeCoeffsUsed_array (ub : BitVec 32 → Nat → BitVec 32) (fuel : Nat) (s1 s2 : List Sym) (split : Int)
    (h : s2.length < fuel) : ∃ coeffs used, riceDecodeCoeffsUsed arrayAt ub fuel s1 s2 split = some (coeffs, s2, used) := by
  obtain ⟨cs, used, hread, -⟩ := readCoeffs_array fuel (ricePivot2 s1 split) s1 0 0 h
  exact ⟨_, used, by rw [riceDecodeCoeffsUsed, riceCoeffs_eq, hread]; rfl⟩

/-! ## The eager array -/

theorem facCalls_cons (n : Nat) (d : FacDec) (m : FacModel) :
    facCalls (n + 1) d m = (facDecode d m).bind fun out => facCalls n out.dec out.model := by
  rw [facCalls]

theorem facCalls_add (a b : Nat) (d : FacDec) (m : FacModel) :
    facCalls (a + b) d m = (facCalls a d m).bind fun x => facCalls b x.1 x.2 := by
  induction a generalizing d m with
  | zero => rw [Nat.zero_add, facCalls, Option.bind_some]
  | succ a ih =>
      rw [Nat.succ_add, facCalls_cons, facCalls_cons, Option.bind_assoc]
      congr 1
      funext out
      exact ih out.dec out.model

theorem facCalls_one (d : FacDec) (m : FacModel) :
    facCalls 1 d m = (facDecode d m).map fun out => (out.dec, out.model) := by
  rw [facCalls_cons, Option.map_eq_bind]
  congr 1

theorem facCalls_succ (n : Nat) (d : FacDec) (m : FacModel) :
    facCalls (n + 1) d m = (facCalls n d m).bind fun x =>
      (facDecode x.1 x.2).map fun out => (out.dec, out.model) := by
  rw [facCalls_add]
  congr 1
  funext x
  exact facCalls_one x.1 x.2

/-- A fit coder and model can be called any number of times. -/
theorem facCalls_spec {init : Sym → Nat} (hi : InitOk init) (n : Nat) {d : FacDec} {m : FacModel}
    (hd : d.Ok) (hm : m.Ok init) :
    ∃ x, facCalls n d m = some x ∧ x.1.Ok ∧ x.2.Ok init := by
  induction n generalizing d m with
  | zero => exact ⟨_, rfl, hd, hm⟩
  | succ n ih =>
      obtain ⟨out, hout, hdec, hmodel, -⟩ := facDecode_spec hi hd hm
      obtain ⟨x, hx, hok⟩ := ih hdec hmodel
      exact ⟨x, by rw [facCalls, hout]; exact hx, hok⟩

/-- The array `s2` of `eagerS2`: its symbols are those of the calls in order, and it ends at the
cap or where the bytes have run out. -/
structure EagerOk (d : FacDec) (m : FacModel) (cap : Nat) (s2 : List Sym) : Prop where
  length_le : s2.length ≤ cap
  more : ∀ i (hi : i < s2.length), ∃ x out, facCalls i d m = some x ∧
    ¬ x.1.data.length < x.1.p ∧ facDecode x.1 x.2 = some out ∧ out.sym = s2[i]
  stop : s2.length < cap → ∃ x, facCalls s2.length d m = some x ∧ x.1.data.length < x.1.p

theorem eagerS2_spec {init : Sym → Nat} (hi : InitOk init) (cap : Nat) {d : FacDec} {m : FacModel}
    (hd : d.Ok) (hm : m.Ok init) : ∃ s2, eagerS2 cap d m = some s2 ∧ EagerOk d m cap s2 := by
  induction cap generalizing d m with
  | zero =>
      exact ⟨[], rfl, le_rfl, fun i hi => absurd hi (Nat.not_lt_zero i), fun h => absurd h (by simp)⟩
  | succ cap ih =>
      rw [eagerS2]
      split
      · rename_i hend
        exact ⟨[], rfl, Nat.zero_le _, fun i hi => absurd hi (Nat.not_lt_zero i),
          fun _ => ⟨_, rfl, hend⟩⟩
      · rename_i hmore
        obtain ⟨out, hout, hdec, hmodel, -⟩ := facDecode_spec hi hd hm
        obtain ⟨s2, hs2, hok⟩ := ih hdec hmodel
        have hcalls : ∀ n, facCalls (n + 1) d m = facCalls n out.dec out.model := fun n => by
          rw [facCalls, hout, Option.bind_some]
        refine ⟨out.sym :: s2, by rw [hout, Option.bind_some, hs2]; rfl, ?_, ?_, ?_⟩
        · exact Nat.succ_le_succ hok.length_le
        · intro i hi
          cases i with
          | zero => exact ⟨_, out, rfl, hmore, hout, rfl⟩
          | succ i =>
              rw [hcalls]
              exact hok.more i (Nat.lt_of_succ_lt_succ hi)
        · intro hlt
          rw [List.length_cons, hcalls]
          exact hok.stop (Nat.lt_of_succ_lt_succ hlt)

/-! ## The lazy stream against the array -/

/-- The lazy stream `z` that started from `d`, `m`, with the reader's cursor at `j`. -/
structure S2Sim (d : FacDec) (m : FacModel) (cap : Nat) (z : S2Lazy) (s2 : List Sym) (j : Nat) :
    Prop where
  hardCap : z.hardCap = cap
  curIdx : z.curIdx = (z.produced : Int) - 1
  produced_le_length : z.produced ≤ s2.length
  produced_le : z.produced ≤ j + 1
  state : facCalls z.produced d m = some (z.d, z.m)
  cur : 0 < z.produced → s2[z.produced - 1]? = some z.curVal
  save : 0 < z.produced →
    ∃ x, facCalls (z.produced - 1) d m = some x ∧ x.1.p = z.saveP ∧ x.1.range = z.saveRange
  eos : z.eos = true → z.produced = s2.length

theorem s2Init_sim (d : FacDec) (m : FacModel) (cap : Nat) (s2 : List Sym) (j : Nat) :
    S2Sim d m cap (s2Init d m cap) s2 j where
  hardCap := rfl
  curIdx := rfl
  produced_le_length := Nat.zero_le _
  produced_le := Nat.zero_le _
  state := rfl
  cur h := absurd h (Nat.lt_irrefl 0)
  save h := absurd h (Nat.lt_irrefl 0)
  eos h := absurd h (by simp [s2Init])

/-- Pulling up to index `i` stops there or at the end of the array. -/
theorem s2Pull_sim {d : FacDec} {m : FacModel} {cap : Nat} {s2 : List Sym}
    (he : EagerOk d m cap s2) (n : Nat) {z : S2Lazy} {i : Nat} (h : S2Sim d m cap z s2 i)
    (hn : z.produced + n = i + 1) :
    ∃ z', s2Pull n z = some z' ∧ S2Sim d m cap z' s2 i ∧
      (z'.produced = i + 1 ∨ z'.produced = s2.length) := by
  induction n generalizing z with
  | zero => exact ⟨z, rfl, h, Or.inl hn⟩
  | succ n ih =>
      rw [s2Pull]
      by_cases heos : z.eos = true
      · exact ⟨z, by rw [if_pos heos], h, Or.inr (h.eos heos)⟩
      · rw [if_neg heos]
        by_cases hend : z.produced = s2.length
        · have hstop : z.d.data.length < z.d.p ∨ z.hardCap ≤ z.produced := by
            by_cases hcap : s2.length < cap
            · obtain ⟨x, hx, hlt⟩ := he.stop hcap
              rw [← hend, h.state] at hx
              cases hx
              exact Or.inl hlt
            · rw [h.hardCap]
              omega
          rw [if_pos hstop]
          exact ⟨_, rfl, { h with eos := fun _ => hend }, Or.inr hend⟩
        · have hlt : z.produced < s2.length := lt_of_le_of_ne h.produced_le_length hend
          obtain ⟨x, out, hx, hmore, hout, hsym⟩ := he.more z.produced hlt
          rw [h.state] at hx
          cases hx
          have hcap : ¬ z.hardCap ≤ z.produced := by
            rw [h.hardCap]
            have := he.length_le
            omega
          rw [if_neg (not_or.mpr ⟨hmore, hcap⟩), hout, Option.bind_some]
          refine ih ?_ (by simp only [S2Lazy.push]; omega)
          exact
            { hardCap := h.hardCap
              curIdx := by
                have := h.curIdx
                simp only [S2Lazy.push]
                omega
              produced_le_length := hlt
              produced_le := by simp only [S2Lazy.push]; omega
              state := by
                simp only [S2Lazy.push]
                rw [facCalls_succ, h.state, Option.bind_some, hout]
                rfl
              cur := fun _ => by
                simp only [S2Lazy.push, Nat.add_sub_cancel]
                rw [List.getElem?_eq_getElem hlt, hsym]
              save := fun _ => ⟨_, h.state, rfl, rfl⟩
              eos := fun he' => absurd he' heos }

/-- The lazy reader and the array reader agree. -/
theorem s2_readerSim {d : FacDec} {m : FacModel} {cap : Nat} {s2 : List Sym}
    (he : EagerOk d m cap s2) :
    ReaderSim s2At arrayAt fun z arr j => arr = s2 ∧ S2Sim d m cap z s2 j where
  mono := fun ⟨hb, h⟩ hij => ⟨hb, { h with produced_le := by have := h.produced_le; omega }⟩
  read := by
    rintro z arr j ⟨rfl, h⟩
    have hidx := h.curIdx
    have hle := h.produced_le
    have hn : ((j : Int) - z.curIdx).toNat = j + 1 - z.produced := by omega
    obtain ⟨z', hz', hsim, hstop⟩ := s2Pull_sim he (j + 1 - z.produced) h (by omega)
    have hidx' := hsim.curIdx
    have hlen := hsim.produced_le_length
    refine ⟨_, z', arr, by rw [s2At, hn, hz', Option.map_some], ?_, rfl, hsim⟩
    have hle' := hsim.produced_le
    rw [arrayAt]
    by_cases hj : (j : Int) = z'.curIdx
    · have hcur := hsim.cur (by omega)
      rw [show z'.produced - 1 = j by omega] at hcur
      rw [if_pos hj, hcur]
    · have hend : arr.length ≤ j := by
        rcases hstop with hs | hs <;> omega
      rw [if_neg hj, List.getElem?_eq_none hend]

/-- The reported state is the one after exactly `used` symbols; one symbol at most was read ahead,
so the last branch of `s2StateAfter` is dead. -/
theorem s2StateAfter_sim {d : FacDec} {m : FacModel} {cap : Nat} {s2 : List Sym} {z : S2Lazy}
    {used : Nat} (h : S2Sim d m cap z s2 used) :
    s2StateAfter z used = (facCalls used d m).map fun x => (x.1.p, x.1.range) := by
  unfold s2StateAfter
  split
  · rename_i hu
    obtain ⟨x, hx, hp, hr⟩ := h.save (by omega)
    rw [show used = z.produced - 1 by omega, hx, Option.map_some, hp, hr]
  · split
    · rename_i hle
      have hsplit := facCalls_add z.produced (used - z.produced) d m
      rw [show z.produced + (used - z.produced) = used by omega, h.state, Option.bind_some] at hsplit
      rw [hsplit]
    · have := h.produced_le
      omega

/-! ## The channel -/

theorem decodeS1_spec {init : Sym → Nat} (hi : InitOk init) (n : Nat) {d : FacDec} {m : FacModel}
    (hd : d.Ok) (hm : m.Ok init) : ∃ s1 d', decodeS1 n d m = some (s1, d') ∧ d'.Ok := by
  induction n generalizing d m with
  | zero => exact ⟨[], d, rfl, hd⟩
  | succ n ih =>
      obtain ⟨out, hout, hdec, hmodel, -⟩ := facDecode_spec hi hd hm
      obtain ⟨s1, d', hs1, hok⟩ := ih hdec hmodel
      exact ⟨out.sym :: s1, d', by rw [decodeS1, hout, Option.bind_some, hs1]; rfl, hok⟩

theorem FacHist.model1_ok (h : FacHist) (w : Int) : (h.model1 w).Ok FAC_FQ1 :=
  facModelInit_ok initOk_FAC_FQ1 _ (by rw [h.len1]; decide) (by rw [h.len1]; decide)

theorem FacHist.model2_ok (h : FacHist) (w : Int) : (h.model2 w).Ok FAC_FQ2 :=
  facModelInit_ok initOk_FAC_FQ2 _ (by rw [h.len2]; decide) (by rw [h.len2])

/-- The two decoders of a channel side by side: the coefficients, the symbols used, the coder
after exactly that many, and how far the lazy stream ran ahead. -/
def LazyMatchesEager (ub : BitVec 32 → Nat → BitVec 32) (m : FacModel) (cap : Nat)
    (split : Int) (s1 : List Sym) (d : FacDec) : Prop :=
  ∃ s2 coeffs z used x,
    eagerS2 cap d m = some s2 ∧
    riceDecodeCoeffsUsed s2At ub (cap + 1) s1 (s2Init d m cap) split = some (coeffs, z, used) ∧
    riceDecodeCoeffsUsed arrayAt ub (cap + 1) s1 s2 split = some (coeffs, s2, used) ∧
    facCalls used d m = some x ∧ s2StateAfter z used = some (x.1.p, x.1.range) ∧
    ¬ (used : Int) < (z.produced : Int) - 1

theorem lazyMatchesEager {init : Sym → Nat} (hi : InitOk init) (ub : BitVec 32 → Nat → BitVec 32)
    {d : FacDec} {m : FacModel} (hd : d.Ok) (hm : m.Ok init) (cap : Nat) (split : Int)
    (s1 : List Sym) : LazyMatchesEager ub m cap split s1 d := by
  obtain ⟨s2, hs2, he⟩ := eagerS2_spec hi cap hd hm
  have hfuel : s2.length < cap + 1 := Nat.lt_succ_of_le he.length_le
  obtain ⟨coeffs, used, harr⟩ :
      ∃ cs k, riceDecodeCoeffsUsed arrayAt ub (cap + 1) s1 s2 split = some (cs, s2, k) :=
    riceDecodeCoeffsUsed_array ub (cap + 1) s1 s2 split hfuel
  have hagree : Agree _ (riceDecodeCoeffsUsed s2At ub (cap + 1) s1 (s2Init d m cap) split)
      (riceDecodeCoeffsUsed arrayAt ub (cap + 1) s1 s2 split) :=
    riceDecodeCoeffsUsed_agree (s2_readerSim he) (cap + 1) s1 split ⟨rfl, s2Init_sim d m cap s2 0⟩
  rw [harr] at hagree
  obtain ⟨x, hx, -⟩ := facCalls_spec hi used hd hm
  generalize hl : riceDecodeCoeffsUsed s2At ub (cap + 1) s1 (s2Init d m cap) split = l at hagree
  cases hagree with
  | some h =>
      refine ⟨s2, coeffs, _, used, x, hs2, hl, harr, hx, ?_, ?_⟩
      · rw [s2StateAfter_sim h.2, hx, Option.map_some]
      · have := h.2.produced_le
        omega

/-- A channel decodes, lazily and eagerly alike. -/
theorem decodeChannel_spec (ub : BitVec 32 → Nat → BitVec 32) (h : FacHist) (data : List UInt8)
    (count : Nat) (split maWin1 maWin2 : Int) :
    ∃ s1 d c, decodeS1 count (facDecInit data) (h.model1 maWin1) = some (s1, d) ∧
      LazyMatchesEager ub (h.model2 maWin2) (s2HardCap count) split s1 d ∧
      decodeChannel ub h data count split maWin1 maWin2 = some c ∧
      decodeChannelEager ub h data count split maWin1 maWin2 = some c := by
  obtain ⟨s1, d, hs1, hd⟩ :=
    decodeS1_spec initOk_FAC_FQ1 count (facDecInit_ok data) (h.model1_ok maWin1)
  have hmatch := lazyMatchesEager initOk_FAC_FQ2 ub hd (h.model2_ok maWin2) (s2HardCap count)
    split s1
  obtain ⟨s2, coeffs, z, used, x, hs2, hlazy, harr, hx, hstate, -⟩ := id hmatch
  refine ⟨s1, d, ⟨coeffs, used, x.1.p, x.1.range⟩, hs1, hmatch, ?_, ?_⟩
  · simp only [decodeChannel, hs1, Option.bind_some, hlazy, hstate, Option.map_some]
  · simp only [decodeChannelEager, hs1, Option.bind_some, hs2, harr, hx, Option.map_some]

/-- Every channel and every call of the `ex2` entry point. -/
theorem lazy_stream_eq_eager (ub : BitVec 32 → Nat → BitVec 32) (h : FacHist)
    (split maWin1 maWin2 : Int) :
    (∀ (data : List UInt8) (count : Nat),
      ∃ s1 d c, decodeS1 count (facDecInit data) (h.model1 maWin1) = some (s1, d) ∧
        LazyMatchesEager ub (h.model2 maWin2) (s2HardCap count) split s1 d ∧
        decodeChannel ub h data count split maWin1 maWin2 = some c ∧
        decodeChannelEager ub h data count split maWin1 maWin2 = some c) ∧
    ∀ (numCoeffs : Nat) (br : BitReader) (count : Int) (facCap : Nat),
      ∃ out, lhdcEntropyDecodeSpectrumEx2 ub h numCoeffs br count split maWin1 maWin2 facCap =
          some out ∧
        ex2Eager ub h numCoeffs br count split maWin1 maWin2 facCap = some out := by
  refine ⟨fun data count => decodeChannel_spec ub h data count split maWin1 maWin2, ?_⟩
  intro numCoeffs br count facCap
  obtain ⟨-, -, c, -, -, hl, he⟩ := decodeChannel_spec ub h (facFill facCap br).1
    (ex2Count count numCoeffs) split maWin1 maWin2
  exact ⟨_, by rw [lhdcEntropyDecodeSpectrumEx2, ex2With, hl]; rfl,
    by rw [ex2Eager, ex2With, he]; rfl⟩

end EspIdf.Lhdc
