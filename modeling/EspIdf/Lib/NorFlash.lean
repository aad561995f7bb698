import Mathlib.Data.List.GetD

/-!
# NOR flash images, programs over them and power cuts

* `Image` : the bytes of a flash part; `program` (clears bits only), `eraseRange` (sets all bits);
* `Op`, `applyAll` : the operations a program issues; `Op.take` : the part of one done before power is lost;
* `Cut img ops img'` : `img'` is an image a power cut can leave while `ops` run on `img`
  (`cut_append`, `cut_self`, `cut_all`); `cutAt ops n k img` : the one cut off after `k` bytes of operation `n`
  (`cut_iff_cutAt`);
* `Op.Within` : the operation stays inside a range; `cut_out` : then so do its cuts;
* `Prog` : programs with a RAM state, errors and a log of flash operations, a monad;
* `Wp C m Q` : `m` succeeds in a state with `Q` and every image a cut can leave meets `C`
  (`wp_pure`, `wp_bind`, `wp_mono`, `wp_write`, `wp_erase`, `wp_loop`);
* `Partial m Q` : if `m` succeeds, then with `Q`; `KeepsRam m` : `m` does not change the RAM;
* `Issues Q m` : every operation `m` issues meets `Q`; `Safe P m Q E` : the same from one state, with what holds after a
  success and after a failure.
-/

namespace NorFlash

/-- The bytes of a flash part, by address. -/
abbrev Image := Nat → UInt8

/-- Programming a byte can only clear bits. -/
def program (img : Image) (addr : Nat) (bytes : List UInt8) : Image := fun a =>
  if addr ≤ a ∧ a < addr + bytes.length then img a &&& bytes.getD (a - addr) 0xFF else img a

/-- Erasing sets every bit of a range. -/
def eraseRange (img : Image) (addr len : Nat) : Image := fun a =>
  if addr ≤ a ∧ a < addr + len then 0xFF else img a

/-- The `len` bytes from `addr`. -/
def readBytes (img : Image) (addr len : Nat) : List UInt8 :=
  (List.range len).map fun i => img (addr + i)

/-! ## Reading back -/

theorem program_in {img : Image} {addr : Nat} {bytes : List UInt8} {a : Nat}
    (h : addr ≤ a) (h' : a < addr + bytes.length) :
    program img addr bytes a = img a &&& bytes.getD (a - addr) 0xFF := by
  unfold program
  rw [if_pos ⟨h, h'⟩]

theorem program_out {img : Image} {addr : Nat} {bytes : List UInt8} {a : Nat}
    (h : a < addr ∨ addr + bytes.length ≤ a) : program img addr bytes a = img a := by
  unfold program
  rw [if_neg]
  omega

theorem eraseRange_in {img : Image} {addr len a : Nat} (h : addr ≤ a) (h' : a < addr + len) :
    eraseRange img addr len a = 0xFF := by
  unfold eraseRange
  rw [if_pos ⟨h, h'⟩]

theorem eraseRange_out {img : Image} {addr len a : Nat} (h : a < addr ∨ addr + len ≤ a) :
    eraseRange img addr len a = img a := by
  unfold eraseRange
  rw [if_neg]
  omega

/-- Byte by byte, the result depends on the byte there. -/
theorem program_congr {img img' : Image} {addr : Nat} {bytes : List UInt8} {a : Nat} (h : img a = img' a) :
    program img addr bytes a = program img' addr bytes a := by
  unfold program
  rw [h]

theorem eraseRange_congr {img img' : Image} {addr len a : Nat} (h : img a = img' a) :
    eraseRange img addr len a = eraseRange img' addr len a := by
  unfold eraseRange
  rw [h]

@[simp] theorem program_nil (img : Image) (addr : Nat) : program img addr [] = img := by
  funext a
  exact program_out (by simp; omega)

@[simp] theorem eraseRange_zero (img : Image) (addr : Nat) : eraseRange img addr 0 = img := by
  funext a
  exact eraseRange_out (by omega)

@[simp] theorem readBytes_length (img : Image) (addr len : Nat) : (readBytes img addr len).length = len := by
  simp [readBytes]

theorem readBytes_getD {img : Image} {addr len i : Nat} (h : i < len) (d : UInt8) :
    (readBytes img addr len).getD i d = img (addr + i) := by
  simp [readBytes, List.getD_eq_getElem?_getD, h]

theorem readBytes_congr {img img' : Image} {addr len : Nat}
    (h : ∀ a, addr ≤ a → a < addr + len → img a = img' a) :
    readBytes img addr len = readBytes img' addr len := by
  unfold readBytes
  apply List.map_congr_left
  intro i hi
  rw [List.mem_range] at hi
  exact h _ (by omega) (by omega)

theorem readBytes_eq_of_getD {img : Image} {addr : Nat} {bytes : List UInt8}
    (h : ∀ i < bytes.length, img (addr + i) = bytes.getD i 0xFF) :
    readBytes img addr bytes.length = bytes := by
  apply List.ext_getElem (by simp)
  intro i h1 h2
  have e := h i h2
  rw [List.getD_eq_getElem?_getD, List.getElem?_eq_getElem h2, Option.getD_some] at e
  simp [readBytes, e]

theorem and_allOnes (b : UInt8) : 0xFF &&& b = b := by
  apply UInt8.toBitVec_inj.mp
  rw [UInt8.toBitVec_and]
  exact BitVec.allOnes_and

/-- Programming erased bytes stores them as they are. -/
theorem readBytes_program_erased {img : Image} {addr : Nat} {bytes : List UInt8}
    (h : ∀ a, addr ≤ a → a < addr + bytes.length → img a = 0xFF) :
    readBytes (program img addr bytes) addr bytes.length = bytes := by
  apply readBytes_eq_of_getD
  intro i hi
  rw [program_in (by omega) (by omega), h _ (by omega) (by omega), and_allOnes, Nat.add_sub_cancel_left]

/-- The first `k` bytes of a write to erased bytes. -/
theorem readBytes_program_take {img : Image} {addr len : Nat} {bytes : List UInt8} (hlen : bytes.length = len)
    (h : ∀ a, addr ≤ a → a < addr + len → img a = 0xFF) (k : Nat) :
    readBytes (program img addr (bytes.take k)) addr len = bytes.take k ++ List.replicate (len - k) 0xFF := by
  have htotal : (bytes.take k ++ List.replicate (len - k) 0xFF).length = len := by
    rw [List.length_append, List.length_take, List.length_replicate]
    omega
  suffices hbytes : ∀ i < len, program img addr (bytes.take k) (addr + i) =
      (bytes.take k ++ List.replicate (len - k) 0xFF).getD i 0xFF by
    have hread := readBytes_eq_of_getD (by rw [htotal]; exact hbytes)
    rwa [htotal] at hread
  intro i hi
  have hff := h (addr + i) (by omega) (by omega)
  by_cases hk : i < (bytes.take k).length
  · rw [program_in (by omega) (by omega), hff, and_allOnes, Nat.add_sub_cancel_left, List.getD_append _ _ _ _ hk]
  · rw [program_out (by omega), hff, List.getD_append_right _ _ _ _ (by omega)]
    simp only [List.getD_eq_getElem?_getD, List.getElem?_replicate]
    split <;> rfl

/-- The first `n` bytes of an erase. -/
theorem readBytes_eraseRange (img : Image) (addr len n : Nat) : readBytes (eraseRange img addr n) addr len =
    List.replicate (min n len) 0xFF ++ (readBytes img addr len).drop n := by
  apply List.ext_getElem
  · rw [List.length_append, List.length_replicate, List.length_drop, readBytes_length, readBytes_length]
    omega
  · intro i h1 h2
    rw [readBytes_length] at h1
    by_cases hi : i < n
    · rw [List.getElem_append_left (by rw [List.length_replicate]; omega)]
      simp only [readBytes, List.getElem_map, List.getElem_range, List.getElem_replicate]
      exact eraseRange_in (by omega) (by omega)
    · rw [List.getElem_append_right (by rw [List.length_replicate]; omega), List.getElem_drop]
      simp only [readBytes, List.getElem_map, List.getElem_range, List.length_replicate]
      rw [eraseRange_out (by omega)]
      congr 2
      omega

theorem readBytes_append (img : Image) (addr m n : Nat) :
    readBytes img addr (m + n) = readBytes img addr m ++ readBytes img (addr + m) n := by
  unfold readBytes
  rw [List.range_add, List.map_append, List.map_map]
  congr 1
  apply List.map_congr_left
  intro i _
  rw [Function.comp_apply, Nat.add_assoc]

/-! ## Operations and power cuts -/

/-- An operation a program issues. -/
inductive Op
  | write (addr : Nat) (bytes : List UInt8)
  | erase (addr len : Nat)

def Op.apply : Op → Image → Image
  | .write addr bytes, img => program img addr bytes
  | .erase addr len, img => eraseRange img addr len

/-- The part of an operation done when power is lost after `k` bytes. -/
def Op.take (k : Nat) : Op → Op
  | .write addr bytes => .write addr (bytes.take k)
  | .erase addr len => .erase addr (min k len)

def applyAll : List Op → Image → Image
  | [], img => img
  | op :: ops, img => applyAll ops (op.apply img)

@[simp] theorem applyAll_append (ops ops' : List Op) (img : Image) :
    applyAll (ops ++ ops') img = applyAll ops' (applyAll ops img) := by
  induction ops generalizing img with
  | nil => rfl
  | cons op ops ih => exact ih _

/-- `Cut img ops img'`: a power cut while `ops` run on `img` can leave `img'`, the work of some of the operations
and of a prefix of the next. -/
def Cut : Image → List Op → Image → Prop
  | img, [], img' => img' = img
  | img, op :: ops, img' => (∃ k, img' = (op.take k).apply img) ∨ Cut (op.apply img) ops img'

theorem op_take_zero (op : Op) (img : Image) : (op.take 0).apply img = img := by
  cases op with
  | write addr bytes => simp [Op.take, Op.apply]
  | erase addr len => simp [Op.take, Op.apply]

theorem cut_self (img : Image) (ops : List Op) : Cut img ops img := by
  cases ops with
  | nil => rfl
  | cons op ops => exact Or.inl ⟨0, (op_take_zero op img).symm⟩

theorem cut_all (img : Image) (ops : List Op) : Cut img ops (applyAll ops img) := by
  induction ops generalizing img with
  | nil => rfl
  | cons op ops ih => exact Or.inr (ih _)

theorem cut_append {img img' : Image} {ops ops' : List Op} :
    Cut img (ops ++ ops') img' ↔ Cut img ops img' ∨ Cut (applyAll ops img) ops' img' := by
  induction ops generalizing img with
  | nil =>
      constructor
      · exact Or.inr
      · rintro (h | h)
        · rw [h]
          exact cut_self _ _
        · exact h
  | cons op ops ih =>
      simp only [List.cons_append, Cut, applyAll, ih, or_assoc]

/-- The image left by a power cut after `k` bytes of operation `n`. -/
def cutAt : List Op → Nat → Nat → Image → Image
  | [], _, _, img => img
  | op :: _, 0, k, img => (op.take k).apply img
  | op :: ops, n + 1, k, img => cutAt ops n k (op.apply img)

theorem cut_iff_cutAt {img img' : Image} {ops : List Op} : Cut img ops img' ↔ ∃ n k, img' = cutAt ops n k img := by
  induction ops generalizing img with
  | nil =>
      constructor
      · intro h
        exact ⟨0, 0, h⟩
      · rintro ⟨n, k, h⟩
        exact h
  | cons op ops ih =>
      constructor
      · rintro (⟨k, h⟩ | h)
        · exact ⟨0, k, h⟩
        · obtain ⟨n, k, h⟩ := ih.mp h
          exact ⟨n + 1, k, h⟩
      · rintro ⟨n, k, h⟩
        cases n with
        | zero => exact Or.inl ⟨k, h⟩
        | succ n => exact Or.inr (ih.mpr ⟨n, k, h⟩)

theorem cutAt_append (ops ops' : List Op) (n k : Nat) (img : Image) : cutAt (ops ++ ops') n k img =
    if n < ops.length then cutAt ops n k img else cutAt ops' (n - ops.length) k (applyAll ops img) := by
  induction ops generalizing n img with
  | nil => rfl
  | cons op ops ih =>
      cases n with
      | zero => rfl
      | succ n =>
          change cutAt (ops ++ ops') n k (op.apply img) = _
          rw [ih]
          simp only [List.length_cons, Nat.add_lt_add_iff_right, Nat.add_sub_add_right]
          rfl

/-- The operation touches nothing outside the `len` bytes from `lo`. -/
def Op.Within (lo len : Nat) : Op → Prop
  | .write addr bytes => lo ≤ addr ∧ addr + bytes.length ≤ lo + len
  | .erase addr n => lo ≤ addr ∧ addr + n ≤ lo + len

theorem Op.Within.take {lo len : Nat} {op : Op} (h : op.Within lo len) (k : Nat) : (op.take k).Within lo len := by
  cases op with
  | write addr bytes =>
      refine ⟨h.1, ?_⟩
      have h2 := h.2
      rw [List.length_take]
      omega
  | erase addr n =>
      refine ⟨h.1, ?_⟩
      have h2 := h.2
      omega

theorem Op.Within.out {lo len : Nat} {op : Op} (h : op.Within lo len) {a : Nat} (ha : a < lo ∨ lo + len ≤ a)
    (img : Image) : op.apply img a = img a := by
  cases op with
  | write addr bytes =>
      obtain ⟨h1, h2⟩ := h
      exact program_out (by omega)
  | erase addr n =>
      obtain ⟨h1, h2⟩ := h
      exact eraseRange_out (by omega)

theorem cut_out {lo len : Nat} {ops : List Op} (h : ∀ op ∈ ops, op.Within lo len) {img img' : Image}
    (hc : Cut img ops img') {a : Nat} (ha : a < lo ∨ lo + len ≤ a) : img' a = img a := by
  induction ops generalizing img with
  | nil => rw [show img' = img from hc]
  | cons op ops ih =>
      rcases hc with ⟨k, rfl⟩ | hc
      · exact ((h op List.mem_cons_self).take k).out ha img
      · rw [ih (fun op' hop => h op' (List.mem_cons_of_mem _ hop)) hc]
        exact (h op List.mem_cons_self).out ha img

/-! ## Programs -/

/-- What a run did: its result or error, the RAM it leaves and the operations it issued, oldest first. -/
structure Outcome (ρ ε α : Type) where
  result : Except ε α
  ram : ρ
  ops : List Op

/-- A program with RAM state `ρ` and error codes `ε` over a flash part. -/
def Prog (ρ ε α : Type) := ρ → Image → Outcome ρ ε α

variable {ρ ε α β : Type}

namespace Prog

/-- The flash after a run. -/
def flash (m : Prog ρ ε α) (r : ρ) (img : Image) : Image := applyAll (m r img).ops img

/-- Run `m`, and `f` on its result unless it failed. -/
def andThen (m : Prog ρ ε α) (f : α → Prog ρ ε β) : Prog ρ ε β := fun r img =>
  match m r img with
  | ⟨.ok a, r', ops⟩ =>
    match f a r' (applyAll ops img) with
    | ⟨result, r'', ops'⟩ => ⟨result, r'', ops ++ ops'⟩
  | ⟨.error e, r', ops⟩ => ⟨.error e, r', ops⟩

instance : Monad (Prog ρ ε) where
  pure a := fun r _ => ⟨.ok a, r, []⟩
  bind := andThen

/-- Stop with an error code. -/
def fail (e : ε) : Prog ρ ε α := fun r _ => ⟨.error e, r, []⟩

/-- Run `h` on the error code if `m` fails, and fail with the code all the same. -/
def onError (m : Prog ρ ε α) (h : Prog ρ ε Unit) : Prog ρ ε α := fun r img =>
  match m r img with
  | ⟨.ok a, r', ops⟩ => ⟨.ok a, r', ops⟩
  | ⟨.error e, r', ops⟩ =>
    match h r' (applyAll ops img) with
    | ⟨_, r'', ops'⟩ => ⟨.error e, r'', ops ++ ops'⟩

/-- Run `m`, and fail with `e` if it fails. -/
def orFail (m : Prog ρ ε α) (e : ε) : Prog ρ ε α := fun r img =>
  match m r img with
  | ⟨.ok a, r', ops⟩ => ⟨.ok a, r', ops⟩
  | ⟨.error _, r', ops⟩ => ⟨.error e, r', ops⟩

/-- Run `m` and ignore its error code. -/
def attempt (m : Prog ρ ε Unit) : Prog ρ ε Unit := fun r img => ⟨.ok (), (m r img).ram, (m r img).ops⟩

def getRam : Prog ρ ε ρ := fun r _ => ⟨.ok r, r, []⟩

def modifyRam (f : ρ → ρ) : Prog ρ ε Unit := fun r _ => ⟨.ok (), f r, []⟩

def readFlash (addr len : Nat) : Prog ρ ε (List UInt8) := fun r img => ⟨.ok (readBytes img addr len), r, []⟩

def issue (op : Op) : Prog ρ ε Unit := fun r _ => ⟨.ok (), r, [op]⟩

/-- `for (i = 0; i < n; i++) body(i)`, run from `i`. -/
def loopFrom (body : Nat → Prog ρ ε Unit) (i : Nat) : Nat → Prog ρ ε Unit
  | 0 => pure ()
  | n + 1 => body i >>= fun _ => loopFrom body (i + 1) n

def loop (n : Nat) (body : Nat → Prog ρ ε Unit) : Prog ρ ε Unit := loopFrom body 0 n

end Prog

/-- A step that issues no operation hands its result on. -/
theorem bind_quiet {m : Prog ρ ε α} {f : α → Prog ρ ε β} {a : α} {r r' : ρ} {img : Image}
    (h : m r img = ⟨.ok a, r', []⟩) : (m >>= f) r img = f a r' img := by
  change Prog.andThen m f r img = _
  unfold Prog.andThen
  rw [h]
  rfl

/-- What a program does after a step whose run is known. -/
theorem bind_run {m : Prog ρ ε α} {f : α → Prog ρ ε β} {a : α} {r r' : ρ} {img : Image} {ops : List Op}
    {o : Outcome ρ ε β} (h : m r img = ⟨.ok a, r', ops⟩) (h' : f a r' (applyAll ops img) = o) :
    (m >>= f) r img = ⟨o.result, o.ram, ops ++ o.ops⟩ := by
  change Prog.andThen m f r img = _
  unfold Prog.andThen
  rw [h]
  dsimp only
  rw [h']

/-- A step that fails ends the program. -/
theorem bind_error {m : Prog ρ ε α} {f : α → Prog ρ ε β} {e : ε} {r r' : ρ} {img : Image} {ops : List Op}
    (h : m r img = ⟨.error e, r', ops⟩) : (m >>= f) r img = ⟨.error e, r', ops⟩ := by
  change Prog.andThen m f r img = _
  unfold Prog.andThen
  rw [h]

/-- A loop whose body only changes the RAM. -/
theorem loopFrom_quiet {body : Nat → Prog ρ ε Unit} {img : Image} (Inv : Nat → ρ → Prop) {N : Nat}
    (hstep : ∀ i r, i < N → Inv i r → ∃ r', body i r img = ⟨.ok (), r', []⟩ ∧ Inv (i + 1) r') {i n : Nat}
    (hN : i + n = N) {r : ρ} (h : Inv i r) :
    ∃ r', Prog.loopFrom body i n r img = ⟨.ok (), r', []⟩ ∧ Inv N r' := by
  induction n generalizing i r with
  | zero =>
      obtain rfl : i = N := hN
      exact ⟨r, rfl, h⟩
  | succ n ih =>
      obtain ⟨r', hrun, h'⟩ := hstep i r (by omega) h
      obtain ⟨r'', hrest, h''⟩ := ih (by omega) h'
      refine ⟨r'', ?_, h''⟩
      unfold Prog.loopFrom
      rw [bind_quiet hrun]
      exact hrest

/-- A loop whose body issues operations that do not depend on the flash. -/
theorem loopFrom_ops {body : Nat → Prog ρ ε Unit} {r : ρ} (ops : Nat → List Op)
    (hstep : ∀ i img, body i r img = ⟨.ok (), r, ops i⟩) (i n : Nat) (img : Image) :
    Prog.loopFrom body i n r img = ⟨.ok (), r, (List.range' i n).flatMap ops⟩ := by
  induction n generalizing i img with
  | zero => rfl
  | succ n ih =>
      unfold Prog.loopFrom
      rw [bind_run (hstep i img) (ih (i + 1) _), List.range'_succ, List.flatMap_cons]

/-! ## Crash weakest preconditions -/

/-- From `r` and `img` the program succeeds with `Q`, and every image a power cut can leave meets `C`. -/
def Wp (C : Image → Prop) (m : Prog ρ ε α) (Q : α → ρ → Image → Prop) (r : ρ) (img : Image) : Prop :=
  (∃ a, (m r img).result = .ok a ∧ Q a (m r img).ram (m.flash r img)) ∧
    ∀ img', Cut img (m r img).ops img' → C img'

section Rules

variable {C : Image → Prop} {r : ρ} {img : Image}

theorem wp_pure {a : α} {Q : α → ρ → Image → Prop} (hC : C img) (h : Q a r img) :
    Wp C (pure a : Prog ρ ε α) Q r img :=
  ⟨⟨a, rfl, h⟩, fun _ hc => hc ▸ hC⟩

theorem wp_bind {m : Prog ρ ε α} {f : α → Prog ρ ε β} {Q : β → ρ → Image → Prop}
    (h : Wp C m (fun a r' img' => Wp C (f a) Q r' img') r img) : Wp C (m >>= f) Q r img := by
  obtain ⟨⟨a, hres, ⟨b, hb, hQ⟩, hcut⟩, hcut'⟩ := h
  have e : (m >>= f) r img = ⟨(f a (m r img).ram (m.flash r img)).result,
      (f a (m r img).ram (m.flash r img)).ram,
      (m r img).ops ++ (f a (m r img).ram (m.flash r img)).ops⟩ := by
    change Prog.andThen m f r img = _
    unfold Prog.andThen Prog.flash
    generalize m r img = o at hres ⊢
    cases o
    cases hres
    rfl
  refine ⟨⟨b, by rw [e, hb], ?_⟩, ?_⟩
  · unfold Prog.flash
    rw [e, applyAll_append]
    exact hQ
  · intro img' hc
    rw [e] at hc
    rcases cut_append.mp hc with hc | hc
    · exact hcut' img' hc
    · exact hcut img' hc

/-- Programs that run alike on a state have the same preconditions there. -/
theorem wp_of_eq {m m' : Prog ρ ε α} {Q : α → ρ → Image → Prop} (e : m r img = m' r img) (h : Wp C m' Q r img) :
    Wp C m Q r img := by
  unfold Wp Prog.flash at *
  rwa [e]

theorem wp_mono {m : Prog ρ ε α} {Q Q' : α → ρ → Image → Prop} (h : Wp C m Q r img)
    (hQ : ∀ a r' img', Q a r' img' → Q' a r' img') : Wp C m Q' r img := by
  obtain ⟨⟨a, hres, ha⟩, hcut⟩ := h
  exact ⟨⟨a, hres, hQ _ _ _ ha⟩, hcut⟩

theorem wp_crash_mono {m : Prog ρ ε α} {C' : Image → Prop} {Q : α → ρ → Image → Prop} (h : Wp C m Q r img)
    (hC : ∀ img', C img' → C' img') : Wp C' m Q r img :=
  ⟨h.1, fun img' hc => hC _ (h.2 img' hc)⟩

/-- A program whose cuts meet `C` leaves an image that meets `C`. -/
theorem wp_crash_final {m : Prog ρ ε α} {Q : α → ρ → Image → Prop} (h : Wp C m Q r img) :
    Wp C m (fun a r' img' => C img' ∧ Q a r' img') r img := by
  obtain ⟨⟨a, hres, ha⟩, hcut⟩ := h
  exact ⟨⟨a, hres, hcut _ (cut_all _ _), ha⟩, hcut⟩

theorem wp_getRam {Q : ρ → ρ → Image → Prop} (hC : C img) (h : Q r r img) :
    Wp C (Prog.getRam : Prog ρ ε ρ) Q r img :=
  ⟨⟨r, rfl, h⟩, fun _ hc => hc ▸ hC⟩

theorem wp_modifyRam {f : ρ → ρ} {Q : Unit → ρ → Image → Prop} (hC : C img) (h : Q () (f r) img) :
    Wp C (Prog.modifyRam f : Prog ρ ε Unit) Q r img :=
  ⟨⟨(), rfl, h⟩, fun _ hc => hc ▸ hC⟩

theorem wp_readFlash {addr len : Nat} {Q : List UInt8 → ρ → Image → Prop} (hC : C img)
    (h : Q (readBytes img addr len) r img) : Wp C (Prog.readFlash addr len : Prog ρ ε _) Q r img :=
  ⟨⟨_, rfl, h⟩, fun _ hc => hc ▸ hC⟩

theorem wp_issue {op : Op} {Q : Unit → ρ → Image → Prop} (hC : ∀ k, C ((op.take k).apply img))
    (h : C (op.apply img) ∧ Q () r (op.apply img)) : Wp C (Prog.issue op : Prog ρ ε Unit) Q r img := by
  refine ⟨⟨(), rfl, h.2⟩, ?_⟩
  rintro img' (⟨k, rfl⟩ | hc)
  · exact hC k
  · rw [show img' = op.apply img from hc]
    exact h.1

theorem wp_onError {m : Prog ρ ε α} {h : Prog ρ ε Unit} {Q : α → ρ → Image → Prop} (hm : Wp C m Q r img) :
    Wp C (m.onError h) Q r img := by
  obtain ⟨⟨a, hres, ha⟩, hcut⟩ := hm
  have e : (m.onError h) r img = ⟨.ok a, (m r img).ram, (m r img).ops⟩ := by
    unfold Prog.onError
    generalize m r img = o at hres ⊢
    cases o
    cases hres
    rfl
  unfold Wp Prog.flash
  rw [e]
  exact ⟨⟨a, rfl, ha⟩, hcut⟩

theorem wp_attempt {m : Prog ρ ε Unit} {Q : Unit → ρ → Image → Prop} (hm : Wp C m Q r img) :
    Wp C m.attempt Q r img := by
  obtain ⟨⟨a, _, ha⟩, hcut⟩ := hm
  exact ⟨⟨(), rfl, ha⟩, hcut⟩

/-- The loop rule: `Inv i` holds when the body is run for `i`. -/
theorem wp_loopFrom {body : Nat → Prog ρ ε Unit} (Inv : Nat → ρ → Image → Prop) {N : Nat}
    (hstep : ∀ i r img, i < N → Inv i r img → Wp C (body i) (fun _ => Inv (i + 1)) r img)
    (hC : ∀ r img, Inv N r img → C img) {i n : Nat} (hN : i + n = N) (h : Inv i r img) :
    Wp C (Prog.loopFrom body i n) (fun _ => Inv N) r img := by
  induction n generalizing i r img with
  | zero =>
      obtain rfl : i = N := hN
      exact wp_pure (hC _ _ h) h
  | succ n ih =>
      unfold Prog.loopFrom
      apply wp_bind
      apply wp_mono (hstep i r img (by omega) h)
      intro _ r' img' h'
      exact ih (by omega) h'

theorem wp_loop {body : Nat → Prog ρ ε Unit} (Inv : Nat → ρ → Image → Prop) {N : Nat}
    (hstep : ∀ i r img, i < N → Inv i r img → Wp C (body i) (fun _ => Inv (i + 1)) r img)
    (hC : ∀ r img, Inv N r img → C img) (h : Inv 0 r img) :
    Wp C (Prog.loop N body) (fun _ => Inv N) r img :=
  wp_loopFrom Inv hstep hC (Nat.zero_add N) h

end Rules

/-! ## Partial correctness -/

/-- If the program succeeds from `r` and `img`, it does so with `Q`. -/
def Partial (m : Prog ρ ε α) (Q : α → ρ → Image → Prop) (r : ρ) (img : Image) : Prop :=
  ∀ a, (m r img).result = .ok a → Q a (m r img).ram (m.flash r img)

/-- The program leaves the RAM as it is, even when it fails. -/
def KeepsRam (m : Prog ρ ε α) : Prop := ∀ r img, (m r img).ram = r

section Rules

variable {r : ρ} {img : Image}

theorem partial_pure {a : α} {Q : α → ρ → Image → Prop} (h : Q a r img) :
    Partial (pure a : Prog ρ ε α) Q r img := by
  intro b hb
  cases hb
  exact h

theorem partial_fail {e : ε} {Q : α → ρ → Image → Prop} : Partial (Prog.fail e) Q r img :=
  fun _ h => nomatch h

theorem partial_bind {m : Prog ρ ε α} {f : α → Prog ρ ε β} {Q : β → ρ → Image → Prop}
    (h : Partial m (fun a r' img' => Partial (f a) Q r' img') r img) : Partial (m >>= f) Q r img := by
  intro b hb
  change (Prog.andThen m f r img).result = _ at hb
  change Q b (Prog.andThen m f r img).ram (applyAll (Prog.andThen m f r img).ops img)
  unfold Partial Prog.flash at h
  unfold Prog.andThen at hb ⊢
  generalize m r img = o at h hb ⊢
  obtain ⟨res, r', ops⟩ := o
  cases res with
  | error e => exact nomatch hb
  | ok a =>
      have hQ := h a rfl b hb
      rw [applyAll_append]
      exact hQ

theorem partial_mono {m : Prog ρ ε α} {Q Q' : α → ρ → Image → Prop} (h : Partial m Q r img)
    (hQ : ∀ a r' img', Q a r' img' → Q' a r' img') : Partial m Q' r img :=
  fun a ha => hQ _ _ _ (h a ha)

theorem partial_getRam {Q : ρ → ρ → Image → Prop} (h : Q r r img) :
    Partial (Prog.getRam : Prog ρ ε ρ) Q r img := by
  intro a ha
  cases ha
  exact h

theorem partial_readFlash {addr len : Nat} {Q : List UInt8 → ρ → Image → Prop}
    (h : Q (readBytes img addr len) r img) : Partial (Prog.readFlash addr len : Prog ρ ε _) Q r img := by
  intro a ha
  cases ha
  exact h

theorem keepsRam_bind {m : Prog ρ ε α} {f : α → Prog ρ ε β} (hm : KeepsRam m) (hf : ∀ a, KeepsRam (f a)) :
    KeepsRam (m >>= f) := by
  intro r img
  change (Prog.andThen m f r img).ram = r
  have h := hm r img
  unfold Prog.andThen
  generalize m r img = o at h ⊢
  obtain ⟨res, r', ops⟩ := o
  obtain rfl : r' = r := h
  cases res with
  | error e => rfl
  | ok a => exact hf a r' (applyAll ops img)

theorem keepsRam_loopFrom {body : Nat → Prog ρ ε Unit} (h : ∀ i, KeepsRam (body i)) (i n : Nat) :
    KeepsRam (Prog.loopFrom body i n) := by
  induction n generalizing i with
  | zero => exact fun _ _ => rfl
  | succ n ih => exact keepsRam_bind (h i) fun _ => ih (i + 1)

end Rules

/-! ## The operations issued -/

/-- Where an operation starts. -/
def Op.addr : Op → Nat
  | .write addr _ => addr
  | .erase addr _ => addr

/-- Every operation the program issues meets `P`, also when it fails. -/
def Prog.Issues (P : Op → Prop) (m : Prog ρ ε α) : Prop := ∀ r img, ∀ op ∈ (m r img).ops, P op

section Rules

variable {P : Op → Prop}

theorem issues_pure {a : α} : (pure a : Prog ρ ε α).Issues P := fun _ _ _ h => absurd h List.not_mem_nil

theorem issues_fail {e : ε} : (Prog.fail e : Prog ρ ε α).Issues P := fun _ _ _ h => absurd h List.not_mem_nil

theorem issues_getRam : (Prog.getRam : Prog ρ ε ρ).Issues P := fun _ _ _ h => absurd h List.not_mem_nil

theorem issues_modifyRam {f : ρ → ρ} : (Prog.modifyRam f : Prog ρ ε Unit).Issues P :=
  fun _ _ _ h => absurd h List.not_mem_nil

theorem issues_readFlash {addr len : Nat} : (Prog.readFlash addr len : Prog ρ ε _).Issues P :=
  fun _ _ _ h => absurd h List.not_mem_nil

theorem issues_issue {op : Op} (h : P op) : (Prog.issue op : Prog ρ ε Unit).Issues P :=
  fun _ _ _ hop => List.mem_singleton.mp hop ▸ h

theorem issues_ite {c : Prop} [Decidable c] {m m' : Prog ρ ε α} (h : m.Issues P) (h' : m'.Issues P) :
    (if c then m else m').Issues P := by
  split
  · exact h
  · exact h'

theorem issues_bind {m : Prog ρ ε α} {f : α → Prog ρ ε β} (hm : m.Issues P) (hf : ∀ a, (f a).Issues P) :
    (m >>= f).Issues P := by
  intro r img op hop
  change op ∈ (Prog.andThen m f r img).ops at hop
  have h := hm r img
  unfold Prog.andThen at hop
  generalize m r img = o at h hop
  obtain ⟨res, r', ops⟩ := o
  cases res with
  | error e => exact h op hop
  | ok a =>
      rcases List.mem_append.mp hop with hop | hop
      · exact h op hop
      · exact hf a r' _ op hop

theorem issues_loopFrom {body : Nat → Prog ρ ε Unit} (h : ∀ i, (body i).Issues P) (i n : Nat) :
    (Prog.loopFrom body i n).Issues P := by
  induction n generalizing i with
  | zero => exact issues_pure
  | succ n ih => exact issues_bind (h i) fun _ => ih (i + 1)

theorem issues_loop {n : Nat} {body : Nat → Prog ρ ε Unit} (h : ∀ i, (body i).Issues P) :
    (Prog.loop n body).Issues P :=
  issues_loopFrom h 0 n

end Rules

/-! ## Operations and both ends of a run -/

/-- From `r` and `img` every operation issued meets `P`, a success ends with `Q` and a failure with `E`. -/
def Safe (P : Op → Prop) (m : Prog ρ ε α) (Q : α → ρ → Image → Prop) (E : ρ → Image → Prop) (r : ρ) (img : Image) : Prop :=
  (∀ op ∈ (m r img).ops, P op) ∧ (∀ a, (m r img).result = .ok a → Q a (m r img).ram (m.flash r img)) ∧
    ∀ e, (m r img).result = .error e → E (m r img).ram (m.flash r img)

section Rules

variable {P : Op → Prop} {E : ρ → Image → Prop} {r : ρ} {img : Image}

theorem safe_pure {a : α} {Q : α → ρ → Image → Prop} (h : Q a r img) : Safe P (pure a : Prog ρ ε α) Q E r img := by
  refine ⟨fun _ hop => absurd hop List.not_mem_nil, fun b hb => ?_, fun e he => (nomatch he)⟩
  cases hb
  exact h

theorem safe_fail {e : ε} {Q : α → ρ → Image → Prop} (h : E r img) : Safe P (Prog.fail e) Q E r img :=
  ⟨fun _ hop => absurd hop List.not_mem_nil, fun _ hb => (nomatch hb), fun _ _ => h⟩

theorem safe_getRam {Q : ρ → ρ → Image → Prop} (h : Q r r img) : Safe P (Prog.getRam : Prog ρ ε ρ) Q E r img := by
  refine ⟨fun _ hop => absurd hop List.not_mem_nil, fun b hb => ?_, fun e he => (nomatch he)⟩
  cases hb
  exact h

theorem safe_modifyRam {f : ρ → ρ} {Q : Unit → ρ → Image → Prop} (h : Q () (f r) img) :
    Safe P (Prog.modifyRam f : Prog ρ ε Unit) Q E r img :=
  ⟨fun _ hop => absurd hop List.not_mem_nil, fun _ _ => h, fun _ he => (nomatch he)⟩

theorem safe_readFlash {addr len : Nat} {Q : List UInt8 → ρ → Image → Prop} (h : Q (readBytes img addr len) r img) :
    Safe P (Prog.readFlash addr len : Prog ρ ε _) Q E r img := by
  refine ⟨fun _ hop => absurd hop List.not_mem_nil, fun b hb => ?_, fun e he => (nomatch he)⟩
  cases hb
  exact h

theorem safe_issue {op : Op} {Q : Unit → ρ → Image → Prop} (hop : P op) (h : Q () r (op.apply img)) :
    Safe P (Prog.issue op : Prog ρ ε Unit) Q E r img :=
  ⟨fun _ hmem => List.mem_singleton.mp hmem ▸ hop, fun _ _ => h, fun _ he => (nomatch he)⟩

theorem safe_bind {m : Prog ρ ε α} {f : α → Prog ρ ε β} {Q : β → ρ → Image → Prop}
    (h : Safe P m (fun a r' img' => Safe P (f a) Q E r' img') E r img) : Safe P (m >>= f) Q E r img := by
  change Safe P (Prog.andThen m f) Q E r img
  unfold Safe Prog.flash Prog.andThen at *
  generalize m r img = o at h ⊢
  obtain ⟨res, r', ops⟩ := o
  obtain ⟨hops, hok, herror⟩ := h
  cases res with
  | error e => exact ⟨hops, fun _ hb => (nomatch hb), fun e' _ => herror e rfl⟩
  | ok a =>
      obtain ⟨hops', hok', herror'⟩ := hok a rfl
      refine ⟨fun op hop => ?_, fun b hb => ?_, fun e he => ?_⟩
      · exact (List.mem_append.mp hop).elim (hops op) (hops' op)
      · rw [applyAll_append]
        exact hok' b hb
      · rw [applyAll_append]
        exact herror' e he

theorem safe_mono {m : Prog ρ ε α} {P' : Op → Prop} {Q Q' : α → ρ → Image → Prop} {E' : ρ → Image → Prop}
    (h : Safe P m Q E r img) (hP : ∀ op, P op → P' op) (hQ : ∀ a r' img', Q a r' img' → Q' a r' img')
    (hE : ∀ r' img', E r' img' → E' r' img') : Safe P' m Q' E' r img :=
  ⟨fun op hop => hP op (h.1 op hop), fun a ha => hQ _ _ _ (h.2.1 a ha), fun e he => hE _ _ (h.2.2 e he)⟩

theorem safe_post {m : Prog ρ ε α} {Q Q' : α → ρ → Image → Prop} (h : Safe P m Q E r img)
    (hQ : ∀ a r' img', Q a r' img' → Q' a r' img') : Safe P m Q' E r img :=
  safe_mono h (fun _ hop => hop) hQ fun _ _ he => he

/-- Programs that run alike on a state are safe alike there. -/
theorem safe_of_eq {m m' : Prog ρ ε α} {Q : α → ρ → Image → Prop} (e : m r img = m' r img) (h : Safe P m' Q E r img) :
    Safe P m Q E r img := by
  unfold Safe Prog.flash at *
  rwa [e]

theorem safe_attempt {m : Prog ρ ε Unit} {Q : Unit → ρ → Image → Prop} (h : Safe P m Q (Q ()) r img) :
    Safe P m.attempt Q E r img := by
  refine ⟨h.1, fun _ _ => ?_, fun e he => (nomatch he)⟩
  cases hres : (m r img).result with
  | ok a => exact h.2.1 a hres
  | error e => exact h.2.2 e hres

theorem safe_onError {m : Prog ρ ε α} {h : Prog ρ ε Unit} {Q : α → ρ → Image → Prop}
    (hm : Safe P m Q (fun r' img' => Safe P h (fun _ => E) E r' img') r img) : Safe P (m.onError h) Q E r img := by
  unfold Safe Prog.flash Prog.onError at *
  generalize m r img = o at hm ⊢
  obtain ⟨res, r', ops⟩ := o
  obtain ⟨hops, hok, herror⟩ := hm
  cases res with
  | ok a => exact ⟨hops, fun b hb => hok b hb, fun _ he => (nomatch he)⟩
  | error e =>
      obtain ⟨hops', hok', herror'⟩ := herror e rfl
      refine ⟨fun op hop => (List.mem_append.mp hop).elim (hops op) (hops' op), fun _ hb => (nomatch hb), fun _ _ => ?_⟩
      rw [applyAll_append]
      dsimp only
      cases hres : (h r' (applyAll ops img)).result with
      | ok b => exact hok' b hres
      | error e' => exact herror' e' hres

theorem safe_loopFrom {body : Nat → Prog ρ ε Unit} (Inv : Nat → ρ → Image → Prop) {N : Nat}
    (hstep : ∀ i r img, i < N → Inv i r img → Safe P (body i) (fun _ => Inv (i + 1)) E r img)
    {i n : Nat} (hN : i + n = N) (h : Inv i r img) : Safe P (Prog.loopFrom body i n) (fun _ => Inv N) E r img := by
  induction n generalizing i r img with
  | zero =>
      obtain rfl : i = N := hN
      exact safe_pure h
  | succ n ih =>
      unfold Prog.loopFrom
      apply safe_bind
      refine safe_post (hstep i r img (by omega) h) ?_
      intro _ r' img' h'
      exact ih (by omega) h'

theorem safe_loop {body : Nat → Prog ρ ε Unit} (Inv : Nat → ρ → Image → Prop) {N : Nat}
    (hstep : ∀ i r img, i < N → Inv i r img → Safe P (body i) (fun _ => Inv (i + 1)) E r img)
    (h : Inv 0 r img) : Safe P (Prog.loop N body) (fun _ => Inv N) E r img :=
  safe_loopFrom Inv hstep (Nat.zero_add N) h

end Rules

end NorFlash
