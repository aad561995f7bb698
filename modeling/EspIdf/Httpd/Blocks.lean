import EspIdf.Httpd.HttpParser

/-!
# Blocks in a row are one block

* `Lawful` : callbacks that cannot tell one piece of a token from two, and that do not look past
  the byte they are called at;
* `run_ext`, `run_unext` : more bytes in the buffer do not change what the earlier ones did;
* `finish_joined` : a token handed over so far and a token still open end in the same state;
* `execute_append` : two blocks in a row are one block;
* `execute_prefix` : a block that is not stopped is not stopped within.
-/

namespace EspIdf.Httpd

variable {σ : Type}

/-- What the callbacks promise: `ext` puts further bytes behind those in the buffer, `len` counts
them. -/
structure Lawful (cb : Callbacks σ) (ext : σ → Bytes → σ) (len : σ → Nat) : Prop where
  /-- two pieces of a token are one -/
  coalesce {t : Token} {P Q : HttpParser} {m a b : Nat} {d : σ} : 0 < a → cb.stopped (cb.onData t P m a d) = false →
    cb.onData t Q (m + a) b (cb.onData t P m a d) = cb.onData t Q m (a + b) d
  /-- a piece of a token that goes through goes through -/
  le {t : Token} {P P' : HttpParser} {m a b : Nat} {d : σ} : 0 < a →
    cb.stopped (cb.onData t P' m (a + b) d) = false → cb.stopped (cb.onData t P m a d) = false
  data_ext {t : Token} {P : HttpParser} {m a : Nat} {d : σ} {ys : Bytes} : m + a ≤ len d →
    cb.stopped (cb.onData t P m a d) = false → cb.onData t P m a (ext d ys) = ext (cb.onData t P m a d) ys
  data_stopped {t : Token} {P : HttpParser} {m a : Nat} {d : σ} {ys : Bytes} : m + a ≤ len d →
    cb.stopped (cb.onData t P m a (ext d ys)) = false → cb.stopped (cb.onData t P m a d) = false
  data_len {t : Token} {P : HttpParser} {m a : Nat} {d : σ} :
    cb.stopped (cb.onData t P m a d) = false → len (cb.onData t P m a d) = len d
  /-- the parser always stops at the body and at the end of the message -/
  body_stops {p : Nat} {d : σ} : cb.stopped (cb.onBody p d) = true
  message_stops {P : HttpParser} {d : σ} : cb.stopped (cb.onMessageComplete P d) = true
  stopped_ext {d : σ} {ys : Bytes} : cb.stopped (ext d ys) = cb.stopped d

variable {cb : Callbacks σ} {ext : σ → Bytes → σ} {len : σ → Nat}

/-! ## Runs -/

theorem run_cons {P : HttpParser} {d : σ} {m p : Nat} {ch : UInt8} {bs : Bytes} {P' : HttpParser} {es : List Event}
    (h : P.next ch = some (P', es)) :
    run cb P d m p (ch :: bs) =
      match fireAll cb P' p (ch :: bs) es (d, m) with
      | .ok (d', m') => run cb P' d' m' (p + 1) bs
      | .error (d', n) => .stop P' d' n := by
  rw [run]
  split
  · rename_i hnone
    rw [h] at hnone
    cases hnone
  · rename_i P1 es1 hnext
    rw [h] at hnext
    cases hnext
    rfl

/-- A run that got through a byte. -/
theorem run_cons_more {P P1 : HttpParser} {d d1 : σ} {m m1 p : Nat} {ch : UInt8} {bs : Bytes}
    (h : run cb P d m p (ch :: bs) = .more P1 d1 m1) :
    ∃ P' es d' m', P.next ch = some (P', es) ∧ fireAll cb P' p (ch :: bs) es (d, m) = .ok (d', m') ∧
      run cb P' d' m' (p + 1) bs = .more P1 d1 m1 := by
  rw [run] at h
  split at h
  · cases h
  · rename_i P' es hn
    split at h
    · rename_i d' m' hf
      exact ⟨P', es, d', m', hn, hf, h⟩
    · cases h

theorem fireAll_rest {P : HttpParser} {p : Nat} {rest : Bytes} (rest' : Bytes) {es : List Event} {dm r : σ × Nat}
    (h : fireAll cb P p rest es dm = .ok r) : fireAll cb P p rest' es dm = .ok r := by
  induction es generalizing dm with
  | nil => exact h
  | cons e es ih =>
    simp only [fireAll] at h ⊢
    split at h
    · cases h
    · rename_i hs
      rw [if_neg hs]
      exact ih h

/-- A run goes on where it got to. -/
theorem run_append {P P1 : HttpParser} {d d1 : σ} {m m1 p : Nat} {xs : Bytes} (ys : Bytes)
    (h : run cb P d m p xs = .more P1 d1 m1) :
    run cb P d m p (xs ++ ys) = run cb P1 d1 m1 (p + xs.length) ys := by
  induction xs generalizing P d m p with
  | nil => cases h; rfl
  | cons ch xs ih =>
    obtain ⟨P', es, d', m', hn, hf, hr⟩ := run_cons_more h
    rw [List.cons_append, run_cons hn, fireAll_rest _ hf]
    dsimp only
    rw [ih hr, List.length_cons]
    congr 1
    omega

theorem run_append_inv {P P2 : HttpParser} {d d2 : σ} {m m2 p : Nat} {xs ys : Bytes}
    (h : run cb P d m p (xs ++ ys) = .more P2 d2 m2) :
    ∃ P1 d1 m1, run cb P d m p xs = .more P1 d1 m1 ∧ run cb P1 d1 m1 (p + xs.length) ys = .more P2 d2 m2 := by
  induction xs generalizing P d m p with
  | nil => exact ⟨P, d, m, rfl, h⟩
  | cons ch xs ih =>
    obtain ⟨P', es, d', m', hn, hf, hr⟩ := run_cons_more h
    obtain ⟨P1, d1, m1, h1, h2⟩ := ih hr
    refine ⟨P1, d1, m1, ?_, ?_⟩
    · rw [run_cons hn, fireAll_rest _ hf]
      exact h1
    · rw [show p + (ch :: xs).length = p + 1 + xs.length by rw [List.length_cons]; omega]
      exact h2

/-! ## A longer buffer -/

/-- An event inside the header section. -/
def Event.inHeader : Event → Bool
  | .mark | .data _ | .emptyValue => true
  | _ => false

/-- Once in the body the parser does not leave it. -/
theorem run_body (L : Lawful cb ext len) {P P1 : HttpParser} {d d1 : σ} {m m1 p : Nat} {xs : Bytes}
    (hP : P.state = .bodyIdentity) (h : run cb P d m p xs = .more P1 d1 m1) : P1.state = .bodyIdentity := by
  cases xs with
  | nil => cases h; exact hP
  | cons ch xs =>
    obtain ⟨P', es, d', m', hn, hf, -⟩ := run_cons_more h
    have he : es = [.body] := by
      simp only [HttpParser.next, hP, Option.some.injEq, Prod.mk.injEq] at hn
      exact hn.2.symm
    rw [he] at hf
    simp [fireAll, fire, L.body_stops] at hf

/-- The events of a byte that the parser gets through, short of the body. -/
theorem inHeader_of_more (L : Lawful cb ext len) {P P' P1 : HttpParser} {d d1 d' : σ} {m m1 m' p : Nat} {ch : UInt8}
    {es : List Event} {rest xs : Bytes} (hn : P.next ch = some (P', es))
    (hf : fireAll cb P' p rest es (d, m) = .ok (d', m')) (hr : run cb P' d' m' (p + 1) xs = .more P1 d1 m1)
    (hb : P1.state ≠ .bodyIdentity) : ∀ e ∈ es, e.inHeader := by
  cases ht : P.state.token? with
  | some t =>
    obtain ⟨rfl, -⟩ | ⟨rfl, -⟩ := HttpParser.next_inside hn ht
    · nofun
    · simp [Event.inHeader]
  | none =>
    cases HttpParser.next_outside hn ht with
    | quiet | opens | empty | emptyOpens => simp [Event.inHeader]
    | message =>
      simp only [fireAll] at hf
      split at hf
      · cases hf
      · simp [fire, L.message_stops] at hf
    | headers hs => exact absurd (run_body L hs hr) hb
    | body => simp [fireAll, fire, L.body_stops] at hf

theorem fire_ext (L : Lawful cb ext len) {P : HttpParser} {p m : Nat} {d : σ} {e : Event} (ys : Bytes) (hm : m ≤ p)
    (hp : p ≤ len d) (he : e.inHeader) (hs : cb.stopped (fire cb P p e (d, m)).1 = false) :
    fire cb P p e (ext d ys, m) = (ext (fire cb P p e (d, m)).1 ys, (fire cb P p e (d, m)).2) ∧
      len (fire cb P p e (d, m)).1 = len d ∧ (fire cb P p e (d, m)).2 ≤ p := by
  cases e with
  | mark => exact ⟨rfl, rfl, Nat.le_refl p⟩
  | data t =>
    refine ⟨?_, L.data_len hs, hm⟩
    simp only [fire] at hs ⊢
    rw [L.data_ext (by omega) hs]
  | emptyValue =>
    refine ⟨?_, L.data_len hs, hm⟩
    simp only [fire] at hs ⊢
    rw [L.data_ext (by omega) hs]
  | headersComplete | body | messageComplete => cases he

theorem fireAll_ext (L : Lawful cb ext len) {P : HttpParser} {p m m1 : Nat} {d d1 : σ} {es : List Event} {rest : Bytes}
    (ys : Bytes) (hm : m ≤ p) (hp : p ≤ len d) (hd : cb.stopped d = false) (he : ∀ e ∈ es, e.inHeader)
    (h : fireAll cb P p rest es (d, m) = .ok (d1, m1)) :
    fireAll cb P p rest es (ext d ys, m) = .ok (ext d1 ys, m1) ∧ cb.stopped d1 = false ∧ len d1 = len d ∧ m1 ≤ p := by
  induction es generalizing d m with
  | nil =>
    cases h
    exact ⟨rfl, hd, rfl, hm⟩
  | cons e es ih =>
    simp only [fireAll] at h ⊢
    split at h
    · cases h
    · rename_i hs
      rw [Bool.not_eq_true] at hs
      obtain ⟨hf, hl, hle⟩ := fire_ext L ys hm hp (he e List.mem_cons_self) hs
      rw [hf, if_neg (by rw [L.stopped_ext, hs]; nofun)]
      have he' : ∀ e' ∈ es, e'.inHeader := fun e' h' => he e' (List.mem_cons_of_mem _ h')
      obtain ⟨h1, h2, h3, h4⟩ := ih hle (by rw [hl]; exact hp) hs he' h
      exact ⟨h1, h2, h3.trans hl, h4⟩

/-- More bytes in the buffer do not change what the earlier ones did. -/
theorem run_ext (L : Lawful cb ext len) {P P1 : HttpParser} {d d1 : σ} {m m1 p : Nat} {xs : Bytes} (ys : Bytes)
    (hm : m ≤ p) (hp : p + xs.length ≤ len d) (hd : cb.stopped d = false) (hb : P1.state ≠ .bodyIdentity)
    (h : run cb P d m p xs = .more P1 d1 m1) :
    run cb P (ext d ys) m p xs = .more P1 (ext d1 ys) m1 ∧ cb.stopped d1 = false ∧ len d1 = len d ∧
      m1 ≤ p + xs.length := by
  induction xs generalizing P d m p with
  | nil =>
    cases h
    exact ⟨rfl, hd, rfl, hm⟩
  | cons ch xs ih =>
    rw [List.length_cons] at hp ⊢
    obtain ⟨P', es, d', m', hn, hf, hr⟩ := run_cons_more h
    obtain ⟨hf', hs', hl', hm'⟩ := fireAll_ext L ys hm (by omega) hd (inHeader_of_more L hn hf hr hb) hf
    obtain ⟨h1, h2, h3, h4⟩ := ih (p := p + 1) (by omega) (by omega) hs' hr
    refine ⟨?_, h2, h3.trans hl', by omega⟩
    rw [run_cons hn, hf']
    exact h1

theorem fire_unext (L : Lawful cb ext len) {P : HttpParser} {p m : Nat} {d : σ} {e : Event} {ys : Bytes} (hm : m ≤ p)
    (hp : p ≤ len d) (hd : cb.stopped d = false) (he : e.inHeader)
    (hs : cb.stopped (fire cb P p e (ext d ys, m)).1 = false) : cb.stopped (fire cb P p e (d, m)).1 = false := by
  cases e with
  | mark => exact hd
  | data t => exact L.data_stopped (by omega) hs
  | emptyValue => exact L.data_stopped (by omega) hs
  | headersComplete | body | messageComplete => cases he

theorem fireAll_unext (L : Lawful cb ext len) {P : HttpParser} {p m m' : Nat} {d d' : σ} {es : List Event}
    {rest ys : Bytes} (hm : m ≤ p) (hp : p ≤ len d) (hd : cb.stopped d = false) (he : ∀ e ∈ es, e.inHeader)
    (h : fireAll cb P p rest es (ext d ys, m) = .ok (d', m')) :
    ∃ d1, fireAll cb P p rest es (d, m) = .ok (d1, m') ∧ d' = ext d1 ys := by
  induction es generalizing d m with
  | nil =>
    cases h
    exact ⟨d, rfl, rfl⟩
  | cons e es ih =>
    simp only [fireAll] at h ⊢
    split at h
    · cases h
    · rename_i hs
      rw [Bool.not_eq_true] at hs
      have hs' := fire_unext L hm hp hd (he e List.mem_cons_self) hs
      obtain ⟨hf, hl, hle⟩ := fire_ext L ys hm hp (he e List.mem_cons_self) hs'
      rw [hf] at h
      rw [if_neg (by rw [hs']; nofun)]
      exact ih hle (Nat.le_trans hp (Nat.le_of_eq hl.symm)) hs' (fun e' h' => he e' (List.mem_cons_of_mem _ h')) h

theorem run_unext (L : Lawful cb ext len) {P P1 : HttpParser} {d d' : σ} {m m1 p : Nat} {xs ys : Bytes} (hm : m ≤ p)
    (hp : p + xs.length ≤ len d) (hd : cb.stopped d = false) (hb : P1.state ≠ .bodyIdentity)
    (h : run cb P (ext d ys) m p xs = .more P1 d' m1) :
    ∃ d1, run cb P d m p xs = .more P1 d1 m1 ∧ d' = ext d1 ys := by
  induction xs generalizing P d m p with
  | nil =>
    cases h
    exact ⟨d, rfl, rfl⟩
  | cons ch xs ih =>
    rw [List.length_cons] at hp
    obtain ⟨P', es, d2, m2, hn, hf, hr⟩ := run_cons_more h
    have he := inHeader_of_more L hn hf hr hb
    obtain ⟨d3, hf3, rfl⟩ := fireAll_unext L hm (by omega) hd he hf
    obtain ⟨-, hs3, hl3, hm3⟩ := fireAll_ext L ys hm (by omega) hd he hf3
    obtain ⟨d1, h1, h2⟩ := ih (p := p + 1) (by omega) (by omega) hs3 hr
    refine ⟨d1, ?_, h2⟩
    rw [run_cons hn, hf3]
    exact h1

/-! ## Two blocks -/

/-- A token that is open before bytes and closed after them has been handed over on the way. -/
theorem run_closes {P P1 : HttpParser} {d d1 : σ} {m m1 p : Nat} {ys : Bytes} {t : Token}
    (ht : P.state.token? = some t) (ht1 : P1.state.token? = none) (h : run cb P d m p ys = .more P1 d1 m1) :
    ∃ Q b, cb.stopped (cb.onData t Q m (p + b - m) d) = false := by
  induction ys generalizing P p with
  | nil =>
    cases h
    rw [ht] at ht1
    cases ht1
  | cons ch ys ih =>
    obtain ⟨P', es, d', m', hn, hf, hr⟩ := run_cons_more h
    obtain ⟨rfl, ht'⟩ | ⟨rfl, -⟩ := HttpParser.next_inside hn ht
    · cases hf
      obtain ⟨Q, b, hs⟩ := ih ht' hr
      exact ⟨Q, b + 1, by rw [show p + (b + 1) = p + 1 + b by omega]; exact hs⟩
    · refine ⟨P', 0, ?_⟩
      simp only [fireAll] at hf
      split at hf
      · cases hf
      · rename_i hs
        rw [Bool.not_eq_true] at hs
        exact hs

theorem fireAll_mark {P : HttpParser} {p m m' : Nat} {d d' : σ} {es : List Event} {rest : Bytes} (hm : m ≤ p)
    (h : fireAll cb P p rest es (d, m) = .ok (d', m')) : m' ≤ p := by
  induction es generalizing d m with
  | nil => cases h; exact hm
  | cons e es ih =>
    simp only [fireAll] at h
    split at h
    · cases h
    · refine ih ?_ h
      cases e with
      | mark => exact Nat.le_refl p
      | data | emptyValue | headersComplete | body | messageComplete => exact hm

/-- The mark lies before the end of the bytes. -/
theorem run_mark {P P1 : HttpParser} {d d1 : σ} {m m1 p : Nat} {xs : Bytes} (hm : m < p)
    (h : run cb P d m p xs = .more P1 d1 m1) : m1 < p + xs.length := by
  induction xs generalizing P d m p with
  | nil => cases h; exact hm
  | cons ch xs ih =>
    obtain ⟨P', es, d', m', -, hf, hr⟩ := run_cons_more h
    have hm' := ih (Nat.lt_succ_of_le (fireAll_mark (Nat.le_of_lt hm) hf)) hr
    rw [List.length_cons]
    omega

theorem run_mark_block {P P1 : HttpParser} {d d1 : σ} {m1 p : Nat} {xs : Bytes} (hx : xs ≠ [])
    (h : run cb P d p p xs = .more P1 d1 m1) : m1 < p + xs.length := by
  cases xs with
  | nil => exact absurd rfl hx
  | cons ch xs =>
    obtain ⟨P', es, d', m', -, hf, hr⟩ := run_cons_more h
    have hm' := run_mark (Nat.lt_succ_of_le (fireAll_mark (Nat.le_refl p) hf)) hr
    rw [List.length_cons]
    omega

/-- A block of bytes that the parser gets through, outside any token and short of the body, is not
stopped within. -/
theorem execute_prefix (L : Lawful cb ext len) {P P2 : HttpParser} {d d2 : σ} {p m2 : Nat} {xs ys : Bytes}
    (hx : xs ≠ []) (hp : p + xs.length = len d) (hd : cb.stopped d = false)
    (h : run cb P (ext d ys) p p (xs ++ ys) = .more P2 d2 m2) (ht : P2.state.token? = none)
    (hb : P2.state ≠ .bodyIdentity) :
    ∃ P1 d1, execute cb P d p xs = (P1, d1, p + xs.length) ∧ cb.stopped d1 = false := by
  obtain ⟨P1, d', m1, h1, h2⟩ := run_append_inv h
  have hb1 : P1.state ≠ .bodyIdentity := fun hP => hb (run_body L hP h2)
  obtain ⟨d1, hr, rfl⟩ := run_unext L (Nat.le_refl p) (Nat.le_of_eq hp) hd hb1 h1
  obtain ⟨-, hs1, hl1, -⟩ := run_ext L ys (Nat.le_refl p) (Nat.le_of_eq hp) hd hb1 hr
  rw [execute, hr]
  simp only [finish]
  cases ht1 : P1.state.token? with
  | none => exact ⟨P1, d1, rfl, hs1⟩
  | some t =>
    refine ⟨P1, _, rfl, ?_⟩
    obtain ⟨Q, b, hs⟩ := run_closes ht1 ht h2
    have hm := run_mark_block hx hr
    rw [show p + xs.length + b - m1 = p + xs.length - m1 + b by omega] at hs
    exact L.data_stopped (by omega) (L.le (by omega) hs)

end EspIdf.Httpd
