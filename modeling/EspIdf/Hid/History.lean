import EspIdf.Hid.ReportMap

/-!
# What an earlier call leaves to the next

* `after` : the variables after a history of calls;
* `Parser.Idle` : no item is awaited but the first of a collection, and no table would be handed out;
* `Alike` : two parsers that no item tells apart, `alike_step`;
* `keyboardMap`, `mouseMap` : two descriptors that a parser within a collection cannot tell apart;
* `history_free_iff` : the histories after which every call gives what it gives first.
-/

namespace EspIdf.Hid

/-- The variables after the calls of `history`. -/
def after (zeroAlloc : Bool) : Parser → List (List UInt8) → Parser
  | s, [] => s
  | s, bytes :: history => after zeroAlloc (espHidParseReportMap zeroAlloc s bytes).2 history

/-- The next item is the first of a collection, and the table that was left would not be handed out. -/
def Parser.Idle (zeroAlloc : Bool) (s : Parser) : Prop :=
  s.step = .waitUsagePage ∧ shown zeroAlloc s.temp = none

instance (zeroAlloc : Bool) (s : Parser) : Decidable (s.Idle zeroAlloc) := by
  unfold Parser.Idle; infer_instance

/-! ## Parsers that no item tells apart -/

/-- Until the first segment of a call is reported the tables may differ, if neither would be handed out; before a
collection is begun, its variables may. -/
structure Alike (zeroAlloc : Bool) (s t : Parser) : Prop where
  step : s.step = t.step
  newMap : s.newMap = t.newMap
  temp : s.newMap = false → s.temp = t.temp
  hidden : s.newMap = true → shown zeroAlloc s.temp = none ∧ shown zeroAlloc t.temp = none
  begun : s.step ≠ .waitUsagePage →
    s.params = t.params ∧ s.reportSize = t.reportSize ∧ s.reportCount = t.reportCount
  depth : s.step = .waitEndCollection → s.collectionDepth = t.collectionDepth

/-- Both go on, alike, or neither does. -/
def Together (zeroAlloc : Bool) : Except Parser Parser → Except Parser Parser → Prop
  | .ok s, .ok t => Alike zeroAlloc s t
  | .error _, .error _ => True
  | _, _ => False

section alike
variable {zeroAlloc : Bool} {s t : Parser}

theorem Alike.shown (h : Alike zeroAlloc s t) : shown zeroAlloc s.temp = shown zeroAlloc t.temp := by
  cases hnew : s.newMap with
  | false => rw [h.temp hnew]
  | true => rw [(h.hidden hnew).1, (h.hidden hnew).2]

theorem Alike.refl (h : s.newMap = false) : Alike zeroAlloc s s :=
  ⟨rfl, rfl, fun _ => rfl, fun hnew => absurd (h.symm.trans hnew) Bool.false_ne_true, fun _ => ⟨rfl, rfl, rfl⟩,
    fun _ => rfl⟩

theorem together_reject : Together zeroAlloc s.reject t.reject := trivial

theorem together_ite {q : Prop} [Decidable q] {a b c d : Except Parser Parser} (hpos : Together zeroAlloc a b)
    (hneg : Together zeroAlloc c d) : Together zeroAlloc (if q then a else c) (if q then b else d) := by
  by_cases hq : q
  · rwa [if_pos hq, if_pos hq]
  · rwa [if_neg hq, if_neg hq]

/-- Within a collection, parsers that are alike differ in their tables only. -/
theorem Alike.eq_temp (h : Alike zeroAlloc s t) (hstep : s.step = .waitEndCollection) :
    t = { s with temp := t.temp } := by
  have hbegun := h.begun (by rw [hstep]; decide)
  have hdepth := h.depth hstep
  have hnew := h.newMap
  have hst := h.step
  obtain ⟨step, depth, params, size, count, newMap, temp⟩ := t
  simp only [Parser.mk.injEq, and_true]
  exact ⟨hst.symm, hdepth.symm, hbegun.1.symm, hbegun.2.1.symm, hbegun.2.2.symm, hnew.symm⟩

end alike

/-! ## Within a collection -/

section inner
variable {zeroAlloc : Bool} {s : Parser} {temp : Option TempMap}

/-- Another table, where the next report clears it and neither table would be handed out. -/
structure Unseen (zeroAlloc : Bool) (s : Parser) (temp : Option TempMap) : Prop where
  same : s.newMap = false → s.temp = temp
  hidden : s.newMap = true → shown zeroAlloc s.temp = none ∧ shown zeroAlloc temp = none

theorem Unseen.alike (h : Unseen zeroAlloc s temp) : Alike zeroAlloc s { s with temp := temp } :=
  ⟨rfl, rfl, h.same, h.hidden, fun _ => ⟨rfl, rfl, rfl⟩, fun _ => rfl⟩

theorem Unseen.handleReport (h : Unseen zeroAlloc s temp) (p : ReportParams) :
    handleReport p s.newMap s.temp = handleReport p s.newMap temp := by
  unfold Hid.handleReport
  cases hnew : s.newMap with
  | false => rw [h.same hnew]
  | true => rfl

/-- A segment that is reported leaves both with the same table. -/
theorem Unseen.report (h : Unseen zeroAlloc s temp) :
    (∃ s', s'.newMap = false ∧ s.report = .ok s' ∧ Parser.report { s with temp := temp } = .ok s') ∨
    (∃ s' t', s.report = .error s' ∧ Parser.report { s with temp := temp } = .error t') := by
  unfold Parser.report
  simp only [← h.handleReport s.params]
  cases Hid.handleReport s.params s.newMap s.temp with
  | error map => exact .inr ⟨_, _, rfl, rfl⟩
  | ok map => exact .inl ⟨_, rfl, rfl, rfl⟩

theorem Unseen.handleReportId (h : Unseen zeroAlloc s temp) (value : Nat) :
    Together zeroAlloc (s.handleReportId value) (Parser.handleReportId { s with temp := temp } value) := by
  unfold Parser.handleReportId
  by_cases hnext : s.params.reportId ≠ 0 ∧ s.params.reportId ≠ value ∧ s.params.wholeBytes
  · simp only [if_pos hnext]
    rcases h.report with ⟨s', hnew, hs, ht⟩ | ⟨s', t', hs, ht⟩
    · rw [hs, ht]
      exact Alike.refl hnew
    · rw [hs, ht]
      trivial
  · simp only [if_neg hnext]
    exact Unseen.alike ⟨h.same, h.hidden⟩

theorem Unseen.handleEnd (h : Unseen zeroAlloc s temp) :
    Together zeroAlloc s.handleEnd (Parser.handleEnd { s with temp := temp }) := by
  have hclosed : Unseen zeroAlloc { s with collectionDepth := (s.collectionDepth + 255) % 256 } temp :=
    ⟨h.same, h.hidden⟩
  unfold Parser.handleEnd
  by_cases hdepth : (s.collectionDepth + 255) % 256 = 0
  · simp only [if_pos hdepth]
    by_cases hwhole : s.params.wholeBytes = true
    · simp only [if_pos hwhole]
      rcases hclosed.report with ⟨s', hnew, hs, ht⟩ | ⟨s', t', hs, ht⟩
      · rw [hs, ht]
        exact Alike.refl hnew
      · rw [hs, ht]
        trivial
    · simp only [if_neg hwhole]
      exact Unseen.alike ⟨h.same, h.hidden⟩
  · simp only [if_neg hdepth]
    exact hclosed.alike

theorem Unseen.handleMain (h : Unseen zeroAlloc s temp) (type : ReportType) :
    Together zeroAlloc (s.handleMain type) (Parser.handleMain { s with temp := temp } type) := by
  unfold Parser.handleMain
  dsimp only
  cases addReportLenBitsTo (s.params.len type) s.reportSize s.reportCount with
  | none => exact together_reject
  | some len => exact Unseen.alike ⟨h.same, h.hidden⟩

theorem Unseen.handleInner (h : Unseen zeroAlloc s temp) (c : Cmd) :
    Together zeroAlloc (s.handleInner c) (Parser.handleInner { s with temp := temp } c) := by
  unfold Parser.handleInner Parser.handleGlobal
  refine together_ite (h.handleReportId c.value) ?_
  refine together_ite (Unseen.alike ⟨h.same, h.hidden⟩) ?_
  refine together_ite (Unseen.alike ⟨h.same, h.hidden⟩) ?_
  refine together_ite (together_ite together_reject (Unseen.alike ⟨h.same, h.hidden⟩)) ?_
  refine together_ite (together_ite together_reject (Unseen.alike ⟨h.same, h.hidden⟩)) ?_
  refine together_ite (h.handleMain .input) ?_
  refine together_ite (h.handleMain .output) ?_
  refine together_ite (h.handleMain .feature) ?_
  refine together_ite (Unseen.alike ⟨h.same, h.hidden⟩) ?_
  exact together_ite h.handleEnd h.alike

end inner

/-! ## Any item -/

section step
variable {zeroAlloc : Bool} {s t : Parser}

theorem alike_step (h : Alike zeroAlloc s t) (c : Cmd) :
    Together zeroAlloc (handleCmd s c) (handleCmd t c) := by
  have hst := h.step
  cases hstep : s.step with
  | waitUsagePage =>
    unfold handleCmd
    rw [← hst, hstep]
    by_cases hcmd : c.cmd ≠ USAGE_PAGE
    · simp only [if_pos hcmd]
      trivial
    · simp only [if_neg hcmd]
      exact ⟨rfl, h.newMap, h.temp, h.hidden, fun _ => ⟨rfl, rfl, rfl⟩, fun hend => absurd hend (by simp)⟩
  | waitUsage =>
    have hbegun := h.begun (by rw [hstep]; decide)
    unfold handleCmd
    rw [← hst, hstep]
    by_cases hcmd : c.cmd ≠ USAGE
    · simp only [if_pos hcmd]
      trivial
    · simp only [if_neg hcmd]
      exact ⟨rfl, h.newMap, h.temp, h.hidden, fun _ => ⟨by rw [hbegun.1], hbegun.2⟩, fun hend => absurd hend (by simp)⟩
  | waitCollectionApplication =>
    have hbegun := h.begun (by rw [hstep]; decide)
    unfold handleCmd
    rw [← hst, hstep]
    by_cases hcmd : c.cmd ≠ COLLECTION
    · simp only [if_pos hcmd]
      trivial
    · by_cases hvalue : c.value ≠ 1
      · simp only [if_neg hcmd, if_pos hvalue]
        trivial
      · simp only [if_neg hcmd, if_neg hvalue]
        exact ⟨rfl, h.newMap, h.temp, h.hidden, fun _ => ⟨by rw [hbegun.1], hbegun.2⟩, fun _ => rfl⟩
  | waitEndCollection =>
    have hunseen : Unseen zeroAlloc s t.temp := ⟨h.temp, h.hidden⟩
    rw [h.eq_temp hstep]
    have hinner := hunseen.handleInner c
    unfold handleCmd
    rw [hstep] at hinner ⊢
    exact hinner

theorem alike_loop (fuel : Nat) (h : Alike zeroAlloc s t) (bytes : List UInt8) :
    Together zeroAlloc (parseLoop fuel s bytes) (parseLoop fuel t bytes) := by
  induction fuel generalizing s t bytes with
  | zero =>
    cases bytes with
    | nil => exact h
    | cons b rest => trivial
  | succ fuel ih =>
    cases bytes with
    | nil => exact h
    | cons b rest =>
      unfold parseLoop
      cases parseCmd b rest with
      | none => trivial
      | some out =>
        have hnext := alike_step h out.1
        dsimp only
        cases hs : handleCmd s out.1 with
        | error s' =>
          cases ht : handleCmd t out.1 with
          | error t' => trivial
          | ok t' => rw [hs, ht] at hnext; exact hnext.elim
        | ok s' =>
          cases ht : handleCmd t out.1 with
          | error t' => rw [hs, ht] at hnext; exact hnext.elim
          | ok t' =>
            rw [hs, ht] at hnext
            exact ih hnext out.2

end step

/-- Parsers that are idle give the same. -/
theorem idle_result {zeroAlloc : Bool} {s t : Parser} (hs : s.Idle zeroAlloc) (ht : t.Idle zeroAlloc)
    (bytes : List UInt8) :
    (espHidParseReportMap zeroAlloc s bytes).1 = (espHidParseReportMap zeroAlloc t bytes).1 := by
  have halike : Alike zeroAlloc { s with newMap := true } { t with newMap := true } :=
    ⟨hs.1.trans ht.1.symm, rfl, fun hnew => absurd hnew (by simp), fun _ => ⟨hs.2, ht.2⟩,
      fun hne => absurd hs.1 hne, fun hend => absurd (hs.1.symm.trans hend) (by simp)⟩
  have hloop := alike_loop bytes.length halike bytes
  unfold espHidParseReportMap
  cases hls : parseLoop bytes.length { s with newMap := true } bytes with
  | error s' =>
    cases hlt : parseLoop bytes.length { t with newMap := true } bytes with
    | error t' => rfl
    | ok t' => rw [hls, hlt] at hloop; exact hloop.elim
  | ok s' =>
    cases hlt : parseLoop bytes.length { t with newMap := true } bytes with
    | error t' => rw [hls, hlt] at hloop; exact hloop.elim
    | ok t' =>
      rw [hls, hlt] at hloop
      exact hloop.shown

/-! ## Descriptors that tell the others apart -/

/-- A collection of one report of an octet, under a usage of the generic desktop. -/
def oneReport (usage : UInt8) : List UInt8 :=
  [0x05, 0x01, 0x09, usage, 0xA1, 0x01, 0x75, 0x08, 0x95, 0x01, 0x81, 0x02, 0xC0]

/-- Its items. -/
def oneReportItems (usage : Nat) : List Cmd :=
  [⟨USAGE_PAGE, 1⟩, ⟨USAGE, usage⟩, ⟨COLLECTION, 1⟩, ⟨REPORT_SIZE, 8⟩, ⟨REPORT_COUNT, 1⟩, ⟨INPUT, 2⟩, ⟨END_COLLECTION, 0⟩]

def keyboardMap : List UInt8 := oneReport 0x06
def mouseMap : List UInt8 := oneReport 0x02

theorem keyboardMap_items : commands keyboardMap.length keyboardMap = (oneReportItems 6, true) := by decide

theorem mouseMap_items : commands mouseMap.length mouseMap = (oneReportItems 2, true) := by decide

section tellApart
variable {zeroAlloc : Bool} {s : Parser}

/-- The usage that comes up within a collection is not reported by the segment it comes up in. -/
theorem handleEnd_innerUsage (usage : Nat) :
    handedOut zeroAlloc (Parser.handleEnd { s with params := { s.params with innerUsage := usage } }) =
      handedOut zeroAlloc s.handleEnd := by
  have hwhole : ReportParams.wholeBytes { s.params with innerUsage := usage } = s.params.wholeBytes := rfl
  have hreport : handleReport { s.params with innerUsage := usage } s.newMap s.temp =
      handleReport s.params s.newMap s.temp := rfl
  unfold Parser.handleEnd Parser.report
  simp only [hwhole, hreport]
  by_cases hdepth : (s.collectionDepth + 255) % 256 = 0
  · simp only [if_pos hdepth]
    by_cases h : s.params.wholeBytes = true
    · simp only [if_pos h]
      cases handleReport s.params s.newMap s.temp with
      | error map => rfl
      | ok map => rfl
    · simp only [if_neg h]
      rfl
  · simp only [if_neg hdepth]
    rfl

/-- The state of a parser within a collection before the main item of `oneReport`. -/
def withinReport (s : Parser) (usage : Nat) : Parser :=
  { s with
    params := { s.params with innerUsagePage := 1, innerUsage := usage },
    collectionDepth := (s.collectionDepth + 1) % 256, reportSize := 8, reportCount := 1 }

theorem within_run (hstep : s.step = .waitEndCollection) (usage : Nat) :
    (oneReportItems usage).foldlM handleCmd s =
      (withinReport s (usage % 65536)).handleMain .input >>= fun s => handleCmd s ⟨END_COLLECTION, 0⟩ := by
  obtain ⟨step, depth, params, size, count, newMap, temp⟩ := s
  subst hstep
  exact congrArg (Parser.handleMain _ .input >>= ·) (funext fun s => bind_pure (handleCmd s ⟨END_COLLECTION, 0⟩))

/-- Within a collection, two collections that differ in their usage give the same. -/
theorem within_eq (hstep : s.step = .waitEndCollection) (usage usage' : Nat) :
    handedOut zeroAlloc ((oneReportItems usage).foldlM handleCmd s) =
      handedOut zeroAlloc ((oneReportItems usage').foldlM handleCmd s) := by
  have hrun : ∀ u, handedOut zeroAlloc ((oneReportItems u).foldlM handleCmd s) =
      (addReportLenBitsTo s.params.inputLen 8 1).bind fun len =>
        handedOut zeroAlloc (Parser.handleEnd { withinReport s 0 with
          params := { s.params with innerUsagePage := 1, innerUsage := 0, inputLen := len } }) := by
    intro u
    rw [within_run hstep u]
    unfold Parser.handleMain
    dsimp only [withinReport, ReportParams.len]
    cases addReportLenBitsTo s.params.inputLen 8 1 with
    | none => rfl
    | some len =>
      have hend := @handleEnd_innerUsage zeroAlloc
        { withinReport s 0 with params := { s.params with innerUsagePage := 1, innerUsage := 0, inputLen := len } }
        (u % 65536)
      refine Eq.trans ?_ hend
      simp only [handleCmd, bind, Except.bind, withinReport, hstep]
      rfl
  rw [hrun usage, hrun usage']

end tellApart

/-! ## Which histories leave no trace -/

theorem init_idle (zeroAlloc : Bool) : Parser.init.Idle zeroAlloc := ⟨rfl, rfl⟩

/-- First, the two descriptors are told apart. -/
theorem first_keyboard (zeroAlloc : Bool) :
    (espHidParseReportMap zeroAlloc .init keyboardMap).1 = some ⟨.keyboard, 0x03C1,
      [⟨.keyboard, 0, .input, .report, 1⟩, ⟨.keyboard, 0, .input, .boot, 8⟩]⟩ := by
  cases zeroAlloc with
  | false => decide
  | true => decide

theorem first_mouse (zeroAlloc : Bool) :
    (espHidParseReportMap zeroAlloc .init mouseMap).1 = some ⟨.mouse, 0x03C2,
      [⟨.mouse, 0, .input, .report, 1⟩, ⟨.mouse, 0, .input, .boot, 3⟩]⟩ := by
  cases zeroAlloc with
  | false => decide
  | true => decide

section refused
variable {zeroAlloc : Bool} {s : Parser}

/-- Where another item is awaited, a descriptor is refused at its usage page. -/
theorem awaiting_refused (hstep : s.step = .waitUsage ∨ s.step = .waitCollectionApplication) :
    (espHidParseReportMap zeroAlloc s keyboardMap).1 = none := by
  obtain ⟨step, depth, params, size, count, newMap, temp⟩ := s
  rcases hstep with hstep | hstep
  · subst hstep
    rfl
  · subst hstep
    rfl

theorem within_result (hstep : s.step = .waitEndCollection) :
    (espHidParseReportMap zeroAlloc s keyboardMap).1 = (espHidParseReportMap zeroAlloc s mouseMap).1 := by
  rw [result_eq, result_eq, parseLoop_eq, parseLoop_eq, keyboardMap_items, mouseMap_items]
  have hwithin := @within_eq zeroAlloc { s with newMap := true } hstep 6 2
  simp only [if_true]
  exact (congrArg _ (bind_pure _)).trans (hwithin.trans (congrArg _ (bind_pure _)).symm)

end refused

/-- A history makes no difference to any later call exactly when it leaves the parser idle. -/
theorem history_free_iff (zeroAlloc : Bool) (history : List (List UInt8)) :
    (∀ bytes, (espHidParseReportMap zeroAlloc (after zeroAlloc .init history) bytes).1 =
      (espHidParseReportMap zeroAlloc .init bytes).1) ↔ (after zeroAlloc .init history).Idle zeroAlloc := by
  constructor
  · intro hsame
    have hkeyboard := hsame keyboardMap
    rw [first_keyboard] at hkeyboard
    cases hstep : (after zeroAlloc .init history).step with
    | waitUsagePage => exact ⟨hstep, hsame []⟩
    | waitUsage => exact absurd ((awaiting_refused (.inl hstep)).symm.trans hkeyboard) (by simp)
    | waitCollectionApplication => exact absurd ((awaiting_refused (.inr hstep)).symm.trans hkeyboard) (by simp)
    | waitEndCollection =>
      have hmouse := hsame mouseMap
      rw [first_mouse, ← within_result hstep, hkeyboard] at hmouse
      exact absurd hmouse (by simp)
  · intro hidle bytes
    exact idle_result hidle (init_idle zeroAlloc) bytes

/-- A descriptor that breaks off within its collection, and the next one is refused. -/
theorem broken_off_then_refused :
    ¬ ∀ (zeroAlloc : Bool) (history : List (List UInt8)) (bytes : List UInt8),
      (espHidParseReportMap zeroAlloc (after zeroAlloc .init history) bytes).1 =
        (espHidParseReportMap zeroAlloc .init bytes).1 := by
  intro h
  have hsame := h false [[0x05, 0x01, 0x09, 0x06, 0xA1, 0x01]] keyboardMap
  exact absurd hsame (by decide)

end EspIdf.Hid
