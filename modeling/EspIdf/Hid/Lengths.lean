import EspIdf.Hid.Segments

/-!
# The lengths of the reports

* `report_ok`, `items_report` : what `handle_report` adds to the table;
* `exact_iff` : when that is right for a segment, given what is left of earlier ones;
* `floor_run` : a nest that is too deep for the counter is not accepted;
* `Sync`, `sync_step` : parser and text, item by item;
* `lengths_exact_iff` : the reports of a descriptor that is accepted.
-/

namespace EspIdf.Hid

/-! ## Reports that are added -/

section report
variable {s s' : Parser}

theorem addReport_fold {items : List ReportItem} {map map' : TempMap} (h : items.foldlM addReport map = .ok map') :
    map'.reports = map.reports ++ items := by
  induction items generalizing map with
  | nil => rw [← Except.ok.inj h, List.append_nil]
  | cons item items ih =>
    rw [List.foldlM_cons] at h
    unfold addReport at h
    split at h
    · cases h
    · rw [ih h, List.append_assoc]
      rfl

theorem report_ok (h : s.report = .ok s') :
    s'.table = s.table ++ s.params.items ∧ s' = { s with temp := s'.temp, newMap := false } := by
  unfold Parser.report at h
  split at h
  · cases h
  · rename_i map hmap
    obtain rfl := Except.ok.inj h
    refine ⟨?_, rfl⟩
    unfold handleReport at hmap
    have hfold := addReport_fold hmap
    unfold Parser.table
    dsimp only
    rw [if_neg Bool.false_ne_true]
    refine hfold.trans (congrArg (· ++ s.params.items) ?_)
    cases hnew : s.newMap with
    | true => rfl
    | false => cases s.temp <;> rfl

end report

theorem and_seven (x : Nat) : x &&& 7 = x % 8 := Nat.and_two_pow_sub_one_eq_mod x 3

def ReportParams.totals (p : ReportParams) : Totals := ⟨p.inputLen, p.outputLen, p.featureLen⟩

@[simp] theorem get_totals (p : ReportParams) (type : ReportType) : p.totals.get type = p.len type := by cases type <;> rfl

theorem wholeBytes_eq (p : ReportParams) : p.wholeBytes = p.totals.whole := by
  unfold ReportParams.wholeBytes Totals.whole ReportParams.totals
  rw [and_seven, and_seven, and_seven]

theorem mem_itemsOf {p : ReportParams} {type : ReportType} {boot : Option Nat} {item : ReportItem} :
    item ∈ p.itemsOf type boot ∧ item.protocolMode = .report ↔
      0 < p.len type ∧ item = p.item type .report (p.len type / 8) := by
  unfold ReportParams.itemsOf
  by_cases hlen : p.len type > 0
  · rw [if_pos hlen, List.mem_cons, Option.mem_toList, Option.map_eq_some_iff]
    constructor
    · rintro ⟨rfl | ⟨len, -, rfl⟩, hmode⟩
      · exact ⟨hlen, rfl⟩
      · cases hmode
    · rintro ⟨-, rfl⟩
      exact ⟨.inl rfl, rfl⟩
  · rw [if_neg hlen]
    simp [Nat.eq_zero_of_not_pos hlen]

theorem items_eq (p : ReportParams) :
    ∃ boot : ReportType → Option Nat, p.items = p.kind.types.flatMap fun type => p.itemsOf type (boot type) := by
  unfold ReportParams.items
  cases p.kind with
  | keyboard => exact ⟨fun | .input => some 8 | _ => some 1, by simp [Usage.types]⟩
  | mouse => exact ⟨fun _ => some 3, by simp [Usage.types]⟩
  | _ => exact ⟨fun _ => none, by simp [Usage.types]⟩

/-- The report items: one for each type that is reported and has bits. -/
theorem items_report {p : ReportParams} {item : ReportItem} :
    item ∈ p.items ∧ item.protocolMode = .report ↔
      ∃ type ∈ p.kind.types, 0 < p.len type ∧ item = p.item type .report (p.len type / 8) := by
  obtain ⟨boot, hitems⟩ := items_eq p
  rw [hitems, List.mem_flatMap]
  constructor
  · rintro ⟨⟨type, htype, hitem⟩, hmode⟩
    exact ⟨type, htype, mem_itemsOf.mp ⟨hitem, hmode⟩⟩
  · rintro ⟨type, htype, hitem⟩
    obtain ⟨hmem, hmode⟩ := mem_itemsOf.mpr hitem
    exact ⟨⟨type, htype, hmem⟩, hmode⟩

/-- Whether an item is the report of a type. -/
def ofType (type : ReportType) (item : ReportItem) : Bool :=
  decide (item.protocolMode = .report ∧ item.reportType = type)

theorem countP_itemsOf (p : ReportParams) (type type' : ReportType) (boot : Option Nat) :
    (p.itemsOf type boot).countP (ofType type') = if type = type' ∧ 0 < p.len type then 1 else 0 := by
  unfold ReportParams.itemsOf
  by_cases hlen : p.len type > 0
  · rw [if_pos hlen]
    cases boot <;> simp [List.countP_cons, ofType, ReportParams.item, hlen]
  · rw [if_neg hlen]
    simp [Nat.eq_zero_of_not_pos hlen]

/-- No type is reported twice. -/
theorem countP_items (p : ReportParams) (type : ReportType) :
    p.items.countP (ofType type) = if type ∈ p.kind.types ∧ 0 < p.len type then 1 else 0 := by
  obtain ⟨boot, hitems⟩ := items_eq p
  rw [hitems, List.countP_flatMap]
  simp only [Function.comp_def, countP_itemsOf]
  cases p.kind <;> cases type <;> simp [Usage.types]

/-! ## A segment that is closed -/

section exact
variable {seg : Segment} {carry : Carry} {p : ReportParams}

theorem get_add (t u : Totals) (type : ReportType) : (t.add u).get type = t.get type + u.get type := by
  cases type <;> rfl

theorem zero_add (t : Totals) : Totals.zero.add t = t := by
  simp [Totals.add, Totals.zero]

theorem whole_mod {t : Totals} (h : t.whole = true) (type : ReportType) : t.get type % 8 = 0 := by
  simp only [Totals.whole, Bool.and_eq_true, beq_iff_eq] at h
  cases type
  · exact h.1.1
  · exact h.1.2
  · exact h.2

theorem whole_iff {t : Totals} : t.whole = true ↔ ∀ type, t.get type % 8 = 0 := by
  refine ⟨whole_mod, fun h => ?_⟩
  simp only [Totals.whole, Bool.and_eq_true, beq_iff_eq]
  exact ⟨⟨h .input, h .output⟩, h .feature⟩

/-- Whole bytes and a rest are no whole bytes. -/
theorem not_whole_add {t u : Totals} (hu : u.whole = true) (ht : t.whole = false) : (t.add u).whole = false := by
  rw [← Bool.not_eq_true] at ht ⊢
  refine fun hsum => ht (whole_iff.mpr fun type => ?_)
  have hmod := whole_mod hsum type
  have hmod' := whole_mod hu type
  rw [get_add] at hmod
  omega

/-- Nothing is added. -/
theorem exact_nil : Exact seg [] ↔ (seg.totals.whole = true → ∀ type ∈ seg.kind.types, seg.totals.get type = 0) := by
  constructor
  · intro h hwhole type htype
    by_contra hne
    exact absurd (h.each hwhole type htype (Nat.pos_of_ne_zero hne)) (by simp)
  · refine fun h => ⟨nofun, fun hwhole type htype hpos => ?_⟩
    rw [h hwhole type htype] at hpos
    exact absurd hpos (Nat.lt_irrefl 0)

/-- Reports are added, from totals that are whole. -/
theorem exact_items (hid : p.reportId = seg.reportId) (hwhole : p.totals.whole = true) :
    Exact seg p.items ↔
      (∀ type ∈ p.kind.types, 0 < p.len type → p.len type = seg.totals.get type) ∧
        (seg.totals.whole = true → ∀ type ∈ seg.kind.types, 0 < seg.totals.get type →
          type ∈ p.kind.types ∧ 0 < p.len type) := by
  constructor
  · intro h
    refine ⟨fun type htype hpos => ?_, fun hseg type htype hpos => ?_⟩
    · obtain ⟨hmem, hmode⟩ := items_report.mpr ⟨type, htype, hpos, rfl⟩
      have hown := (h.own _ hmem hmode).2
      have hmod := whole_mod hwhole type
      rw [get_totals] at hmod
      change 8 * (p.len type / 8) = seg.totals.get type at hown
      omega
    · have hcount := h.each hseg type htype hpos
      change p.items.countP (ofType type) = 1 at hcount
      rw [countP_items] at hcount
      by_contra hnot
      rw [if_neg hnot] at hcount
      cases hcount
  · rintro ⟨hown, heach⟩
    refine ⟨fun item hmem hmode => ?_, fun hseg type htype hpos => ?_⟩
    · obtain ⟨type, htype, hpos, rfl⟩ := items_report.mp ⟨hmem, hmode⟩
      have hmod := whole_mod hwhole type
      rw [get_totals] at hmod
      refine ⟨hid, ?_⟩
      change 8 * (p.len type / 8) = seg.totals.get type
      rw [← hown type htype hpos]
      omega
    · change p.items.countP (ofType type) = 1
      rw [countP_items, if_pos (heach hseg type htype hpos)]

/-- What is added for a segment is right exactly when what is left of earlier ones does not falsify it. -/
theorem exact_iff (hodd : carry.totals = .zero ∨ carry.totals.whole = false) (hid : p.reportId = seg.reportId)
    (htotals : p.totals = carry.totals.add seg.totals) (hkind : p.kind = carry.under seg) :
    Exact seg (if p.totals.whole then p.items else []) ↔ carry.Apart seg := by
  have hlen : ∀ type, p.len type = carry.totals.get type + seg.totals.get type := by
    intro type
    rw [← get_totals, htotals, get_add]
  by_cases hzero : carry.totals = .zero
  · -- nothing is left
    refine iff_of_true ?_ fun hne => absurd hzero hne
    have hsame : ∀ type, p.len type = seg.totals.get type := by
      intro type
      rw [← get_totals, htotals, hzero, zero_add]
    rw [Carry.under, if_pos hzero] at hkind
    split
    · rename_i hwhole
      rw [exact_items hid hwhole, hkind]
      refine ⟨fun type _ _ => hsame type, fun _ type htype hpos => ⟨htype, ?_⟩⟩
      rwa [hsame]
    · rename_i hwhole
      rw [htotals, hzero, zero_add] at hwhole
      exact exact_nil.mpr fun hseg => absurd hseg hwhole
  · have hrest := hodd.resolve_left hzero
    rw [Carry.under, if_neg hzero] at hkind
    unfold Carry.Apart
    rw [forall_prop_of_true hzero]
    by_cases hseg : seg.totals.whole = true
    · -- a segment of whole bytes cannot be whole with the rest
      have hsum := not_whole_add hseg hrest
      rw [htotals, hsum, if_neg Bool.false_ne_true, if_pos hseg, exact_nil, forall_prop_of_true hseg]
    · rw [if_neg hseg, htotals]
      split
      · rename_i hwhole
        rw [exact_items hid (htotals ▸ hwhole), hkind, forall_prop_of_true hwhole]
        constructor
        · rintro ⟨hown, -⟩ type htype
          by_contra hne
          have hpos : 0 < p.len type := by
            rw [hlen]
            omega
          have := hown type htype hpos
          rw [hlen] at this
          omega
        · intro hnone
          refine ⟨fun type htype _ => ?_, fun h => absurd h hseg⟩
          rw [hlen, hnone type htype, Nat.zero_add]
      · rename_i hwhole
        exact iff_of_true (exact_nil.mpr fun h => absurd h hseg) fun h => absurd h hwhole

end exact

/-! ## The depth of a nest -/

section depth
variable {s s' : Parser} {c : Cmd}

/-- A report ID that is given, with the report that this ends. -/
theorem handleReportId_ok {value : Nat} (h : s.handleReportId value = .ok s') :
    s'.step = s.step ∧ s'.collectionDepth = s.collectionDepth := by
  unfold Parser.handleReportId at h
  split at h
  · obtain ⟨mid, hmid, rfl⟩ : ∃ mid, s.report = .ok mid ∧
        s' = Parser.setReportId { mid with params := mid.params.next } value := by
      cases hreport : s.report with
      | error _ => rw [hreport] at h; cases h
      | ok mid => rw [hreport] at h; exact ⟨mid, rfl, (Except.ok.inj h).symm⟩
    rw [(report_ok hmid).2]
    exact ⟨rfl, rfl⟩
  · obtain rfl := Except.ok.inj h
    exact ⟨rfl, rfl⟩

theorem handleGlobal_ok {value : Nat} {set : Parser → Nat → Parser} (h : s.handleGlobal value set = .ok s') :
    s' = set s value ∧ value ≤ 0xFFFF := by
  unfold Parser.handleGlobal at h
  split at h
  · cases h
  · rename_i hfit
    exact ⟨(Except.ok.inj h).symm, Nat.le_of_not_lt hfit⟩

theorem handleMain_ok {type : ReportType} (h : s.handleMain type = .ok s') :
    ∃ params, s' = { s with params := params } := by
  unfold Parser.handleMain at h
  split at h
  · cases h
  · exact ⟨_, (Except.ok.inj h).symm⟩

/-- Only collections count. -/
theorem inner_frame (h : s.handleInner c = .ok s') (hopen : c.cmd ≠ COLLECTION) (hclose : c.cmd ≠ END_COLLECTION) :
    s'.step = s.step ∧ s'.collectionDepth = s.collectionDepth := by
  unfold Parser.handleInner at h
  by_cases hid : c.cmd = REPORT_ID
  · rw [if_pos hid] at h
    exact handleReportId_ok h
  · rw [if_neg hid] at h
    split at h
    · obtain rfl := Except.ok.inj h
      exact ⟨rfl, rfl⟩
    · split at h
      · obtain rfl := Except.ok.inj h
        exact ⟨rfl, rfl⟩
      · split at h
        · rw [(handleGlobal_ok h).1]
          exact ⟨rfl, rfl⟩
        · split at h
          · rw [(handleGlobal_ok h).1]
            exact ⟨rfl, rfl⟩
          · split at h
            · obtain ⟨params, rfl⟩ := handleMain_ok h
              exact ⟨rfl, rfl⟩
            · split at h
              · obtain ⟨params, rfl⟩ := handleMain_ok h
                exact ⟨rfl, rfl⟩
              · split at h
                · obtain ⟨params, rfl⟩ := handleMain_ok h
                  exact ⟨rfl, rfl⟩
                · obtain rfl := Except.ok.inj h
                  exact ⟨rfl, rfl⟩

theorem inner_collection (hcmd : c.cmd = COLLECTION) :
    s.handleInner c = .ok { s with collectionDepth := (s.collectionDepth + 1) % 256 } := by
  unfold Parser.handleInner
  rw [hcmd]
  rfl

theorem inner_end (hcmd : c.cmd = END_COLLECTION) : s.handleInner c = s.handleEnd := by
  unfold Parser.handleInner
  rw [hcmd]
  rfl

/-- The end of a collection: the parser leaves it when its counter comes to zero. -/
theorem handleEnd_ok (h : s.handleEnd = .ok s') :
    if (s.collectionDepth + 255) % 256 = 0 then s'.step = .waitUsagePage
    else s' = { s with collectionDepth := (s.collectionDepth + 255) % 256 } := by
  unfold Parser.handleEnd at h
  dsimp only at h
  split at h
  · rename_i hzero
    rw [if_pos hzero]
    split at h
    · cases hreport : Parser.report { s with collectionDepth := (s.collectionDepth + 255) % 256 } with
      | error _ => rw [hreport] at h; cases h
      | ok mid =>
        rw [hreport] at h
        rw [← Except.ok.inj h]
    · rw [← Except.ok.inj h]
  · rename_i hzero
    rw [if_neg hzero]
    exact (Except.ok.inj h).symm

/-- Outside of collections. -/
theorem outer_ok (hstep : s.step ≠ .waitEndCollection) (h : handleCmd s c = .ok s') :
    c.cmd ≠ END_COLLECTION ∧
      if c.cmd = COLLECTION then s'.step = .waitEndCollection ∧ s'.collectionDepth = 1
      else s'.step ≠ .waitEndCollection := by
  unfold handleCmd at h
  cases hs : s.step with
  | waitUsagePage =>
    rw [hs] at h
    dsimp only at h
    split at h
    · cases h
    · rename_i hcmd
      rw [Decidable.not_not] at hcmd
      rw [hcmd, ← Except.ok.inj h, if_neg (by decide)]
      exact ⟨by decide, nofun⟩
  | waitUsage =>
    rw [hs] at h
    dsimp only at h
    split at h
    · cases h
    · rename_i hcmd
      rw [Decidable.not_not] at hcmd
      rw [hcmd, ← Except.ok.inj h, if_neg (by decide)]
      exact ⟨by decide, nofun⟩
  | waitCollectionApplication =>
    rw [hs] at h
    dsimp only at h
    split at h
    · cases h
    · rename_i hcmd
      rw [Decidable.not_not] at hcmd
      split at h
      · cases h
      · rw [hcmd, ← Except.ok.inj h, if_pos rfl]
        exact ⟨by decide, rfl, rfl⟩
  | waitEndCollection => exact absurd hs hstep

/-- The counter has run over: 256 collections are open at least, and the parser takes the lowest of them for closed. -/
def Floor (s : Parser) (depth : Nat) : Prop :=
  256 ≤ depth ∧
    if s.step = .waitEndCollection then 256 < depth ∧ s.collectionDepth = depth % 256 else depth % 256 = 0

theorem floor_run {items : List Cmd} {depth depth' : Nat} (hfloor : Floor s depth) (h : items.foldlM handleCmd s = .ok s')
    (hdepth : depthAfter depth items = some depth') : 256 ≤ depth' := by
  induction items generalizing s depth with
  | nil => exact Option.some.inj hdepth ▸ hfloor.1
  | cons c items ih =>
    rw [List.foldlM_cons] at h
    obtain ⟨mid, hmid, hrest⟩ : ∃ mid, handleCmd s c = .ok mid ∧ items.foldlM handleCmd mid = .ok s' := by
      cases hstep : handleCmd s c with
      | error _ => rw [hstep] at h; cases h
      | ok mid => rw [hstep] at h; exact ⟨mid, rfl, h⟩
    unfold depthAfter at hdepth
    obtain ⟨hle, hfloor⟩ := hfloor
    by_cases hstep : s.step = .waitEndCollection
    · rw [if_pos hstep] at hfloor
      have hinner : s.handleInner c = .ok mid := by
        rw [← hmid]
        unfold handleCmd
        rw [hstep]
      by_cases hopen : c.cmd = COLLECTION
      · rw [if_pos hopen] at hdepth
        rw [inner_collection hopen] at hinner
        refine ih ⟨by omega, ?_⟩ hrest hdepth
        rw [← Except.ok.inj hinner, if_pos hstep]
        dsimp only
        omega
      · rw [if_neg hopen] at hdepth
        by_cases hclose : c.cmd = END_COLLECTION
        · rw [if_pos hclose, if_neg (by omega)] at hdepth
          rw [inner_end hclose] at hinner
          have hend := handleEnd_ok hinner
          refine ih ⟨by omega, ?_⟩ hrest hdepth
          split at hend
          · rename_i hzero
            rw [hend, if_neg (by decide)]
            omega
          · rename_i hzero
            rw [hend, if_pos hstep]
            dsimp only
            omega
        · rw [if_neg hclose] at hdepth
          obtain ⟨hsame, hcount⟩ := inner_frame hinner hopen hclose
          refine ih ⟨hle, ?_⟩ hrest hdepth
          rw [hsame, hcount, if_pos hstep]
          exact hfloor
    · rw [if_neg hstep] at hfloor
      obtain ⟨hclose, houter⟩ := outer_ok hstep hmid
      by_cases hopen : c.cmd = COLLECTION
      · rw [if_pos hopen] at hdepth houter
        refine ih ⟨by omega, ?_⟩ hrest hdepth
        rw [if_pos houter.1, houter.2]
        omega
      · rw [if_neg hopen] at hdepth houter
        rw [if_neg hclose] at hdepth
        refine ih ⟨hle, ?_⟩ hrest hdepth
        rw [if_neg houter]
        exact hfloor

end depth

/-! ## Parser and text -/

/-- Within a collection the parser has the bits of the segment, and what is left of earlier ones. -/
structure Inside (s : Parser) (a : Split) (carry : Carry) : Prop where
  step : s.step = .waitEndCollection
  opened : 0 < a.depth
  depth : s.collectionDepth = a.depth % 256
  totals : s.params.totals = carry.totals.add a.seg.totals
  kind : s.params.kind = carry.under a.seg
  odd : carry.totals = .zero ∨ carry.totals.whole = false
  id : s.params.reportId = a.seg.reportId
  size : s.reportSize = a.size
  count : s.reportCount = a.count
  innerUsagePage : s.params.innerUsagePage = a.innerUsagePage
  innerUsage : s.params.innerUsage = a.innerUsage
  open_ : a.seg.last = false

/-- A text that starts a collection under a usage. -/
def Split.under (usagePage usage : Nat) : Split :=
  { Split.start with seg := { Split.start.seg with usagePage := usagePage, usage := usage } }

def Outside (s : Parser) (a : Split) : Prop :=
  match s.step with
  | .waitUsagePage => a.depth = 0
  | .waitUsage => a = .under a.seg.usagePage 0 ∧ s.reportSize = 0 ∧ s.reportCount = 0 ∧
      s.params = { ReportParams.zero with usagePage := a.seg.usagePage }
  | .waitCollectionApplication => a = .under a.seg.usagePage a.seg.usage ∧ s.reportSize = 0 ∧ s.reportCount = 0 ∧
      s.params = { ReportParams.zero with usagePage := a.seg.usagePage, usage := a.seg.usage }
  | .waitEndCollection => False

def Sync (s : Parser) (a : Split) (carry : Carry) : Prop := Inside s a carry ∨ Outside s a ∧ carry = .none

/-- Until there is a report the table is left as it is. -/
def Keeps (s s' : Parser) : Prop := s'.newMap = true → s.newMap = true ∧ s'.temp = s.temp

/-- An item that closes no segment adds no report; the reports for a segment that is closed are right exactly when it
is not falsified. -/
def Follows (s s' : Parser) (carry : Carry) : Split × Option Segment → Prop
  | (a, none) => Sync s' a carry ∧ s'.table = s.table ∧ Keeps s s'
  | (a, some seg) => ∃ added, s'.table = s.table ++ added ∧ Keeps s s' ∧ (Exact seg added ↔ carry.Apart seg) ∧
      Sync s' a (carry.next seg)

section sync
variable {s s' : Parser} {a : Split} {carry : Carry} {c : Cmd}

theorem report_keeps {s t s' : Parser} (h : s.report = .ok s') {params : ReportParams} {step : ParseStep} :
    Keeps t { s' with params := params, step := step } := by
  rw [(report_ok h).2]
  nofun

theorem kind_congr {p q : ReportParams} (hpage : p.usagePage = q.usagePage) (husage : p.usage = q.usage) :
    p.kind = q.kind := by
  unfold ReportParams.kind
  rw [hpage, husage]

/-- What is closed within a collection. -/
theorem Inside.exact (h : Inside s a carry) (last : Bool) :
    Exact { a.seg with last := last } (if s.params.wholeBytes then s.params.items else []) ↔
      carry.Apart { a.seg with last := last } := by
  rw [wholeBytes_eq]
  exact @exact_iff { a.seg with last := last } carry s.params h.odd h.id h.totals h.kind

/-- The report ID changes. -/
theorem Inside.change (h : Inside s a carry) {value : Nat} (hvalue : value < 256)
    (hchange : a.seg.reportId ≠ 0 ∧ a.seg.reportId ≠ value) (hstep : s.handleReportId value = .ok s') :
    Follows s s' carry ({ a with seg := ⟨a.innerUsagePage, a.innerUsage, value, [], false⟩ }, some a.seg) := by
  have hseg : { a.seg with last := false } = a.seg := by rw [← h.open_]
  have hexact := h.exact false
  rw [hseg] at hexact
  unfold Parser.handleReportId at hstep
  rw [h.id] at hstep
  by_cases hwhole : s.params.wholeBytes = true
  · rw [if_pos ⟨hchange.1, hchange.2, hwhole⟩] at hstep
    rw [if_pos hwhole] at hexact
    cases hreport : s.report with
    | error _ => rw [hreport] at hstep; cases hstep
    | ok mid =>
      rw [hreport] at hstep
      obtain ⟨htable, hmid⟩ := report_ok hreport
      rw [← Except.ok.inj hstep]
      refine ⟨s.params.items, htable, report_keeps hreport, hexact, .inl ?_⟩
      have hnext : carry.next a.seg = .none := by
        unfold Carry.next
        rw [wholeBytes_eq, h.totals] at hwhole
        rw [if_pos (.inr hwhole)]
      rw [hnext, hmid]
      exact ⟨h.step, h.opened, h.depth, rfl, kind_congr h.innerUsagePage h.innerUsage, .inl rfl, Nat.mod_eq_of_lt hvalue,
        h.size, h.count, h.innerUsagePage, h.innerUsage, rfl⟩
  · rw [if_neg fun hall => hwhole hall.2.2] at hstep
    rw [if_neg hwhole] at hexact
    rw [← Except.ok.inj hstep]
    refine ⟨[], (List.append_nil _).symm, fun hnew => ⟨hnew, rfl⟩, hexact, .inl ?_⟩
    rw [wholeBytes_eq, h.totals, Bool.not_eq_true] at hwhole
    have hnext : carry.next a.seg = ⟨carry.totals.add a.seg.totals, carry.under a.seg⟩ := by
      unfold Carry.next
      rw [h.open_, hwhole, if_neg (by simp)]
    have hne : carry.totals.add a.seg.totals ≠ .zero := by
      intro hzero
      rw [hzero] at hwhole
      cases hwhole
    rw [hnext]
    refine ⟨h.step, h.opened, h.depth, h.totals, ?_, .inr hwhole, Nat.mod_eq_of_lt hvalue, h.size, h.count,
      h.innerUsagePage, h.innerUsage, rfl⟩
    unfold Carry.under
    rw [if_neg hne]
    exact h.kind

theorem Inside.giveId (h : Inside s a carry) {value : Nat} (hvalue : value < 256)
    (hstep : s.handleReportId value = .ok s') : Follows s s' carry (a.giveId value) := by
  unfold Split.giveId
  by_cases hchange : a.seg.reportId ≠ 0 ∧ a.seg.reportId ≠ value
  · rw [if_pos hchange]
    exact h.change hvalue hchange hstep
  · rw [if_neg hchange]
    unfold Parser.handleReportId at hstep
    rw [h.id, if_neg fun hall => hchange ⟨hall.1, hall.2.1⟩] at hstep
    rw [← Except.ok.inj hstep]
    exact ⟨.inl { h with id := Nat.mod_eq_of_lt hvalue }, rfl, fun hnew => ⟨hnew, rfl⟩⟩

/-- A main item adds its bits to the totals of its type. -/
theorem Inside.main (h : Inside s a carry) {type : ReportType} (hstep : s.handleMain type = .ok s') :
    Follows s s' carry (a.addMain type, none) := by
  unfold Parser.handleMain at hstep
  split at hstep
  · cases hstep
  · rename_i len hlen
    rw [← Except.ok.inj hstep]
    have hlen : len = s.params.len type + a.size * a.count := by
      unfold addReportLenBitsTo at hlen
      dsimp only at hlen
      split at hlen
      · cases hlen
      · rw [← Option.some.inj hlen, h.size, h.count]
    have hbits : ∀ type', (a.addMain type).seg.bits type' =
        a.seg.bits type' + if type = type' then a.size * a.count else 0 := by
      intro type'
      simp [Split.addMain, Segment.bits]
    refine ⟨.inl ⟨h.step, h.opened, h.depth, ?_, ?_, h.odd, ?_, h.size, h.count, ?_, ?_, h.open_⟩, rfl,
      fun hnew => ⟨hnew, rfl⟩⟩
    · have htotals := h.totals
      unfold Segment.totals Totals.add ReportParams.totals at htotals ⊢
      simp only [Totals.mk.injEq] at htotals
      rw [hbits, hbits, hbits]
      cases type <;> simp [hlen, ReportParams.len, htotals, Nat.add_assoc]
    · refine Eq.trans ?_ h.kind
      cases type <;> exact kind_congr rfl rfl
    · cases type <;> exact h.id
    · cases type <;> exact h.innerUsagePage
    · cases type <;> exact h.innerUsage

/-- The end of a collection; the parser takes no other end for that of the application collection. -/
theorem Inside.end_ (h : Inside s a carry) {items : List Cmd} {final : Parser} (hstep : s.handleEnd = .ok s')
    (hrest : items.foldlM handleCmd s' = .ok final) (hdepth : depthAfter (a.depth - 1) items = some 0) :
    Follows s s' carry ({ a with depth := a.depth - 1 }, if a.depth = 1 then some { a.seg with last := true } else none) := by
  have hopened := h.opened
  by_cases hone : a.depth = 1
  · rw [if_pos hone]
    have hzero : (s.collectionDepth + 255) % 256 = 0 := by rw [h.depth, hone]
    have hexact := h.exact true
    have hnext : carry.next { a.seg with last := true } = .none := by
      unfold Carry.next
      rw [if_pos (.inl rfl)]
    unfold Parser.handleEnd at hstep
    dsimp only at hstep
    rw [if_pos hzero] at hstep
    have houtside : ∀ {s : Parser}, s.step = .waitUsagePage → Sync s { a with depth := a.depth - 1 } .none := by
      intro s hs
      refine .inr ⟨?_, rfl⟩
      unfold Outside
      rw [hs]
      dsimp only
      omega
    by_cases hwhole : s.params.wholeBytes = true
    · rw [if_pos hwhole] at hstep hexact
      cases hreport : Parser.report { s with collectionDepth := (s.collectionDepth + 255) % 256 } with
      | error _ => rw [hreport] at hstep; cases hstep
      | ok mid =>
        rw [hreport] at hstep
        rw [← Except.ok.inj hstep]
        exact ⟨s.params.items, (report_ok hreport).1, report_keeps hreport, hexact, hnext ▸ houtside rfl⟩
    · rw [if_neg hwhole] at hstep hexact
      rw [← Except.ok.inj hstep]
      exact ⟨[], (List.append_nil _).symm, fun hnew => ⟨hnew, rfl⟩, hexact, hnext ▸ houtside rfl⟩
  · rw [if_neg hone]
    have hend := handleEnd_ok hstep
    split at hend
    · -- the counter has run over
      rename_i hzero
      rw [h.depth] at hzero
      have hfloor : Floor s' (a.depth - 1) := by
        refine ⟨by omega, ?_⟩
        rw [hend, if_neg (by decide)]
        omega
      exact absurd (floor_run hfloor hrest hdepth) (by decide)
    · rw [hend]
      refine ⟨.inl { h with opened := ?_, depth := ?_ }, rfl, fun hnew => ⟨hnew, rfl⟩⟩
      · dsimp only
        omega
      · dsimp only
        rw [h.depth]
        omega

/-- An item within a collection. -/
theorem Inside.follows (h : Inside s a carry) (hid : c.cmd = REPORT_ID → c.value < 256) {items : List Cmd} {final : Parser}
    (hstep : s.handleInner c = .ok s') (hrest : items.foldlM handleCmd s' = .ok final)
    (hdepth : depthAfter a.depth (c :: items) = some 0) : Follows s s' carry (a.step c) := by
  have hopened := h.opened
  by_cases hclose : c.cmd = END_COLLECTION
  · have hgo : a.step c =
        ({ a with depth := a.depth - 1 }, if a.depth = 1 then some { a.seg with last := true } else none) := by
      unfold Split.step
      rw [hclose, if_neg (by omega)]
      rfl
    unfold depthAfter at hdepth
    rw [hclose, if_neg (by decide), if_pos rfl, if_neg (by omega)] at hdepth
    rw [hgo]
    exact h.end_ (inner_end hclose ▸ hstep) hrest hdepth
  · unfold Split.step
    unfold Parser.handleInner at hstep
    rw [if_neg (by omega)]
    rw [if_neg hclose] at hstep ⊢
    by_cases hreportId : c.cmd = REPORT_ID
    · rw [if_pos hreportId] at hstep ⊢
      exact h.giveId (hid hreportId) hstep
    rw [if_neg hreportId] at hstep ⊢
    by_cases hpage : c.cmd = USAGE_PAGE
    · rw [if_pos hpage] at hstep ⊢
      rw [← Except.ok.inj hstep]
      exact ⟨.inl { h with innerUsagePage := rfl }, rfl, fun hnew => ⟨hnew, rfl⟩⟩
    rw [if_neg hpage] at hstep ⊢
    by_cases husage : c.cmd = USAGE
    · rw [if_pos husage] at hstep ⊢
      rw [← Except.ok.inj hstep]
      exact ⟨.inl { h with innerUsage := rfl }, rfl, fun hnew => ⟨hnew, rfl⟩⟩
    rw [if_neg husage] at hstep ⊢
    by_cases hsize : c.cmd = REPORT_SIZE
    · rw [if_pos hsize] at hstep ⊢
      rw [(handleGlobal_ok hstep).1]
      exact ⟨.inl { h with size := rfl }, rfl, fun hnew => ⟨hnew, rfl⟩⟩
    rw [if_neg hsize] at hstep ⊢
    by_cases hcount : c.cmd = REPORT_COUNT
    · rw [if_pos hcount] at hstep ⊢
      rw [(handleGlobal_ok hstep).1]
      exact ⟨.inl { h with count := rfl }, rfl, fun hnew => ⟨hnew, rfl⟩⟩
    rw [if_neg hcount] at hstep ⊢
    by_cases hinput : c.cmd = INPUT
    · rw [if_pos hinput] at hstep ⊢
      exact h.main hstep
    rw [if_neg hinput] at hstep ⊢
    by_cases houtput : c.cmd = OUTPUT
    · rw [if_pos houtput] at hstep ⊢
      exact h.main hstep
    rw [if_neg houtput] at hstep ⊢
    by_cases hfeature : c.cmd = FEATURE
    · rw [if_pos hfeature] at hstep ⊢
      exact h.main hstep
    rw [if_neg hfeature] at hstep ⊢
    by_cases hopen : c.cmd = COLLECTION
    · rw [if_pos hopen] at hstep ⊢
      rw [← Except.ok.inj hstep]
      refine ⟨.inl { h with opened := Nat.succ_pos _, depth := ?_ }, rfl, fun hnew => ⟨hnew, rfl⟩⟩
      dsimp only
      rw [h.depth]
      omega
    · rw [if_neg hopen] at hstep ⊢
      rw [← Except.ok.inj hstep]
      exact ⟨.inl h, rfl, fun hnew => ⟨hnew, rfl⟩⟩

/-- An item outside of collections. -/
theorem Outside.follows (h : Outside s a) (hstep : handleCmd s c = .ok s') : Follows s s' .none (a.step c) := by
  unfold handleCmd at hstep
  unfold Outside at h
  cases hs : s.step with
  | waitUsagePage =>
    rw [hs] at h hstep
    dsimp only at h hstep
    split at hstep
    · cases hstep
    · rename_i hcmd
      rw [Decidable.not_not] at hcmd
      unfold Split.step
      rw [if_pos h, if_pos hcmd, ← Except.ok.inj hstep]
      exact ⟨.inr ⟨⟨rfl, rfl, rfl, rfl⟩, rfl⟩, rfl, fun hnew => ⟨hnew, rfl⟩⟩
  | waitUsage =>
    rw [hs] at h hstep
    dsimp only at h hstep
    split at hstep
    · cases hstep
    · rename_i hcmd
      rw [Decidable.not_not] at hcmd
      obtain ⟨ha, hsize, hcount, hparams⟩ := h
      unfold Split.step
      rw [ha, if_pos (show (Split.under _ _).depth = 0 from rfl), if_neg (by rw [hcmd]; decide), if_pos hcmd,
        ← Except.ok.inj hstep]
      refine ⟨.inr ⟨⟨rfl, hsize, hcount, ?_⟩, rfl⟩, rfl, fun hnew => ⟨hnew, rfl⟩⟩
      rw [hparams]
      rfl
  | waitCollectionApplication =>
    rw [hs] at h hstep
    dsimp only at h hstep
    split at hstep
    · cases hstep
    · rename_i hcmd
      rw [Decidable.not_not] at hcmd
      split at hstep
      · cases hstep
      · obtain ⟨ha, hsize, hcount, hparams⟩ := h
        unfold Split.step
        rw [ha, if_pos (show (Split.under _ _).depth = 0 from rfl), if_neg (by rw [hcmd]; decide),
          if_neg (by rw [hcmd]; decide), if_pos hcmd, ← Except.ok.inj hstep, hparams]
        exact ⟨.inl ⟨rfl, Nat.one_pos, rfl, rfl, rfl, .inl rfl, rfl, hsize, hcount, rfl, rfl, rfl⟩, rfl,
          fun hnew => ⟨hnew, rfl⟩⟩
  | waitEndCollection =>
    rw [hs] at h
    exact h.elim

theorem sync_step (h : Sync s a carry) (hid : c.cmd = REPORT_ID → c.value < 256) {items : List Cmd} {final : Parser}
    (hstep : handleCmd s c = .ok s') (hrest : items.foldlM handleCmd s' = .ok final)
    (hdepth : depthAfter a.depth (c :: items) = some 0) : Follows s s' carry (a.step c) := by
  rcases h with h | ⟨h, rfl⟩
  · refine h.follows hid ?_ hrest hdepth
    rw [← hstep]
    unfold handleCmd
    rw [h.step]
  · exact h.follows hstep

/-- The text knows how many collections are open. -/
theorem depth_step {items : List Cmd} (h : depthAfter a.depth (c :: items) = some 0) :
    depthAfter (a.step c).1.depth items = some 0 := by
  unfold depthAfter at h
  by_cases hopen : c.cmd = COLLECTION
  · rw [if_pos hopen] at h
    have hdepth : (a.step c).1.depth = a.depth + 1 := by
      unfold Split.step
      by_cases hzero : a.depth = 0
      · rw [if_pos hzero, if_neg (by rw [hopen]; decide), if_neg (by rw [hopen]; decide), if_pos hopen, hzero]
      · rw [if_neg hzero, hopen]
        rfl
    rwa [hdepth]
  rw [if_neg hopen] at h
  by_cases hclose : c.cmd = END_COLLECTION
  · rw [if_pos hclose] at h
    split at h
    · cases h
    · rename_i hzero
      have hdepth : (a.step c).1.depth = a.depth - 1 := by
        unfold Split.step
        rw [if_neg hzero, hclose]
        rfl
      rwa [hdepth]
  rw [if_neg hclose] at h
  have hdepth : (a.step c).1.depth = a.depth := by
    unfold Split.step Split.giveId
    by_cases hzero : a.depth = 0
    · rw [if_pos hzero, if_neg hopen]
      split
      · exact hzero.symm
      · split <;> rfl
    · rw [if_neg hzero, if_neg hopen, if_neg hclose]
      repeat' split
      all_goals rfl
  rwa [hdepth]

/-- A whole text. -/
theorem rounds_iff {items : List Cmd} (hsync : Sync s a carry) (hids : IdsFit items)
    (hrun : items.foldlM handleCmd s = .ok s') (hdepth : depthAfter a.depth items = some 0) :
    s'.table = s.table ++ (rounds s a [] items).flatMap Prod.snd ∧ Keeps s s' ∧
      (rounds s a [] items).map Prod.fst = segments a items ∧
      ((∀ r ∈ rounds s a [] items, Exact r.1 r.2) ↔ AllApart carry (segments a items)) := by
  induction items generalizing s a carry with
  | nil =>
    obtain rfl := Except.ok.inj hrun
    exact ⟨(List.append_nil _).symm, fun hnew => ⟨hnew, rfl⟩, rfl, iff_of_true nofun trivial⟩
  | cons c items ih =>
    rw [List.foldlM_cons] at hrun
    obtain ⟨mid, hmid, hrest⟩ : ∃ mid, handleCmd s c = .ok mid ∧ items.foldlM handleCmd mid = .ok s' := by
      cases hstep : handleCmd s c with
      | error _ => rw [hstep] at hrun; cases hrun
      | ok mid => rw [hstep] at hrun; exact ⟨mid, rfl, hrun⟩
    obtain ⟨hid, hids⟩ := List.forall_mem_cons.mp hids
    have hfollows := sync_step hsync hid hmid hrest hdepth
    have hnext := depth_step hdepth
    unfold rounds segments
    rw [hmid]
    dsimp only
    generalize a.step c = out at hfollows hnext
    obtain ⟨a', closed⟩ := out
    cases closed with
    | none =>
      obtain ⟨hsync', htable, hkeeps⟩ := hfollows
      obtain ⟨htable', hkeeps', hsegments, hiff⟩ := ih hsync' hids hrest hnext
      dsimp only
      rw [htable, List.drop_length, List.append_nil]
      refine ⟨htable ▸ htable', fun hnew => ?_, hsegments, hiff⟩
      obtain ⟨hmid, htemp⟩ := hkeeps' hnew
      exact ⟨(hkeeps hmid).1, htemp.trans (hkeeps hmid).2⟩
    | some seg =>
      obtain ⟨added, htable, hkeeps, hexact, hsync'⟩ := hfollows
      obtain ⟨htable', hkeeps', hsegments, hiff⟩ := ih hsync' hids hrest hnext
      dsimp only
      rw [htable, List.drop_left, List.nil_append]
      refine ⟨?_, fun hnew => ?_, ?_, ?_⟩
      · rw [htable', htable, List.append_assoc, List.flatMap_cons]
      · obtain ⟨hmid, htemp⟩ := hkeeps' hnew
        exact ⟨(hkeeps hmid).1, htemp.trans (hkeeps hmid).2⟩
      · rw [List.map_cons, hsegments]
        rfl
      · rw [List.forall_mem_cons, hexact, hiff]
        exact Iff.rfl

end sync

/-! ## Descriptors -/

/-- The items of a descriptor. -/
def itemsOf (bytes : List UInt8) : List Cmd := (commands bytes.length bytes).1

/-- The parser, called for the first time. -/
def firstCall : Parser := { Parser.init with newMap := true }

/-- The reports that are handed out are those for the segments, and these are exact. -/
def LengthsExact (bytes : List UInt8) (map : ReportMap) : Prop :=
  let found := rounds firstCall .start [] (itemsOf bytes)
  map.reports = found.flatMap Prod.snd ∧ found.map Prod.fst = segments .start (itemsOf bytes) ∧
    ∀ r ∈ found, Exact r.1 r.2

/-- For every descriptor that is accepted, with collections nested to any depth. -/
theorem lengths_exact_iff (zeroAlloc : Bool) (bytes : List UInt8) (map : ReportMap)
    (haccepted : (espHidParseReportMap zeroAlloc .init bytes).1 = some map) (hnested : Nested (itemsOf bytes))
    (hids : IdsFit (itemsOf bytes)) :
    LengthsExact bytes map ↔ AllApart .none (segments .start (itemsOf bytes)) := by
  have hloop := parseLoop_eq bytes.length firstCall bytes
  rw [result_eq] at haccepted
  change handedOut zeroAlloc (parseLoop bytes.length firstCall bytes) = some map at haccepted
  cases hparsed : parseLoop bytes.length firstCall bytes with
  | error s => rw [hparsed] at haccepted; cases haccepted
  | ok s =>
    rw [hparsed] at haccepted hloop
    have hrun : (itemsOf bytes).foldlM handleCmd firstCall = .ok s := by
      unfold itemsOf
      cases hfold : (commands bytes.length bytes).1.foldlM handleCmd firstCall with
      | error _ => rw [hfold] at hloop; cases hloop
      | ok mid =>
        rw [hfold] at hloop
        cases hwhole : (commands bytes.length bytes).2 with
        | false => rw [hwhole] at hloop; cases hloop
        | true => rw [hwhole] at hloop; exact hloop.symm
    have hsync : Sync firstCall .start .none := .inr ⟨rfl, rfl⟩
    obtain ⟨htable, hkeeps, hsegments, hiff⟩ := rounds_iff hsync hids hrun hnested
    have hreports : map.reports = s.table := by
      change shown zeroAlloc s.temp = some map at haccepted
      cases htemp : s.temp with
      | none => rw [htemp] at haccepted; cases haccepted
      | some found =>
        cases hnew : s.newMap with
        | true =>
          have hnone := (hkeeps hnew).2
          rw [htemp] at hnone
          cases hnone
        | false =>
          rw [htemp] at haccepted
          unfold shown at haccepted
          unfold Parser.table
          rw [hnew, htemp]
          dsimp only at haccepted
          split at haccepted
          · cases haccepted
          · rw [← Option.some.inj haccepted]
            rfl
    exact ⟨fun h => hiff.mp h.2.2, fun h => ⟨hreports.trans htable, hsegments, hiff.mpr h⟩⟩

/-- A gamepad with three reports, of 8, 4 and 8 bits. -/
def threeReports : List UInt8 :=
  [0x05, 0x01, 0x09, 0x05, 0xA1, 0x01, 0x85, 0x01, 0x75, 0x08, 0x95, 0x01, 0x81, 0x02, 0x85, 0x02, 0x75, 0x04, 0x81, 0x02,
    0x85, 0x03, 0x75, 0x08, 0x81, 0x02, 0xC0]

/-- The one that is found. -/
def firstOfThree : ReportItem := ⟨.gamepad, 1, .input, .report, 1⟩

theorem lengths_exact_three :
    LengthsExact threeReports ⟨.gamepad, 0x03C4, [firstOfThree]⟩ ↔ AllApart .none (segments .start (itemsOf threeReports)) :=
  lengths_exact_iff false threeReports _ (by decide) (by unfold Nested; decide) (by unfold IdsFit; decide)

/-- The four bits stay, and the third report is lost although it is of whole bytes. -/
theorem rest_falsifies_next :
    (espHidParseReportMap false .init threeReports).1 = some ⟨.gamepad, 0x03C4, [firstOfThree]⟩ ∧
      Nested (itemsOf threeReports) ∧ ¬LengthsExact threeReports ⟨.gamepad, 0x03C4, [firstOfThree]⟩ := by
  refine ⟨by decide, by unfold Nested; decide, fun h => ?_⟩
  have hthird := h.2.2 (⟨0, 0, 3, [⟨.input, 8, 1⟩], true⟩, []) (by decide)
  exact absurd (hthird.each (by decide) .input (by decide) (by decide)) (by decide)

end EspIdf.Hid
