import EspIdf.A2dp.Sink

/-!
# The receive queue of the sink over runs

* `frees`, `decodes`, `enqueues` : what a step does to packets;
* `Observed`, `observe` : the task with what it was handed, freed and decoded;
* `Moves` : a step frees or keeps each packet, and decodes from the front of the queue;
* `Ready`, `Inv` : the invariant, and `sink_sound` : what it says of every run.
-/

namespace EspIdf.A2dp.Sink

open AvCo

variable {Pkt : Type}

/-! ## What a run is held to -/

def Action.freed : Action Pkt → Option Pkt
  | .free pkt => some pkt
  | _ => none

def Action.decoded : Action Pkt → Option Pkt
  | .decode pkt => some pkt
  | _ => none

def Action.enqueued : Action Pkt → Option Pkt
  | .enqueue pkt => some pkt
  | _ => none

def frees (actions : List (Action Pkt)) : List Pkt := actions.filterMap Action.freed

def decodes (actions : List (Action Pkt)) : List Pkt := actions.filterMap Action.decoded

def enqueues (actions : List (Action Pkt)) : List Pkt := actions.filterMap Action.enqueued

/-- The packet that an event hands to the task. -/
def Event.handed : Event Pkt → List Pkt
  | .enqueBuf pkt _ _ => [pkt]
  | _ => []

/-- The event configures the decoder, whether it succeeds or not. -/
def Event.configures : Event Pkt → Bool
  | .decoderReset _ _ _ => true
  | _ => false

/-- The task, with the packets so far in the order of time; the last two fields start over at each configuration. -/
structure Observed (Pkt : Type) where
  param : LocalParam Pkt
  handed : List Pkt
  freed : List Pkt
  decoded : List Pkt
  enqueuedSince : List Pkt
  decodedSince : List Pkt

def observe (build : Build) (o : Observed Pkt) (event : Event Pkt) : Observed Pkt where
  param := (step build o.param event).1
  handed := o.handed ++ event.handed
  freed := o.freed ++ frees (step build o.param event).2
  decoded := o.decoded ++ decodes (step build o.param event).2
  enqueuedSince := if event.configures then [] else o.enqueuedSince ++ enqueues (step build o.param event).2
  decodedSince := if event.configures then [] else o.decodedSince ++ decodes (step build o.param event).2

/-- The state after a history, the latest event first. -/
def observed (build : Build) : List (Event Pkt) → Observed Pkt
  | [] => { param := .init, handed := [], freed := [], decoded := [], enqueuedSince := [], decodedSince := [] }
  | event :: earlier => observe build (observed build earlier) event

/-- The packets in the queue. -/
def LocalParam.queued (param : LocalParam Pkt) : List Pkt := param.queue.getD []

/-- A decoder that is ready is there, with the scratch buffer of its codec. -/
def LocalParam.Ready (build : Build) (param : LocalParam Pkt) : Prop :=
  param.decoderReady = true → param.decoder.isSome ∧ param.decodeBuf = some param.decodeBufLen ∧
    param.decodeBufLen = decodeBufSize build param.codecIndex

/-- What holds at every point of a run. -/
structure Sound [DecidableEq Pkt] (build : Build) (o : Observed Pkt) : Prop where
  ready : o.param.Ready build
  limit : o.param.queued.length ≤ queueLimit build o.param.codecIndex
  /-- A packet is freed as often as it was handed over, once those in the queue are counted. -/
  freedOnce : ∀ pkt, o.handed.count pkt = o.freed.count pkt + o.param.queued.count pkt
  /-- Packets are decoded in the order of their arrival. -/
  order : o.decoded.Sublist o.handed
  /-- Since the last configuration only packets enqueued since are decoded. -/
  fresh : o.decodedSince.Sublist o.enqueuedSince

/-! ## Lists of actions -/

section Actions

variable {first second : List (Action Pkt)} {pkt : Pkt} {pkts : List Pkt}

@[simp] theorem frees_append : frees (first ++ second) = frees first ++ frees second := List.filterMap_append

@[simp] theorem decodes_append : decodes (first ++ second) = decodes first ++ decodes second := List.filterMap_append

@[simp] theorem enqueues_append : enqueues (first ++ second) = enqueues first ++ enqueues second :=
  List.filterMap_append

@[simp] theorem frees_cons_free : frees (.free pkt :: first) = pkt :: frees first := rfl
@[simp] theorem decodes_cons_free : decodes (.free pkt :: first) = decodes first := rfl
@[simp] theorem enqueues_cons_free : enqueues (.free pkt :: first) = enqueues first := rfl
@[simp] theorem frees_decode : frees [.decode pkt] = [] := rfl
@[simp] theorem decodes_decode : decodes [.decode pkt] = [pkt] := rfl
@[simp] theorem enqueues_decode : enqueues [.decode pkt] = [] := rfl
@[simp] theorem frees_enqueue : frees [.enqueue pkt] = [] := rfl
@[simp] theorem decodes_enqueue : decodes [.enqueue pkt] = [] := rfl
@[simp] theorem enqueues_enqueue : enqueues [.enqueue pkt] = [pkt] := rfl
@[simp] theorem frees_nil : frees ([] : List (Action Pkt)) = [] := rfl
@[simp] theorem decodes_nil : decodes ([] : List (Action Pkt)) = [] := rfl
@[simp] theorem enqueues_nil : enqueues ([] : List (Action Pkt)) = [] := rfl

@[simp] theorem frees_map_free : frees (pkts.map Action.free) = pkts := by
  induction pkts with
  | nil => rfl
  | cons pkt pkts ih => rw [List.map_cons, frees_cons_free, ih]

@[simp] theorem decodes_map_free : decodes (pkts.map Action.free) = [] := by
  induction pkts with
  | nil => rfl
  | cons pkt pkts ih => rw [List.map_cons, decodes_cons_free, ih]

@[simp] theorem enqueues_map_free : enqueues (pkts.map Action.free) = [] := by
  induction pkts with
  | nil => rfl
  | cons pkt pkts ih => rw [List.map_cons, enqueues_cons_free, ih]

end Actions

/-! ## One step -/

/-- What a step does to the packets: each is freed or stays, and what is decoded comes before what stays. -/
structure Moves [DecidableEq Pkt] (before handed : List Pkt) (actions : List (Action Pkt)) (after : List Pkt) : Prop where
  count : ∀ pkt, before.count pkt + handed.count pkt = (frees actions).count pkt + after.count pkt
  order : (decodes actions ++ after).Sublist (before ++ enqueues actions)
  enqueued : (enqueues actions).Sublist handed

variable [DecidableEq Pkt] {build : Build} {param : LocalParam Pkt} {event : Event Pkt}

theorem moves_none (pkts : List Pkt) : Moves pkts [] [] pkts where
  count := fun pkt => by simp
  order := by simp
  enqueued := List.Sublist.refl _

theorem moves_flush (pkts : List Pkt) : Moves pkts [] (pkts.map Action.free) [] where
  count := fun pkt => by simp
  order := by simp
  enqueued := by simp

/-- A packet that is not taken is freed. -/
theorem moves_refused (pkts : List Pkt) (pkt : Pkt) : Moves pkts [pkt] [.free pkt] pkts where
  count := fun pkt' => by simp [Nat.add_comm]
  order := by simp
  enqueued := by simp

/-- The oldest packets are dropped, and a new one comes behind the others. -/
theorem moves_enqueued (dropped kept : List Pkt) (pkt : Pkt) :
    Moves (dropped ++ kept) [pkt] (dropped.map Action.free ++ [.enqueue pkt]) (kept ++ [pkt]) where
  count := fun pkt' => by
    simp
    omega
  order := by simp
  enqueued := by simp

/-- The oldest packets are dropped, and the new one is refused. -/
theorem moves_dropped (dropped kept : List Pkt) (pkt : Pkt) :
    Moves (dropped ++ kept) [pkt] (dropped.map Action.free ++ [.free pkt]) kept where
  count := fun pkt' => by
    simp
    omega
  order := by simp
  enqueued := by simp

omit [DecidableEq Pkt] in
/-- A flush empties the queue and leaves the rest. -/
theorem flushQ_spec (param : LocalParam Pkt) :
    ∃ queue, param.flushQ = ({ param with queue := queue }, param.queued.map Action.free) ∧ queue.getD [] = [] ∧
      (param.queue = none → queue = none) := by
  obtain ⟨state, queue, hasEvent, rxFlush, decoder, decodeBuf, decodeBufLen, codecIndex, decoderReady, enqCounter⟩ := param
  cases queue with
  | none => exact ⟨none, rfl, rfl, fun _ => rfl⟩
  | some pkts => exact ⟨some [], rfl, rfl, fun h => nomatch h⟩

omit [DecidableEq Pkt] in
/-- Only the buffer and its length change; a buffer that is configured has the length that is required. -/
theorem configureDecodeBuf_spec (hbuf : ∀ len, param.decodeBuf = some len → len = param.decodeBufLen) (malloc : Bool)
    (requiredLen : Nat) : ∃ buf len ok, param.configureDecodeBuf malloc requiredLen =
      ({ param with decodeBuf := buf, decodeBufLen := len }, ok) ∧ (∀ len', buf = some len' → len' = len) ∧
      (ok = true → 0 < requiredLen → buf = some len ∧ len = requiredLen) := by
  unfold LocalParam.configureDecodeBuf
  by_cases hsame : param.decodeBufLen = requiredLen ∧ (requiredLen = 0 ∨ param.decodeBuf.isSome)
  · rw [if_pos hsame]
    refine ⟨param.decodeBuf, param.decodeBufLen, true, rfl, hbuf, fun _ hpos => ⟨?_, hsame.1⟩⟩
    obtain ⟨len, hlen⟩ := Option.isSome_iff_exists.mp (hsame.2.resolve_left (Nat.ne_of_gt hpos))
    rw [hlen, hbuf len hlen]
  · rw [if_neg hsame]
    -- The old buffer is gone before the new one is asked for.
    obtain ⟨len, hcleared⟩ : ∃ len, (if param.decodeBuf.isSome then { param with decodeBuf := none, decodeBufLen := 0 }
        else param) = { param with decodeBuf := none, decodeBufLen := len } := by
      cases hold : param.decodeBuf with
      | some old => exact ⟨0, rfl⟩
      | none =>
          refine ⟨param.decodeBufLen, ?_⟩
          rw [← hold]
          exact if_neg (by rw [hold]; exact Bool.false_ne_true)
    rw [hcleared]
    dsimp only
    by_cases hzero : requiredLen = 0
    · rw [if_pos hzero]
      exact ⟨none, len, true, rfl, fun _ h => (nomatch h), fun _ hpos => absurd hzero (Nat.ne_of_gt hpos)⟩
    · rw [if_neg hzero]
      cases malloc with
      | true => exact ⟨some requiredLen, requiredLen, true, rfl, fun _ h => (Option.some.inj h).symm, fun _ _ => ⟨rfl, rfl⟩⟩
      | false => exact ⟨none, len, false, rfl, fun _ h => (nomatch h), fun h => (nomatch h)⟩

theorem decodeBufSize_pos (build : Build) (codecIndex : Option Codec) : 0 < decodeBufSize build codecIndex := by
  unfold decodeBufSize
  split <;> (try split) <;> decide

/-! ## The invariant of the task -/

/-- The part of the invariant that does not look back. -/
structure ParamInv (build : Build) (param : LocalParam Pkt) : Prop where
  ready : param.Ready build
  buf : ∀ len, param.decodeBuf = some len → len = param.decodeBufLen
  limit : param.queued.length ≤ queueLimit build param.codecIndex
  off : param.state = .off → param.queue = none

/-- What a handler does. -/
structure StepOk (build : Build) (before : LocalParam Pkt) (event : Event Pkt) (actions : List (Action Pkt))
    (after : LocalParam Pkt) : Prop where
  inv : ParamInv build after
  moves : Moves before.queued event.handed actions after.queued
  /-- Only a configuration makes the decoder ready, and empties the queue then. -/
  kept : event.configures = false → after.decoderReady = true → before.decoderReady = true
  emptied : event.configures = true → after.decoderReady = true → after.queued = []
  quiet : before.decoderReady = false → decodes actions = []

/-- A handler that leaves the decoder and its buffer alone. -/
theorem stepOk_of_moves {actions : List (Action Pkt)} {queue : Option (List Pkt)} {state : State} {rxFlush : Bool}
    {enqCounter : Octet} (h : ParamInv build param) (hevent : event.configures = false)
    (hmoves : Moves param.queued event.handed actions (queue.getD []))
    (hlimit : (queue.getD []).length ≤ queueLimit build param.codecIndex) (hoff : state = .off → queue = none)
    (hquiet : param.decoderReady = false → decodes actions = []) :
    StepOk build param event actions
      { param with state := state, queue := queue, rxFlush := rxFlush, enqCounter := enqCounter } where
  inv := ⟨h.ready, h.buf, hlimit, hoff⟩
  moves := hmoves
  kept := fun _ hready => hready
  emptied := fun hconfigures => nomatch hevent.symm.trans hconfigures
  quiet := hquiet

theorem flush_ok (h : ParamInv build param) (hevent : event.configures = false) (hhanded : event.handed = []) :
    StepOk build param event param.flushQ.2 param.flushQ.1 := by
  obtain ⟨queue, hflush, hempty, hnone⟩ := flushQ_spec param
  rw [hflush]
  refine stepOk_of_moves h hevent ?_ ?_ (fun hoff => hnone (h.off hoff)) (fun _ => by simp)
  · rw [hhanded, hempty]
    exact moves_flush _
  · rw [hempty]
    exact Nat.zero_le _

theorem memoryPressure_ok (h : ParamInv build param) :
    StepOk build param .memoryPressure param.onMemoryPressure.2 param.onMemoryPressure.1 := by
  unfold LocalParam.onMemoryPressure
  split
  · exact stepOk_of_moves h rfl (moves_none _) h.limit h.off (fun _ => rfl)
  · rename_i hon
    obtain ⟨queue, hflush, hempty, hnone⟩ := flushQ_spec { param with rxFlush := true }
    rw [hflush]
    have hmoves : Moves param.queued [] (param.queued.map Action.free) (queue.getD []) := by
      rw [hempty]
      exact moves_flush _
    have hlimit : (queue.getD []).length ≤ queueLimit build param.codecIndex := by
      rw [hempty]
      exact Nat.zero_le _
    dsimp only
    split
    · exact stepOk_of_moves h rfl hmoves hlimit (fun hoff => hnone (h.off hoff)) (fun _ => by simp)
    · exact stepOk_of_moves h rfl hmoves hlimit (fun hoff => hnone (h.off hoff)) (fun _ => by simp)

theorem cleanup_ok (build : Build) (param : LocalParam Pkt) :
    StepOk build param .cleanup param.threadCleanup.2 param.threadCleanup.1 where
  inv := ⟨fun hready => (nomatch hready), fun _ hbuf => (nomatch hbuf), Nat.zero_le _, fun _ => rfl⟩
  moves := moves_flush _
  kept := fun _ hready => (nomatch hready)
  emptied := fun hconfigures => (nomatch hconfigures)
  quiet := fun _ => decodes_map_free

theorem startup_ok (h : ParamInv build param) (queueNew : Bool) :
    StepOk build param (.startup queueNew) [] (param.startup queueNew) := by
  unfold LocalParam.startup
  split
  · exact stepOk_of_moves h rfl (moves_none _) h.limit h.off (fun _ => rfl)
  · rename_i hoff
    have hqueue : param.queue = none := h.off (Decidable.of_not_not hoff)
    have hbefore : param.queued = [] := by rw [LocalParam.queued, hqueue]; rfl
    have hafter : (param.threadInit queueNew).queued = [] := by
      unfold LocalParam.threadInit LocalParam.queued
      cases queueNew <;> rfl
    refine ⟨⟨fun hready => (nomatch hready), fun _ hbuf => (nomatch hbuf), ?_, fun hstate => (nomatch hstate)⟩, ?_,
      fun _ hready => (nomatch hready), fun hconfigures => (nomatch hconfigures), fun _ => rfl⟩
    · rw [hafter]
      exact Nat.zero_le _
    · rw [hbefore, hafter]
      exact moves_none _

/-- The end of a configuration, with the queue already empty. -/
theorem finishReset_ok {before : LocalParam Pkt} {actions : List (Action Pkt)} {info : List Octet}
    {decoderInit malloc : Bool} {codecIndex : Option Codec} (hdecoder : param.decoder.isSome)
    (hbuf : ∀ len, param.decodeBuf = some len → len = param.decodeBufLen) (hempty : param.queued = [])
    (hoff : param.state = .off → param.queue = none) (hmoves : Moves before.queued [] actions [])
    (hquiet : decodes actions = []) :
    StepOk build before (.decoderReset info decoderInit malloc) actions (param.finishReset build malloc codecIndex) := by
  obtain ⟨buf, len, ok, hconfigured, hlen, hsize⟩ :=
    configureDecodeBuf_spec hbuf malloc (decodeBufSize build codecIndex)
  have hmoves' : Moves before.queued [] actions param.queued := by
    rw [hempty]
    exact hmoves
  have hlimit : ∀ index, param.queued.length ≤ queueLimit build index := by
    rw [hempty]
    exact fun _ => Nat.zero_le _
  unfold LocalParam.finishReset
  rw [hconfigured]
  cases ok with
  | true =>
      obtain ⟨hsome, hrequired⟩ := hsize rfl (decodeBufSize_pos build codecIndex)
      exact ⟨⟨fun _ => ⟨hdecoder, hsome, hrequired⟩, hlen, hlimit _, hoff⟩, hmoves',
        fun hconfigures => (nomatch hconfigures), fun _ _ => hempty, fun _ => hquiet⟩
  | false =>
      exact ⟨⟨fun hready => (nomatch hready), hlen, hlimit _, hoff⟩, hmoves', fun hconfigures => (nomatch hconfigures),
        fun _ hready => (nomatch hready), fun _ => hquiet⟩

theorem decoderReset_ok (h : ParamInv build param) (info : List Octet) (decoderInit malloc : Bool) :
    StepOk build param (.decoderReset info decoderInit malloc) (param.decoderReset build info decoderInit malloc).2
      (param.decoderReset build info decoderInit malloc).1 := by
  unfold LocalParam.decoderReset
  split
  · exact ⟨⟨fun hready => (nomatch hready), h.buf, h.limit, h.off⟩, moves_none _, fun hconfigures => (nomatch hconfigures),
      fun _ hready => (nomatch hready), fun _ => rfl⟩
  · rename_i decoder hdecoder
    obtain ⟨queue, hflush, hempty, hnone⟩ := flushQ_spec { param with decoderReady := false, rxFlush := true }
    rw [hflush]
    have hmoves : Moves param.queued [] (param.queued.map Action.free) [] := moves_flush _
    have hoff : param.state = .off → queue = none := fun hstate => hnone (h.off hstate)
    have hquiet : decodes (param.queued.map Action.free) = [] := decodes_map_free
    dsimp only
    split
    · obtain ⟨buf, len, ok, hcleared, hlen, -⟩ := @configureDecodeBuf_spec _
        { param with queue := queue, decoderReady := false, rxFlush := true } h.buf malloc 0
      rw [hcleared]
      cases decoderInit with
      | true => exact finishReset_ok rfl hlen hempty hoff hmoves hquiet
      | false =>
          refine ⟨⟨fun hready => (nomatch hready), hlen, ?_, hoff⟩, ?_, fun hconfigures => (nomatch hconfigures),
            fun _ hready => (nomatch hready), fun _ => hquiet⟩
          · show (queue.getD []).length ≤ _
            rw [hempty]
            exact Nat.zero_le _
          · show Moves param.queued [] _ (queue.getD [])
            rw [hempty]
            exact hmoves
    · rename_i hsame
      have hsome : param.decoder.isSome := by
        rw [← Decidable.of_not_not hsame]
        rfl
      exact finishReset_ok hsome h.buf hempty hoff hmoves hquiet

/-! ## Packets in and out -/

omit [DecidableEq Pkt] in
theorem handleIncMedia_spec (media : Media Pkt) (pkt : Pkt) :
    frees (param.handleIncMedia media pkt) = [] ∧ enqueues (param.handleIncMedia media pkt) = [] ∧
      (decodes (param.handleIncMedia media pkt)).Sublist [pkt] ∧
      (param.decoderReady = false → decodes (param.handleIncMedia media pkt) = []) := by
  have hnothing : frees ([] : List (Action Pkt)) = [] ∧ enqueues ([] : List (Action Pkt)) = [] ∧
      (decodes ([] : List (Action Pkt))).Sublist [pkt] ∧ (param.decoderReady = false → decodes ([] : List (Action Pkt)) = []) :=
    ⟨rfl, rfl, List.nil_sublist _, fun _ => rfl⟩
  unfold LocalParam.handleIncMedia
  split
  · exact hnothing
  · split
    · exact hnothing
    · rename_i hready
      split
      · exact hnothing
      · split
        · exact hnothing
        · split
          · exact hnothing
          · refine ⟨rfl, rfl, List.Sublist.refl _, fun hnot => ?_⟩
            rw [hnot] at hready
            exact absurd rfl hready

/-- One packet is taken from the front and freed, perhaps after it is decoded. -/
theorem moves_cons {pkt : Pkt} {pkts after : List Pkt} {first rest : List (Action Pkt)}
    (hfrees : frees first = []) (henqueues : enqueues first = []) (hdecodes : (decodes first).Sublist [pkt])
    (h : Moves pkts [] rest after) : Moves (pkt :: pkts) [] (first ++ .free pkt :: rest) after where
  count := fun pkt' => by
    have hcount := h.count pkt'
    simp only [frees_append, hfrees, frees_cons_free, List.nil_append, List.count_cons, List.count_nil] at hcount ⊢
    omega
  order := by
    have horder := hdecodes.append h.order
    simpa [henqueues] using horder
  enqueued := by
    have henqueued := h.enqueued
    simpa [henqueues] using henqueued

theorem drain_spec (media : Media Pkt) (count : Nat) :
    ∃ queue, (param.drain media count).1 = { param with queue := queue } ∧
      Moves param.queued [] (param.drain media count).2 (queue.getD []) ∧
      (queue.getD []).length ≤ param.queued.length ∧ (param.queue = none → queue = none) ∧
      (param.decoderReady = false → decodes (param.drain media count).2 = []) := by
  induction count generalizing param with
  | zero => exact ⟨param.queue, rfl, moves_none _, Nat.le_refl _, id, fun _ => rfl⟩
  | succ count ih =>
      have hstay : ∃ queue, param = { param with queue := queue } ∧ Moves param.queued [] [] (queue.getD []) ∧
          (queue.getD []).length ≤ param.queued.length ∧ (param.queue = none → queue = none) ∧
          (param.decoderReady = false → decodes ([] : List (Action Pkt)) = []) :=
        ⟨param.queue, rfl, moves_none _, Nat.le_refl _, id, fun _ => rfl⟩
      unfold LocalParam.drain
      split
      · exact hstay
      · split
        · rename_i pkt pkts hqueue
          have hqueued : param.queued = pkt :: pkts := by rw [LocalParam.queued, hqueue]; rfl
          dsimp only
          split
          · refine ⟨some [], rfl, ?_, Nat.zero_le _, fun hnone => (nomatch hqueue.symm.trans hnone), fun _ => ?_⟩
            · rw [hqueued]
              exact moves_flush (pkt :: pkts)
            · show decodes (.free pkt :: pkts.map Action.free) = []
              simp
          · obtain ⟨hfrees, henqueues, hdecodes, hquiet⟩ :=
              @handleIncMedia_spec _ { param with queue := some pkts } media pkt
            obtain ⟨queue, hdrain, hmoves, hle, -, hdrainQuiet⟩ := @ih { param with queue := some pkts }
            refine ⟨queue, hdrain, ?_, ?_, fun hnone => (nomatch hqueue.symm.trans hnone), fun hready => ?_⟩
            · rw [hqueued]
              exact moves_cons hfrees henqueues hdecodes hmoves
            · rw [hqueued]
              exact Nat.le_succ_of_le hle
            · simp [hquiet hready, hdrainQuiet hready]
        · exact hstay

theorem dataReady_ok (h : ParamInv build param) (media : Media Pkt) :
    StepOk build param (.dataReady media) (param.dataReady media).2 (param.dataReady media).1 := by
  unfold LocalParam.dataReady
  split
  · exact flush_ok h rfl rfl
  · obtain ⟨queue, hdrain, hmoves, hle, hnone, hquiet⟩ := drain_spec media (param.queue.getD []).length
    rw [hdrain]
    exact stepOk_of_moves h rfl hmoves (Nat.le_trans hle h.limit) (fun hoff => hnone (h.off hoff)) hquiet

omit [DecidableEq Pkt] in
/-- The oldest packets are freed down to the floor, or none. -/
theorem relieve_spec (build : Build) {pkts : List Pkt} (hqueue : param.queue = some pkts) (freeInternal : Nat) :
    ∃ counter kept dropped, param.relieve build freeInternal pkts =
      ({ param with enqCounter := counter, queue := some kept }, dropped.map Action.free) ∧ pkts = dropped ++ kept := by
  unfold LocalParam.relieve
  dsimp only
  split
  · exact ⟨_, _, _, rfl, (List.take_append_drop _ _).symm⟩
  · refine ⟨param.enqCounter + 1, pkts, [], ?_, rfl⟩
    rw [← hqueue]
    rfl

theorem enqueBuf_ok (h : ParamInv build param) (pkt : Pkt) (freeInternal : Nat) (appended : Bool) :
    StepOk build param (.enqueBuf pkt freeInternal appended) (param.enqueBuf build pkt freeInternal appended).2
      (param.enqueBuf build pkt freeInternal appended).1 := by
  have hrefused : StepOk build param (.enqueBuf pkt freeInternal appended) [.free pkt] param :=
    stepOk_of_moves h rfl (moves_refused _ pkt) h.limit h.off (fun _ => rfl)
  unfold LocalParam.enqueBuf
  split
  · exact hrefused
  · rename_i hon
    split
    · exact hrefused
    · rename_i pkts hqueue
      have hqueued : param.queued = pkts := by rw [LocalParam.queued, hqueue]; rfl
      split
      · exact hrefused
      · split
        · exact hrefused
        · split
          · exact hrefused
          · rename_i hroom
            obtain ⟨counter, kept, dropped, hrelieved, rfl⟩ := relieve_spec build hqueue freeInternal
            have hlength : (dropped ++ kept).length = dropped.length + kept.length := List.length_append
            dsimp only
            rw [hrelieved]
            split
            · refine stepOk_of_moves h rfl ?_ ?_ (fun hoff => absurd hoff (Decidable.of_not_not hon ▸ State.noConfusion))
                (fun _ => by simp)
              · rw [hqueued]
                exact moves_enqueued dropped kept pkt
              · show (kept ++ [pkt]).length ≤ _
                rw [List.length_append, List.length_singleton]
                omega
            · refine stepOk_of_moves h rfl ?_ ?_ (fun hoff => absurd hoff (Decidable.of_not_not hon ▸ State.noConfusion))
                (fun _ => by simp)
              · rw [hqueued]
                exact moves_dropped dropped kept pkt
              · show kept.length ≤ _
                omega

/-- Every handler. -/
theorem step_ok (h : ParamInv build param) (event : Event Pkt) :
    StepOk build param event (step build param event).2 (step build param event).1 := by
  cases event with
  | startup queueNew => exact startup_ok h queueNew
  | shuttingDown => exact stepOk_of_moves h rfl (moves_none _) h.limit (fun hoff => nomatch hoff) (fun _ => rfl)
  | cleanup => exact cleanup_ok build param
  | decoderReset info decoderInit malloc => exact decoderReset_ok h info decoderInit malloc
  | clearTrack => exact flush_ok h rfl rfl
  | flush => exact flush_ok h rfl rfl
  | setRxFlush enable => exact stepOk_of_moves h rfl (moves_none _) h.limit h.off (fun _ => rfl)
  | memoryPressure => exact memoryPressure_ok h
  | enqueBuf pkt freeInternal appended => exact enqueBuf_ok h pkt freeInternal appended
  | dataReady media => exact dataReady_ok h media

/-! ## Runs -/

/-- The invariant: what is decoded and what waits comes in the order of arrival. -/
structure Inv (build : Build) (o : Observed Pkt) : Prop where
  param : ParamInv build o.param
  count : ∀ pkt, o.handed.count pkt = o.freed.count pkt + o.param.queued.count pkt
  order : (o.decoded ++ o.param.queued).Sublist o.handed
  fresh : o.decodedSince.Sublist o.enqueuedSince
  waiting : o.param.decoderReady = true → (o.decodedSince ++ o.param.queued).Sublist o.enqueuedSince

theorem inv_observe {o : Observed Pkt} (h : Inv build o) (event : Event Pkt) : Inv build (observe build o event) := by
  have hstep := step_ok h.param event
  unfold observe
  generalize step build o.param event = result at hstep
  have hwaiting : o.param.decoderReady = true →
      (o.decodedSince ++ decodes result.2 ++ result.1.queued).Sublist (o.enqueuedSince ++ enqueues result.2) := by
    intro hready
    have hnew := (List.append_sublist_append_left o.decodedSince).mpr hstep.moves.order
    rw [← List.append_assoc, ← List.append_assoc] at hnew
    exact hnew.trans ((h.waiting hready).append (List.Sublist.refl _))
  refine ⟨hstep.inv, fun pkt => ?_, ?_, ?_, ?_⟩
  · have hcount := h.count pkt
    have hmoved := hstep.moves.count pkt
    simp only [List.count_append]
    omega
  · have hnew := (List.append_sublist_append_left o.decoded).mpr hstep.moves.order
    rw [← List.append_assoc, ← List.append_assoc] at hnew
    exact hnew.trans (h.order.append hstep.moves.enqueued)
  · dsimp only
    cases hconfigures : event.configures with
    | true => simp
    | false =>
        simp only [Bool.false_eq_true, if_false]
        cases hready : o.param.decoderReady with
        | true => exact (List.sublist_append_left _ _).trans (hwaiting hready)
        | false =>
            rw [hstep.quiet hready, List.append_nil]
            exact h.fresh.trans (List.sublist_append_left _ _)
  · dsimp only
    intro hready
    cases hconfigures : event.configures with
    | true => simp [hstep.emptied hconfigures hready]
    | false =>
        simp only [Bool.false_eq_true, if_false]
        exact hwaiting (hstep.kept hconfigures hready)

theorem inv_observed (build : Build) (history : List (Event Pkt)) : Inv build (observed build history) := by
  induction history with
  | nil =>
      refine ⟨⟨fun hready => (nomatch hready), fun _ hbuf => (nomatch hbuf), Nat.zero_le _, fun _ => rfl⟩, fun _ => rfl, ?_, ?_,
        fun hready => (nomatch hready)⟩
      · exact List.Sublist.refl _
      · exact List.Sublist.refl _
  | cons event earlier ih => exact inv_observe ih event

/-- At every point of every run the decoder that is ready has its scratch buffer, the queue is within the limit of the
codec, packets are freed once, and they are decoded in order and for the configuration that they came after. -/
theorem sink_sound (build : Build) (history : List (Event Pkt)) : Sound build (observed build history) := by
  have h := inv_observed build history
  exact ⟨h.param.ready, h.param.limit, h.count, (List.sublist_append_left _ _).trans h.order, h.fresh⟩

end EspIdf.A2dp.Sink
