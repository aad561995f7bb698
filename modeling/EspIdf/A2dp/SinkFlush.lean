import EspIdf.A2dp.SinkQueue

/-!
# A requested flush of the receive queue

* `Event.releases` : what ends a requested flush: the controller's own call, or a decoder that has
  been configured;
* `Event.overrides` : memory pressure on a running task whose decoder is ready;
* `InForce` : no packet can be enqueued or decoded; `inForce_step` : what one event does to it;
* `flush_in_force_iff` : over the events up to the release.
-/

namespace EspIdf.A2dp.Sink

open AvCo

variable {Pkt : Type} {build : Build}

/-- The events in the order they come, with what they do to packets. -/
def runFrom (build : Build) (param : LocalParam Pkt) : List (Event Pkt) → LocalParam Pkt × List (Action Pkt)
  | [] => (param, [])
  | event :: later =>
    let next := step build param event
    let rest := runFrom build next.1 later
    (rest.1, next.2 ++ rest.2)

/-- The end of a requested flush: `btc_a2dp_sink_set_rx_flush(FALSE)`, or a decoder configured with success. -/
def Event.releases (build : Build) (param : LocalParam Pkt) : Event Pkt → Prop
  | .setRxFlush enable => enable = false
  | .decoderReset info decoderInit malloc => (param.decoderReset build info decoderInit malloc).1.decoderReady = true
  | _ => False

/-- The events after the request, up to its release. -/
def Window (build : Build) (param : LocalParam Pkt) : List (Event Pkt) → Prop
  | [] => True
  | event :: later => ¬event.releases build param ∧ Window build (step build param event).1 later

/-- `btc_a2dp_sink_on_memory_pressure` gets to its last lines. -/
def Event.overrides (param : LocalParam Pkt) : Event Pkt → Prop
  | .memoryPressure => param.state = .on ∧ param.decoderReady = true
  | _ => False

/-- An event of the window meets no memory pressure on a running task whose decoder is ready. -/
def Unpressed (build : Build) (param : LocalParam Pkt) : List (Event Pkt) → Prop
  | [] => True
  | event :: later => ¬event.overrides param ∧ Unpressed build (step build param event).1 later

/-- The flush is in force: packets are freed on arrival and the queue is not decoded. -/
def LocalParam.InForce (param : LocalParam Pkt) : Prop := param.rxFlush = true ∨ param.decoderReady = false

/-- The flush is in force before each event and after the last one. -/
def InForceThroughout (build : Build) (param : LocalParam Pkt) : List (Event Pkt) → Prop
  | [] => param.InForce
  | event :: later => param.InForce ∧ InForceThroughout build (step build param event).1 later

/-! ## One event -/

theorem flushQ_flags (param : LocalParam Pkt) :
    param.flushQ.1.rxFlush = param.rxFlush ∧ param.flushQ.1.decoderReady = param.decoderReady := by
  unfold LocalParam.flushQ
  split <;> exact ⟨rfl, rfl⟩

/-- What a step does to packets while the flush is in force: it frees them. -/
structure Discards (actions : List (Action Pkt)) : Prop where
  enqueued : enqueues actions = []
  decoded : decodes actions = []

theorem discards_nil : Discards ([] : List (Action Pkt)) := ⟨rfl, rfl⟩

theorem discards_frees (pkts : List Pkt) : Discards (pkts.map Action.free) := ⟨by simp, by simp⟩

theorem discards_append {first rest : List (Action Pkt)} (h : Discards first) (h' : Discards rest) :
    Discards (first ++ rest) where
  enqueued := by simp [h.enqueued, h'.enqueued]
  decoded := by simp [h.decoded, h'.decoded]

theorem flushQ_discards (param : LocalParam Pkt) : Discards param.flushQ.2 := by
  obtain ⟨queue, hflush, -⟩ := flushQ_spec param
  rw [hflush]
  exact discards_frees _

theorem decoderReset_discards (param : LocalParam Pkt) (info : List Octet) (decoderInit malloc : Bool) :
    Discards (param.decoderReset build info decoderInit malloc).2 := by
  unfold LocalParam.decoderReset
  split
  · exact discards_nil
  · dsimp only
    split
    · split <;> exact flushQ_discards _
    · exact flushQ_discards _

/-- A configuration that fails leaves the decoder not ready. -/
theorem decoderReset_inForce {param : LocalParam Pkt} {info : List Octet} {decoderInit malloc : Bool}
    (h : ¬(param.decoderReset build info decoderInit malloc).1.decoderReady = true) :
    (param.decoderReset build info decoderInit malloc).1.InForce := by
  right
  rw [Bool.not_eq_true] at h
  exact h

theorem enqueBuf_inForce {param : LocalParam Pkt} (h : param.InForce) (pkt : Pkt) (freeInternal : Nat) (appended : Bool) :
    param.enqueBuf build pkt freeInternal appended = (param, [.free pkt]) := by
  have refused : (param.rxFlush || !param.decoderReady) = true := by
    rcases h with h | h <;> simp [h]
  unfold LocalParam.enqueBuf
  split
  · rfl
  · split
    · rfl
    · split
      · rfl
      · rfl

theorem dataReady_inForce {param : LocalParam Pkt} (h : param.InForce) (media : Media Pkt) :
    Discards (param.dataReady media).2 ∧ (param.dataReady media).1.InForce := by
  unfold LocalParam.dataReady
  cases hflush : param.rxFlush with
  | true =>
    rw [if_pos rfl]
    exact ⟨flushQ_discards param, .inl ((flushQ_flags param).1.trans hflush)⟩
  | false =>
    have hready : param.decoderReady = false := h.resolve_left (by rw [hflush]; nofun)
    classical
    obtain ⟨queue, hparam, hmoves, -, -, hquiet⟩ := @drain_spec _ _ param media (param.queue.getD []).length
    rw [if_neg (by nofun)]
    refine ⟨⟨?_, hquiet hready⟩, ?_⟩
    · exact List.sublist_nil.mp hmoves.enqueued
    · rw [hparam]
      exact .inr hready

/-- Memory pressure leaves the flush in force unless it overrides it. -/
theorem memoryPressure_inForce_iff {param : LocalParam Pkt} (h : param.InForce) :
    param.onMemoryPressure.1.InForce ↔ ¬(param.state = .on ∧ param.decoderReady = true) := by
  unfold LocalParam.onMemoryPressure
  split
  · rename_i hoff
    exact ⟨fun _ hon => hoff hon.1, fun _ => h⟩
  · rename_i hon
    rw [Decidable.not_not] at hon
    obtain ⟨hflush, hready⟩ := flushQ_flags { param with rxFlush := true }
    generalize LocalParam.flushQ { param with rxFlush := true } = flushed at hflush hready
    dsimp only at hflush hready ⊢
    cases hdec : flushed.1.decoderReady with
    | true =>
      refine iff_of_false ?_ (fun hno => hno ⟨hon, hready.symm.trans hdec⟩)
      rintro (hf | hf)
      · cases hf
      · cases hf
    | false =>
      rw [if_neg (by nofun)]
      exact iff_of_true (.inl hflush) (fun hno => nomatch hdec.symm.trans (hready.trans hno.2))

theorem memoryPressure_discards (param : LocalParam Pkt) : Discards param.onMemoryPressure.2 := by
  unfold LocalParam.onMemoryPressure
  split
  · exact discards_nil
  · exact flushQ_discards _

/-- While the flush is in force an event that does not release it discards packets, and leaves it in force unless it
overrides it. -/
theorem inForce_step {param : LocalParam Pkt} {event : Event Pkt} (h : param.InForce)
    (hkeeps : ¬event.releases build param) :
    Discards (step build param event).2 ∧ ((step build param event).1.InForce ↔ ¬event.overrides param) := by
  cases event with
  | startup queueNew =>
    refine ⟨discards_nil, iff_of_true ?_ id⟩
    change (param.startup queueNew).InForce
    unfold LocalParam.startup
    split
    · exact h
    · exact .inr rfl
  | shuttingDown => exact ⟨discards_nil, iff_of_true h id⟩
  | cleanup => exact ⟨discards_frees _, iff_of_true (.inr rfl) id⟩
  | decoderReset info decoderInit malloc =>
    exact ⟨decoderReset_discards param info decoderInit malloc, iff_of_true (decoderReset_inForce hkeeps) id⟩
  | clearTrack | flush =>
    refine ⟨flushQ_discards param, iff_of_true ?_ id⟩
    have hflags := flushQ_flags param
    exact h.imp hflags.1.trans hflags.2.trans
  | setRxFlush enable =>
    have hon : enable = true := by simpa [Event.releases] using hkeeps
    exact ⟨discards_nil, iff_of_true (.inl hon) id⟩
  | memoryPressure => exact ⟨memoryPressure_discards param, memoryPressure_inForce_iff h⟩
  | enqueBuf pkt freeInternal appended =>
    have hstep : step build param (.enqueBuf pkt freeInternal appended) = (param, [.free pkt]) :=
      enqueBuf_inForce h pkt freeInternal appended
    rw [hstep]
    exact ⟨discards_frees [pkt], iff_of_true h id⟩
  | dataReady media =>
    obtain ⟨hdiscards, hin⟩ := dataReady_inForce h media
    exact ⟨hdiscards, iff_of_true hin id⟩

/-! ## The events up to the release -/

theorem inForce_head {param : LocalParam Pkt} {events : List (Event Pkt)} (h : InForceThroughout build param events) :
    param.InForce := by
  cases events with
  | nil => exact h
  | cons event later => exact h.1

theorem inForceThroughout_iff {param : LocalParam Pkt} {events : List (Event Pkt)} (h : param.InForce)
    (window : Window build param events) : InForceThroughout build param events ↔ Unpressed build param events := by
  induction events generalizing param with
  | nil => exact iff_of_true h trivial
  | cons event later ih =>
    obtain ⟨-, hnext⟩ := inForce_step h window.1
    constructor
    · rintro ⟨-, hlater⟩
      have hin := inForce_head hlater
      exact ⟨hnext.mp hin, (ih hin window.2).mp hlater⟩
    · rintro ⟨hevent, hlater⟩
      have hin := hnext.mpr hevent
      exact ⟨h, (ih hin window.2).mpr hlater⟩

theorem runFrom_discards {param : LocalParam Pkt} {events : List (Event Pkt)} (h : InForceThroughout build param events)
    (window : Window build param events) : Discards (runFrom build param events).2 := by
  induction events generalizing param with
  | nil => exact discards_nil
  | cons event later ih =>
    obtain ⟨hdiscards, -⟩ := inForce_step h.1 window.1
    exact discards_append hdiscards (ih h.2 window.2)

/-- From `btc_a2dp_sink_set_rx_flush(TRUE)` to its release the flush stays in force exactly when no memory pressure
meets a running task whose decoder is ready; and while it stays in force no packet is enqueued or decoded. -/
theorem flush_in_force_iff (build : Build) (param : LocalParam Pkt) (events : List (Event Pkt))
    (window : Window build (step build param (.setRxFlush true)).1 events) :
    (InForceThroughout build (step build param (.setRxFlush true)).1 events ↔
      Unpressed build (step build param (.setRxFlush true)).1 events) ∧
    (Unpressed build (step build param (.setRxFlush true)).1 events →
      enqueues (runFrom build (step build param (.setRxFlush true)).1 events).2 = [] ∧
        decodes (runFrom build (step build param (.setRxFlush true)).1 events).2 = []) := by
  have hiff := inForceThroughout_iff (.inl rfl) window
  refine ⟨hiff, fun hpressed => ?_⟩
  have hdiscards := runFrom_discards (hiff.mpr hpressed) window
  exact ⟨hdiscards.enqueued, hdiscards.decoded⟩

/-! ## A running task -/

/-- Only SBC. -/
def sbcOnly : Build := ⟨false, false, false, false, false, false⟩

/-- The task is on, with its decoder configured for 44.1 kHz. -/
def playing : LocalParam Nat :=
  (runFrom sbcOnly .init [.startup true, .decoderReset [6, 0, 0, 0x21, 0x15, 2, 53] true true]).1

/-- A packet that arrives during the flush, with the queue drained and the track cleared around it. -/
def quietEvents : List (Event Nat) :=
  [.clearTrack, .enqueBuf 1 20000 true, .dataReady ⟨false, true, fun _ => true⟩, .setRxFlush true]

theorem flush_in_force_iff_quiet :
    (InForceThroughout sbcOnly (step sbcOnly playing (.setRxFlush true)).1 quietEvents ↔
      Unpressed sbcOnly (step sbcOnly playing (.setRxFlush true)).1 quietEvents) ∧
    (Unpressed sbcOnly (step sbcOnly playing (.setRxFlush true)).1 quietEvents →
      enqueues (runFrom sbcOnly (step sbcOnly playing (.setRxFlush true)).1 quietEvents).2 = [] ∧
        decodes (runFrom sbcOnly (step sbcOnly playing (.setRxFlush true)).1 quietEvents).2 = []) :=
  flush_in_force_iff sbcOnly playing quietEvents ⟨id, id, id, nofun, trivial⟩

/-- Memory pressure ends a flush that the stream controller asked for: the next packet is enqueued and decoded. -/
theorem pressure_ends_flush :
    Window sbcOnly (step sbcOnly playing (.setRxFlush true)).1
      [.memoryPressure, .enqueBuf 1 20000 true, .dataReady ⟨false, true, fun _ => true⟩] ∧
    (runFrom sbcOnly (step sbcOnly playing (.setRxFlush true)).1
      [.memoryPressure, .enqueBuf 1 20000 true, .dataReady ⟨false, true, fun _ => true⟩]).2 =
      [.enqueue 1, .decode 1, .free 1] :=
  ⟨⟨id, id, id, trivial⟩, by decide +kernel⟩

end EspIdf.A2dp.Sink
