import EspIdf.BleLog.DeliverySteps

/-!
# Every run of the log carries whole frames

* `sendTrans_accepted`, `sendTrans_refused`, `txDone_inv` : the peripheral keeps the invariant;
* `calm` : no transmission of a buffer of the stream fails;
* `sound_unless_stream_fails` : what holds in every such run;
* `failed_stream_corrupts` : another run.
-/

namespace EspIdf.BleLog

open State

section runs
variable {s s' : State} {id : TransId} {t : Trans} {i : Nat}

/-! ## The peripheral -/

/-- The buffer at the head of the queue is frame after frame. -/
theorem Inv.head_encodes (h : Inv s) (owned : (s.trans id).prphOwned = true) : ∃ frames, Encodes (s.trans id).bytes frames := by
  obtain ⟨pool, k⟩ := id
  cases pool with
  | common i => exact (h.framed i).whole k
  | redir =>
    obtain ⟨frame, encodes⟩ := h.closed k owned
    exact ⟨_, encodes⟩

/-- The peripheral accepts a buffer. -/
theorem sendTrans_accepted (h : Inv s) {rest : List TransId} (queue : s.queue = id :: rest) :
    Inv { s with
      queue := rest
      handed := s.handed ++ [⟨id.1, (s.trans id).bytes, true⟩]
      inFlight := s.inFlight ++ [id] } := by
  obtain ⟨s', hs'⟩ : ∃ s' : State, s' = { s with
    queue := rest
    handed := s.handed ++ [⟨id.1, (s.trans id).bytes, true⟩]
    inFlight := s.inFlight ++ [id] } := ⟨_, rfl⟩
  have trans : s'.trans = s.trans := by rw [hs']
  have queue' : s'.queue = rest := by rw [hs']
  have inFlight : s'.inFlight = s.inFlight ++ [id] := by rw [hs']
  have handed : s'.handed = s.handed ++ [⟨id.1, (s.trans id).bytes, true⟩] := by rw [hs']
  have idx : s'.transIdx = s.transIdx := by rw [hs']
  have perm : (s'.queue ++ s'.inFlight).Perm (s.queue ++ s.inFlight) := by
    rw [queue', inFlight, queue, ← List.append_assoc]
    exact List.perm_append_comm
  have owned : (s.trans id).prphOwned = true := (h.owned id).mpr (by simp [queue])
  have encodes := h.head_encodes owned
  have waiting : id ∉ s.inFlight := by
    have once := h.once
    rw [queue] at once
    exact fun mem => (List.nodup_cons.mp once).1 (List.mem_append_right _ mem)
  rw [← hs']
  refine ⟨⟨fun other => ?_, fun other => ?_, perm.nodup_iff.mpr h.once, ?_, fun sent mem => ?_⟩, ⟨?_, ?_, ?_, ?_⟩, fun i => ?_, ?_⟩
  · rw [trans]
    exact h.ok other
  · rw [trans, perm.mem_iff]
    exact h.owned other
  · rw [hs']
    exact h.unshared
  · rw [handed] at mem
    rcases List.mem_append.mp mem with mem | mem
    · exact h.handed sent mem
    · rw [List.mem_singleton.mp mem]
      exact encodes
  · rw [trans]
    exact h.size
  · rw [trans]
    exact h.closed
  · rw [trans, idx]
    exact h.opened
  · have accepted : s'.accepted = s.accepted := by rw [hs']
    have opens : streamOpen s' = streamOpen s := by rw [streamOpen, streamOpen, trans, idx]
    have moved : streamSent s' ++ streamQueued s' = streamSent s ++ streamQueued s := by
      rw [streamSent, streamSent, streamQueued, streamQueued, handed, queue', queue, trans]
      cases pool : id.1 with
      | common i => simp [pool]
      | redir => simp [pool]
    rw [moved, opens, accepted]
    exact h.bytes
  · refine ⟨fun k => ?_, ?_⟩
    · rw [trans]
      exact (h.framed i).whole k
    · have written : s'.written = s.written := by rw [hs']
      rw [written]
      refine List.Perm.trans ?_ (h.framed i).delivered
      obtain ⟨pool, k⟩ := id
      by_cases same : pool = .common i
      · subst same
        have before := heldRecords_perm s (.common i) k
        have after := heldRecords_perm s' (.common i) k
        rw [if_neg waiting] at before
        rw [if_pos (by rw [inFlight]; simp), List.nil_append] at after
        have others : ((List.finRange 4).erase k).flatMap (fun idx =>
              if (.common i, idx) ∈ s'.inFlight then [] else records (s'.trans (.common i, idx)).bytes) =
            ((List.finRange 4).erase k).flatMap fun idx =>
              if (.common i, idx) ∈ s.inFlight then [] else records (s.trans (.common i, idx)).bytes := by
          rw [List.flatMap_def, List.flatMap_def]
          refine congrArg List.flatten (List.map_congr_left fun idx mem => ?_)
          have ne : idx ≠ k := fun eq => (List.nodup_finRange 4).not_mem_erase (eq ▸ mem)
          simp [inFlight, trans, ne]
        rw [others] at after
        have sent : sentRecords s' (.common i) = sentRecords s (.common i) ++ records (s.trans (.common i, k)).bytes := by
          simp [sentRecords, handed]
        rw [sent, List.append_assoc]
        exact ((after.append_left _).trans before.symm).append_left _
      · have sent : sentRecords s' (.common i) = sentRecords s (.common i) := by
          simp [sentRecords, handed, same]
        have held : heldRecords s' (.common i) = heldRecords s (.common i) := by
          simp [heldRecords, inFlight, trans, Ne.symm same]
        rw [sent, held]
  · have same : ∀ k, s'.trans (.redir, k) = s.trans (.redir, k) := fun k => by rw [trans]
    exact h.settled.congr same

/-- A buffer comes back. -/
theorem Base.release (h : Base s) (ok : t.Ok) (unowned : t.prphOwned = false) (trans : s'.trans = Function.update s.trans id t)
    (perm : (s.queue ++ s.inFlight).Perm (id :: (s'.queue ++ s'.inFlight))) (unshared : s'.wroteOwned = s.wroteOwned)
    (handed : ∀ sent ∈ s'.handed, ∃ frames, Encodes sent.bytes frames) : Base s' := by
  obtain ⟨absent, once⟩ := List.nodup_cons.mp (perm.nodup_iff.mp h.once)
  refine ⟨fun other => ?_, fun other => ?_, once, unshared.trans h.unshared, handed⟩
  · rw [trans]
    by_cases eq : other = id
    · subst eq
      rw [Function.update_self]
      exact ok
    · rw [Function.update_of_ne eq]
      exact h.ok other
  · rw [trans]
    by_cases eq : other = id
    · subst eq
      rw [Function.update_self, unowned]
      exact iff_of_false (by simp) absent
    · rw [Function.update_of_ne eq, h.owned other, perm.mem_iff, List.mem_cons]
      simp [eq]

/-- The peripheral refuses a buffer of framed logs, which keeps its frames. -/
theorem sendTrans_refused (h : Inv s) {rest : List TransId} (queue : s.queue = id :: rest) (common : id.1 = .common i) :
    Inv (State.put { s with queue := rest, handed := s.handed ++ [⟨id.1, (s.trans id).bytes, false⟩] } id
      { s.trans id with prphOwned := false }) := by
  have owned : (s.trans id).prphOwned = true := (h.owned id).mpr (by simp [queue])
  have encodes := h.head_encodes owned
  have ok := h.ok id
  obtain ⟨pool, k⟩ := id
  cases common
  obtain ⟨t, ht⟩ : ∃ t : Trans, t = { s.trans (.common i, k) with prphOwned := false } := ⟨_, rfl⟩
  have kept : t.Ok := by
    rw [ht]
    exact ⟨ok.size_lt, ok.size_le, ok.pos_le⟩
  have unowned : t.prphOwned = false := by rw [ht]
  have bytes : t.bytes = (s.trans (.common i, k)).bytes := by
    rw [ht]
    rfl
  rw [← ht]
  refine ⟨h.toBase.release kept unowned rfl ?_ rfl fun sent mem => ?_,
    h.toStream.congr (fun _ => by simp) rfl ?_ ?_ rfl, fun j => (h.framed j).congr (fun idx => ?_) (fun _ => Iff.rfl) ?_ rfl,
    h.settled.congr fun _ => by simp⟩
  · rw [queue]
    exact List.Perm.refl _
  · rcases List.mem_append.mp mem with mem | mem
    · exact h.handed sent mem
    · rw [List.mem_singleton.mp mem]
      exact encodes
  · simp [queue]
  · simp [streamSent, State.put]
  · by_cases eq : (Pool.common j, idx) = (.common i, k)
    · rw [eq]
      simpa using bytes
    · simp only [put_trans, Function.update_of_ne eq]
  · simp [sentRecords, State.put]

/-- A manager of framed logs, when the peripheral is done with one of its buffers. -/
theorem Framed.recycle (h : Framed s i) {k : Fin 4} (mem : (.common i, k) ∈ s.inFlight) (once : s.inFlight.Nodup)
    (empty : t.bytes = []) (trans : s'.trans = Function.update s.trans (.common i, k) t)
    (inFlight : s'.inFlight = s.inFlight.erase (.common i, k)) (handed : s'.handed = s.handed)
    (written : s'.written = s.written) : Framed s' i where
  whole idx := by
    rw [trans]
    by_cases eq : idx = k
    · subst eq
      rw [Function.update_self, empty]
      exact ⟨[], encodes_nil⟩
    · rw [Function.update_of_ne (by simpa using eq)]
      exact h.whole idx
  delivered := by
    have held : heldRecords s' (.common i) = heldRecords s (.common i) := by
      rw [heldRecords, heldRecords, List.flatMap_def, List.flatMap_def]
      refine congrArg List.flatten (List.map_congr_left fun idx _ => ?_)
      rw [inFlight, trans]
      by_cases eq : idx = k
      · subst eq
        rw [if_neg once.not_mem_erase, if_pos mem, Function.update_self, empty, records_of_encodes encodes_nil]
        rfl
      · have ne : (Pool.common i, idx) ≠ (.common i, k) := by simpa using eq
        simp only [List.mem_erase_of_ne ne, Function.update_of_ne ne]
    have sent : sentRecords s' (.common i) = sentRecords s (.common i) := by rw [sentRecords, sentRecords, handed]
    rw [sent, held, written]
    exact h.delivered

/-- The stream, when the peripheral is done with one of its buffers. -/
theorem Stream.recycle (h : Stream s) {k : Fin 4} (owned : (s.trans (.redir, k)).prphOwned = true)
    (waiting : (.redir, k) ∉ s.queue) (unowned : t.prphOwned = false) (zero : t.pos = 0)
    (size : t.size = (s.trans (.redir, k)).size) (trans : s'.trans = Function.update s.trans (.redir, k) t)
    (idx : s'.transIdx = s.transIdx) (queue : s'.queue = s.queue) (handed : s'.handed = s.handed)
    (accepted : s'.accepted = s.accepted) : Stream s' := by
  have self : s'.trans (.redir, k) = t := by rw [trans, Function.update_self]
  have other (k') (ne : k' ≠ k) : s'.trans (.redir, k') = s.trans (.redir, k') := by
    rw [trans, Function.update_of_ne (by simpa using ne)]
  refine ⟨fun k' => ?_, fun k' => ?_, fun k' => ?_, ?_⟩
  · by_cases eq : k' = k
    · subst eq
      rw [self, size]
      exact h.size k'
    · rw [other k' eq]
      exact h.size k'
  · by_cases eq : k' = k
    · subst eq
      rw [self, unowned]
      exact fun owned => nomatch owned
    · rw [other k' eq]
      exact h.closed k'
  · by_cases eq : k' = k
    · subst eq
      rw [self]
      exact fun _ => .inl zero
    · rw [other k' eq, idx]
      exact h.opened k'
  · have queued : streamQueued s' = streamQueued s := by
      refine streamQueued_congr (fun id mem _ => ?_) (by rw [queue])
      have ne : id ≠ (.redir, k) := fun eq => waiting (eq ▸ mem)
      rw [trans, Function.update_of_ne ne]
    have sent : streamSent s' = streamSent s := by rw [streamSent, streamSent, handed]
    have opens : streamOpen s' = streamOpen s := by
      rw [streamOpen, streamOpen, idx]
      by_cases eq : s.transIdx .redir = k
      · rw [eq, self]
        simp [owned, bytes_of_pos_zero zero]
      · rw [other _ eq]
    rw [sent, queued, opens, accepted]
    exact h.bytes

/-- The peripheral is done with a buffer. -/
theorem txDone_inv (h : Inv s) (done : txDone s id = some s') : Inv s' := by
  unfold txDone at done
  split at done
  · rename_i mem
    have owned : (s.trans id).prphOwned = true := (h.owned id).mpr (List.mem_append_right _ mem)
    have once := h.once
    rw [List.nodup_append] at once
    have waiting : id ∉ s.queue := fun there => once.2.2 id there id mem rfl
    have ok := h.ok id
    obtain ⟨t, ht⟩ : ∃ t : Trans, t = { s.trans id with pos := 0, prphOwned := false } := ⟨_, rfl⟩
    have recycled : t.Ok := by
      rw [ht]
      exact ⟨ok.size_lt, ok.size_le, Nat.zero_le _⟩
    have unowned : t.prphOwned = false := by rw [ht]
    have zero : t.pos = 0 := by rw [ht]
    have size : t.size = (s.trans id).size := by rw [ht]
    rw [← ht] at done
    have perm : (s.queue ++ s.inFlight).Perm (id :: (s.queue ++ s.inFlight.erase id)) :=
      ((List.perm_cons_erase mem).append_left _).trans List.perm_middle
    cases done
    have base : Base { s.put id t with inFlight := s.inFlight.erase id } :=
      h.toBase.release recycled unowned rfl perm rfl h.handed
    obtain ⟨pool, k⟩ := id
    cases pool with
    | common i =>
      refine ⟨base, h.toStream.congr (fun _ => by simp) rfl rfl rfl rfl, fun j => ?_, h.settled.congr fun _ => by simp⟩
      by_cases same : j = i
      · subst same
        exact (h.framed j).recycle mem once.2.1 (bytes_of_pos_zero zero) rfl rfl rfl rfl
      · refine (h.framed j).congr (fun idx => by simp [same]) (fun idx => ?_) rfl rfl
        exact List.mem_erase_of_ne (by simp [same])
    | redir =>
      have stream : Stream { s.put (.redir, k) t with inFlight := s.inFlight.erase (.redir, k) } :=
        h.toStream.recycle owned waiting unowned zero size rfl rfl rfl rfl rfl
      refine ⟨base, stream, fun j => (h.framed j).congr (fun idx => by simp) (fun idx => ?_) rfl rfl, fun k' free => ?_⟩
      · exact List.mem_erase_of_ne (by simp)
      · by_cases eq : k' = k
        · subst eq
          simp [zero, frameOverhead, frameHeadLen, frameTailLen, redirBufSize]
        · have other : (Pool.redir, k') ≠ (.redir, k) := by simpa using eq
          have := h.settled k'
          simp only [put_trans, Function.update_of_ne other] at free ⊢
          exact this free
  · cases done

/-! ## Every run -/

/-- The step is no failed transmission of a buffer of the stream. -/
def calmStep (s : State) : Event → Bool
  | .send false => s.queue.head?.all fun id => id.1 != .redir
  | _ => true

def calm : State → List Event → Bool
  | _, [] => true
  | s, event :: events => calmStep s event && (step s event).all fun s' => calm s' events

theorem init_ok (size address : Nat) : (Trans.init size address).Ok where
  size_lt := Nat.mod_lt _ (by decide)
  size_le := by
    show u16 size ≤ (List.replicate size 0).length
    rw [List.length_replicate]
    exact Nat.mod_le _ _
  pos_le := Nat.zero_le _

theorem init_inv (size : Nat → Nat) (address : TransId → Nat) (heap : Nat → Byte) : Inv (.init size address heap) where
  ok id := by
    obtain ⟨pool, k⟩ := id
    cases pool with
    | common i => exact init_ok (size i) _
    | redir => exact init_ok redirBufSize _
  owned id := by
    obtain ⟨pool, k⟩ := id
    cases pool <;> simp [State.init, Trans.init]
  once := List.nodup_nil
  unshared := rfl
  handed _ mem := nomatch mem
  size _ := rfl
  closed _ owned := nomatch owned
  opened _ _ := .inl rfl
  bytes := rfl
  framed i := by
    refine ⟨fun k => ⟨[], ?_⟩, ?_⟩
    · exact encodes_nil
    · show (sentRecords _ _ ++ heldRecords _ _).Perm []
      simp [sentRecords, heldRecords, State.init, Trans.init, Trans.bytes, records_of_encodes encodes_nil]
  settled _ _ := by
    show 0 + frameOverhead < redirBufSize
    decide

theorem step_inv (h : Inv s) {event : Event} (steps : step s event = some s') (calm : calmStep s event = true) : Inv s' := by
  cases event with
  | write pools log =>
    cases steps
    exact writeLog_inv h pools log
  | streamWrite data =>
    simp only [step] at steps
    split at steps
    · cases steps
      exact ⟨⟨h.ok, h.owned, h.once, h.unshared, h.handed⟩, ⟨h.size, h.closed, h.opened, h.bytes⟩,
        fun i => ⟨(h.framed i).whole, (h.framed i).delivered⟩, h.settled⟩
    · cases steps
  | streamNext =>
    simp only [step] at steps
    split at steps
    · cases steps
    · cases steps
      exact streamNext_inv h
  | streamFlush =>
    simp only [step] at steps
    split at steps
    · cases steps
      exact streamFlush_inv h
    · cases steps
  | send ok =>
    simp only [step, sendTrans] at steps
    split at steps
    · cases steps
    · rename_i id rest queue
      cases ok with
      | true =>
        cases steps
        exact sendTrans_accepted h queue
      | false =>
        cases steps
        simp only [calmStep, queue, List.head?_cons, Option.all_some, bne_iff_ne, ne_eq] at calm
        obtain ⟨i, common⟩ : ∃ i, id.1 = .common i := by
          cases pool : id.1 with
          | common i => exact ⟨i, rfl⟩
          | redir => exact absurd pool calm
        exact sendTrans_refused h queue common
  | txDone id => exact txDone_inv h steps

theorem run_inv (h : Inv s) {events : List Event} (runs : run s events = some s') (calm : calm s events = true) :
    Inv s' := by
  induction events generalizing s with
  | nil =>
    cases runs
    exact h
  | cons event events ih =>
    obtain ⟨s₁, steps, runs⟩ := Option.bind_eq_some_iff.mp runs
    simp only [BleLog.calm, steps, Option.all_some, Bool.and_eq_true] at calm
    exact ih (step_inv h steps calm.1) runs calm.2

theorem Inv.sound (h : Inv s) : Sound s where
  parses sent mem := by
    obtain ⟨frames, encodes⟩ := h.handed sent mem
    rw [parse_of_encodes encodes]
    rfl
  framed i := (h.framed i).delivered
  stream := h.bytes
  unshared := h.unshared
  once := h.once
  owned := h.owned
  within id := (h.ok id).pos_le

end runs

/-- While no transmission of a buffer of the stream fails, all that is handed over is whole frames, each log is in one
of them, their payloads are the stream, and no buffer is shared, queued twice or overrun. -/
theorem sound_unless_stream_fails (size : Nat → Nat) (address : TransId → Nat) (heap : Nat → Byte) (events : List Event)
    (s : State) (runs : run (.init size address heap) events = some s) (calm : calm (.init size address heap) events = true) :
    Sound s :=
  (run_inv (init_inv size address heap) runs calm).sound

/-- A framed log whose first transmission fails, and two bytes of the stream. -/
def failedLog : List Event :=
  [.write [0] ⟨.host, [1, 2, 3, 4], List.replicate 40 7, by decide⟩, .send false, .streamWrite [65, 66], .streamNext,
    .streamFlush, .send true]

theorem sound_failed_log :
    ∃ s, run (.init (fun _ => 64) (fun _ => 0) fun _ => 0) failedLog = some s ∧ Sound s := by
  have ends : (run (.init (fun _ => 64) (fun _ => 0) fun _ => 0) failedLog).isSome = true := by decide +kernel
  obtain ⟨s, runs⟩ := Option.isSome_iff_exists.mp ends
  exact ⟨s, runs, sound_unless_stream_fails _ _ _ _ s runs (by decide +kernel)⟩

/-- The byte 65 is flushed and its transmission fails: the sealed frame stays in the buffer as if it were stream, and
the next frame carries its checksum as payload. -/
def failedStream : List Event :=
  [.streamWrite [65], .streamNext, .streamFlush, .send false, .streamWrite [66], .streamNext, .streamFlush, .send true]

theorem failed_stream_corrupts :
    ¬∀ size address heap events s, run (.init size address heap) events = some s → Sound s := by
  intro claim
  have differs : ((run (.init (fun _ => 64) (fun _ => 0) fun _ => 0) failedStream).map fun s =>
      decide (streamSent s ++ streamQueued s ++ streamOpen s = s.accepted)) = some false := by
    decide +kernel
  obtain ⟨s, runs, broken⟩ := Option.map_eq_some_iff.mp differs
  exact of_decide_eq_false broken (claim (fun _ => 64) (fun _ => 0) (fun _ => 0) failedStream s runs).stream

end EspIdf.BleLog
