import EspIdf.Blufi.Framing

/-!
# Reassembly after any input

* `Observed`, `observe` : the receiver with the fragments accepted since the last delivery or reset;
* `Bounded`, `DeliversCollected`, `Recovers` : what reassembly should keep, deliver and recover to;
* `Kept` : the invariant, `observe_kept` : its step;
* `reassembly_recovers_iff` : for which runs a whole message is delivered afterwards.
-/

namespace EspIdf.Blufi

def Event.isReset : Event → Bool
  | .reset => true
  | _ => false

def Event.isError : Event → Bool
  | .reportError _ => true
  | _ => false

def Event.isDelivery : Event → Bool
  | .protocolHandler _ _ => true
  | _ => false

/-- The packet that is accepted, without an error: its type, whether it is a fragment, and its decrypted data. -/
def accepted (env : RecvEnv) (arrival : Arrival) : Option (Octet × Bool × List Octet) :=
  match arrival.octets with
  | type :: fc :: seq :: dataLen :: rest =>
    if (recvHandler arrival.cbs arrival.memory env arrival.octets).2.any Event.isError then none
    else
      match decrypt arrival.cbs fc seq (rest.take dataLen.toNat) with
      | .ok data => some (type, fcIs fc fcFrag, data)
      | .error _ => none
  | _ => none

/-- The receiver, the fragments accepted since the last delivery or reset, and whether the last accepted packet was one. -/
structure Observed where
  env : RecvEnv
  collected : List (List Octet)
  lastFragment : Bool

/-- The receiver and its history after one more packet. -/
def observe (o : Observed) (arrival : Arrival) : Observed :=
  let received := recvHandler arrival.cbs arrival.memory o.env arrival.octets
  let packet := accepted o.env arrival
  { env := received.1
    collected :=
      if received.2.any Event.isReset || received.2.any Event.isDelivery then []
      else
        match packet with
        | some (_, true, data) => o.collected ++ [data]
        | _ => o.collected
    lastFragment :=
      match packet with
      | some (_, frag, _) => frag
      | none => o.lastFragment }

/-- After the packets, the latest first, of a connection that starts with a sequence number. -/
def observed (seq : Octet) : List Arrival → Observed
  | [] => { env := { recvSeq := seq, aggrBuf := none, totalLen := 0, offset := 0 }, collected := [], lastFragment := false }
  | arrival :: earlier => observe (observed seq earlier) arrival

/-! ## What reassembly should do -/

/-- The offset is at most the announced length, which is the size of the buffer. -/
def Bounded (env : RecvEnv) : Prop :=
  env.offset ≤ env.totalLen ∧ ∀ buf, env.aggrBuf = some buf → buf.length = env.totalLen

/-- What is delivered is the data of one packet that is no fragment, or with the collected fragments before it, and then as
long as the first of them announced. -/
def DeliversCollected (o : Observed) (arrival : Arrival) : Prop :=
  ∀ type payload,
    Event.protocolHandler type payload ∈ (recvHandler arrival.cbs arrival.memory o.env arrival.octets).2 →
    ∃ data, accepted o.env arrival = some (type, false, data) ∧
      (payload = data ∨ ∃ first rest, o.collected = first :: rest ∧
        payload = (o.collected.map (List.drop 2)).flatten ++ data ∧ payload.length = announced first)

/-- A packet arrives with its sequence number, passes the checks, and there is memory for it. -/
def Arrives (arrival : Arrival) (seq type : Octet) (frag : Bool) (plain : List Octet) : Prop :=
  ∃ fc dataLen rest, arrival.octets = type :: fc :: seq :: dataLen :: rest ∧
    arrival.octets.length = dataLen.toNat + 4 + (if fcIs fc fcCheck then 2 else 0) ∧
    decrypt arrival.cbs fc seq (rest.take dataLen.toNat) = .ok plain ∧
    checksumOk arrival.cbs fc seq dataLen plain (rest.drop dataLen.toNat) = true ∧ fcIs fc fcFrag = frag ∧
    arrival.memory.isSome

/-- Further fragments and the last packet of a message arrive in sequence. -/
def RestArrives (type : Octet) : Octet → List (List Octet) → List Octet → List Arrival → Prop
  | seq, [], last, [arrival] => Arrives arrival seq type false last
  | seq, content :: contents, last, arrival :: arrivals =>
    (∃ lo hi, Arrives arrival seq type true (lo :: hi :: content)) ∧ RestArrives type (seq + 1) contents last arrivals
  | _, _, _, _ => False

/-- A fragmented message arrives complete and in sequence: the first fragment is not empty and announces the whole length. -/
def MessageArrives (env : RecvEnv) (type : Octet) (data : List Octet) (arrivals : List Arrival) : Prop :=
  ∃ lo hi first contents last arrival rest, arrivals = arrival :: rest ∧ first ≠ [] ∧
    Arrives arrival env.recvSeq type true (lo :: hi :: first) ∧ announced (lo :: hi :: first) = data.length ∧
    RestArrives type (env.recvSeq + 1) contents last rest ∧ data = first ++ contents.flatten ++ last

/-- When the last accepted packet was no fragment, a whole message is delivered exactly once. -/
def Recovers (o : Observed) : Prop :=
  o.lastFragment = false → ∀ type data arrivals, MessageArrives o.env type data arrivals →
    (recvRun o.env arrivals).2.filter Event.isDelivery = [.protocolHandler type data]

/-- A packet that is no fragment is accepted while the buffer of an empty first fragment stands. -/
def LeavesBuffer (o : Observed) (arrival : Arrival) : Prop :=
  (∃ type data, accepted o.env arrival = some (type, false, data)) ∧ o.env.aggrBuf.isSome ∧ o.env.offset = 0

/-! ## One packet -/

/-- A packet is dropped, or it resets the buffer, or it passes the checks and its data goes on. -/
theorem recvHandler_cases (arrival : Arrival) (env : RecvEnv) :
    ((∃ state, recvHandler arrival.cbs arrival.memory env arrival.octets = (env, [.reportError state])) ∨
      ∃ state, recvHandler arrival.cbs arrival.memory env arrival.octets =
        { env with recvSeq := env.recvSeq + 1 }.resetAggrBuf state) ∨
    ∃ type frag data ack, (ack = [] ∨ ∃ seq, ack = [Event.sendAck seq]) ∧
      recvHandler arrival.cbs arrival.memory env arrival.octets =
        ((recvData arrival.memory { env with recvSeq := env.recvSeq + 1 } type frag data).1,
          ack ++ (recvData arrival.memory { env with recvSeq := env.recvSeq + 1 } type frag data).2) ∧
      accepted env arrival = if (recvHandler arrival.cbs arrival.memory env arrival.octets).2.any Event.isError then none
        else some (type, frag, data) := by
  obtain ⟨cbs, memory, octets⟩ := arrival
  match octets with
  | [] => exact .inl (.inl ⟨_, rfl⟩)
  | [_] => exact .inl (.inl ⟨_, rfl⟩)
  | [_, _] => exact .inl (.inl ⟨_, rfl⟩)
  | [_, _, _] => exact .inl (.inl ⟨_, rfl⟩)
  | type :: fc :: seq :: dataLen :: rest =>
      by_cases hlen : (type :: fc :: seq :: dataLen :: rest).length ≠
          dataLen.toNat + 4 + (if fcIs fc fcCheck then 2 else 0)
      · exact .inl (.inl ⟨_, if_pos hlen⟩)
      · by_cases hseq : seq ≠ env.recvSeq
        · exact .inl (.inl ⟨_, (if_neg hlen).trans (if_pos hseq)⟩)
        · cases hdecrypt : decrypt cbs fc seq (rest.take dataLen.toNat) with
          | error state =>
              refine .inl (.inr ⟨state, (if_neg hlen).trans ((if_neg hseq).trans ?_)⟩)
              rw [hdecrypt]
          | ok data =>
              by_cases hsum : checksumOk cbs fc seq dataLen data (rest.drop dataLen.toNat) = true
              · refine .inr ⟨type, fcIs fc fcFrag, data, if fcIs fc fcReqAck then [Event.sendAck seq] else [], ?_, ?_, ?_⟩
                · split
                  · exact .inr ⟨seq, rfl⟩
                  · exact .inl rfl
                · refine (if_neg hlen).trans ((if_neg hseq).trans ?_)
                  rw [hdecrypt]
                  exact if_pos hsum
                · unfold accepted
                  dsimp only
                  rw [hdecrypt]
              · refine .inl (.inr ⟨.checksum, (if_neg hlen).trans ((if_neg hseq).trans ?_)⟩)
                rw [hdecrypt]
                exact if_neg hsum

theorem announced_lt (data : List Octet) : announced data < 65536 := by
  have hlow := (data.getD 0 0).isLt
  have hhigh := (data.getD 1 0).isLt
  unfold announced
  omega

section RecvData

variable {env : RecvEnv} {buf : List Octet}

theorem addFragment_cases (data : List Octet) (hbuf : env.aggrBuf = some buf) (htotal : env.totalLen < 65536) :
    (∃ state, addFragment env data = env.resetAggrBuf state) ∨
      env.offset + (data.length - 2) ≤ env.totalLen ∧ addFragment env data =
        ({ env with
            aggrBuf := some (copyTo buf env.offset (data.drop 2))
            offset := env.offset + (data.length - 2) }, []) := by
  unfold addFragment
  by_cases hlong : env.totalLen < env.offset + (data.length - 2)
  · rw [if_pos hlong]
    exact .inl ⟨_, rfl⟩
  · rw [if_neg hlong, hbuf, Nat.mod_eq_of_lt (by omega)]
    exact .inr ⟨Nat.le_of_not_lt hlong, rfl⟩

theorem startMessage_cases (memory : Option (Nat → Octet)) (env : RecvEnv) (data : List Octet) :
    (∃ state, startMessage memory env data = .error (env.resetAggrBuf state)) ∨
    (env.aggrBuf = none ∧ ∃ n state, n < 65536 ∧
      startMessage memory env data = .error ({ env with totalLen := n }, [.reportError state])) ∨
    (env.aggrBuf = none ∧ ∃ buf, buf.length = announced data ∧
      startMessage memory env data = .ok { env with totalLen := announced data, aggrBuf := some buf }) := by
  obtain ⟨recvSeq, aggrBuf, totalLen, offset⟩ := env
  unfold startMessage
  cases aggrBuf with
  | some buf => exact .inl ⟨_, rfl⟩
  | none =>
      by_cases hempty : announced data = 0
      · exact .inr (.inl ⟨rfl, announced data, _, announced_lt data, if_pos hempty⟩)
      · cases memory with
        | none => exact .inr (.inl ⟨rfl, announced data, _, announced_lt data, if_neg hempty⟩)
        | some memory =>
            refine .inr (.inr ⟨rfl, (List.range (announced data)).map memory, ?_, if_neg hempty⟩)
            rw [List.length_map, List.length_range]

/-- All that a fragment can do: a reset, an error before there is a buffer, the first fragment or a further one. -/
theorem recvData_fragment_cases (memory : Option (Nat → Octet)) (type : Octet) (data : List Octet)
    (hnone : env.aggrBuf = none → env.offset = 0) (htotal : env.totalLen < 65536) :
    (∃ state, recvData memory env type true data = env.resetAggrBuf state) ∨
    (env.aggrBuf = none ∧ ∃ n state, n < 65536 ∧
      recvData memory env type true data = ({ env with totalLen := n }, [.reportError state])) ∨
    (env.aggrBuf = none ∧ ∃ buf, buf.length = announced data ∧ data.length - 2 ≤ announced data ∧
      recvData memory env type true data =
        ({ env with
            totalLen := announced data
            aggrBuf := some (copyTo buf 0 (data.drop 2))
            offset := data.length - 2 }, [])) ∨
    ∃ buf, env.aggrBuf = some buf ∧ 0 < env.offset ∧ env.offset + (data.length - 2) ≤ env.totalLen ∧
      recvData memory env type true data =
        ({ env with
            aggrBuf := some (copyTo buf env.offset (data.drop 2))
            offset := env.offset + (data.length - 2) }, []) := by
  unfold recvData
  rw [if_pos rfl]
  by_cases hshort : data.length < 2
  · rw [if_pos hshort]
    exact .inl ⟨_, rfl⟩
  · rw [if_neg hshort]
    by_cases hzero : env.offset = 0
    · rw [if_pos hzero]
      rcases startMessage_cases memory env data with
        ⟨state, hreset⟩ | ⟨hfree, n, state, hn, herror⟩ | ⟨hfree, buf, hlen, hok⟩
      · exact .inl ⟨state, by rw [hreset]⟩
      · exact .inr (.inl ⟨hfree, n, state, hn, by rw [herror]⟩)
      · rw [hok]
        dsimp only
        have hadd := @addFragment_cases { env with totalLen := announced data, aggrBuf := some buf } buf data rfl
          (announced_lt data)
        rcases hadd with ⟨state, hreset⟩ | ⟨hle, hstored⟩
        · exact .inl ⟨state, hreset⟩
        · refine .inr (.inr (.inl ⟨hfree, buf, hlen, ?_, ?_⟩))
          · have hroom : env.offset + (data.length - 2) ≤ announced data := hle
            omega
          · rw [hstored]
            dsimp only
            rw [hzero, Nat.zero_add]
    · rw [if_neg hzero]
      cases hbuf : env.aggrBuf with
      | none => exact absurd (hnone hbuf) hzero
      | some buf =>
          rcases addFragment_cases data hbuf htotal with ⟨state, hreset⟩ | ⟨hle, hstored⟩
          · exact .inl ⟨state, hreset⟩
          · exact .inr (.inr (.inr ⟨buf, rfl, Nat.pos_of_ne_zero hzero, hle, hstored⟩))

/-- All that a packet that is no fragment can do: a reset, the delivery of a fragmented message or of this packet. -/
theorem recvData_last_cases (memory : Option (Nat → Octet)) (type : Octet) (data : List Octet)
    (hnone : env.aggrBuf = none → env.offset = 0) :
    (∃ state, recvData memory env type false data = env.resetAggrBuf state) ∨
    (∃ buf, env.aggrBuf = some buf ∧ 0 < env.offset ∧ env.offset + data.length = env.totalLen ∧
      recvData memory env type false data = ({ env with offset := 0, aggrBuf := none },
        [.protocolHandler type ((copyTo buf env.offset data).take env.totalLen)])) ∨
    (env.offset = 0 ∧ recvData memory env type false data = (env, [.protocolHandler type data])) := by
  obtain ⟨recvSeq, aggrBuf, totalLen, offset⟩ := env
  unfold recvData
  rw [if_neg Bool.false_ne_true]
  dsimp only at hnone ⊢
  by_cases hpos : 0 < offset
  · rw [if_pos hpos]
    cases aggrBuf with
    | none => exact absurd (hnone rfl) (Nat.ne_of_gt hpos)
    | some buf =>
        dsimp only
        by_cases hsame : offset + data.length ≠ totalLen
        · rw [if_pos hsame]
          exact .inl ⟨_, rfl⟩
        · rw [if_neg hsame]
          exact .inr (.inl ⟨buf, rfl, hpos, Decidable.not_not.mp hsame, rfl⟩)
  · rw [if_neg hpos]
    obtain rfl : offset = 0 := Nat.eq_zero_of_not_pos hpos
    exact .inr (.inr ⟨rfl, rfl⟩)

end RecvData

/-! ## The invariant -/

/-- The buffer is bounded, and holds what the collected fragments carried. -/
structure Kept (o : Observed) : Prop where
  bounded : Bounded o.env
  short : o.env.totalLen < 65536
  idle : o.env.aggrBuf = none → o.env.offset = 0 ∧ o.collected = []
  written : ∀ buf, o.env.aggrBuf = some buf → 0 < o.env.offset → ∃ first rest, o.collected = first :: rest ∧
    announced first = o.env.totalLen ∧ (o.collected.map (List.drop 2)).flatten = buf.take o.env.offset

theorem accepted_none_of_error {arrival : Arrival} {env : RecvEnv}
    (h : (recvHandler arrival.cbs arrival.memory env arrival.octets).2.any Event.isError = true) :
    accepted env arrival = none := by
  unfold accepted
  split
  · rw [if_pos h]
  · rfl

theorem kept_reset {env : RecvEnv} {lastFragment : Bool} (state : ErrorState) :
    Kept { env := (env.resetAggrBuf state).1, collected := [], lastFragment := lastFragment } where
  bounded := ⟨Nat.le_refl 0, fun buf hbuf => nomatch hbuf⟩
  short := (by decide : 0 < 65536)
  idle := fun _ => ⟨rfl, rfl⟩
  written := fun buf hbuf => nomatch hbuf

/-- What the last step of a packet does to the receiver and its history. -/
def Observed.afterData (o : Observed) (frag : Bool) (data : List Octet) (received : RecvEnv × List Event) : Observed where
  env := received.1
  collected :=
    if received.2.any Event.isReset || received.2.any Event.isDelivery then []
    else if received.2.any Event.isError then o.collected
    else if frag then o.collected ++ [data] else o.collected
  lastFragment := if received.2.any Event.isError then o.lastFragment else frag

/-- The three kinds of packets again, as the history sees them. -/
theorem observe_cases (o : Observed) (arrival : Arrival) :
    (accepted o.env arrival = none ∧ ((observe o arrival = o ∧
        ∃ state, (recvHandler arrival.cbs arrival.memory o.env arrival.octets).2 = [.reportError state]) ∨
      ∃ state, observe o arrival = ⟨({ o.env with recvSeq := o.env.recvSeq + 1 }.resetAggrBuf state).1, [], o.lastFragment⟩ ∧
        (recvHandler arrival.cbs arrival.memory o.env arrival.octets).2 = [.reset, .reportError state])) ∨
    ∃ type frag data ack, (ack = [] ∨ ∃ seq, ack = [Event.sendAck seq]) ∧
      observe o arrival = o.afterData frag data
        (recvData arrival.memory { o.env with recvSeq := o.env.recvSeq + 1 } type frag data) ∧
      (recvHandler arrival.cbs arrival.memory o.env arrival.octets).2 =
        ack ++ (recvData arrival.memory { o.env with recvSeq := o.env.recvSeq + 1 } type frag data).2 ∧
      accepted o.env arrival =
        if (recvData arrival.memory { o.env with recvSeq := o.env.recvSeq + 1 } type frag data).2.any Event.isError then none
        else some (type, frag, data) := by
  rcases recvHandler_cases arrival o.env with (⟨state, hignored⟩ | ⟨state, hreset⟩) | ⟨type, frag, data, ack, hack, hrecv, haccept⟩
  · have hnone : accepted o.env arrival = none := accepted_none_of_error (by rw [hignored]; rfl)
    refine .inl ⟨hnone, .inl ⟨?_, state, by rw [hignored]⟩⟩
    unfold observe
    rw [hnone, hignored]
    rfl
  · have hnone : accepted o.env arrival = none := accepted_none_of_error (by rw [hreset]; rfl)
    refine .inl ⟨hnone, .inr ⟨state, ?_, by rw [hreset]; rfl⟩⟩
    unfold observe
    rw [hnone, hreset]
    rfl
  · have hacks : ack.any Event.isReset = false ∧ ack.any Event.isDelivery = false ∧ ack.any Event.isError = false := by
      rcases hack with rfl | ⟨seq, rfl⟩
      · exact ⟨rfl, rfl, rfl⟩
      · exact ⟨rfl, rfl, rfl⟩
    rw [hrecv] at haccept
    rw [List.any_append, hacks.2.2, Bool.false_or] at haccept
    refine .inr ⟨type, frag, data, ack, hack, ?_, by rw [hrecv], haccept⟩
    unfold observe Observed.afterData
    dsimp only
    rw [haccept, hrecv]
    simp only [List.any_append, hacks, Bool.false_or]
    by_cases herror : (recvData arrival.memory { o.env with recvSeq := o.env.recvSeq + 1 } type frag data).2.any
        Event.isError = true
    · rw [if_pos herror, if_pos herror, if_pos herror]
    · rw [if_neg herror, if_neg herror, if_neg herror]
      cases frag with
      | true => rfl
      | false => rfl

section Steps

variable {o : Observed} {arrival : Arrival}

/-- A packet keeps the invariant. -/
theorem observe_kept (h : Kept o) (arrival : Arrival) : Kept (observe o arrival) := by
  have hnone : ({ o.env with recvSeq := o.env.recvSeq + 1 } : RecvEnv).aggrBuf = none →
      ({ o.env with recvSeq := o.env.recvSeq + 1 } : RecvEnv).offset = 0 := fun hfree => (h.idle hfree).1
  rcases observe_cases o arrival with ⟨-, ⟨hsame, -⟩ | ⟨state, hreset, -⟩⟩ | ⟨type, frag, data, ack, -, hdata, -, -⟩
  · rw [hsame]
    exact h
  · rw [hreset]
    exact kept_reset state
  · rw [hdata]
    have hdrop : (data.drop 2).length = data.length - 2 := List.length_drop
    cases frag with
    | true =>
        rcases recvData_fragment_cases arrival.memory type data hnone h.short with
          ⟨state, hreset⟩ | ⟨hfree, n, state, hn, herror⟩ | ⟨hfree, buf, hlen, hroom, hfirst⟩ |
            ⟨buf, hbuf, hpos, hroom, hnext⟩
        · rw [hreset]
          exact kept_reset state
        · rw [herror]
          obtain ⟨hoffset, hempty⟩ := h.idle hfree
          refine ⟨⟨?_, fun buf hbuf => nomatch hfree.symm.trans hbuf⟩, hn, fun _ => ⟨hoffset, hempty⟩,
            fun buf hbuf => nomatch hfree.symm.trans hbuf⟩
          exact Nat.le_trans (Nat.le_of_eq hoffset) (Nat.zero_le n)
        · rw [hfirst]
          have hfits : 0 + (data.drop 2).length ≤ buf.length := by omega
          refine ⟨⟨hroom, fun buf' hbuf' => ?_⟩, announced_lt data, (fun hfree' => nomatch hfree'), fun buf' hbuf' hpos => ?_⟩
          · obtain rfl := Option.some.inj hbuf'
            exact (length_copyTo hfits).trans hlen
          · obtain rfl := Option.some.inj hbuf'
            have hcollected : (o.afterData true data ({ o.env with
                recvSeq := o.env.recvSeq + 1, totalLen := announced data, aggrBuf := some (copyTo buf 0 (data.drop 2)),
                offset := data.length - 2 }, [])).collected = [data] := by
              unfold Observed.afterData
              simp [(h.idle hfree).2]
            refine ⟨data, [], hcollected, rfl, ?_⟩
            have htake := take_copyTo hfits
            rw [Nat.zero_add, hdrop, List.take_zero, List.nil_append] at htake
            rw [hcollected, List.map_singleton, List.flatten_singleton]
            exact htake.symm
        · rw [hnext]
          have hlen : buf.length = o.env.totalLen := h.bounded.2 buf hbuf
          have hroom' : o.env.offset + (data.length - 2) ≤ o.env.totalLen := hroom
          have hfits : o.env.offset + (data.drop 2).length ≤ buf.length := by omega
          obtain ⟨first, rest, hfirst, hannounced, hwritten⟩ := h.written buf hbuf hpos
          refine ⟨⟨hroom, fun buf' hbuf' => ?_⟩, h.short, (fun hfree' => nomatch hfree'), fun buf' hbuf' _ => ?_⟩
          · obtain rfl := Option.some.inj hbuf'
            exact (length_copyTo hfits).trans hlen
          · obtain rfl := Option.some.inj hbuf'
            refine ⟨first, rest ++ [data], ?_, hannounced, ?_⟩
            · have hcollected : o.collected ++ [data] = first :: (rest ++ [data]) := by rw [hfirst, List.cons_append]
              exact hcollected
            · have hflatten : ((o.collected ++ [data]).map (List.drop 2)).flatten =
                  (copyTo buf o.env.offset (data.drop 2)).take (o.env.offset + (data.length - 2)) := by
                rw [List.map_append, List.flatten_append, hwritten, List.map_singleton, List.flatten_singleton, ← hdrop,
                  take_copyTo hfits]
              exact hflatten
    | false =>
        rcases recvData_last_cases arrival.memory type data hnone with
          ⟨state, hreset⟩ | ⟨buf, hbuf, hpos, hsame, hdeliver⟩ | ⟨hzero, hdeliver⟩
        · rw [hreset]
          exact kept_reset state
        · rw [hdeliver]
          exact ⟨⟨Nat.zero_le _, fun buf' hbuf' => nomatch hbuf'⟩, h.short, fun _ => ⟨rfl, rfl⟩,
            fun buf' hbuf' => nomatch hbuf'⟩
        · rw [hdeliver]
          exact ⟨h.bounded, h.short, fun hfree => ⟨(h.idle hfree).1, rfl⟩,
            fun buf' hbuf' hpos => absurd hzero (Nat.ne_of_gt hpos)⟩

theorem observed_kept (seq : Octet) (history : List Arrival) : Kept (observed seq history) := by
  induction history with
  | nil =>
      exact ⟨⟨Nat.le_refl 0, fun buf hbuf => nomatch hbuf⟩, (by decide : 0 < 65536), fun _ => ⟨rfl, rfl⟩,
        fun buf hbuf => nomatch hbuf⟩
  | cons arrival earlier ih => exact observe_kept ih arrival

/-- Whatever comes, a delivery is a single packet or the collected fragments with the last packet. -/
theorem delivers_collected (h : Kept o) (arrival : Arrival) : DeliversCollected o arrival := by
  have hnone : ({ o.env with recvSeq := o.env.recvSeq + 1 } : RecvEnv).aggrBuf = none →
      ({ o.env with recvSeq := o.env.recvSeq + 1 } : RecvEnv).offset = 0 := fun hfree => (h.idle hfree).1
  intro type payload hevent
  rcases observe_cases o arrival with ⟨-, ⟨-, state, hevents⟩ | ⟨state, -, hevents⟩⟩ |
    ⟨type', frag, data, ack, hack, -, hevents, haccept⟩
  · rw [hevents] at hevent
    simp at hevent
  · rw [hevents] at hevent
    simp at hevent
  · rw [hevents] at hevent
    have hdelivered : Event.protocolHandler type payload ∈
        (recvData arrival.memory { o.env with recvSeq := o.env.recvSeq + 1 } type' frag data).2 := by
      rcases List.mem_append.mp hevent with hinack | hrest
      · rcases hack with rfl | ⟨seq, rfl⟩
        · exact nomatch hinack
        · simp at hinack
      · exact hrest
    cases frag with
    | true =>
        rcases recvData_fragment_cases arrival.memory type' data hnone h.short with
          ⟨state, hreset⟩ | ⟨hfree, n, state, hn, herror⟩ | ⟨hfree, buf, hlen, hroom, hfirst⟩ |
            ⟨buf, hbuf, hpos, hroom, hnext⟩
        · rw [hreset] at hdelivered
          simp [RecvEnv.resetAggrBuf] at hdelivered
        · rw [herror] at hdelivered
          simp at hdelivered
        · rw [hfirst] at hdelivered
          exact nomatch hdelivered
        · rw [hnext] at hdelivered
          exact nomatch hdelivered
    | false =>
        rcases recvData_last_cases arrival.memory type' data hnone with
          ⟨state, hreset⟩ | ⟨buf, hbuf, hpos, hsame, hdeliver⟩ | ⟨hzero, hdeliver⟩
        · rw [hreset] at hdelivered
          simp [RecvEnv.resetAggrBuf] at hdelivered
        · rw [hdeliver] at hdelivered haccept
          obtain ⟨rfl, hpayload⟩ := Event.protocolHandler.inj (List.mem_singleton.mp hdelivered)
          have hlen : buf.length = o.env.totalLen := h.bounded.2 buf hbuf
          have hend : o.env.offset + data.length = o.env.totalLen := hsame
          obtain ⟨first, rest, hfirst, hannounced, hwritten⟩ := h.written buf hbuf hpos
          have hall : payload = (o.collected.map (List.drop 2)).flatten ++ data := by
            rw [hpayload, hwritten]
            have hfits : o.env.offset + data.length ≤ buf.length := by omega
            have htake := take_copyTo hfits
            rw [hend] at htake
            exact htake
          refine ⟨data, haccept, .inr ⟨first, rest, hfirst, hall, ?_⟩⟩
          rw [hall, hwritten, List.length_append, List.length_take, hannounced]
          omega
        · rw [hdeliver] at hdelivered haccept
          obtain ⟨rfl, rfl⟩ := Event.protocolHandler.inj (List.mem_singleton.mp hdelivered)
          exact ⟨payload, haccept, .inl rfl⟩

/-! ## A message after the packets -/

theorem arrives_handler {arrival : Arrival} {env : RecvEnv} {type : Octet} {frag : Bool} {plain : List Octet}
    (h : Arrives arrival env.recvSeq type frag plain) : ∃ ack, (ack = [] ∨ ∃ seq, ack = [Event.sendAck seq]) ∧
      recvHandler arrival.cbs arrival.memory env arrival.octets =
        ((recvData arrival.memory { env with recvSeq := env.recvSeq + 1 } type frag plain).1,
          ack ++ (recvData arrival.memory { env with recvSeq := env.recvSeq + 1 } type frag plain).2) := by
  obtain ⟨fc, dataLen, rest, hoctets, hlen, hdecrypt, hsum, hfrag, -⟩ := h
  rw [hoctets] at hlen ⊢
  refine ⟨if fcIs fc fcReqAck then [Event.sendAck env.recvSeq] else [], ?_, ?_⟩
  · split
    · exact .inr ⟨_, rfl⟩
    · exact .inl rfl
  · refine (if_neg (fun hne => hne hlen)).trans ((if_neg (fun hne => hne rfl)).trans ?_)
    rw [hdecrypt, ← hfrag]
    exact if_pos hsum

/-- The acknowledgement is no delivery. -/
theorem filter_ack {ack events : List Event} (h : ack = [] ∨ ∃ seq, ack = [Event.sendAck seq]) :
    (ack ++ events).filter Event.isDelivery = events.filter Event.isDelivery := by
  rcases h with rfl | ⟨seq, rfl⟩
  · rfl
  · rfl

/-- In the middle of a message, with its first octets in the buffer. -/
structure Midway (data : List Octet) (env : RecvEnv) (buf : List Octet) : Prop where
  buffer : env.aggrBuf = some buf
  size : buf.length = data.length
  total : env.totalLen = data.length
  pos : 0 < env.offset
  written : buf.take env.offset = data.take env.offset

theorem rest_delivered {data last : List Octet} {type : Octet} (contents : List (List Octet)) (arrivals : List Arrival)
    (env : RecvEnv) (buf : List Octet) (hmid : Midway data env buf) (hdata : data.length < 65536)
    (hleft : data.drop env.offset = contents.flatten ++ last) (hle : env.offset ≤ data.length)
    (h : RestArrives type env.recvSeq contents last arrivals) :
    (recvRun env arrivals).2.filter Event.isDelivery = [.protocolHandler type data] := by
  induction contents generalizing arrivals env buf with
  | nil =>
      cases arrivals with
      | nil => exact False.elim h
      | cons arrival others =>
          cases others with
          | nil =>
              have harrives : Arrives arrival env.recvSeq type false last := h
              obtain ⟨ack, hack, hhandler⟩ := arrives_handler harrives
              have hlast : (data.drop env.offset).length = last.length := congrArg List.length hleft
              rw [List.length_drop] at hlast
              have hdata' : recvData arrival.memory { env with recvSeq := env.recvSeq + 1 } type false last =
                  ({ env with recvSeq := env.recvSeq + 1, offset := 0, aggrBuf := none },
                    [.protocolHandler type ((copyTo buf env.offset last).take env.totalLen)]) := by
                unfold recvData
                rw [if_neg Bool.false_ne_true, if_pos hmid.pos, hmid.buffer]
                dsimp only
                rw [if_neg]
                rw [hmid.total]
                omega
              have hpayload : (copyTo buf env.offset last).take env.totalLen = data := by
                have htotal : env.totalLen = env.offset + last.length := by
                  rw [hmid.total]
                  omega
                have hdrop : data.drop env.offset = last := hleft
                rw [htotal, take_copyTo (by rw [hmid.size]; omega), hmid.written, ← hdrop, List.take_append_drop]
              unfold recvRun recvRun
              rw [hhandler, hdata', hpayload]
              dsimp only
              rw [List.append_nil, filter_ack hack]
              rfl
          | cons _ _ => exact False.elim h
  | cons content contents ih =>
      cases arrivals with
      | nil => exact False.elim h
      | cons arrival arrivals =>
          obtain ⟨⟨lo, hi, harrives⟩, hrest⟩ := h
          obtain ⟨ack, hack, hhandler⟩ := arrives_handler harrives
          rw [List.flatten_cons, List.append_assoc] at hleft
          have hlen : (data.drop env.offset).length = content.length + (contents.flatten ++ last).length := by
            rw [hleft, List.length_append]
          rw [List.length_drop] at hlen
          have hroom : env.offset + content.length ≤ env.totalLen := by
            rw [hmid.total]
            omega
          have hdata' : recvData arrival.memory { env with recvSeq := env.recvSeq + 1 } type true (lo :: hi :: content) =
              ({ env with
                  recvSeq := env.recvSeq + 1
                  aggrBuf := some (copyTo buf env.offset content)
                  offset := env.offset + content.length }, []) := by
            unfold recvData
            rw [if_pos rfl, if_neg (by simp), if_neg (Nat.ne_of_gt hmid.pos)]
            exact addFragment_some lo hi content hmid.buffer hroom (by rw [hmid.total]; exact hdata)
          have hfits : env.offset + content.length ≤ buf.length := by
            rw [hmid.size]
            omega
          unfold recvRun
          rw [hhandler, hdata']
          dsimp only
          rw [List.append_nil, filter_ack hack]
          refine ih arrivals _ (copyTo buf env.offset content) ⟨rfl, (length_copyTo hfits).trans hmid.size, hmid.total,
            Nat.add_pos_left hmid.pos _, ?_⟩ ?_ ?_ hrest
          · have hcontent : content = (data.drop env.offset).take content.length := by rw [hleft, List.take_left]
            dsimp only
            rw [take_copyTo hfits, hmid.written]
            conv => lhs; rw [hcontent]
            exact drop_take_append data env.offset content.length
          · dsimp only
            rw [← List.drop_drop, hleft, List.drop_left]
          · dsimp only
            rw [← hmid.total]
            exact hroom

/-- From an idle receiver a whole message is delivered exactly once. -/
theorem message_delivered {env : RecvEnv} (hfree : env.aggrBuf = none) (hzero : env.offset = 0) {type : Octet}
    {data : List Octet} {arrivals : List Arrival} (h : MessageArrives env type data arrivals) :
    (recvRun env arrivals).2.filter Event.isDelivery = [.protocolHandler type data] := by
  obtain ⟨lo, hi, first, contents, last, arrival, rest, rfl, hfirst, harrives, hannounced, hrest, hdata⟩ := h
  obtain ⟨ack, hack, hhandler⟩ := arrives_handler harrives
  obtain ⟨memory, hmemory⟩ : ∃ memory, arrival.memory = some memory := by
    obtain ⟨_, _, _, -, -, -, -, -, hsome⟩ := harrives
    exact Option.isSome_iff_exists.mp hsome
  have hpos : 0 < first.length := List.length_pos_of_ne_nil hfirst
  have hlen : data.length = first.length + (contents.flatten ++ last).length := by
    rw [hdata, List.append_assoc, List.length_append]
  have hshort : data.length < 65536 := hannounced ▸ announced_lt _
  have hbuf : ((List.range data.length).map memory).length = data.length := by rw [List.length_map, List.length_range]
  have hfits : 0 + first.length ≤ ((List.range data.length).map memory).length := by
    rw [hbuf]
    omega
  have hstored : recvData arrival.memory { env with recvSeq := env.recvSeq + 1 } type true (lo :: hi :: first) =
      ({ env with
          recvSeq := env.recvSeq + 1
          totalLen := data.length
          aggrBuf := some (copyTo ((List.range data.length).map memory) 0 first)
          offset := first.length }, []) := by
    have hstart : startMessage (some memory) { env with recvSeq := env.recvSeq + 1 } (lo :: hi :: first) =
        .ok { env with
          recvSeq := env.recvSeq + 1
          totalLen := announced (lo :: hi :: first)
          aggrBuf := some ((List.range (announced (lo :: hi :: first))).map memory) } :=
      startMessage_ok hfree (by omega)
    unfold recvData
    rw [if_pos rfl, if_neg (by simp), if_pos hzero, hmemory, hstart, hannounced]
    dsimp only
    have hadd := @addFragment_some { env with
      recvSeq := env.recvSeq + 1, totalLen := data.length, aggrBuf := some ((List.range data.length).map memory) }
      _ lo hi first rfl (by dsimp only; omega) hshort
    rw [hadd]
    dsimp only
    rw [hzero, Nat.zero_add]
  unfold recvRun
  rw [hhandler, hstored]
  dsimp only
  rw [List.append_nil, filter_ack hack]
  refine rest_delivered contents rest _ (copyTo ((List.range data.length).map memory) 0 first)
    ⟨rfl, (length_copyTo hfits).trans hbuf, rfl, hpos, ?_⟩ hshort ?_ ?_ hrest
  · have htake := take_copyTo hfits
    rw [Nat.zero_add, List.take_zero, List.nil_append] at htake
    dsimp only
    rw [htake, hdata, List.append_assoc, List.take_left]
  · dsimp only
    rw [hdata, List.append_assoc, List.drop_left]
  · dsimp only
    omega

/-- As long as no buffer is left standing, the receiver is idle whenever the last accepted packet was no fragment. -/
theorem observe_idle (h : Kept o) (hidle : o.lastFragment = false → o.env.aggrBuf = none)
    (hstep : ¬LeavesBuffer o arrival) (hlast : (observe o arrival).lastFragment = false) :
    (observe o arrival).env.aggrBuf = none := by
  have hnone : ({ o.env with recvSeq := o.env.recvSeq + 1 } : RecvEnv).aggrBuf = none →
      ({ o.env with recvSeq := o.env.recvSeq + 1 } : RecvEnv).offset = 0 := fun hfree => (h.idle hfree).1
  rcases observe_cases o arrival with ⟨-, ⟨hsame, -⟩ | ⟨state, hreset, -⟩⟩ | ⟨type, frag, data, ack, -, hdata, -, haccept⟩
  · rw [hsame] at hlast ⊢
    exact hidle hlast
  · rw [hreset]
    rfl
  · rw [hdata] at hlast ⊢
    cases frag with
    | true =>
        rcases recvData_fragment_cases arrival.memory type data hnone h.short with
          ⟨state, hreset⟩ | ⟨hfree, n, state, hn, herror⟩ | ⟨hfree, buf, hlen, hroom, hfirst⟩ |
            ⟨buf, hbuf, hpos, hroom, hnext⟩
        · rw [hreset]
          rfl
        · rw [herror]
          exact hfree
        · rw [hfirst] at hlast
          exact nomatch hlast
        · rw [hnext] at hlast
          exact nomatch hlast
    | false =>
        rcases recvData_last_cases arrival.memory type data hnone with
          ⟨state, hreset⟩ | ⟨buf, hbuf, hpos, hsame, hdeliver⟩ | ⟨hzero, hdeliver⟩
        · rw [hreset]
          rfl
        · rw [hdeliver]
          rfl
        · rw [hdeliver] at haccept ⊢
          cases hbuf : o.env.aggrBuf with
          | none => exact hbuf
          | some buf => exact absurd ⟨⟨type, data, haccept⟩, by rw [hbuf]; rfl, hzero⟩ hstep

/-- A receiver that is idle when the last accepted packet was no fragment recovers. -/
theorem recovers_of_idle (h : Kept o) (hidle : o.lastFragment = false → o.env.aggrBuf = none) : Recovers o := by
  intro hlast type data arrivals harrives
  exact message_delivered (hidle hlast) (h.idle (hidle hlast)).1 harrives

/-- A packet in the clear. -/
def plainArrival (octets : List Octet) : Arrival where
  cbs := { encryptFunc := none, decryptFunc := none, checksumFunc := none }
  memory := some fun _ => 0
  octets := octets

/-- A message of two octets, in a fragment of one octet and the last packet. -/
def twoOctets (seq : Octet) : List Arrival :=
  [plainArrival [0x4D, fcFrag, seq, 3, 2, 0, 1], plainArrival [0x4D, 0, seq + 1, 1, 2]]

theorem twoOctets_arrives (env : RecvEnv) : MessageArrives env 0x4D [1, 2] (twoOctets env.recvSeq) :=
  ⟨2, 0, [1], [], [2], _, _, rfl, by decide, ⟨fcFrag, 3, [2, 0, 1], rfl, rfl, rfl, rfl, rfl, rfl⟩, rfl,
    ⟨0, 1, [2], rfl, rfl, rfl, rfl, rfl, rfl⟩, rfl⟩

/-- A message that arrives while the buffer stands loses its first fragment. -/
private theorem twoOctets_cut_short {env : RecvEnv} (hbuf : env.aggrBuf.isSome) (hoffset : env.offset = 0) :
    (recvRun env (twoOctets env.recvSeq)).2.filter Event.isDelivery = [.protocolHandler 0x4D [2]] := by
  obtain ⟨recvSeq, aggrBuf, totalLen, offset⟩ := env
  obtain ⟨buf, rfl⟩ := Option.isSome_iff_exists.mp hbuf
  obtain rfl : offset = 0 := hoffset
  have hfirst : Arrives (plainArrival [0x4D, fcFrag, recvSeq, 3, 2, 0, 1]) recvSeq 0x4D true [2, 0, 1] :=
    ⟨fcFrag, 3, [2, 0, 1], rfl, rfl, rfl, rfl, rfl, rfl⟩
  have hsecond : Arrives (plainArrival [0x4D, 0, recvSeq + 1, 1, 2]) (recvSeq + 1) 0x4D false [2] :=
    ⟨0, 1, [2], rfl, rfl, rfl, rfl, rfl, rfl⟩
  obtain ⟨ack, hack, hhandler⟩ :=
    @arrives_handler _ { recvSeq := recvSeq, aggrBuf := some buf, totalLen := totalLen, offset := 0 } _ _ _ hfirst
  obtain ⟨ack', hack', hhandler'⟩ :=
    @arrives_handler _ { recvSeq := recvSeq + 1, aggrBuf := none, totalLen := 0, offset := 0 } _ _ _ hsecond
  have hdropped : recvData (plainArrival [0x4D, fcFrag, recvSeq, 3, 2, 0, 1]).memory
      { recvSeq := recvSeq + 1, aggrBuf := some buf, totalLen := totalLen, offset := 0 } 0x4D true [2, 0, 1] =
      ({ recvSeq := recvSeq + 1, aggrBuf := none, totalLen := 0, offset := 0 }, [.reset, .reportError .msgState]) := rfl
  have hdelivered : recvData (plainArrival [0x4D, 0, recvSeq + 1, 1, 2]).memory
      { recvSeq := recvSeq + 1 + 1, aggrBuf := none, totalLen := 0, offset := 0 } 0x4D false [2] =
      ({ recvSeq := recvSeq + 1 + 1, aggrBuf := none, totalLen := 0, offset := 0 }, [.protocolHandler 0x4D [2]]) := rfl
  unfold twoOctets recvRun recvRun recvRun
  rw [hhandler, hdropped]
  dsimp only
  rw [hhandler', hdelivered]
  dsimp only
  rw [List.append_nil, List.filter_append, filter_ack hack, filter_ack hack']
  rfl

/-- With a buffer left standing the message is cut short. -/
theorem leftBuffer_not_recovers (hstep : LeavesBuffer o arrival) : ¬Recovers (observe o arrival) := by
  obtain ⟨⟨type, data, haccepted⟩, hsome, hzero⟩ := hstep
  have hleft : (observe o arrival).lastFragment = false ∧ (observe o arrival).env.aggrBuf.isSome ∧
      (observe o arrival).env.offset = 0 := by
    rcases observe_cases o arrival with ⟨hnone, -⟩ | ⟨type', frag, data', ack, -, hdata, -, haccept⟩
    · rw [hnone] at haccepted
      exact nomatch haccepted
    · rw [haccept] at haccepted
      have herror : ¬(recvData arrival.memory { o.env with recvSeq := o.env.recvSeq + 1 } type' frag data').2.any
          Event.isError = true := by
        intro herror
        rw [if_pos herror] at haccepted
        exact nomatch haccepted
      rw [if_neg herror] at haccepted
      obtain ⟨-, hpair⟩ := Prod.mk.inj (Option.some.inj haccepted)
      obtain ⟨rfl, -⟩ := Prod.mk.inj hpair
      have hdeliver : recvData arrival.memory { o.env with recvSeq := o.env.recvSeq + 1 } type' false data' =
          ({ o.env with recvSeq := o.env.recvSeq + 1, offset := 0 }, [.protocolHandler type' data']) := by
        unfold recvData
        rw [if_neg Bool.false_ne_true, if_neg]
        exact Nat.not_lt.mpr (Nat.le_of_eq hzero)
      rw [hdata, hdeliver]
      exact ⟨rfl, hsome, rfl⟩
  obtain ⟨hlast, hbuf, hoffset⟩ := hleft
  intro hrecovers
  have hdelivered := hrecovers hlast _ _ _ (twoOctets_arrives (observe o arrival).env)
  rw [twoOctets_cut_short hbuf hoffset] at hdelivered
  simp at hdelivered

/-! ## Runs -/

/-- In every run the offset stays within the buffer and deliveries are what was collected; and after each beginning of the run
a whole message is delivered exactly once, as long as, and only if, no packet of it leaves the buffer of an empty first
fragment standing. -/
theorem reassembly_recovers_iff (seq : Octet) (history : List Arrival) :
    ((∀ earlier, earlier <:+ history → Bounded (observed seq earlier).env ∧ Recovers (observed seq earlier)) ∧
      ∀ arrival earlier, arrival :: earlier <:+ history → DeliversCollected (observed seq earlier) arrival) ↔
      ∀ arrival earlier, arrival :: earlier <:+ history → ¬LeavesBuffer (observed seq earlier) arrival := by
  constructor
  · rintro ⟨hrecovers, -⟩ arrival earlier hsuffix hleaves
    exact leftBuffer_not_recovers hleaves (hrecovers _ hsuffix).2
  · intro hsteps
    refine ⟨fun earlier hsuffix => ⟨(observed_kept seq earlier).bounded, ?_⟩,
      fun arrival earlier _ => delivers_collected (observed_kept seq earlier) arrival⟩
    refine recovers_of_idle (observed_kept seq earlier) ?_
    induction earlier with
    | nil => exact fun _ => rfl
    | cons arrival earlier ih =>
        have hidle := ih ((List.suffix_cons arrival earlier).trans hsuffix)
        exact observe_idle (observed_kept seq earlier) hidle (hsteps arrival earlier hsuffix)

/-- An empty first fragment, then a single packet: the message after it is not delivered. -/
theorem empty_fragment_blocks : ¬Recovers (observed 0 [plainArrival [0x4D, 0, 1, 1, 9],
    plainArrival [0x4D, fcFrag, 0, 2, 5, 0]]) := by
  refine leftBuffer_not_recovers ⟨⟨0x4D, [9], ?_⟩, ?_, ?_⟩
  · decide +kernel
  · decide +kernel
  · decide +kernel

end Steps

end EspIdf.Blufi
