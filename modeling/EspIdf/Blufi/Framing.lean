import EspIdf.Blufi.BlufiPrf

/-!
# Framing

* `Matching` : the callbacks of two endpoints fit together;
* `recvHandler_packet` : a packet arrives with the data it was made of;
* `Progress` : the reassembly buffer while a message arrives;
* `framing_round_trip` : a message arrives as one message.
-/

namespace EspIdf.Blufi

/-- A call of the receive handler: its callbacks, what `osi_malloc` would find, and the octets. -/
structure Arrival where
  cbs : Callbacks
  memory : Option (Nat → Octet)
  octets : List Octet

/-- The calls of the receive handler, and all they make it do. -/
def recvRun (env : RecvEnv) : List Arrival → RecvEnv × List Event
  | [] => (env, [])
  | arrival :: rest =>
    let received := recvHandler arrival.cbs arrival.memory env arrival.octets
    let later := recvRun received.1 rest
    (later.1, received.2 ++ later.2)

/-- Encryption succeeds and keeps the length, decryption undoes it, and the checksums are equal. -/
structure Matching (sender receiver : Callbacks) : Prop where
  checksum : receiver.checksumFunc = sender.checksumFunc
  encrypt : ∀ encryptFunc, sender.encryptFunc = some encryptFunc → (∀ seq data, (encryptFunc seq data).ret = data.length) ∧
    ∃ decryptFunc, receiver.decryptFunc = some decryptFunc ∧ ∀ seq data,
      (decryptFunc seq (encryptFunc seq data).octets).ret = data.length ∧
      (decryptFunc seq (encryptFunc seq data).octets).octets = data

theorem fragSize_bounds (localMtu : LocalMtu) (mtu : BitVec 16) :
    12 ≤ fragSizeOfMtu (payloadSize localMtu mtu) ∧ fragSizeOfMtu (payloadSize localMtu mtu) ≤ 244 := by
  have hlow : 23 ≤ (payloadSize localMtu mtu).toNat := by
    unfold payloadSize
    have hlocal := localMtu.lower
    by_cases hsmall : mtu.toNat < 23
    · rw [if_pos hsmall]
      decide
    · rw [if_neg hsmall]
      by_cases hlarge : localMtu.mtu.toNat < mtu.toNat
      · rw [if_pos hlarge]
        exact hlocal
      · rw [if_neg hlarge]
        omega
  have hreserved : mtuReservedSize = 11 := rfl
  unfold fragSizeOfMtu
  by_cases hlimit : (payloadSize localMtu mtu).toNat < 255
  · rw [if_pos hlimit]
    omega
  · rw [if_neg hlimit]
    decide

theorem length_octets16 (n : Nat) : (octets16 n).length = 2 := rfl

theorem announced_octets16 {n : Nat} (h : n < 65536) (rest : List Octet) : announced (octets16 n ++ rest) = n := by
  have hvalue : announced (octets16 n ++ rest) = n % 256 + 256 * (n / 256 % 256) := rfl
  omega

/-! ## One packet -/

section Packet

variable {sender receiver : Callbacks} {secMode type seq fragFc : Octet} {plain : List Octet}

theorem flags_read {checkFc encFc : Octet} (hfrag : fragFc = 0 ∨ fragFc = fcFrag) (hcheck : checkFc = 0 ∨ checkFc = fcCheck)
    (henc : encFc = 0 ∨ encFc = fcEnc) :
    fcIs (fragFc ||| fcDirE2P ||| checkFc ||| encFc) fcCheck = decide (checkFc = fcCheck) ∧
      fcIs (fragFc ||| fcDirE2P ||| checkFc ||| encFc) fcEnc = decide (encFc = fcEnc) ∧
      fcIs (fragFc ||| fcDirE2P ||| checkFc ||| encFc) fcReqAck = false ∧
      fcIs (fragFc ||| fcDirE2P ||| checkFc ||| encFc) fcFrag = decide (fragFc = fcFrag) := by
  rcases hfrag with rfl | rfl
  · rcases hcheck with rfl | rfl
    · rcases henc with rfl | rfl
      · decide
      · decide
    · rcases henc with rfl | rfl
      · decide
      · decide
  · rcases hcheck with rfl | rfl
    · rcases henc with rfl | rfl
      · decide
      · decide
    · rcases henc with rfl | rfl
      · decide
      · decide

/-- The flag says whether the two octets of the checksum follow. -/
theorem addChecksum_cases (cbs : Callbacks) (secMode type seq : Octet) (plain : List Octet) :
    addChecksum cbs secMode type seq plain = (0, []) ∨
      ∃ checksum, cbs.checksumFunc = some checksum ∧ addChecksum cbs secMode type seq plain =
        (fcCheck, octets16 (checksum seq ([seq, BitVec.ofNat 8 plain.length] ++ plain)).toNat) := by
  unfold addChecksum
  cases cbs.checksumFunc with
  | none => exact .inl rfl
  | some checksum =>
      dsimp only
      split
      · exact .inr ⟨checksum, rfl, rfl⟩
      · exact .inl rfl

theorem encrypt_cases (h : Matching sender receiver) (secMode type seq : Octet) (plain : List Octet) :
    encrypt sender secMode type seq plain = .ok (0, plain) ∨
      ∃ octets decryptFunc, encrypt sender secMode type seq plain = .ok (fcEnc, octets) ∧
        octets.length = plain.length ∧ receiver.decryptFunc = some decryptFunc ∧
        (decryptFunc seq octets).ret = plain.length ∧ (decryptFunc seq octets).octets = plain := by
  unfold encrypt
  cases hfunc : sender.encryptFunc with
  | none => exact .inl rfl
  | some encryptFunc =>
      dsimp only
      obtain ⟨hret, decryptFunc, hdecrypt, hundo⟩ := h.encrypt encryptFunc hfunc
      split
      · rw [if_pos (hret seq plain)]
        exact .inr ⟨_, decryptFunc, rfl, (encryptFunc seq plain).length_eq, hdecrypt, hundo seq plain⟩
      · exact .inl rfl

theorem decrypt_packet (h : Matching sender receiver) {encFc : Octet} {octets : List Octet} {fc : Octet}
    (henc : encrypt sender secMode type seq plain = .ok (encFc, octets)) (hfc : fcIs fc fcEnc = decide (encFc = fcEnc)) :
    octets.length = plain.length ∧ decrypt receiver fc seq octets = .ok plain := by
  rcases encrypt_cases h secMode type seq plain with hplain | ⟨octets', decryptFunc, hcrypted, hlen, hfunc, hret, hundo⟩
  · rw [hplain] at henc
    obtain ⟨rfl, rfl⟩ := Prod.mk.inj (Except.ok.inj henc)
    refine ⟨rfl, ?_⟩
    have hclear : fcIs fc fcEnc = false := hfc
    unfold decrypt
    cases receiver.decryptFunc with
    | none => rfl
    | some decryptFunc => exact if_neg (by rw [hclear]; decide)
  · rw [hcrypted] at henc
    obtain ⟨rfl, rfl⟩ := Prod.mk.inj (Except.ok.inj henc)
    refine ⟨hlen, ?_⟩
    have hset : fcIs fc fcEnc = true := hfc
    unfold decrypt
    rw [hfunc]
    dsimp only
    rw [if_pos hset, hlen, if_pos hret, hundo]

/-- A packet arrives with the data it was made of, and with its fragment flag. -/
theorem recvHandler_packet (h : Matching sender receiver) (hfrag : fragFc = 0 ∨ fragFc = fcFrag)
    (hlen : plain.length < 256) {octets : List Octet} (hpacket : packet sender secMode type seq fragFc plain = .ok octets)
    (memory : Option (Nat → Octet)) (env : RecvEnv) (hseq : env.recvSeq = seq) :
    recvHandler receiver memory env octets =
      recvData memory { env with recvSeq := env.recvSeq + 1 } type (fragFc = fcFrag) plain := by
  obtain ⟨encFc, data, henc⟩ : ∃ encFc data, encrypt sender secMode type seq plain = .ok (encFc, data) := by
    rcases encrypt_cases h secMode type seq plain with hplain | ⟨octets', -, hcrypted, -⟩
    · exact ⟨_, _, hplain⟩
    · exact ⟨_, _, hcrypted⟩
  have hencFc : encFc = 0 ∨ encFc = fcEnc := by
    rcases encrypt_cases h secMode type seq plain with hplain | ⟨octets', -, hcrypted, -⟩
    · exact .inl (Prod.mk.inj (Except.ok.inj (henc.symm.trans hplain))).1
    · exact .inr (Prod.mk.inj (Except.ok.inj (henc.symm.trans hcrypted))).1
  obtain ⟨checkFc, check, hcheck⟩ : ∃ checkFc check, addChecksum sender secMode type seq plain = (checkFc, check) :=
    ⟨_, _, rfl⟩
  have hcheckCases : (checkFc = 0 ∧ check = []) ∨ ∃ checksum, sender.checksumFunc = some checksum ∧
      checkFc = fcCheck ∧ check = octets16 (checksum seq ([seq, BitVec.ofNat 8 plain.length] ++ plain)).toNat := by
    rcases addChecksum_cases sender secMode type seq plain with hnone | ⟨checksum, hfunc, hsome⟩
    · exact .inl (Prod.mk.inj (hcheck.symm.trans hnone))
    · exact .inr ⟨checksum, hfunc, Prod.mk.inj (hcheck.symm.trans hsome)⟩
  have hcheckFc : checkFc = 0 ∨ checkFc = fcCheck := hcheckCases.imp And.left fun ⟨_, _, hflag, _⟩ => hflag
  obtain ⟨hreadCheck, hreadEnc, hreadAck, hreadFrag⟩ := flags_read hfrag hcheckFc hencFc
  obtain ⟨hdataLen, hdecrypt⟩ := decrypt_packet h henc hreadEnc
  unfold packet at hpacket
  dsimp only at hpacket
  rw [henc, hcheck] at hpacket
  obtain rfl := Except.ok.inj hpacket
  have hoctet : (BitVec.ofNat 8 plain.length).toNat = plain.length := Nat.mod_eq_of_lt hlen
  have htake : (data ++ check).take plain.length = data := by rw [← hdataLen, List.take_left]
  have hdrop : (data ++ check).drop plain.length = check := by rw [← hdataLen, List.drop_left]
  have hlength : check.length = if decide (checkFc = fcCheck) = true then 2 else 0 := by
    rcases hcheckCases with ⟨rfl, rfl⟩ | ⟨checksum, -, rfl, rfl⟩
    · rfl
    · rfl
  have hsum : checksumOk receiver (fragFc ||| fcDirE2P ||| checkFc ||| encFc) seq (BitVec.ofNat 8 plain.length) plain
      check = true := by
    unfold checksumOk
    rw [h.checksum]
    rcases hcheckCases with ⟨rfl, rfl⟩ | ⟨checksum, hfunc, rfl, rfl⟩
    · have hclear : fcIs (fragFc ||| fcDirE2P ||| 0 ||| encFc) fcCheck = false := hreadCheck
      cases sender.checksumFunc with
      | none => rfl
      | some checksum => rw [hclear]; rfl
    · rw [hfunc]
      have happend := announced_octets16 (checksum seq ([seq, BitVec.ofNat 8 plain.length] ++ plain)).isLt []
      rw [List.append_nil] at happend
      simp only [happend, decide_true, Bool.or_true]
  have hoctets : [type, fragFc ||| fcDirE2P ||| checkFc ||| encFc, seq, BitVec.ofNat 8 plain.length] ++ data ++ check =
      type :: (fragFc ||| fcDirE2P ||| checkFc ||| encFc) :: seq :: BitVec.ofNat 8 plain.length :: (data ++ check) := rfl
  rw [hoctets]
  unfold recvHandler
  dsimp only
  rw [hreadCheck, hreadAck, hreadFrag, hoctet, htake, hdrop, hdecrypt, if_neg, if_neg (fun hne => hne hseq.symm)]
  · dsimp only
    rw [if_pos hsum]
    rfl
  · simp only [List.length_cons, List.length_append, hdataLen, hlength]
    omega

theorem packet_ok (h : Matching sender receiver) (secMode type seq fragFc : Octet) (plain : List Octet) :
    ∃ octets, packet sender secMode type seq fragFc plain = .ok octets := by
  unfold packet
  rcases encrypt_cases h secMode type seq plain with hplain | ⟨octets', -, hcrypted, -⟩
  · rw [hplain]
    exact ⟨_, rfl⟩
  · rw [hcrypted]
    exact ⟨_, rfl⟩

end Packet

/-! ## The buffer -/

section Buffer

variable {buf data : List Octet} {offset n : Nat}

theorem length_copyTo (h : offset + data.length ≤ buf.length) : (copyTo buf offset data).length = buf.length := by
  unfold copyTo
  rw [List.length_append, List.length_append, List.length_take, List.length_drop]
  omega

/-- What was written before the copy and what is copied. -/
theorem take_copyTo (h : offset + data.length ≤ buf.length) :
    (copyTo buf offset data).take (offset + data.length) = buf.take offset ++ data := by
  have hlen : (buf.take offset ++ data).length = offset + data.length := by
    rw [List.length_append, List.length_take]
    omega
  unfold copyTo
  rw [← hlen, List.take_left]

end Buffer

/-! ## A message -/

/-- Before the last `remain` octets of a message: nothing has come, or the buffer has all but these. -/
structure Progress (data : List Octet) (env : RecvEnv) (remain : Nat) : Prop where
  le : remain ≤ data.length
  state : (remain = data.length ∧ env.offset = 0 ∧ env.aggrBuf = none) ∨
    (remain < data.length ∧ env.offset = data.length - remain ∧ env.totalLen = data.length ∧
      ∃ buf, env.aggrBuf = some buf ∧ buf.length = data.length ∧ buf.take env.offset = data.take env.offset)

section Message

variable {data : List Octet} {env : RecvEnv} {remain fragSize : Nat}

theorem drop_take_append (data : List Octet) (i n : Nat) : data.take i ++ (data.drop i).take n = data.take (i + n) :=
  List.take_add.symm

/-- A fragment into a buffer that has room for it. -/
theorem addFragment_some {buf : List Octet} (lo hi : Octet) (chunk : List Octet) (hbuf : env.aggrBuf = some buf)
    (hroom : env.offset + chunk.length ≤ env.totalLen) (htotal : env.totalLen < 65536) :
    addFragment env (lo :: hi :: chunk) =
      ({ env with aggrBuf := some (copyTo buf env.offset chunk), offset := env.offset + chunk.length }, []) := by
  unfold addFragment
  have hpayload : (lo :: hi :: chunk).length - 2 = chunk.length := rfl
  rw [hpayload, if_neg (by omega), hbuf, Nat.mod_eq_of_lt (by omega)]
  rfl

theorem startMessage_ok {memory : Nat → Octet} {fragment : List Octet} (hidle : env.aggrBuf = none)
    (hannounced : announced fragment ≠ 0) : startMessage (some memory) env fragment =
      .ok { env with totalLen := announced fragment, aggrBuf := some ((List.range (announced fragment)).map memory) } := by
  unfold startMessage
  rw [hidle, if_neg (by decide)]
  exact if_neg hannounced

theorem recvData_fragment (type : Octet) (h : Progress data env remain) (hdata : data.length < 65536) (hsize : 0 < fragSize)
    (hremain : fragSize < remain) (memory : Nat → Octet) :
    ∃ env', recvData (some memory) env type true
        (octets16 remain ++ (data.drop (data.length - remain)).take fragSize) = (env', []) ∧
      Progress data env' (remain - fragSize) ∧ env'.recvSeq = env.recvSeq := by
  obtain ⟨hle, hstate⟩ := h
  have hchunk : ((data.drop (data.length - remain)).take fragSize).length = fragSize := by
    rw [List.length_take, List.length_drop]
    omega
  have hannounced : announced (octets16 remain ++ (data.drop (data.length - remain)).take fragSize) = remain :=
    announced_octets16 (by omega) _
  have hlong : ¬(octets16 remain ++ (data.drop (data.length - remain)).take fragSize).length < 2 := by
    rw [List.length_append, length_octets16]
    omega
  -- what the copy leaves, whether the buffer is new or not
  have hadd : ∀ env' : RecvEnv, ∀ buf, env'.recvSeq = env.recvSeq → env'.aggrBuf = some buf → buf.length = data.length →
      env'.totalLen = data.length → env'.offset = data.length - remain → buf.take env'.offset = data.take env'.offset →
      ∃ env'', addFragment env' (octets16 remain ++ (data.drop (data.length - remain)).take fragSize) = (env'', []) ∧
        Progress data env'' (remain - fragSize) ∧ env''.recvSeq = env.recvSeq := by
    intro env' buf hseq hbuf hlen htotal hoffset hwritten
    have hroom : env'.offset + ((data.drop (data.length - remain)).take fragSize).length ≤ env'.totalLen := by
      rw [hchunk]
      omega
    refine ⟨_, addFragment_some _ _ ((data.drop (data.length - remain)).take fragSize) hbuf hroom (by omega),
      ⟨by omega, .inr ?_⟩, hseq⟩
    refine ⟨by omega, ?_, htotal, _, rfl, (length_copyTo (by omega)).trans hlen, ?_⟩
    · dsimp only
      rw [hchunk]
      omega
    · dsimp only
      rw [take_copyTo (by omega), hwritten, hoffset, drop_take_append, hchunk]
  unfold recvData
  rw [if_pos rfl, if_neg hlong]
  rcases hstate with ⟨hall, hoffset, hidle⟩ | ⟨hless, hoffset, htotal, buf, hbuf, hlen, hwritten⟩
  · rw [if_pos hoffset, startMessage_ok hidle (by omega), hannounced]
    have hsame : env.offset = data.length - remain := by omega
    refine hadd _ _ rfl rfl ?_ hall hsame ?_
    · rw [List.length_map, List.length_range, hall]
    · dsimp only
      rw [hoffset, List.take_zero, List.take_zero]
  · rw [if_neg (by omega)]
    exact hadd env buf rfl hbuf hlen htotal hoffset hwritten

theorem recvData_last (type : Octet) (h : Progress data env remain) (hremain : 0 < remain) (memory : Option (Nat → Octet)) :
    ∃ env', recvData memory env type false (data.drop (data.length - remain)) =
        (env', [.protocolHandler type data]) ∧ env'.offset = 0 ∧ env'.aggrBuf = none ∧ env'.recvSeq = env.recvSeq := by
  obtain ⟨hle, hstate⟩ := h
  unfold recvData
  rw [if_neg Bool.false_ne_true]
  rcases hstate with ⟨hall, hoffset, hidle⟩ | ⟨hless, hoffset, htotal, buf, hbuf, hlen, hwritten⟩
  · rw [if_neg (by omega)]
    refine ⟨{ env with offset := 0 }, ?_, rfl, hidle, rfl⟩
    have hdrop : data.length - remain = 0 := by omega
    rw [hdrop, List.drop_zero]
  · have hlast : (data.drop (data.length - remain)).length = remain := by
      rw [List.length_drop]
      omega
    rw [if_pos (by omega), hbuf]
    dsimp only
    rw [hlast, if_neg (by omega)]
    refine ⟨{ env with offset := 0, aggrBuf := none }, ?_, rfl, rfl, rfl⟩
    have hend : env.totalLen = env.offset + (data.drop (data.length - remain)).length := by omega
    have hroom : env.offset + (data.drop (data.length - remain)).length ≤ buf.length := by omega
    rw [hend, take_copyTo hroom, hwritten, hoffset, List.take_append_drop]

end Message

/-! ## All packets of a message -/

section RoundTrip

variable {sender receiver : Callbacks} {type : Octet} {data : List Octet}

theorem nextData_fragment {fragSize remain : Nat} (hlt : fragSize < remain)
    (hsize : fragSize ≤ 244) : nextData fragSize data remain =
      (fcFrag, octets16 remain ++ (data.drop (data.length - remain)).take fragSize) := by
  unfold nextData
  dsimp only
  rw [if_pos hlt, Nat.mod_eq_of_lt (by omega), List.take_of_length_le]
  rw [List.length_append, length_octets16, List.length_take]
  omega

theorem nextData_last {fragSize remain : Nat} (hge : remain ≤ fragSize)
    (hsize : fragSize ≤ 244) : nextData fragSize data remain = (0, data.drop (data.length - remain)) := by
  unfold nextData
  dsimp only
  rw [if_neg (by omega), Nat.mod_eq_of_lt (by omega), List.take_of_length_le]
  rw [List.length_drop]
  omega

/-- One round of the loop. -/
theorem sendLoop_round (cbs : Callbacks) (fuel round n : Nat) (env : SendEnv) {octets : List Octet}
    (hpacket : packet cbs env.secMode type env.sendSeq (nextData env.fragSize data (n + 1)).1
      (nextData env.fragSize data (n + 1)).2 = .ok octets) :
    sendLoop cbs (fun _ => true) type data (fuel + 1) round (n + 1) env =
      (sendLoop cbs (fun _ => true) type data fuel (round + 1)
        (if (nextData env.fragSize data (n + 1)).1 = fcFrag then n + 1 + 2 - (nextData env.fragSize data (n + 1)).2.length
          else n + 1 - (nextData env.fragSize data (n + 1)).2.length)
        { env with sendSeq := env.sendSeq + 1 }).map fun sent => (sent.1, octets :: sent.2.1, sent.2.2) := by
  rw [sendLoop]
  · rw [if_pos rfl]
    dsimp only
    rw [hpacket]
  · exact fun hzero => nomatch hzero

/-- The rest of a message is sent and arrives; the induction is on the number of octets left. -/
theorem sendLoop_arrives (h : Matching sender receiver) (hdata : data.length < 65536) (remain round : Nat)
    (env : SendEnv) (hfrag : 0 < env.fragSize ∧ env.fragSize ≤ 244) (hpos : 0 < remain)
    (recv : RecvEnv) (hprogress : Progress data recv remain) (hseq : recv.recvSeq = env.sendSeq) :
    ∃ env' packets, (∀ fuel, remain ≤ fuel →
        sendLoop sender (fun _ => true) type data fuel round remain env = some (env', packets, [])) ∧
      ∀ arrivals : List Arrival, arrivals.map Arrival.octets = packets →
        (∀ arrival ∈ arrivals, arrival.cbs = receiver ∧ arrival.memory.isSome) →
        (recvRun recv arrivals).2 = [.protocolHandler type data] ∧ (recvRun recv arrivals).1.recvSeq = env'.sendSeq ∧
          (recvRun recv arrivals).1.aggrBuf = none ∧ (recvRun recv arrivals).1.offset = 0 := by
  induction remain using Nat.strongRecOn generalizing round env recv with
  | ind remain ih =>
      have hle := hprogress.le
      obtain ⟨n, rfl⟩ : ∃ n, remain = n + 1 := ⟨remain - 1, by omega⟩
      have hprogress' : Progress data { recv with recvSeq := recv.recvSeq + 1 } (n + 1) :=
        ⟨hprogress.le, hprogress.state⟩
      by_cases hlt : env.fragSize < n + 1
      · have hnext : nextData env.fragSize data (n + 1) = _ := nextData_fragment hlt hfrag.2
        have hchunk : (octets16 (n + 1) ++ (data.drop (data.length - (n + 1))).take env.fragSize).length =
            env.fragSize + 2 := by
          rw [List.length_append, length_octets16, List.length_take, List.length_drop]
          omega
        obtain ⟨octets, hpacket⟩ := packet_ok h env.secMode type env.sendSeq fcFrag
          (octets16 (n + 1) ++ (data.drop (data.length - (n + 1))).take env.fragSize)
        -- the receiver after this packet
        have hstep : ∀ memory : Nat → Octet, ∃ recv', recvHandler receiver (some memory) recv octets = (recv', []) ∧
            Progress data recv' (n + 1 - env.fragSize) ∧ recv'.recvSeq = env.sendSeq + 1 := by
          intro memory
          obtain ⟨recv', hrecv, hnext, hseq'⟩ := recvData_fragment type hprogress' hdata hfrag.1 hlt memory
          rw [recvHandler_packet h (.inr rfl) (by omega) hpacket (some memory) recv hseq]
          exact ⟨recv', hrecv, hnext, by rw [hseq', ← hseq]⟩
        have hlater := fun recv' => ih (n + 1 - env.fragSize) (by omega) (round + 1)
          { env with sendSeq := env.sendSeq + 1 } hfrag (by omega) recv'
        obtain ⟨recv₀, -, hnext₀, hseq₀⟩ := hstep fun _ => 0
        obtain ⟨env', packets, hsend, -⟩ := hlater recv₀ hnext₀ hseq₀
        refine ⟨env', octets :: packets, fun fuel hfuel => ?_, fun arrivals harrivals hall => ?_⟩
        · obtain ⟨fuel, rfl⟩ : ∃ f, fuel = f + 1 := ⟨fuel - 1, by omega⟩
          have hless : n + 1 + 2 - (env.fragSize + 2) = n + 1 - env.fragSize := by omega
          rw [sendLoop_round sender fuel round n env (by rw [hnext]; exact hpacket), hnext, if_pos rfl, hchunk, hless,
            hsend fuel (by omega)]
          rfl
        · cases arrivals with
          | nil => exact nomatch harrivals
          | cons arrival rest =>
              obtain ⟨hfirst, hrest⟩ := List.cons.inj harrivals
              obtain ⟨⟨hcbs, hmemory⟩, hall'⟩ := List.forall_mem_cons.mp hall
              obtain ⟨memory, hsome⟩ := Option.isSome_iff_exists.mp hmemory
              obtain ⟨recv', hrecv, hnext, hseq'⟩ := hstep memory
              obtain ⟨env'', packets', hsend', harrive⟩ := hlater recv' hnext hseq'
              have hboth := (hsend' _ (Nat.le_refl _)).symm.trans (hsend _ (Nat.le_refl _))
              obtain ⟨rfl, hpackets⟩ := Prod.mk.inj (Option.some.inj hboth)
              obtain ⟨rfl, -⟩ := Prod.mk.inj hpackets
              unfold recvRun
              rw [hfirst, hcbs, hsome, hrecv]
              exact harrive rest hrest hall'
      · have hnext : nextData env.fragSize data (n + 1) = (0, data.drop (data.length - (n + 1))) :=
          nextData_last (Nat.le_of_not_lt hlt) hfrag.2
        have hchunk : (data.drop (data.length - (n + 1))).length = n + 1 := by
          rw [List.length_drop]
          omega
        obtain ⟨octets, hpacket⟩ := packet_ok h env.secMode type env.sendSeq 0 (data.drop (data.length - (n + 1)))
        refine ⟨{ env with sendSeq := env.sendSeq + 1 }, [octets], fun fuel hfuel => ?_, fun arrivals harrivals hall => ?_⟩
        · obtain ⟨fuel, rfl⟩ : ∃ f, fuel = f + 1 := ⟨fuel - 1, by omega⟩
          have hlast : (0 : Octet) ≠ fcFrag := by decide
          rw [sendLoop_round sender fuel round n env (by rw [hnext]; exact hpacket), hnext, if_neg hlast, hchunk,
            Nat.sub_self]
          cases fuel with
          | zero => rfl
          | succ fuel => rfl
        · obtain ⟨arrival, rfl, hfirst⟩ := List.map_eq_singleton_iff.mp harrivals
          obtain ⟨hcbs, -⟩ := hall arrival (List.mem_singleton_self _)
          obtain ⟨recv', hrecv, hoffset, hbuf, hseq'⟩ := recvData_last type hprogress' hpos arrival.memory
          have hhandler := recvHandler_packet h (.inl rfl) (by omega) hpacket arrival.memory recv hseq
          have hflag : decide ((0 : Octet) = fcFrag) = false := by decide
          rw [hflag, hrecv] at hhandler
          unfold recvRun recvRun
          rw [hcbs, hfirst, hhandler]
          refine ⟨rfl, ?_, hbuf, hoffset⟩
          rw [hseq', ← hseq]

/-- A message that an endpoint sends, after any MTU request, arrives at a matching endpoint as one message, which is then idle
with the next sequence number. -/
theorem framing_round_trip (h : Matching sender receiver) (localMtu : LocalMtu) (mtu : BitVec 16) (env : SendEnv)
    (hconnected : env.isConnected = true) (hfrag : env.fragSize = fragSizeOfMtu (payloadSize localMtu mtu))
    (hlen : 0 < data.length ∧ data.length ≤ 65535) (recv : RecvEnv) (hseq : recv.recvSeq = env.sendSeq)
    (hidle : recv.offset = 0 ∧ recv.aggrBuf = none) :
    ∃ env' packets, (∀ fuel, data.length ≤ fuel →
        sendEncap sender (fun _ => true) fuel env type data = some (env', packets, [])) ∧
      ∀ arrivals : List Arrival, arrivals.map Arrival.octets = packets →
        (∀ arrival ∈ arrivals, arrival.cbs = receiver ∧ arrival.memory.isSome) →
        (recvRun recv arrivals).2 = [.protocolHandler type data] ∧ (recvRun recv arrivals).1.recvSeq = env'.sendSeq ∧
          (recvRun recv arrivals).1.aggrBuf = none ∧ (recvRun recv arrivals).1.offset = 0 := by
  obtain ⟨hlower, hupper⟩ := fragSize_bounds localMtu mtu
  rw [← hfrag] at hlower hupper
  have hprogress : Progress data recv data.length := ⟨Nat.le_refl _, .inl ⟨rfl, hidle.1, hidle.2⟩⟩
  have hsend : ∀ fuel, sendEncap sender (fun _ => true) fuel env type data =
      sendLoop sender (fun _ => true) type data fuel 0 data.length env := by
    intro fuel
    unfold sendEncap
    rw [hconnected, if_neg (by decide), if_neg (by omega), if_neg (by omega)]
  simp only [hsend]
  exact sendLoop_arrives h (by omega) data.length 0 env ⟨by omega, hupper⟩ hlen.1 recv hprogress hseq

end RoundTrip

/-- Octets combined with the sequence number. -/
def xorSeq (seq : Octet) (data : List Octet) : Crypted data where
  ret := data.length
  octets := data.map (· ^^^ seq)
  length_eq := List.length_map ..

def xorCallbacks : Callbacks where
  encryptFunc := some xorSeq
  decryptFunc := some xorSeq
  checksumFunc := some fun _ octets => octets.foldl (fun sum octet => sum + octet.setWidth 16) 0

theorem xorCallbacks_matching : Matching xorCallbacks xorCallbacks where
  checksum := rfl
  encrypt := by
    intro encryptFunc h
    obtain rfl := Option.some.inj h
    refine ⟨fun seq data => rfl, xorSeq, rfl, fun seq data => ⟨?_, ?_⟩⟩
    · exact congrArg Int.ofNat (List.length_map ..)
    · have hself : ∀ octet : Octet, octet ^^^ seq ^^^ seq = octet := by
        intro octet
        rw [BitVec.xor_assoc, BitVec.xor_self, BitVec.xor_zero]
      have htwice : (data.map (· ^^^ seq)).map (· ^^^ seq) = data := by
        rw [List.map_map]
        exact (List.map_congr_left fun octet _ => hself octet).trans (List.map_id _)
      exact htwice

def thirtyOctets : List Octet := List.replicate 30 7

def idleSender : SendEnv where
  isConnected := true
  fragSize := fragSizeOfMtu (payloadSize ⟨517, by decide, by decide⟩ 23)
  sendSeq := 254
  secMode := 3

def idleReceiver : RecvEnv where
  recvSeq := 254
  aggrBuf := none
  totalLen := 0
  offset := 0

/-- Thirty octets with checksum and encryption, in fragments of twelve. -/
theorem framing_round_trip_thirty : ∃ env' packets, (∀ fuel, thirtyOctets.length ≤ fuel →
      sendEncap xorCallbacks (fun _ => true) fuel idleSender 0x4D thirtyOctets = some (env', packets, [])) ∧
    ∀ arrivals : List Arrival, arrivals.map Arrival.octets = packets →
      (∀ arrival ∈ arrivals, arrival.cbs = xorCallbacks ∧ arrival.memory.isSome) →
      (recvRun idleReceiver arrivals).2 = [.protocolHandler 0x4D thirtyOctets] ∧
        (recvRun idleReceiver arrivals).1.recvSeq = env'.sendSeq ∧
        (recvRun idleReceiver arrivals).1.aggrBuf = none ∧ (recvRun idleReceiver arrivals).1.offset = 0 := by
  have hlen : thirtyOctets.length = 30 := List.length_replicate
  exact framing_round_trip xorCallbacks_matching ⟨517, by decide, by decide⟩ 23 idleSender rfl rfl
    ⟨by rw [hlen]; decide, by rw [hlen]; decide⟩ idleReceiver rfl ⟨rfl, rfl⟩

end EspIdf.Blufi
