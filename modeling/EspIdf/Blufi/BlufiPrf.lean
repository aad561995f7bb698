import Mathlib.Algebra.Group.Nat.Defs
import Mathlib.Data.List.Basic

/-!
# BLUFI packets

* `Callbacks` : encryption, decryption and checksum, where the application sets them;
* `sendEncap` : a message as packets, in fragments where it is long;
* `recvHandler` : a packet, with the reassembly of fragments in `recvData`;
* `fragSizeOfMtu`, `payloadSize` : the fragment size after an MTU request.
-/

namespace EspIdf.Blufi

abbrev Octet := BitVec 8

/-- `esp_blufi_error_state_t`, as far as the handlers report it. -/
inductive ErrorState
  | sequence | checksum | decrypt | encrypt | dhMalloc | dataFormat | msgState
  deriving DecidableEq, Repr

/-- What an encryption or decryption in place returns, and the octets it leaves. -/
structure Crypted (data : List Octet) where
  ret : Int
  octets : List Octet
  length_eq : octets.length = data.length

/-- `esp_blufi_callbacks_t`: `seq` goes with the data. -/
structure Callbacks where
  encryptFunc : Option (Octet → (data : List Octet) → Crypted data)
  decryptFunc : Option (Octet → (data : List Octet) → Crypted data)
  checksumFunc : Option (Octet → List Octet → BitVec 16)

/-! ## Packet type and frame control -/

/-- `BLUFI_TYPE_IS_CTRL`. -/
def typeIsCtrl (type : Octet) : Bool := type &&& 0x03 = 0x00

/-- `BLUFI_TYPE_IS_DATA_NEG` or `BLUFI_TYPE_IS_DATA_ERROR_INFO`. -/
def typeIsPlain (type : Octet) : Bool := type &&& 0x03 = 0x01 ∧ (type >>> 2 = 0x00 ∨ type >>> 2 = 0x12)

abbrev fcEnc : Octet := 0x01
abbrev fcCheck : Octet := 0x02
abbrev fcDirE2P : Octet := 0x04
abbrev fcReqAck : Octet := 0x08
abbrev fcFrag : Octet := 0x10

/-- `BLUFI_FC_IS_…`. -/
def fcIs (fc mask : Octet) : Bool := fc &&& mask ≠ 0

/-- The two octets of a word, the low one first. -/
def octets16 (n : Nat) : List Octet := [BitVec.ofNat 8 n, BitVec.ofNat 8 (n / 256)]

/-! ## Sending -/

/-- `blufi_env`, as far as sending goes. -/
structure SendEnv where
  isConnected : Bool
  fragSize : Nat
  sendSeq : Octet
  secMode : Octet
  deriving DecidableEq, Repr

/-- The security mode asks for a checksum. -/
def wantsCheck (secMode type : Octet) : Bool :=
  if typeIsCtrl type then secMode &&& 0x10 ≠ 0 else !typeIsPlain type && secMode &&& 0x01 ≠ 0

/-- The security mode asks for encryption. -/
def wantsEnc (secMode type : Octet) : Bool := !typeIsCtrl type && !typeIsPlain type && secMode &&& 0x02 ≠ 0

/-- The checksum and its flag. -/
def addChecksum (cbs : Callbacks) (secMode type seq : Octet) (plain : List Octet) : Octet × List Octet :=
  match cbs.checksumFunc with
  | some checksum =>
    if wantsCheck secMode type then
      (fcCheck, octets16 (checksum seq ([seq, BitVec.ofNat 8 plain.length] ++ plain)).toNat)
    else (0, [])
  | none => (0, [])

/-- The encrypted data and its flag. -/
def encrypt (cbs : Callbacks) (secMode type seq : Octet) (plain : List Octet) : Except ErrorState (Octet × List Octet) :=
  match cbs.encryptFunc with
  | some encryptFunc =>
    if wantsEnc secMode type then
      let crypted := encryptFunc seq plain
      if crypted.ret = plain.length then .ok (fcEnc, crypted.octets) else .error .encrypt
    else .ok (0, plain)
  | none => .ok (0, plain)

/-- One packet, with `fragFc` for a fragment: the octets that `esp_blufi_send_encap` sends. -/
def packet (cbs : Callbacks) (secMode type seq fragFc : Octet) (plain : List Octet) : Except ErrorState (List Octet) :=
  let check := addChecksum cbs secMode type seq plain
  match encrypt cbs secMode type seq plain with
  | .error e => .error e
  | .ok (encFc, data) =>
    .ok ([type, fragFc ||| fcDirE2P ||| check.1 ||| encFc, seq, BitVec.ofNat 8 plain.length] ++ data ++ check.2)

/-- The data of the next packet, before the checksum and encryption, as far as `data_len` goes, and its fragment flag. -/
def nextData (fragSize : Nat) (data : List Octet) (remainLen : Nat) : Octet × List Octet :=
  let rest := data.drop (data.length - remainLen)
  if fragSize < remainLen then
    (fcFrag, (octets16 remainLen ++ rest.take fragSize).take ((fragSize + 2) % 256))
  else (0, rest.take (remainLen % 256))

/-- The loop of `btc_blufi_send_encap`: `memory` is what each `osi_malloc` finds. Nothing if the fuel runs out. -/
def sendLoop (cbs : Callbacks) (memory : Nat → Bool) (type : Octet) (data : List Octet) :
    Nat → Nat → Nat → SendEnv → Option (SendEnv × List (List Octet) × List ErrorState)
  | _, _, 0, env => some (env, [], [])
  | 0, _, _, _ => none
  | fuel + 1, round, remainLen, env =>
    if memory round then
      let next := nextData env.fragSize data remainLen
      let env' := { env with sendSeq := env.sendSeq + 1 }
      match packet cbs env.secMode type env.sendSeq next.1 next.2 with
      | .error e => some (env', [], [e])
      | .ok octets =>
        let remainLen' := if next.1 = fcFrag then remainLen + 2 - next.2.length else remainLen - next.2.length
        (sendLoop cbs memory type data fuel (round + 1) remainLen' env').map fun sent =>
          (sent.1, octets :: sent.2.1, sent.2.2)
    else some (env, [], [])

/-- `btc_blufi_send_encap`. -/
def sendEncap (cbs : Callbacks) (memory : Nat → Bool) (fuel : Nat) (env : SendEnv) (type : Octet) (data : List Octet) :
    Option (SendEnv × List (List Octet) × List ErrorState) :=
  if env.isConnected = false then some (env, [], [])
  else if data.length = 0 then some (env, [], [])
  else if 65535 < data.length then some (env, [], [.dataFormat])
  else sendLoop cbs memory type data fuel 0 data.length env

/-! ## Receiving -/

/-- What a packet makes the handler do; `reset` is `BLUFI_RESET_AGGR_BUF`. -/
inductive Event
  | reset
  | reportError (state : ErrorState)
  | sendAck (seq : Octet)
  | protocolHandler (type : Octet) (data : List Octet)
  deriving DecidableEq, Repr

/-- `blufi_env`, as far as receiving goes. -/
structure RecvEnv where
  recvSeq : Octet
  aggrBuf : Option (List Octet)
  totalLen : Nat
  offset : Nat
  deriving DecidableEq, Repr

/-- `BLUFI_RESET_AGGR_BUF`, and an error. -/
def RecvEnv.resetAggrBuf (env : RecvEnv) (state : ErrorState) : RecvEnv × List Event :=
  ({ env with aggrBuf := none, totalLen := 0, offset := 0 }, [.reset, .reportError state])

/-- `memcpy` into the buffer. -/
def copyTo (buf : List Octet) (offset : Nat) (data : List Octet) : List Octet :=
  buf.take offset ++ data ++ buf.drop (offset + data.length)

/-- The total length in the first two octets of a fragment. -/
def announced (data : List Octet) : Nat := (data.getD 0 0).toNat + 256 * (data.getD 1 0).toNat

/-- The first fragment of a message: a buffer of the announced length, with whatever `osi_malloc` finds. -/
def startMessage (memory : Option (Nat → Octet)) (env : RecvEnv) (data : List Octet) :
    Except (RecvEnv × List Event) RecvEnv :=
  if env.aggrBuf.isSome then .error (env.resetAggrBuf .msgState)
  else
    let env := { env with totalLen := announced data }
    if env.totalLen = 0 then .error (env, [.reportError .dataFormat])
    else
      match memory with
      | none => .error (env, [.reportError .dhMalloc])
      | some memory => .ok { env with aggrBuf := some ((List.range env.totalLen).map memory) }

/-- The rest of a fragment, when there is a buffer. -/
def addFragment (env : RecvEnv) (data : List Octet) : RecvEnv × List Event :=
  if env.totalLen < env.offset + (data.length - 2) then env.resetAggrBuf .dataFormat
  else
    ({ env with
        aggrBuf := env.aggrBuf.map fun buf => copyTo buf env.offset (data.drop 2)
        offset := (env.offset + (data.length - 2)) % 65536 }, [])

/-- The last step: the data of a packet that is decrypted and checked. -/
def recvData (memory : Option (Nat → Octet)) (env : RecvEnv) (type : Octet) (frag : Bool) (data : List Octet) :
    RecvEnv × List Event :=
  if frag then
    if data.length < 2 then env.resetAggrBuf .dataFormat
    else if env.offset = 0 then
      match startMessage memory env data with
      | .error failed => failed
      | .ok env => addFragment env data
    else addFragment env data
  else if 0 < env.offset then
    match env.aggrBuf with
    | none => ({ env with offset := 0 }, [.reportError .dhMalloc])
    | some buf =>
      if env.offset + data.length ≠ env.totalLen then env.resetAggrBuf .dataFormat
      else
        ({ env with offset := 0, aggrBuf := none },
          [.protocolHandler type ((copyTo buf env.offset data).take env.totalLen)])
  else ({ env with offset := 0 }, [.protocolHandler type data])

/-- The first step: decryption in place. -/
def decrypt (cbs : Callbacks) (fc seq : Octet) (data : List Octet) : Except ErrorState (List Octet) :=
  match cbs.decryptFunc with
  | some decryptFunc =>
    if fcIs fc fcEnc then
      let crypted := decryptFunc seq data
      if crypted.ret = data.length then .ok crypted.octets else .error .decrypt
    else .ok data
  | none => .ok data

/-- The second step: the checksum behind the data. -/
def checksumOk (cbs : Callbacks) (fc seq dataLen : Octet) (data checksumPkt : List Octet) : Bool :=
  match cbs.checksumFunc with
  | some checksum =>
    !fcIs fc fcCheck || decide ((checksum seq ([seq, dataLen] ++ data)).toNat = announced checksumPkt)
  | none => true

/-- `btc_blufi_recv_handler`. The callbacks are those of this call. -/
def recvHandler (cbs : Callbacks) (memory : Option (Nat → Octet)) (env : RecvEnv) (octets : List Octet) :
    RecvEnv × List Event :=
  match octets with
  | type :: fc :: seq :: dataLen :: rest =>
    if octets.length ≠ dataLen.toNat + 4 + (if fcIs fc fcCheck then 2 else 0) then (env, [.reportError .dataFormat])
    else if seq ≠ env.recvSeq then (env, [.reportError .sequence])
    else
      let env := { env with recvSeq := env.recvSeq + 1 }
      match decrypt cbs fc seq (rest.take dataLen.toNat) with
      | .error state => env.resetAggrBuf state
      | .ok data =>
        if checksumOk cbs fc seq dataLen data (rest.drop dataLen.toNat) then
          let ack := if fcIs fc fcReqAck then [Event.sendAck seq] else []
          let received := recvData memory env type (fcIs fc fcFrag) data
          (received.1, ack ++ received.2)
        else env.resetAggrBuf .checksum
  | _ => (env, [.reportError .dataFormat])

/-! ## The fragment size -/

/-- `BLUFI_MTU_RESERVED_SIZE`. -/
abbrev mtuReservedSize : Nat := 4 + 2 + 2 + 3

/-- The fragment size that the handler of `BTA_GATTS_MTU_EVT` sets. -/
def fragSizeOfMtu (mtu : BitVec 16) : Nat :=
  ((if mtu.toNat < 255 then mtu.toNat else 255) + 2 ^ 16 - mtuReservedSize) % 2 ^ 16

/-- `gatt_default.local_mtu`, in the range that `esp_ble_gatt_set_local_mtu` checks. -/
structure LocalMtu where
  mtu : BitVec 16
  lower : 23 ≤ mtu.toNat
  upper : mtu.toNat ≤ 517

/-- The MTU of the event, as `gatts_process_mtu_req` sets it after a request. -/
def payloadSize (localMtu : LocalMtu) (mtu : BitVec 16) : BitVec 16 :=
  if mtu.toNat < 23 then 23 else if localMtu.mtu.toNat < mtu.toNat then localMtu.mtu else mtu

end EspIdf.Blufi
