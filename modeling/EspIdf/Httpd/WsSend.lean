import EspIdf.Httpd.WsRecv

/-!
# `httpd_ws.c`: sending WebSocket frames

* `SendFn` : a send function that may accept only part of what it is given, or fail;
* `sendFrameAsync` : a frame by one call for its header and one for its payload;
* `rfcHeader` : the header of RFC 6455, with the length in its minimal form;
* `header_eq_iff`, `sendFrameAsync_ok` : when the headers agree, what is on the wire after a success;
* `send_exact_iff` : which frames are sent exactly.
-/

namespace EspIdf.Httpd.Ws

/-! ## The code -/

/-- `send_fn`, by the number of the call: how many bytes it takes, as an `int`, or a failure. -/
structure SendFn where
  accepts : (call : Nat) → Bytes → Option Nat
  le : ∀ call buf n, accepts call buf = some n → n ≤ buf.length ∧ n < 2 ^ 31

/-- `httpd_ws_frame_t` to be sent; the buffer is there when the length is not zero. -/
structure TxFrame where
  final : Bool
  fragmented : Bool
  type : Fin 16
  payload : Bytes
  fits : payload.length < sizeT

namespace TxFrame
variable (f : TxFrame)

def len : Nat := f.payload.length

/-- `header_buf[0]` -/
def firstByte : UInt8 :=
  (if !f.fragmented then 0x80 else if f.final then 0x80 else 0x00) ||| UInt8.ofNat f.type.val

/-- The loop over the eight bytes of a 64-bit length, `shift_idx` from 7 down. -/
def len64Bytes : Bytes := (List.range 8).map fun idx => UInt8.ofNat (f.len >>> ((7 - idx) * 8) &&& 0xFF)

/-- The `tx_len` bytes of `header_buf`. -/
def header : Bytes :=
  if f.len ≤ 125 then [f.firstByte, UInt8.ofNat (f.len &&& 0x7F) &&& ~~~0x80]
  else if f.len > 125 ∧ f.len < 65535 then
    [f.firstByte, 126 &&& ~~~0x80, UInt8.ofNat (f.len >>> 8 &&& 0xFF), UInt8.ofNat (f.len &&& 0xFF)]
  else f.firstByte :: (127 &&& ~~~0x80) :: f.len64Bytes

end TxFrame

inductive SendErr
  | ok
  | fail
  | invalidArg
deriving Repr, DecidableEq

/-- `httpd_ws_send_frame_async`: the result and the bytes on the wire. -/
def sendFrameAsync (sess : Option SendFn) (frame : Option TxFrame) : SendErr × Bytes :=
  match frame, sess with
  | none, _ => (.invalidArg, [])
  | some _, none => (.invalidArg, [])
  | some f, some send =>
    match send.accepts 0 f.header with
    | none => (.fail, [])
    | some n =>
      if f.len > 0 then
        match send.accepts 1 f.payload with
        | none => (.fail, f.header.take n)
        | some m => (.ok, f.header.take n ++ f.payload.take m)
      else (.ok, f.header.take n)

/-! ## RFC 6455 -/

/-- The length in as few bytes as it has room in. -/
def rfcLen (n : Nat) : Bytes :=
  if n ≤ 125 then [UInt8.ofNat n] else if n < 2 ^ 16 then 126 :: beBytes 2 n else 127 :: beBytes 8 n

/-- The header of an unmasked frame: the last of its message or not, no reserved bit, the opcode and the length. -/
def rfcHeader (f : TxFrame) : Bytes :=
  UInt8.ofNat ((if f.fragmented → f.final then 128 else 0) + f.type.val) :: rfcLen f.len

/-- Success means that the frame is on the wire. -/
def SendsExactly (send : SendFn) (f : TxFrame) : Prop :=
  (sendFrameAsync (some send) (some f)).1 = .ok →
    (sendFrameAsync (some send) (some f)).2 = rfcHeader f ++ f.payload

/-! ## The header -/

section header
variable {f : TxFrame} {n : Nat}

theorem ofNat_and_ff (n : Nat) : UInt8.ofNat (n &&& 0xFF) = UInt8.ofNat n := by
  have hmask : n &&& 0xFF = n % 2 ^ 8 := Nat.and_two_pow_sub_one_eq_mod n 8
  apply UInt8.toNat_inj.mp
  rw [UInt8.toNat_ofNat', UInt8.toNat_ofNat', hmask, Nat.mod_mod]

theorem firstByte_eq (f : TxFrame) :
    f.firstByte = UInt8.ofNat ((if f.fragmented → f.final then 128 else 0) + f.type.val) := by
  have hall : ∀ fragmented final : Bool, ∀ type : Fin 16,
      (if !fragmented then 0x80 else if final then 0x80 else 0x00) ||| UInt8.ofNat type.val =
        UInt8.ofNat ((if fragmented → final then 128 else 0) + type.val) := by decide
  exact hall f.fragmented f.final f.type

theorem beBytes_two (n : Nat) : beBytes 2 n = [UInt8.ofNat (n >>> 8 &&& 0xFF), UInt8.ofNat (n &&& 0xFF)] := by
  rw [ofNat_and_ff, ofNat_and_ff, Nat.shiftRight_eq_div_pow]
  rfl

theorem len64Bytes_eq (f : TxFrame) : f.len64Bytes = beBytes 8 f.len := by
  have hrange : List.range 8 = [0, 1, 2, 3, 4, 5, 6, 7] := rfl
  unfold TxFrame.len64Bytes
  rw [hrange]
  simp only [List.map_cons, List.map_nil, ofNat_and_ff]
  simp [Nat.shiftRight_eq_div_pow, beBytes, Nat.div_div_eq_div_mul]

theorem shortLen (h : n ≤ 125) : UInt8.ofNat (n &&& 0x7F) &&& ~~~0x80 = UInt8.ofNat n := by
  have hall : ∀ m : Fin 126, UInt8.ofNat (m.val &&& 0x7F) &&& ~~~0x80 = UInt8.ofNat m.val := by decide
  exact hall ⟨n, Nat.lt_succ_of_le h⟩

/-- But for one length the header is that of the RFC. -/
theorem header_of_ne (h : f.len ≠ 65535) : f.header = rfcHeader f := by
  unfold TxFrame.header rfcHeader rfcLen
  rw [firstByte_eq]
  by_cases hshort : f.len ≤ 125
  · rw [if_pos hshort, if_pos hshort, shortLen hshort]
  · rw [if_neg hshort, if_neg hshort]
    by_cases hmid : f.len < 65535
    · rw [if_pos ⟨Nat.lt_of_not_le hshort, hmid⟩, if_pos (show f.len < 2 ^ 16 by omega), beBytes_two]
      rfl
    · rw [if_neg (fun hlen => hmid hlen.2), if_neg (show ¬f.len < 2 ^ 16 by omega), len64Bytes_eq]
      rfl

/-- The longest length of the 16-bit form is put in the 64-bit form. -/
theorem header_of_eq (h : f.len = 65535) : f.header = f.firstByte :: 127 :: f.len64Bytes ∧
    rfcHeader f = f.firstByte :: 126 :: beBytes 2 65535 := by
  unfold TxFrame.header rfcHeader rfcLen
  rw [firstByte_eq, h]
  exact ⟨rfl, rfl⟩

end header

/-! ## The wire -/

section wire
variable {send : SendFn} {f : TxFrame} {n m : Nat}

/-- What two calls have put on the wire is the frame when the header is right and both calls took everything. -/
theorem wire_eq_iff (hn : n ≤ f.header.length) (hm : m ≤ f.payload.length) :
    f.header.take n ++ f.payload.take m = rfcHeader f ++ f.payload ↔
      f.len ≠ 65535 ∧ n = f.header.length ∧ m = f.payload.length := by
  constructor
  · intro heq
    have hlen := congrArg List.length heq
    rw [List.length_append, List.length_append, List.length_take, List.length_take, Nat.min_eq_left hn,
      Nat.min_eq_left hm] at hlen
    by_cases h : f.len = 65535
    · obtain ⟨hheader, hrfc⟩ := header_of_eq h
      have hfour : (rfcHeader f).length = 4 := by rw [hrfc, beBytes_two]; rfl
      obtain ⟨k, rfl⟩ : ∃ k, n = k + 2 := ⟨n - 2, by omega⟩
      -- the second bytes differ
      rw [hheader, hrfc] at heq
      have hsecond := congrArg (fun bytes : Bytes => bytes[1]?) heq
      exact absurd hsecond (by simp)
    · rw [header_of_ne h] at hn ⊢
      exact ⟨h, by omega, by omega⟩
  · rintro ⟨h, rfl, rfl⟩
    rw [List.take_length, List.take_length, header_of_ne h]

/-- A session accepts a frame: what the two calls took is on the wire. -/
theorem sendFrameAsync_ok (hheader : send.accepts 0 f.header = some n)
    (hpayload : f.payload ≠ [] → send.accepts 1 f.payload = some m) :
    sendFrameAsync (some send) (some f) = (.ok, f.header.take n ++ f.payload.take m) := by
  unfold sendFrameAsync
  by_cases h : f.payload = []
  · have hlen : ¬f.len > 0 := by simp [TxFrame.len, h]
    simp [hheader, hlen, h]
  · have hlen : f.len > 0 := List.length_pos_iff.mpr h
    simp [hheader, hlen, hpayload h]

theorem sendFrameAsync_refused (h : send.accepts 0 f.header = none ∨
    (f.payload ≠ [] ∧ send.accepts 1 f.payload = none)) : (sendFrameAsync (some send) (some f)).1 ≠ .ok := by
  unfold sendFrameAsync
  cases hheader : send.accepts 0 f.header with
  | none => simp [hheader]
  | some n =>
    obtain ⟨hne, hnone⟩ := h.resolve_left (by simp [hheader])
    have hlen : f.len > 0 := List.length_pos_iff.mpr hne
    simp [hheader, hlen, hnone]

end wire

/-- Success means that the whole frame is on the wire exactly when a call fails, or the length is not the longest one of the
16-bit form and both calls take everything. -/
theorem send_exact_iff (send : SendFn) (f : TxFrame) :
    SendsExactly send f ↔
      send.accepts 0 f.header = none ∨ (f.payload ≠ [] ∧ send.accepts 1 f.payload = none) ∨
        (f.len ≠ 65535 ∧ send.accepts 0 f.header = some f.header.length ∧
          (f.payload ≠ [] → send.accepts 1 f.payload = some f.payload.length)) := by
  rw [← or_assoc]
  by_cases hrefused : send.accepts 0 f.header = none ∨ (f.payload ≠ [] ∧ send.accepts 1 f.payload = none)
  · exact iff_of_true (fun hok => absurd hok (sendFrameAsync_refused hrefused)) (.inl hrefused)
  · rw [or_iff_right hrefused]
    rw [not_or, not_and] at hrefused
    obtain ⟨n, hn⟩ := Option.ne_none_iff_exists'.mp hrefused.1
    obtain ⟨m, hm, hempty, hle⟩ : ∃ m, (f.payload ≠ [] → send.accepts 1 f.payload = some m) ∧
        (f.payload = [] → m = 0) ∧ m ≤ f.payload.length := by
      by_cases h : f.payload = []
      · exact ⟨0, fun hne => absurd h hne, fun _ => rfl, Nat.zero_le _⟩
      · obtain ⟨m, hm⟩ := Option.ne_none_iff_exists'.mp (hrefused.2 h)
        exact ⟨m, fun _ => hm, fun hnil => absurd hnil h, (send.le 1 _ m hm).1⟩
    unfold SendsExactly
    rw [sendFrameAsync_ok hn hm, imp_iff_right rfl, wire_eq_iff (send.le 0 _ n hn).1 hle, hn]
    refine and_congr_right fun _ => and_congr (Option.some_inj).symm ?_
    by_cases h : f.payload = []
    · simp [h, hempty h]
    · rw [hm h]
      simp [h]

/-- Takes at most `most` bytes a call. -/
def atMost (most : Nat) (h : most < 2 ^ 31) : SendFn where
  accepts _ buf := some (min most buf.length)
  le _ _ n hn := by
    obtain rfl := Option.some.inj hn
    exact ⟨Nat.min_le_right _ _, Nat.lt_of_le_of_lt (Nat.min_le_left _ _) h⟩

theorem zeros_fit {n : Nat} (h : n < sizeT) : (List.replicate n (0 : UInt8)).length < sizeT := by
  rwa [List.length_replicate]

/-- A whole message of zero bytes. -/
def zeroMessage (n : Nat) (h : n < sizeT) : TxFrame := ⟨true, false, ⟨2, by decide⟩, List.replicate n 0, zeros_fit h⟩

/-- A send function that takes one byte a call loses the rest of header and payload; and with one that takes everything, a
payload of 65535 bytes has a length field that is not minimal. -/
theorem lost_bytes_and_long_length :
    ¬SendsExactly (atMost 1 (by decide)) (zeroMessage 2 (by decide)) ∧
      ¬SendsExactly (atMost (2 ^ 31 - 1) (by decide)) (zeroMessage 65535 (by decide)) := by
  refine ⟨fun h => absurd (h rfl) (by decide), fun h => ?_⟩
  rcases (send_exact_iff _ _).mp h with hheader | ⟨-, hpayload⟩ | ⟨hlen, -⟩
  · exact nomatch hheader
  · exact nomatch hpayload
  · exact hlen (List.length_replicate ..)

end EspIdf.Httpd.Ws
