import GameFrame.Lib.BigEndian

/-!
# `RpcMessage` and `RpcCodec`, the inner protocol

`rpc/rpc_message.h`: a payload is fifteen bytes of fixed header, the method
name, and a body that takes the rest. Both message types have the same header,
whichever of its fields mean something for them.

`RpcType` and `RpcStatus` are scoped enumerations over `uint8_t` and
`uint32_t`, so every value of those types is a value of theirs. Only the
decoder looks at the range of the first, and nobody at the second: status
carries the handlers' own codes as well.
-/

namespace GameFrame

open BigEndian

/-- `RpcType`, with its underlying type. -/
abbrev RpcType := UInt8

namespace RpcType

def kRequest : RpcType := 0
def kResponse : RpcType := 1

/-- Never on the wire: the bound the decoder checks a type against. -/
def kTypeCount : RpcType := 2

end RpcType

/-- `RpcStatus`, with its underlying type. -/
abbrev RpcStatus := UInt32

def RpcStatus.kOk : RpcStatus := 0

structure RpcMessage where
  type : RpcType := RpcType.kRequest
  requestId : UInt64 := 0
  status : RpcStatus := RpcStatus.kOk
  method : List UInt8 := []
  body : List UInt8 := []
  deriving DecidableEq, Repr

namespace RpcCodec

def kHeaderLen : Nat := 15

def kMaxMethodLen : Nat := 0xFFFF

/-- `encode(msg)`: nothing at all when the method's length does not fit its
two bytes. -/
def encode (msg : RpcMessage) : List UInt8 :=
  if msg.method.length > kMaxMethodLen then []
  else
    [msg.type] ++ appendBe 8 msg.requestId.toNat ++
      appendBe 4 msg.status.toNat ++
      appendBe 2 (UInt16.ofNat msg.method.length).toNat ++
      msg.method ++ msg.body

/-- `read_be` of the `w` bytes at `p + pos`. -/
def readAt (payload : List UInt8) (pos w : Nat) : Nat :=
  readBe w ((payload.drop pos).take w)

/-- `decode(payload, out)`: the verdict and `out` as it is left, untouched
when the payload is refused. -/
def decode (payload : List UInt8) (out : RpcMessage) : Bool × RpcMessage :=
  if payload.length < kHeaderLen then (false, out)
  else
    let type := payload.headD 0
    if type ≥ RpcType.kTypeCount then (false, out)
    else
      let methodLen := readAt payload 13 2
      if methodLen > payload.length - kHeaderLen then (false, out)
      else
        (true,
          { type := type
            requestId := UInt64.ofNat (readAt payload 1 8)
            status := UInt32.ofNat (readAt payload 9 4)
            method := (payload.drop kHeaderLen).take methodLen
            body := payload.drop (kHeaderLen + methodLen) })

/-- Every payload decoded in turn, into a message that starts as `out`: the
loop each receiver has around `decode`, up to the first payload refused. -/
def decodeAll (out : RpcMessage) : List (List UInt8) → Option (List RpcMessage)
  | [] => some []
  | payload :: payloads =>
      match decode payload out with
      | (true, msg) => (decodeAll out payloads).map (msg :: ·)
      | (false, _) => none

/-! ## One payload, there and back -/

theorem encode_length {msg : RpcMessage}
    (h : msg.method.length ≤ kMaxMethodLen) :
    (encode msg).length = kHeaderLen + msg.method.length + msg.body.length := by
  rw [encode, if_neg (Nat.not_lt.mpr h)]
  simp only [List.length_append, appendBe_length, List.length_cons,
    List.length_nil, kHeaderLen]

/-- Reading a field where it was written. -/
theorem readAt_append {pre post : List UInt8} {pos w v : Nat}
    (hpos : pre.length = pos) (hv : v < 2 ^ (8 * w)) :
    readAt (pre ++ (appendBe w v ++ post)) pos w = v := by
  rw [readAt, ← hpos, List.drop_left, List.take_left' (appendBe_length w v),
    readBe_appendBe hv]

/-- What is in front of each field: the fields before it, fifteen bytes
of them in all. -/
def header (msg : RpcMessage) : List UInt8 :=
  [msg.type] ++ appendBe 8 msg.requestId.toNat ++ appendBe 4 msg.status.toNat ++
    appendBe 2 msg.method.length

theorem header_length (msg : RpcMessage) :
    (header msg).length = kHeaderLen := by
  simp only [header, List.length_append, appendBe_length, List.length_cons,
    List.length_nil, kHeaderLen]

theorem encode_eq_header {msg : RpcMessage}
    (h : msg.method.length ≤ kMaxMethodLen) :
    encode msg = header msg ++ (msg.method ++ msg.body) := by
  have hfits : (UInt16.ofNat msg.method.length).toNat = msg.method.length := by
    rw [UInt16.toNat_ofNat']
    exact Nat.mod_eq_of_lt (Nat.lt_succ_of_le h)
  rw [encode, if_neg (Nat.not_lt.mpr h), hfits, header, List.append_assoc]

theorem readAt_header_requestId (msg : RpcMessage) (post : List UInt8) :
    readAt (header msg ++ post) 1 8 = msg.requestId.toNat := by
  rw [header, List.append_assoc, List.append_assoc, List.append_assoc]
  exact readAt_append rfl msg.requestId.toNat_lt

theorem readAt_header_status (msg : RpcMessage) (post : List UInt8) :
    readAt (header msg ++ post) 9 4 = msg.status.toNat := by
  rw [header, List.append_assoc, List.append_assoc]
  refine readAt_append ?_ msg.status.toNat_lt
  rw [List.length_append, appendBe_length, List.length_singleton]

theorem readAt_header_methodLen {msg : RpcMessage}
    (h : msg.method.length ≤ kMaxMethodLen) (post : List UInt8) :
    readAt (header msg ++ post) 13 2 = msg.method.length := by
  rw [header, List.append_assoc]
  refine readAt_append ?_ (Nat.lt_succ_of_le h)
  rw [List.length_append, List.length_append, appendBe_length,
    appendBe_length, List.length_singleton]

theorem decode_encode {msg : RpcMessage} (htype : msg.type < RpcType.kTypeCount)
    (hmethod : msg.method.length ≤ kMaxMethodLen) (out : RpcMessage) :
    decode (encode msg) out = (true, msg) := by
  have hlen := encode_length hmethod
  rw [encode_eq_header hmethod] at hlen ⊢
  have hhead : (header msg ++ (msg.method ++ msg.body)).headD 0 = msg.type := rfl
  have hbody : (header msg ++ (msg.method ++ msg.body)).drop
      (kHeaderLen + msg.method.length) = msg.body := by
    rw [← List.append_assoc]
    refine List.drop_left' ?_
    rw [List.length_append, header_length]
  rw [decode, if_neg (by omega)]
  simp only [hhead, readAt_header_methodLen hmethod]
  rw [if_neg (UInt8.not_le.mpr htype), if_neg (by omega),
    readAt_header_requestId, readAt_header_status, hbody,
    List.drop_left' (header_length msg), List.take_left' rfl,
    UInt64.ofNat_toNat, UInt32.ofNat_toNat]

theorem decodeAll_encode {msgs : List RpcMessage} (out : RpcMessage)
    (h : ∀ msg ∈ msgs, msg.type < RpcType.kTypeCount ∧
      msg.method.length ≤ kMaxMethodLen) :
    decodeAll out (msgs.map encode) = some msgs := by
  induction msgs with
  | nil => rfl
  | cons msg msgs ih =>
      obtain ⟨htype, hmethod⟩ := h msg (by simp)
      simp only [List.map_cons, decodeAll, decode_encode htype hmethod]
      rw [ih fun m hm => h m (List.mem_cons_of_mem _ hm)]
      rfl

end RpcCodec

end GameFrame
