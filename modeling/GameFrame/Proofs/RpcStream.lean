import GameFrame.Rpc.RpcMessage
import GameFrame.Proofs.Framing

/-!
# Messages over a stream

Both codecs together: messages encoded, framed and laid end to end come out of
any cutting of that stream as they went in. With the framing settled there is
no loop left to reason about. The stream is a row of records by construction,
it is admissible because a payload is never empty and never over the limit,
and nothing is left at its end; so it is its own reference parse, and the
decoder finds that one (`reference_unique`). The payloads then decode one by
one.

A sender that keeps to nothing puts bytes on the wire all the same. `encode`
says with an empty string that a method is too long, but the framing makes a
frame of that as well, with the length that ends a connection; the type is
looked at by the decoder only, and the size of a frame is too. So a message
gets through if and only if it is `Sendable` (`sendForm_iff`).
-/

namespace GameFrame.RpcCodec

open LengthPrefixedCodec

/-- The documented send form, for one message. -/
def sendForm (msg : RpcMessage) : List UInt8 :=
  LengthPrefixedCodec.encode (encode msg)

/-- What the sender has to keep to: the type is request or response, the
method has a two-byte length, and the header, the method and the body are no
larger together than a frame may be. -/
structure Sendable (msg : RpcMessage) : Prop where
  type : msg.type = RpcType.kRequest ∨ msg.type = RpcType.kResponse
  method : msg.method.length ≤ kMaxMethodLen
  payload : kHeaderLen + msg.method.length + msg.body.length ≤
    kDefaultMaxFrameLen.toNat

theorem Sendable.lt_kTypeCount {msg : RpcMessage} (h : Sendable msg) :
    msg.type < RpcType.kTypeCount := by
  rcases h.type with ht | ht <;> rw [ht] <;> decide

theorem Sendable.admissible {msg : RpcMessage} (h : Sendable msg) :
    Admissible kDefaultMaxFrameLen.toNat (encode msg) := by
  have hlen := encode_length h.method
  refine ⟨?_, hlen ▸ h.payload⟩
  rw [hlen, kHeaderLen]
  omega

/-- The stream of sendable messages is a reference parse of itself. -/
theorem sendForm_reference {msgs : List RpcMessage}
    (h : ∀ msg ∈ msgs, Sendable msg) :
    IsReferenceParse kDefaultMaxFrameLen.toNat (msgs.map sendForm).flatten
      (msgs.map encode) [] := by
  refine ⟨?_, ?_, ?_⟩
  · rw [List.append_nil, List.map_map]
    congr 2
    funext msg
    exact encode_eq (encode msg)
  · intro f hf
    obtain ⟨msg, hmsg, rfl⟩ := List.mem_map.mp hf
    exact (h msg hmsg).admissible
  · rintro ⟨f, t, hnil, -⟩
    have := congrArg List.length hnil
    rw [List.length_append, record_length, List.length_nil] at this
    omega

/-- Two layers of framing and any cuts are the identity on messages. -/
theorem stream_roundtrip {msgs : List RpcMessage}
    (hmsgs : ∀ msg ∈ msgs, Sendable msg) {chunks : List (List UInt8)}
    (hchunks : chunks.flatten = (msgs.map sendForm).flatten)
    {input : Buffer} (hin : input.readable = []) (out : RpcMessage) :
    ∃ b payloads,
      decodeChunks kDefaultMaxFrameLen input [] chunks =
        some (true, b, payloads, []) ∧
      b.readable = [] ∧
      decodeAll out payloads = some msgs := by
  obtain ⟨b, left, hdecode, hrest, htrue, hfalse⟩ :=
    decodeChunks_eq_parse
      (show kDefaultMaxFrameLen.toNat ≤ 16 * 1024 * 1024 by decide)
      chunks hin []
  have href := sendForm_reference hmsgs
  rw [← hchunks] at href
  obtain ⟨hframes, hnil⟩ := reference_unique (by decide) href
    (parse_reference (by decide) chunks.flatten)
  rw [hnil] at hrest
  obtain ⟨hb, -⟩ := List.append_eq_nil_iff.mp hrest
  rw [hframes, List.nil_append] at hdecode
  cases hok : (parse kDefaultMaxFrameLen.toNat chunks.flatten).ok with
  | true =>
      rw [hok, htrue hok] at hdecode
      refine ⟨b, msgs.map encode, hdecode, hb, decodeAll_encode out ?_⟩
      exact fun msg hmsg =>
        ⟨(hmsgs msg hmsg).lt_kTypeCount, (hmsgs msg hmsg).method⟩
  | false =>
      have hbad := (hfalse hok).1
      rw [hb] at hbad
      exact absurd hbad (by decide)

/-- A request with a zero byte in its name and a response with a status of
the handler's own, cut into single bytes. -/
theorem stream_roundtrip_bytes :
    ∃ b payloads,
      decodeChunks kDefaultMaxFrameLen Buffer.new []
        ((([⟨0, 7, 0, [65, 0], [0, 255]⟩, ⟨1, 0, 4000000000, [], []⟩] :
          List RpcMessage).map sendForm).flatten.map fun byte => [byte]) =
        some (true, b, payloads, []) ∧
      b.readable = [] ∧
      decodeAll {} payloads =
        some [⟨0, 7, 0, [65, 0], [0, 255]⟩, ⟨1, 0, 4000000000, [], []⟩] := by
  refine stream_roundtrip ?_ (by decide +kernel) Buffer.readable_new {}
  intro msg hmsg
  rcases List.mem_cons.mp hmsg with rfl | hmsg
  · exact ⟨.inl rfl, by decide, by decide +kernel⟩
  · obtain rfl := List.mem_singleton.mp hmsg
    exact ⟨.inr rfl, by decide, by decide +kernel⟩

/-! ## One message, whatever it is -/

/-- The receiver has one payload of it and nothing left over, and the payload
is the message. -/
def Recovered (msg : RpcMessage) : Prop :=
  ∀ (input : Buffer) (out : RpcMessage), input.readable = sendForm msg →
    ∃ b payload,
      LengthPrefixedCodec.decode input [] kDefaultMaxFrameLen =
        some (true, b, [payload]) ∧
      b.readable = [] ∧ decode payload out = (true, msg)

/-- One of the two decoders refuses what was sent, and the receiver closes. -/
def Dropped (msg : RpcMessage) : Prop :=
  ∃ (input : Buffer) (out : RpcMessage), input.readable = sendForm msg ∧
    ∃ ok b payloads,
      LengthPrefixedCodec.decode input [] kDefaultMaxFrameLen =
        some (ok, b, payloads) ∧
      (ok = false ∨ decodeAll out payloads = none)

/-- Nothing is sent, or it comes out as it went in; and what cannot be encoded
does no harm. -/
structure GetsThrough (msg : RpcMessage) : Prop where
  arrives : sendForm msg = [] ∨ Recovered msg
  harmless : encode msg = [] → ¬ Dropped msg

/-- A method of one byte more than there may be. -/
def longMethod : RpcMessage := { method := List.replicate 65536 65 }

theorem default_ok : kDefaultMaxFrameLen.toNat ≤ 16 * 1024 * 1024 := by decide

theorem sendForm_closes : ¬ ∀ msg : RpcMessage, GetsThrough msg := by
  intro hall
  have hempty : encode longMethod = [] := by
    rw [encode, if_pos]
    rw [longMethod, List.length_replicate]
    decide
  have hform : sendForm longMethod = [0, 0, 0, 0] := by
    rw [sendForm, hempty]
    rfl
  have hread : (Buffer.new.append [0, 0, 0, 0]).readable = [0, 0, 0, 0] := by
    decide +kernel
  have hbad : (parse kDefaultMaxFrameLen.toNat [0, 0, 0, 0]).ok = false := by
    rw [parse_bad ⟨by decide, .inl rfl⟩]
  obtain ⟨b, hdecode, -⟩ := decode_eq_parse default_ok
    (Buffer.new.append [0, 0, 0, 0]) []
  rw [hread, hbad] at hdecode
  exact (hall longMethod).harmless hempty ⟨Buffer.new.append [0, 0, 0, 0], {},
    hread.trans hform.symm, false, b, _, hdecode, .inl rfl⟩

/-- A payload that is not refused holds a message the encoder takes. -/
theorem decode_fits {payload : List UInt8} {out msg : RpcMessage}
    (h : decode payload out = (true, msg)) :
    msg.type < RpcType.kTypeCount ∧ msg.method.length ≤ kMaxMethodLen ∧
      payload.length = kHeaderLen + msg.method.length + msg.body.length := by
  have hread : readAt payload 13 2 ≤ kMaxMethodLen :=
    Nat.le_of_lt_succ (BigEndian.readBe_lt 2 _)
  rw [decode] at h
  split at h
  · cases h
  · dsimp only at h
    split at h
    · cases h
    · next htype =>
        split at h
        · cases h
        · next hfits =>
            cases h
            refine ⟨UInt8.not_le.mp htype, ?_, ?_⟩
            · rw [List.length_take]
              omega
            · rw [List.length_take, List.length_drop, List.length_drop]
              omega

/-- What comes out was sent by a sender that keeps to its part. -/
theorem Recovered.sendable {msg : RpcMessage} (h : Recovered msg) :
    Sendable msg := by
  obtain ⟨b, payload, hdecode, hnil, hmsg⟩ :=
    h (Buffer.new.append (sendForm msg)) {}
      (by rw [Buffer.readable_append, Buffer.readable_new, List.nil_append])
  obtain ⟨htype, hmethod, hlen⟩ := decode_fits hmsg
  obtain ⟨b', hparse, -⟩ := decode_eq_parse default_ok
    (Buffer.new.append (sendForm msg)) []
  rw [hdecode] at hparse
  simp only [Option.some.injEq, Prod.mk.injEq, List.nil_append] at hparse
  obtain ⟨-, -, hframes⟩ := hparse
  have hsize : Admissible kDefaultMaxFrameLen.toNat payload := by
    have href := parse_reference (Nat.lt_of_le_of_lt default_ok (by decide))
      (Buffer.new.append (sendForm msg)).readable
    rw [← hframes] at href
    exact href.sizes payload (List.mem_singleton_self payload)
  refine ⟨?_, hmethod, ?_⟩
  · have hlt : msg.type.toNat < 2 := htype
    rcases Nat.lt_succ_iff_lt_or_eq.mp hlt with h0 | h1
    · exact .inl (UInt8.toNat_inj.mp (Nat.lt_one_iff.mp h0))
    · exact .inr (UInt8.toNat_inj.mp h1)
  · rw [← hlen]
    exact hsize.2

theorem Sendable.recovered {msg : RpcMessage} (h : Sendable msg) :
    Recovered msg := by
  intro input out hinput
  have hparse : parse kDefaultMaxFrameLen.toNat input.readable =
      ⟨true, [encode msg], []⟩ := by
    have hfront := parse_front (by decide) h.admissible []
    rw [List.append_nil, parse_short (s := []) (by decide)] at hfront
    rw [hinput, sendForm, encode_eq]
    exact hfront
  obtain ⟨b, hdecode, hrest⟩ := decode_eq_parse default_ok
    input []
  rw [hparse] at hdecode hrest
  exact ⟨b, encode msg, hdecode, hrest,
    decode_encode h.lt_kTypeCount h.method out⟩

/-- A message gets through if and only if the sender keeps to its part. -/
theorem sendForm_iff (msg : RpcMessage) : GetsThrough msg ↔ Sendable msg := by
  constructor
  · intro h
    have hsent : sendForm msg ≠ [] := by
      rw [sendForm, LengthPrefixedCodec.encode]
      exact List.cons_ne_nil _ _
    exact (h.arrives.resolve_left hsent).sendable
  · intro h
    refine ⟨.inr h.recovered, fun hempty => ?_⟩
    have hlen := encode_length h.method
    rw [hempty, List.length_nil, kHeaderLen] at hlen
    omega

end GameFrame.RpcCodec
