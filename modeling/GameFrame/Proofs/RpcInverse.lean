import GameFrame.Rpc.RpcMessage

/-!
# What the decoder takes is what the encoder makes

Which payloads are taken can be said by their bytes alone (`Accepted`): there
is a header, its first byte is a type, and the length at offset thirteen is no
more than there is behind the header. The fields are then read off the payload
(`fieldsOf`), and nothing of what `out` was before is left. A field that was
read is written as the bytes it was read from (`appendBe_readAt`), and these
lie one behind the other, so the encoder gives the payload back.
-/

namespace GameFrame.RpcCodec

open BigEndian

/-- There are fifteen bytes of header, the first is a type, and the two at
offset thirteen say no more than there is behind them. -/
structure Accepted (p : List UInt8) : Prop where
  header : 15 ≤ p.length
  type : p.headD 0 < RpcType.kTypeCount
  method : value ((p.drop 13).take 2) ≤ p.length - 15

/-- What stands in a payload. -/
def fieldsOf (p : List UInt8) : RpcMessage where
  type := p.headD 0
  requestId := UInt64.ofNat (readAt p 1 8)
  status := UInt32.ofNat (readAt p 9 4)
  method := (p.drop 15).take (readAt p 13 2)
  body := p.drop (15 + readAt p 13 2)

theorem readAt_eq {p : List UInt8} {pos w : Nat} (h : pos + w ≤ p.length) :
    readAt p pos w = value ((p.drop pos).take w) := by
  rw [readAt]
  apply readBe_eq
  rw [List.length_take, List.length_drop]
  omega

/-- A number that was read is written as it stood there. -/
theorem appendBe_readAt {p : List UInt8} {pos w : Nat}
    (h : pos + w ≤ p.length) :
    appendBe w (readAt p pos w) = (p.drop pos).take w := by
  apply appendBe_readBe
  rw [List.length_take, List.length_drop]
  omega

theorem decode_accepted {p : List UInt8} (h : Accepted p) (out : RpcMessage) :
    decode p out = (true, fieldsOf p) := by
  have hheader := h.header
  have htype : ¬ p.headD 0 ≥ RpcType.kTypeCount := UInt8.not_le.mpr h.type
  have hmethod : ¬ readAt p 13 2 > p.length - kHeaderLen := by
    rw [readAt_eq (by omega), kHeaderLen]
    have := h.method
    omega
  have hlen : ¬ p.length < kHeaderLen := by
    rw [kHeaderLen]
    omega
  rw [decode, if_neg hlen]
  dsimp only
  rw [if_neg htype, if_neg hmethod]
  rfl

theorem decode_refused {p : List UInt8} (h : ¬ Accepted p)
    (out : RpcMessage) : decode p out = (false, out) := by
  rw [decode]
  split
  · rfl
  · next hlen =>
      rw [kHeaderLen] at hlen
      dsimp only
      split
      · rfl
      · next htype =>
          split
          · rfl
          · next hmethod =>
              rw [readAt_eq (by omega), kHeaderLen] at hmethod
              exact absurd ⟨by omega, UInt8.not_le.mp htype, by omega⟩ h

/-! ## The bytes of a header, in a row -/

theorem take_drop_append (p : List UInt8) (pos w : Nat) :
    (p.drop pos).take w ++ p.drop (pos + w) = p.drop pos := by
  rw [← List.drop_drop]
  exact List.take_append_drop w (p.drop pos)

theorem encode_fieldsOf {p : List UInt8} (h : Accepted p) :
    encode (fieldsOf p) = p := by
  have hheader := h.header
  have hshort : readAt p 13 2 < 65536 := readBe_lt 2 _
  have hthere : readAt p 13 2 ≤ p.length - 15 := by
    rw [readAt_eq (by omega)]
    exact h.method
  have hmethod : (fieldsOf p).method.length = readAt p 13 2 := by
    rw [fieldsOf, List.length_take, List.length_drop]
    omega
  have hid : (fieldsOf p).requestId.toNat = readAt p 1 8 := by
    have hlt : readAt p 1 8 < 2 ^ 64 := readBe_lt 8 _
    rw [fieldsOf, UInt64.toNat_ofNat', Nat.mod_eq_of_lt hlt]
  have hstatus : (fieldsOf p).status.toNat = readAt p 9 4 := by
    have hlt : readAt p 9 4 < 2 ^ 32 := readBe_lt 4 _
    rw [fieldsOf, UInt32.toNat_ofNat', Nat.mod_eq_of_lt hlt]
  have hfirst : [(fieldsOf p).type] = (p.drop 0).take 1 := by
    cases p with
    | nil => simp at hheader
    | cons c p => rfl
  have hfits : (fieldsOf p).method.length ≤ kMaxMethodLen := by
    rw [hmethod, kMaxMethodLen]
    omega
  rw [encode_eq_header hfits, header, hid, hstatus, hmethod, hfirst,
    appendBe_readAt (by omega), appendBe_readAt (by omega),
    appendBe_readAt (by omega)]
  rw [fieldsOf]
  dsimp only
  rw [take_drop_append, List.append_assoc, take_drop_append p 13 2,
    List.append_assoc, take_drop_append p 9 4, List.append_assoc,
    take_drop_append p 1 8, take_drop_append p 0 1]
  rfl

/-- Two payloads that are taken for the same message are the same. -/
theorem decode_injective {p p' : List UInt8} {out out' msg : RpcMessage}
    (h : decode p out = (true, msg)) (h' : decode p' out' = (true, msg)) :
    p = p' := by
  have hback : ∀ {p : List UInt8} {out : RpcMessage},
      decode p out = (true, msg) → p = encode msg := by
    intro p out h
    by_cases hacc : Accepted p
    · rw [decode_accepted hacc] at h
      cases h
      exact (encode_fieldsOf hacc).symm
    · rw [decode_refused hacc] at h
      cases h
  rw [hback h, hback h']

/-- A payload is taken if and only if its bytes are in order. Then all of `out`
is new, and encoding it gives the payload back, which no other is taken for;
otherwise `out` is as it was. And a message that the encoder takes comes out
of its payload. -/
theorem decode_exact (p : List UInt8) (out : RpcMessage) :
    ((decode p out).1 = true ↔ 15 ≤ p.length ∧
      p.headD 0 < RpcType.kTypeCount ∧
      value ((p.drop 13).take 2) ≤ p.length - 15) ∧
    ((decode p out).1 = true →
      encode (decode p out).2 = p ∧
      (∀ out', decode p out' = decode p out) ∧
      ∀ p' out', decode p' out' = decode p out → p' = p) ∧
    ((decode p out).1 = false → (decode p out).2 = out) ∧
    ∀ msg : RpcMessage, msg.type < RpcType.kTypeCount →
      msg.method.length ≤ 65535 → decode (encode msg) out = (true, msg) := by
  have hiff : Accepted p ↔ 15 ≤ p.length ∧
      p.headD 0 < RpcType.kTypeCount ∧
      value ((p.drop 13).take 2) ≤ p.length - 15 :=
    ⟨fun h => ⟨h.header, h.type, h.method⟩, fun ⟨h₁, h₂, h₃⟩ => ⟨h₁, h₂, h₃⟩⟩
  have hback : ∀ msg : RpcMessage, msg.type < RpcType.kTypeCount →
      msg.method.length ≤ 65535 → decode (encode msg) out = (true, msg) :=
    fun msg htype hmethod => decode_encode htype hmethod out
  rw [← hiff]
  by_cases h : Accepted p
  · have hdecode := decode_accepted h
    refine ⟨iff_of_true (by rw [hdecode]) h, fun _ => ⟨?_, ?_, ?_⟩, ?_, hback⟩
    · rw [hdecode]
      exact encode_fieldsOf h
    · intro out'
      rw [hdecode, hdecode]
    · intro p' out' heq
      rw [hdecode] at heq
      exact decode_injective heq (hdecode out)
    · intro hfalse
      rw [hdecode] at hfalse
      cases hfalse
  · have hdecode := decode_refused h
    refine ⟨iff_of_false (by rw [hdecode]; exact Bool.false_ne_true) h, ?_, ?_,
      hback⟩
    · intro htrue
      rw [hdecode] at htrue
      cases htrue
    · intro _
      rw [hdecode]

end GameFrame.RpcCodec
