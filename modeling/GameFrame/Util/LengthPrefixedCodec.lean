import GameFrame.Lib.BigEndian
import GameFrame.Util.Buffer

/-!
# `LengthPrefixedCodec`, the framing both ends share

`util/length_prefixed_codec.h`: four bytes of big-endian length, then that
many bytes of payload. The encoder checks nothing, and truncates the size to
the 32 bits it writes. The decoder is a loop over a `Buffer`, taking frames
while whole ones are there and giving up on a length of zero or one above the
caller's limit.

The comparison `readable_bytes() < 4u + len` is made in 32 bits before it is
widened, and it is kept that way here; a limit close to `2 ^ 32` makes it wrap
around. What happens then is the `none` of `retrieveAsString`, a read past the
readable bytes.
-/

namespace GameFrame.LengthPrefixedCodec

open BigEndian

/-- `kDefaultMaxFrameLen`, 16 MiB. -/
def kDefaultMaxFrameLen : UInt32 := 16 * 1024 * 1024

/-- `encode(payload)`: the size, cut to 32 bits and written big end first,
then the payload. -/
def encode (payload : List UInt8) : List UInt8 :=
  let len : UInt32 := UInt32.ofNat payload.length
  [((len >>> 24) &&& 0xFF).toUInt8, ((len >>> 16) &&& 0xFF).toUInt8,
    ((len >>> 8) &&& 0xFF).toUInt8, (len &&& 0xFF).toUInt8] ++ payload

/-- `peek_uint32_be(buf)`. The caller has looked that four bytes are there;
the last case is the read the source never makes. -/
def peekUint32Be (buf : Buffer) : UInt32 :=
  match buf.readable with
  | p0 :: p1 :: p2 :: p3 :: _ =>
      p0.toUInt32 <<< 24 ||| p1.toUInt32 <<< 16 ||| p2.toUInt32 <<< 8 |||
        p3.toUInt32
  | _ => 0

theorem readableBytes_lt_of_retrieveAsString {b b' : Buffer} {len : Nat}
    {s : List UInt8} (h4 : ¬ b.readableBytes < 4)
    (h : (b.retrieve 4).retrieveAsString len = some (s, b')) :
    b'.readableBytes < b.readableBytes := by
  rw [Buffer.retrieveAsString] at h
  split at h
  · obtain ⟨-, rfl⟩ : _ ∧ (b.retrieve 4).retrieve len = b' := by simpa using h
    rw [Buffer.readableBytes_retrieve, Buffer.readableBytes_retrieve]
    omega
  · cases h

/-- `decode(input, out, max_frame_len)`: the verdict, the buffer as it is
left, and `out` with the frames appended. `none` is a read past the readable
bytes. -/
def decode (input : Buffer) (out : List (List UInt8)) (maxFrameLen : UInt32) :
    Option (Bool × Buffer × List (List UInt8)) :=
  if _h4 : input.readableBytes < 4 then some (true, input, out)
  else
    let len := peekUint32Be input
    if len == 0 || len > maxFrameLen then some (false, input, out)
    else if input.readableBytes < (4 + len).toNat then some (true, input, out)
    else
      match _h : (input.retrieve 4).retrieveAsString len.toNat with
      | none => none
      | some (s, input') => decode input' (out ++ [s]) maxFrameLen
termination_by input.readableBytes
decreasing_by exact readableBytes_lt_of_retrieveAsString _h4 _h

/-- Appending `chunk` and calling `decode`, chunk after chunk until it
refuses: the verdict, the buffer, the frames, and the chunks not reached. -/
def decodeChunks (maxFrameLen : UInt32) :
    Buffer → List (List UInt8) → List (List UInt8) →
      Option (Bool × Buffer × List (List UInt8) × List (List UInt8))
  | input, out, [] => some (true, input, out, [])
  | input, out, chunk :: chunks =>
      match decode (input.append chunk) out maxFrameLen with
      | none => none
      | some (true, input, out) => decodeChunks maxFrameLen input out chunks
      | some (false, input, out) => some (false, input, out, chunks)

/-! ## The header, as a number -/

/-- One byte of the encoder's header. The mask keeps eight bits, so the 32
the size was cut to do not show. -/
theorem headerByte (n : Nat) {k : Nat} (hk : k ≤ 24) :
    ((UInt32.ofNat n >>> UInt32.ofNat k) &&& 0xFF).toUInt8 =
      UInt8.ofNat (n >>> k) := by
  have h32 : (2 : Nat) ^ 32 = 2 ^ k * (2 ^ 8 * 2 ^ (24 - k)) := by
    rw [← Nat.pow_add, ← Nat.pow_add]
    congr 1
    omega
  apply UInt8.toNat_inj.mp
  simp only [UInt32.toNat_toUInt8, UInt32.toNat_and, UInt32.toNat_shiftRight,
    UInt32.toNat_ofNat', UInt8.toNat_ofNat']
  rw [Nat.mod_eq_of_lt (show k < 2 ^ 32 by omega),
    Nat.mod_eq_of_lt (show k < 32 by omega),
    show UInt32.toNat 255 = 2 ^ 8 - 1 from rfl, Nat.and_two_pow_sub_one_eq_mod,
    Nat.mod_mod, Nat.shiftRight_eq_div_pow, Nat.shiftRight_eq_div_pow, h32,
    Nat.mod_mul_right_div_self]
  exact Nat.mod_mod_of_dvd _ (Nat.dvd_mul_right _ _)

theorem encode_eq (payload : List UInt8) :
    encode payload = appendBe 4 payload.length ++ payload := by
  have h0 := headerByte payload.length (show 0 ≤ 24 by omega)
  have h1 := headerByte payload.length (show 8 ≤ 24 by omega)
  have h2 := headerByte payload.length (show 16 ≤ 24 by omega)
  have h3 := headerByte payload.length (show 24 ≤ 24 by omega)
  rw [show UInt32.ofNat 0 = 0 from rfl, UInt32.shiftRight_zero] at h0
  simp only [encode, appendBe, Nat.reduceMul]
  rw [← h0, ← h1, ← h2, ← h3]
  rfl

theorem toNat_peekUint32Be {buf : Buffer} (h : 4 ≤ buf.readable.length) :
    (peekUint32Be buf).toNat = value (buf.readable.take 4) := by
  rw [peekUint32Be]
  match hb : buf.readable with
  | p0 :: p1 :: p2 :: p3 :: rest =>
      have h1 := p1.toNat_lt
      have h2 := p2.toNat_lt
      have h3 := p3.toNat_lt
      simp only [UInt32.toNat_or, UInt32.toNat_shiftLeft,
        UInt8.toNat_toUInt32, UInt32.reduceToNat, Nat.reduceMod,
        Nat.shiftLeft_eq, List.take_succ_cons, List.take_zero, value,
        List.length_cons, List.length_nil]
      rw [Nat.mod_eq_of_lt (by have := p0.toNat_lt; omega),
        Nat.mod_eq_of_lt (by omega), Nat.mod_eq_of_lt (by omega),
        Nat.or_assoc, Nat.or_assoc, or_eq_add p2.toNat 8 h3,
        or_eq_add p1.toNat 16 (by omega), or_eq_add p0.toNat 24 (by omega)]
      omega
  | [] | [_] | [_, _] | [_, _, _] => rw [hb] at h; simp at h

end GameFrame.LengthPrefixedCodec
