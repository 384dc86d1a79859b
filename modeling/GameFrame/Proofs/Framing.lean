import GameFrame.Lib.Feed
import GameFrame.Util.LengthPrefixedCodec

/-!
# The frame decoder does not see the cuts

A stream reaches `decode` in whatever pieces the kernel made of it, and the
buffer below compacts and grows while it waits for more. What comes out must
not depend on any of that. The argument has three layers.

At the bottom, `decode_eq_parse`: one call on a buffer is one call of `parse`
on the bytes that are readable there. The buffer's zones are gone from here
on, and so is the 32-bit comparison, which a limit of at most 16 MiB keeps
from wrapping.

In the middle, `parse_resumable`: `parse` can be interrupted. A record that is
not complete yet stays in front of whatever arrives behind it, and a bad
length stays bad. With that the general theorem about fed decoders applies.

On top, `IsReferenceParse` says what the answer ought to be without saying how
to find it: records one after another, each of admissible size, until what is
left does not start with one. There is only one such split of a stream
(`reference_unique`), and `parse` finds it.
-/

namespace GameFrame.LengthPrefixedCodec

open BigEndian Feed

/-- A length no frame may have: the header is there, and says zero or more
than the limit. -/
def BadHeader (maxLen : Nat) (s : List UInt8) : Prop :=
  4 ≤ s.length ∧ (value (s.take 4) = 0 ∨ maxLen < value (s.take 4))

/-- The decoder's loop on the bytes alone. -/
def parse (maxLen : Nat) (s : List UInt8) :
    Outcome (List UInt8) (List UInt8) :=
  if s.length < 4 then ⟨true, [], s⟩
  else if value (s.take 4) = 0 ∨ maxLen < value (s.take 4) then ⟨false, [], s⟩
  else if s.length < 4 + value (s.take 4) then ⟨true, [], s⟩
  else
    (parse maxLen (s.drop (4 + value (s.take 4)))).after
      [(s.drop 4).take (value (s.take 4))]
termination_by s.length
decreasing_by rw [List.length_drop]; omega

/-! ## One turn of the loop -/

theorem parse_short {maxLen : Nat} {s : List UInt8} (h : s.length < 4) :
    parse maxLen s = ⟨true, [], s⟩ := by
  rw [parse, if_pos h]

theorem parse_bad {maxLen : Nat} {s : List UInt8} (h : BadHeader maxLen s) :
    parse maxLen s = ⟨false, [], s⟩ := by
  rw [parse, if_neg (Nat.not_lt.mpr h.1), if_pos h.2]

theorem parse_incomplete {maxLen : Nat} {s : List UInt8}
    (h : ¬ BadHeader maxLen s) (hlen : s.length < 4 + value (s.take 4)) :
    parse maxLen s = ⟨true, [], s⟩ := by
  rcases Nat.lt_or_ge s.length 4 with h4 | h4
  · exact parse_short h4
  · rw [parse, if_neg (Nat.not_lt.mpr h4), if_neg fun hb => h ⟨h4, hb⟩,
      if_pos hlen]

theorem parse_record {maxLen : Nat} {s : List UInt8} (h4 : 4 ≤ s.length)
    (h : ¬ BadHeader maxLen s) (hlen : 4 + value (s.take 4) ≤ s.length) :
    parse maxLen s =
      (parse maxLen (s.drop (4 + value (s.take 4)))).after
        [(s.drop 4).take (value (s.take 4))] := by
  rw [parse, if_neg (Nat.not_lt.mpr h4), if_neg fun hb => h ⟨h4, hb⟩,
    if_neg (Nat.not_lt.mpr hlen)]

/-! ## The buffer is transparent -/

/-- What the decoder knows once it is past the two checks on the length: the
header is good, and adding four to it does not wrap. -/
theorem header_ok {maxFrameLen : UInt32}
    (hmax : maxFrameLen.toNat ≤ 16 * 1024 * 1024) {input : Buffer}
    (h4 : ¬ input.readableBytes < 4)
    (hgood : ¬ (peekUint32Be input == 0 || peekUint32Be input > maxFrameLen)
      = true) :
    ¬ BadHeader maxFrameLen.toNat input.readable ∧
      (4 + peekUint32Be input).toNat = 4 + value (input.readable.take 4) := by
  have hpeek : (peekUint32Be input).toNat = value (input.readable.take 4) :=
    toNat_peekUint32Be (by rw [Buffer.readable_length]; omega)
  simp only [Bool.or_eq_true, beq_iff_eq, decide_eq_true_eq, gt_iff_lt,
    UInt32.lt_iff_toNat_lt, UInt32.toNat_inj.symm, hpeek] at hgood
  refine ⟨fun hb => hgood hb.2, ?_⟩
  rw [UInt32.toNat_add, hpeek, show UInt32.toNat 4 = 4 from rfl]
  exact Nat.mod_eq_of_lt (by omega)

/-- One call of `decode` is `parse` on the readable bytes. -/
theorem decode_eq_parse {maxFrameLen : UInt32}
    (hmax : maxFrameLen.toNat ≤ 16 * 1024 * 1024) (input : Buffer)
    (out : List (List UInt8)) :
    ∃ b, decode input out maxFrameLen =
        some ((parse maxFrameLen.toNat input.readable).ok, b,
          out ++ (parse maxFrameLen.toNat input.readable).frames) ∧
      b.readable = (parse maxFrameLen.toNat input.readable).rest := by
  have hpeek : ∀ b : Buffer, ¬ b.readableBytes < 4 →
      (peekUint32Be b).toNat = value (b.readable.take 4) := fun b h =>
    toNat_peekUint32Be (by rw [Buffer.readable_length]; omega)
  fun_induction decode input out maxFrameLen with
  | case1 input out h4 =>
      rw [parse_short (by rw [Buffer.readable_length]; exact h4)]
      exact ⟨input, by rw [List.append_nil], rfl⟩
  | case2 input out h4 len hbad =>
      rw [parse_bad]
      · exact ⟨input, by rw [List.append_nil], rfl⟩
      · refine ⟨by rw [Buffer.readable_length]; omega, ?_⟩
        rw [← hpeek input h4]
        simpa [UInt32.toNat_inj.symm, UInt32.lt_iff_toNat_lt] using hbad
  | case3 input out h4 len hgood hshort =>
      obtain ⟨hhead, hadd⟩ := header_ok hmax h4 hgood
      rw [parse_incomplete hhead]
      · exact ⟨input, by rw [List.append_nil], rfl⟩
      · rw [Buffer.readable_length, ← hadd]
        exact hshort
  | case4 input out h4 len hgood hfull hread =>
      obtain ⟨-, hadd⟩ := header_ok hmax h4 hgood
      rw [hadd, Nat.not_lt] at hfull
      have hthere : len.toNat ≤ (input.retrieve 4).readable.length := by
        rw [Buffer.readable_retrieve, List.length_drop, Buffer.readable_length,
          hpeek input h4]
        omega
      rw [Buffer.retrieveAsString_eq hthere] at hread
      cases hread
  | case5 input out h4 len hgood hfull s input' hread ih =>
      obtain ⟨hhead, hadd⟩ := header_ok hmax h4 hgood
      have hlen : len.toNat = value (input.readable.take 4) := hpeek input h4
      rw [hadd, ← Buffer.readable_length, Nat.not_lt] at hfull
      have hthere : len.toNat ≤ (input.retrieve 4).readable.length := by
        rw [Buffer.readable_retrieve, List.length_drop, hlen]
        omega
      rw [Buffer.retrieveAsString_eq hthere] at hread
      obtain ⟨rfl, rfl⟩ : _ = s ∧ _ = input' := by simpa using hread
      rw [Buffer.readable_retrieve, Buffer.readable_retrieve, List.drop_drop,
        hlen] at ih
      rw [parse_record (by omega) hhead hfull, hlen]
      obtain ⟨b, hb, hrest⟩ := ih
      exact ⟨b, by rw [hb, List.append_assoc]; rfl, hrest⟩

/-! ## It can be interrupted -/

theorem badHeader_append {maxLen : Nat} {s : List UInt8} (t : List UInt8)
    (h4 : 4 ≤ s.length) :
    BadHeader maxLen (s ++ t) ↔ BadHeader maxLen s := by
  rw [BadHeader, BadHeader, List.take_append_of_le_length h4,
    List.length_append]
  exact and_congr_left fun _ => ⟨fun _ => h4, fun _ => by omega⟩

/-- A complete record in front is taken the same way whatever is behind it. -/
theorem parse_record_append {maxLen : Nat} {s : List UInt8} (t : List UInt8)
    (h4 : 4 ≤ s.length) (h : ¬ BadHeader maxLen s)
    (hlen : 4 + value (s.take 4) ≤ s.length) :
    parse maxLen (s ++ t) =
      (parse maxLen (s.drop (4 + value (s.take 4)) ++ t)).after
        [(s.drop 4).take (value (s.take 4))] := by
  have htake : (s ++ t).take 4 = s.take 4 :=
    List.take_append_of_le_length h4
  rw [parse_record (by rw [List.length_append]; omega)
    (fun hb => h ((badHeader_append t h4).mp hb))
    (by rw [htake, List.length_append]; omega), htake,
    List.drop_append_of_le_length hlen, List.drop_append_of_le_length h4,
    List.take_append_of_le_length (by rw [List.length_drop]; omega)]

theorem parse_resumable (maxLen : Nat) :
    Resumable (fun r t : List UInt8 => r ++ t) (parse maxLen) := by
  constructor
  · intro s t hok
    fun_induction parse maxLen s with
    | case1 s h4 => exact (Outcome.after_nil _).symm
    | case2 s h4 hbad => cases hok
    | case3 s h4 hgood hshort => exact (Outcome.after_nil _).symm
    | case4 s h4 hgood hfull ih =>
        rw [parse_record_append t (by omega) (fun hb => hgood hb.2) (by omega),
          ih hok, Outcome.after_after]
        rfl
  · intro s t hok
    fun_induction parse maxLen s with
    | case1 s h4 => cases hok
    | case2 s h4 hbad =>
        have h4' : 4 ≤ s.length := by omega
        exact parse_bad ((badHeader_append t h4').mpr ⟨h4', hbad⟩)
    | case3 s h4 hgood hshort => cases hok
    | case4 s h4 hgood hfull ih =>
        rw [parse_record_append t (by omega) (fun hb => hgood hb.2) (by omega),
          ih hok]
        rfl

/-! ## What the answer ought to be

A record is a header and as many bytes as it says. Two streams that start with
an admissible record and agree, agree on the record: the header is read first,
and it fixes the rest of the cut. -/

/-- A frame on the wire. -/
def record (f : List UInt8) : List UInt8 := appendBe 4 f.length ++ f

/-- The sizes a frame may have. -/
def Admissible (maxLen : Nat) (f : List UInt8) : Prop :=
  1 ≤ f.length ∧ f.length ≤ maxLen

/-- The stream is these records and then `rest`, and `rest` does not start
with another one. -/
structure IsReferenceParse (maxLen : Nat) (s : List UInt8)
    (frames : List (List UInt8)) (rest : List UInt8) : Prop where
  stream : s = (frames.map record).flatten ++ rest
  sizes : ∀ f ∈ frames, Admissible maxLen f
  maximal : ¬ ∃ f t, rest = record f ++ t ∧ Admissible maxLen f

theorem value_take_record {f : List UInt8} (hf : f.length < 2 ^ 32)
    (t : List UInt8) : value ((record f ++ t).take 4) = f.length := by
  rw [record, List.append_assoc, List.take_append_of_le_length (by simp),
    List.take_of_length_le (by simp), value_appendBe]
  exact Nat.mod_eq_of_lt hf

theorem drop_record (f t : List UInt8) :
    (record f ++ t).drop 4 = f ++ t := by
  rw [record, List.append_assoc, List.drop_append_of_le_length (by simp),
    List.drop_of_length_le (by simp), List.nil_append]

theorem record_length (f : List UInt8) : (record f).length = 4 + f.length := by
  rw [record, List.length_append, appendBe_length]

theorem record_append_inj {f g t u : List UInt8} (hf : f.length < 2 ^ 32)
    (hg : g.length < 2 ^ 32) (h : record f ++ t = record g ++ u) :
    f = g ∧ t = u := by
  have hlen : f.length = g.length := by
    rw [← value_take_record hf t, ← value_take_record hg u, h]
  have hbody : f ++ t = g ++ u := by
    rw [← drop_record f t, ← drop_record g u, h]
  exact List.append_inj hbody hlen

/-- There is only one way to cut a stream up. -/
theorem reference_unique {maxLen : Nat} (hmax : maxLen < 2 ^ 32)
    {frames : List (List UInt8)} : ∀ {s rest : List UInt8}
    {frames' : List (List UInt8)} {rest' : List UInt8},
    IsReferenceParse maxLen s frames rest →
    IsReferenceParse maxLen s frames' rest' →
    frames' = frames ∧ rest' = rest := by
  induction frames with
  | nil =>
      intro s rest frames' rest' h h'
      cases frames' with
      | nil => exact ⟨rfl, h'.stream.symm.trans h.stream⟩
      | cons f fs =>
          refine absurd ⟨f, (fs.map record).flatten ++ rest', ?_,
            h'.sizes f (by simp)⟩ h.maximal
          have := h.stream.symm.trans h'.stream
          simpa using this
  | cons f fs ih =>
      intro s rest frames' rest' h h'
      cases frames' with
      | nil =>
          refine absurd ⟨f, (fs.map record).flatten ++ rest, ?_,
            h.sizes f (by simp)⟩ h'.maximal
          have := h'.stream.symm.trans h.stream
          simpa using this
      | cons g gs =>
          have hf := h.sizes f (by simp)
          have hg := h'.sizes g (by simp)
          have hs := h.stream.symm.trans h'.stream
          rw [List.map_cons, List.map_cons, List.flatten_cons,
            List.flatten_cons, List.append_assoc, List.append_assoc] at hs
          obtain ⟨hfg, htl⟩ := record_append_inj
            (Nat.lt_of_le_of_lt hf.2 hmax) (Nat.lt_of_le_of_lt hg.2 hmax) hs
          obtain ⟨hfs, hrest⟩ := ih
            ⟨rfl, fun x hx => h.sizes x (List.mem_cons_of_mem _ hx), h.maximal⟩
            ⟨htl, fun x hx => h'.sizes x (List.mem_cons_of_mem _ hx),
              h'.maximal⟩
          exact ⟨by rw [hfg, hfs], hrest⟩

/-- A stream that starts with an admissible record has a good header and all
the bytes it announces. -/
theorem header_of_record {maxLen : Nat} (hmax : maxLen < 2 ^ 32)
    {f : List UInt8} (t : List UInt8) (hf : Admissible maxLen f) :
    ¬ BadHeader maxLen (record f ++ t) ∧
      4 + value ((record f ++ t).take 4) ≤ (record f ++ t).length := by
  have hval := value_take_record (Nat.lt_of_le_of_lt hf.2 hmax) t
  rw [BadHeader, hval, List.length_append, record_length]
  refine ⟨?_, by omega⟩
  rintro ⟨-, h | h⟩
  · have := hf.1; omega
  · have := hf.2; omega

/-- An admissible record in front is the first frame. -/
theorem parse_front {maxLen : Nat} (hmax : maxLen < 2 ^ 32) {f : List UInt8}
    (hf : Admissible maxLen f) (t : List UInt8) :
    parse maxLen (record f ++ t) = (parse maxLen t).after [f] := by
  obtain ⟨hgood, hfull⟩ := header_of_record hmax t hf
  have hval := value_take_record (Nat.lt_of_le_of_lt hf.2 hmax) t
  have h4 : 4 ≤ (record f ++ t).length := by
    rw [List.length_append, record_length]
    omega
  rw [parse_record h4 hgood hfull, hval, drop_record, List.take_left,
    ← List.drop_drop, drop_record, List.drop_left]

/-- The converse: that is what a record is. -/
theorem record_of_header {maxLen : Nat} {s : List UInt8} (h4 : 4 ≤ s.length)
    (h : ¬ BadHeader maxLen s) (hlen : 4 + value (s.take 4) ≤ s.length) :
    s = record ((s.drop 4).take (value (s.take 4))) ++
        s.drop (4 + value (s.take 4)) ∧
      Admissible maxLen ((s.drop 4).take (value (s.take 4))) := by
  have hbody : ((s.drop 4).take (value (s.take 4))).length =
      value (s.take 4) := by
    rw [List.length_take, List.length_drop]
    omega
  have hhead : appendBe 4 (value (s.take 4)) = s.take 4 := by
    have htake : (s.take 4).length = 4 := by
      rw [List.length_take, Nat.min_eq_left h4]
    rw [← readBe_eq htake, appendBe_readBe htake]
  constructor
  · rw [record, hbody, hhead, List.append_assoc, ← List.drop_drop,
      List.take_append_drop, List.take_append_drop]
  · rw [Admissible, hbody]
    refine ⟨?_, ?_⟩
    · exact Nat.pos_of_ne_zero fun h0 => h ⟨h4, .inl h0⟩
    · exact Nat.le_of_not_lt fun hgt => h ⟨h4, .inr hgt⟩

/-- `parse` finds the split. -/
theorem parse_reference {maxLen : Nat} (hmax : maxLen < 2 ^ 32)
    (s : List UInt8) :
    IsReferenceParse maxLen s (parse maxLen s).frames (parse maxLen s).rest := by
  have hstuck : ∀ {s : List UInt8}, (BadHeader maxLen s ∨
      s.length < 4 + value (s.take 4)) → IsReferenceParse maxLen s [] s := by
    intro s hs
    refine ⟨rfl, fun f hf => (List.not_mem_nil hf).elim, ?_⟩
    rintro ⟨f, t, rfl, hf⟩
    obtain ⟨hgood, hfull⟩ := header_of_record hmax t hf
    rcases hs with hbad | hshort
    · exact hgood hbad
    · exact absurd hshort (Nat.not_lt.mpr hfull)
  fun_induction parse maxLen s with
  | case1 s h4 => exact hstuck (.inr (by omega))
  | case2 s h4 hbad => exact hstuck (.inl ⟨by omega, hbad⟩)
  | case3 s h4 hgood hshort => exact hstuck (.inr hshort)
  | case4 s h4 hgood hfull ih =>
      have h4' : 4 ≤ s.length := by omega
      obtain ⟨hs, hadm⟩ := record_of_header h4'
        (show ¬ BadHeader maxLen s from fun hb => hgood hb.2) (by omega)
      refine ⟨?_, ?_, ih.maximal⟩
      · rw [Outcome.after_frames, Outcome.after_rest, List.singleton_append,
          List.map_cons, List.flatten_cons, List.append_assoc, ← ih.stream]
        exact hs
      · intro f hf
        rcases List.mem_cons.mp hf with rfl | hf
        · exact hadm
        · exact ih.sizes f hf

/-- Where `parse` stops: at a bad header if it refuses, and otherwise with
less than a frame of the largest size left. -/
theorem parse_stop (maxLen : Nat) (s : List UInt8) :
    ((parse maxLen s).ok = false → BadHeader maxLen (parse maxLen s).rest) ∧
      ((parse maxLen s).ok = true → (parse maxLen s).rest.length < 4 + maxLen ∧
        ¬ BadHeader maxLen (parse maxLen s).rest) := by
  fun_induction parse maxLen s with
  | case1 s h4 =>
      refine ⟨fun h => (nomatch h), fun _ => ⟨by show s.length < _; omega, ?_⟩⟩
      exact fun hb => Nat.not_lt.mpr hb.1 h4
  | case2 s h4 hbad =>
      exact ⟨fun _ => ⟨Nat.not_lt.mp h4, hbad⟩, fun h => (nomatch h)⟩
  | case3 s h4 hgood hshort =>
      refine ⟨fun h => (nomatch h), fun _ => ⟨?_, fun hb => hgood hb.2⟩⟩
      show s.length < _
      omega
  | case4 s h4 hgood hfull ih => exact ih

/-! ## All of it

The chunks, one call on the whole stream, and the reference agree on the
frames, on the verdict and on what was not consumed: the bytes in the buffer
and the chunks that were never appended. Every call of a run is the last call
on the chunks up to it, so what is said here about where the last call stops
is said about each. -/

/-- Feeding chunks to a buffer is feeding them to `parse`, and the buffer at
the end is the one the last call stopped in. -/
theorem decodeChunks_eq_feed {maxFrameLen : UInt32}
    (hmax : maxFrameLen.toNat ≤ 16 * 1024 * 1024) :
    ∀ (chunks : List (List UInt8)) (input : Buffer) (out : List (List UInt8)),
    ∃ b left, decodeChunks maxFrameLen input out chunks =
        some ((feed (· ++ ·) (parse maxFrameLen.toNat) input.readable
            chunks).ok, b,
          out ++ (feed (· ++ ·) (parse maxFrameLen.toNat) input.readable
            chunks).frames, left) ∧
      b.readable ++ left.flatten =
        (feed (· ++ ·) (parse maxFrameLen.toNat) input.readable
          chunks).rest ∧
      ((feed (· ++ ·) (parse maxFrameLen.toNat) input.readable
          chunks).ok = true → left = []) ∧
      ((feed (· ++ ·) (parse maxFrameLen.toNat) input.readable
          chunks).ok = false → BadHeader maxFrameLen.toNat b.readable) := by
  intro chunks
  induction chunks with
  | nil =>
      intro input out
      exact ⟨input, [], by rw [decodeChunks, feed, List.append_nil],
        List.append_nil _, fun _ => rfl, fun h => nomatch h⟩
  | cons c cs ih =>
      intro input out
      obtain ⟨b, hb, hrest⟩ := decode_eq_parse hmax (input.append c) out
      rw [Buffer.readable_append] at hb hrest
      rw [feed]
      cases hok : (parse maxFrameLen.toNat (input.readable ++ c)).ok with
      | true =>
          rw [hok] at hb
          obtain ⟨b', left, hb', hrest', hstop⟩ := ih b
            (out ++ (parse maxFrameLen.toNat (input.readable ++ c)).frames)
          rw [hrest] at hb' hrest' hstop
          refine ⟨b', left, ?_, hrest', hstop⟩
          simp only [decodeChunks, hb, hb', List.append_assoc, if_true,
            Outcome.after_ok, Outcome.after_frames]
      | false =>
          rw [hok] at hb
          refine ⟨b, cs, ?_, by rw [hrest]; rfl, ?_, fun _ => ?_⟩
          · simp only [decodeChunks, hb, Bool.false_eq_true, if_false]
          · intro h
            cases h
          · rw [hrest]
            exact (parse_stop _ _).1 hok

theorem drained_of_readable_eq_nil (maxLen : Nat) {input : Buffer}
    (h : input.readable = []) : Drained (parse maxLen) input.readable := by
  rw [h]
  exact parse_short (by simp)

/-- A drained buffer and a stream in chunks are one `parse` of the stream. -/
theorem decodeChunks_eq_parse {maxFrameLen : UInt32}
    (hmax : maxFrameLen.toNat ≤ 16 * 1024 * 1024)
    (chunks : List (List UInt8)) {input : Buffer} (hin : input.readable = [])
    (out : List (List UInt8)) :
    ∃ b left, decodeChunks maxFrameLen input out chunks =
        some ((parse maxFrameLen.toNat chunks.flatten).ok, b,
          out ++ (parse maxFrameLen.toNat chunks.flatten).frames, left) ∧
      b.readable ++ left.flatten =
        (parse maxFrameLen.toNat chunks.flatten).rest ∧
      ((parse maxFrameLen.toNat chunks.flatten).ok = true → left = []) ∧
      ((parse maxFrameLen.toNat chunks.flatten).ok = false →
        BadHeader maxFrameLen.toNat b.readable) := by
  have h := decodeChunks_eq_feed hmax chunks input out
  rwa [feed_eq (parse_resumable _) pushes_append
    (drained_of_readable_eq_nil _ hin), hin, List.nil_append] at h

/-- The decoder is the reference parse, however the stream is cut. -/
theorem decodeChunks_reference {maxFrameLen : UInt32}
    (hmax : maxFrameLen.toNat ≤ 16 * 1024 * 1024)
    (chunks : List (List UInt8)) {input : Buffer} (hin : input.readable = [])
    (out : List (List UInt8)) :
    ∃ ok b frames left whole,
      decodeChunks maxFrameLen input out chunks =
        some (ok, b, out ++ frames, left) ∧
      decode (input.append chunks.flatten) out maxFrameLen =
        some (ok, whole, out ++ frames) ∧
      whole.readable = b.readable ++ left.flatten ∧
      (∀ fs rest, IsReferenceParse maxFrameLen.toNat chunks.flatten fs rest ↔
        fs = frames ∧ rest = b.readable ++ left.flatten) ∧
      (ok = false → BadHeader maxFrameLen.toNat b.readable) ∧
      (ok = true → left = [] ∧
        ¬ BadHeader maxFrameLen.toNat b.readable ∧
        b.readable.length < 4 + maxFrameLen.toNat) := by
  obtain ⟨b, left, hchunks, hrest, htrue, hfalse⟩ :=
    decodeChunks_eq_parse hmax chunks hin out
  obtain ⟨whole, hwhole, hwrest⟩ :=
    decode_eq_parse hmax (input.append chunks.flatten) out
  rw [Buffer.readable_append, hin, List.nil_append] at hwhole hwrest
  have hparse := parse_reference (show maxFrameLen.toNat < 2 ^ 32 by omega)
    chunks.flatten
  refine ⟨_, b, _, left, whole, hchunks, hwhole, hwrest.trans hrest.symm, ?_,
    hfalse, fun hok => ?_⟩
  · intro fs rest
    rw [hrest]
    constructor
    · exact reference_unique (by omega) hparse
    · rintro ⟨rfl, rfl⟩
      exact hparse
  · obtain ⟨hlen, hgood⟩ := (parse_stop _ _).2 hok
    have hleft := htrue hok
    rw [hleft, List.flatten_nil, List.append_nil] at hrest
    rw [hrest]
    exact ⟨hleft, hgood, hlen⟩

/-- Two frames and a header that announces none, cut inside a header. -/
theorem decodeChunks_reference_cut :
    ∃ ok b frames left whole,
      decodeChunks 8 Buffer.new []
        [[0, 0], [0, 1, 7, 0, 0, 0, 1], [8, 0, 0, 0, 0], [9]] =
        some (ok, b, [] ++ frames, left) ∧
      decode (Buffer.new.append
        [[0, 0], [0, 1, 7, 0, 0, 0, 1], [8, 0, 0, 0, 0], [9]].flatten) [] 8 =
        some (ok, whole, [] ++ frames) ∧
      whole.readable = b.readable ++ left.flatten ∧
      (∀ fs rest, IsReferenceParse 8
        [[0, 0], [0, 1, 7, 0, 0, 0, 1], [8, 0, 0, 0, 0], [9]].flatten
        fs rest ↔ fs = frames ∧ rest = b.readable ++ left.flatten) ∧
      (ok = false → BadHeader 8 b.readable) ∧
      (ok = true → left = [] ∧ ¬ BadHeader 8 b.readable ∧
        b.readable.length < 4 + 8) :=
  decodeChunks_reference (by decide : UInt32.toNat 8 ≤ _) _
    Buffer.readable_new []

end GameFrame.LengthPrefixedCodec
