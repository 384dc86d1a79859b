import GameFrame.Proofs.Framing

/-!
# A limit close to the end of the 32 bits

`readable_bytes() < 4u + len` is made in 32 bits. A length of `2 ^ 32 - 4` or
more makes the sum wrap around to less than four, the comparison lets it pass,
and `retrieve_as_string` is called for bytes that need not be there. Such a
length is refused before that, unless the caller's limit lets it through.

So what a limit does is a matter of the bytes: the frames that are there are
taken whatever their size, and the header that is reached behind them must not
announce so much without having it (`Backed`). There is no other way to read
past the readable bytes (`decode_contained_iff`).
-/

namespace GameFrame.LengthPrefixedCodec

open BigEndian

/-- Nothing is read but what is readable, and each frame takes its four bytes
of header and as many as it has itself. -/
def Contained (input : Buffer) (out : List (List UInt8))
    (maxFrameLen : UInt32) : Prop :=
  ∃ ok b frames, decode input out maxFrameLen = some (ok, b, out ++ frames) ∧
    input.readable = (frames.map record).flatten ++ b.readable

/-- Behind whole frames, a header that announces `2 ^ 32 - 4` bytes or more,
and no more than the limit, has them behind it. -/
def Backed (maxLen : Nat) (s : List UInt8) : Prop :=
  ∀ (fs : List (List UInt8)) (rest : List UInt8),
    s = (fs.map record).flatten ++ rest →
    (∀ f ∈ fs, Admissible maxLen f) → 4 ≤ rest.length →
    4294967292 ≤ value (rest.take 4) → value (rest.take 4) ≤ maxLen →
    4 + value (rest.take 4) ≤ rest.length

/-- A limit that leaves room for the header. -/
theorem backed_of_lt {maxLen : Nat} (h : maxLen < 4294967292)
    (s : List UInt8) : Backed maxLen s := by
  intro fs rest _ _ _ hlow hhigh
  omega

theorem Backed.tail {maxLen : Nat} {f t : List UInt8}
    (h : Backed maxLen (record f ++ t)) (hf : Admissible maxLen f) :
    Backed maxLen t := by
  intro fs rest hs hfs
  refine h (f :: fs) rest ?_ ?_
  · rw [hs, List.map_cons, List.flatten_cons, List.append_assoc]
  · intro g hg
    rcases List.mem_cons.mp hg with rfl | hg
    · exact hf
    · exact hfs g hg

/-! ## One turn of the loop -/

/-- The sum of the header and a length, in 32 bits. -/
theorem toNat_four_add (len : UInt32) :
    (4 + len).toNat = if len.toNat < 4294967292 then 4 + len.toNat
      else len.toNat - 4294967292 := by
  have hlen := len.toNat_lt
  rw [UInt32.toNat_add, show UInt32.toNat 4 = 4 from rfl]
  split
  · omega
  · omega

/-- What the two checks on the length leave. -/
theorem good_length {maxFrameLen : UInt32} {input : Buffer}
    (h4 : ¬ input.readableBytes < 4) :
    (¬ (peekUint32Be input == 0 || peekUint32Be input > maxFrameLen) = true) ↔
      ¬ BadHeader maxFrameLen.toNat input.readable := by
  have hpeek : (peekUint32Be input).toNat = value (input.readable.take 4) :=
    toNat_peekUint32Be (by rw [Buffer.readable_length]; omega)
  have hlen : 4 ≤ input.readableBytes := by omega
  simp [BadHeader, hlen, ← hpeek, UInt32.toNat_inj.symm,
    UInt32.lt_iff_toNat_lt]

/-- A frame that is there is taken, if the limit allows it. -/
theorem decode_record {maxFrameLen : UInt32} {input : Buffer}
    {f t : List UInt8} (hinput : input.readable = record f ++ t)
    (hf : Admissible maxFrameLen.toNat f) (out : List (List UInt8)) :
    ∃ b, b.readable = t ∧
      decode input out maxFrameLen = decode b (out ++ [f]) maxFrameLen := by
  have hmax := maxFrameLen.toNat_lt
  obtain ⟨hgood, hfull⟩ := header_of_record hmax t hf
  have hval := value_take_record (Nat.lt_of_le_of_lt hf.2 hmax) t
  have hlen : input.readableBytes = 4 + f.length + t.length := by
    rw [← Buffer.readable_length, hinput, List.length_append, record_length]
  have h4 : ¬ input.readableBytes < 4 := by omega
  have hpeek : (peekUint32Be input).toNat = f.length := by
    rw [toNat_peekUint32Be (by rw [Buffer.readable_length]; omega), hinput, hval]
  have hfits : ¬ input.readableBytes < (4 + peekUint32Be input).toNat := by
    rw [toNat_four_add, hpeek]
    split
    · omega
    · omega
  have hread : (input.retrieve 4).retrieveAsString (peekUint32Be input).toNat =
      some (f, (input.retrieve 4).retrieve f.length) := by
    rw [Buffer.retrieveAsString_eq, hpeek, Buffer.readable_retrieve, hinput,
      drop_record, List.take_left]
    rw [Buffer.readable_retrieve, hinput, drop_record, hpeek,
      List.length_append]
    omega
  refine ⟨(input.retrieve 4).retrieve f.length, ?_, ?_⟩
  · rw [Buffer.readable_retrieve, Buffer.readable_retrieve, hinput,
      drop_record, List.drop_left]
  · rw [← hinput] at hgood
    rw [decode, dif_neg h4]
    dsimp only
    rw [if_neg ((good_length h4).mpr hgood), if_neg hfits]
    split
    · next hnone => cases hread.symm.trans hnone
    · next s input' hsome =>
        cases hread.symm.trans hsome
        rfl

/-- A header that is let through by the wrap, without its bytes. -/
theorem decode_beyond {maxFrameLen : UInt32} {input : Buffer}
    (h4 : 4 ≤ input.readable.length)
    (hlow : 4294967292 ≤ value (input.readable.take 4))
    (hhigh : value (input.readable.take 4) ≤ maxFrameLen.toNat)
    (hshort : input.readable.length < 4 + value (input.readable.take 4))
    (out : List (List UInt8)) : decode input out maxFrameLen = none := by
  have hpeek := toNat_peekUint32Be h4
  have h4' : ¬ input.readableBytes < 4 := by
    rw [← Buffer.readable_length]
    omega
  have hgood : ¬ BadHeader maxFrameLen.toNat input.readable := by
    rintro ⟨-, h | h⟩
    · omega
    · omega
  have hfits : ¬ input.readableBytes < (4 + peekUint32Be input).toNat := by
    have hlt := (peekUint32Be input).toNat_lt
    rw [toNat_four_add, if_neg (by omega), ← Buffer.readable_length]
    omega
  have hread : (input.retrieve 4).retrieveAsString
      (peekUint32Be input).toNat = none := by
    rw [Buffer.retrieveAsString, if_neg]
    rw [Buffer.readableBytes_retrieve, ← Buffer.readable_length, hpeek]
    omega
  rw [decode, dif_neg h4']
  dsimp only
  rw [if_neg ((good_length h4').mpr hgood), if_neg hfits]
  split
  · rfl
  · next s input' hsome => cases hread.symm.trans hsome

/-! ## Every turn of it -/

theorem header_there {input : Buffer} (h4 : ¬ input.readableBytes < 4) :
    4 ≤ input.readable.length ∧
      (peekUint32Be input).toNat = value (input.readable.take 4) := by
  have hlen : 4 ≤ input.readable.length := by
    rw [Buffer.readable_length]
    omega
  exact ⟨hlen, toNat_peekUint32Be hlen⟩

/-- A frame that seems to be there is there: either the sum that was looked at
did not wrap, or the limit backs it. -/
theorem Backed.there {maxFrameLen : UInt32} {input : Buffer}
    (h : Backed maxFrameLen.toNat input.readable)
    (h4 : ¬ input.readableBytes < 4)
    (hok : ¬ BadHeader maxFrameLen.toNat input.readable)
    (hfits : ¬ input.readableBytes < (4 + peekUint32Be input).toNat) :
    4 + (peekUint32Be input).toNat ≤ input.readableBytes := by
  obtain ⟨hlen, hpeek⟩ := header_there h4
  rw [toNat_four_add] at hfits
  split at hfits
  · omega
  · next hwrap =>
      have hback := h [] input.readable rfl (by simp) hlen (by omega)
        (Nat.le_of_not_lt fun hgt => hok ⟨hlen, .inr hgt⟩)
      rw [Buffer.readable_length] at hback
      omega

theorem contained_of_backed {maxFrameLen : UInt32} (input : Buffer)
    (out : List (List UInt8))
    (h : Backed maxFrameLen.toNat input.readable) :
    Contained input out maxFrameLen := by
  rw [Contained]
  fun_induction decode input out maxFrameLen with
  | case1 input out h4 => exact ⟨true, input, [], by simp, rfl⟩
  | case2 input out h4 len hbad => exact ⟨false, input, [], by simp, rfl⟩
  | case3 input out h4 len hgood hshort => exact ⟨true, input, [], by simp, rfl⟩
  | case4 input out h4 len hgood hfits hread =>
      have hthere := h.there h4 ((good_length h4).mp hgood) hfits
      rw [Buffer.retrieveAsString, if_pos] at hread
      · cases hread
      · rw [Buffer.readableBytes_retrieve]
        exact Nat.le_sub_of_add_le' hthere
  | case5 input out h4 len hgood hfits s input' hread ih =>
      obtain ⟨hlen, hpeek⟩ : _ ∧ len.toNat = _ := header_there h4
      have hok := (good_length h4).mp hgood
      have hthere : len.toNat ≤ (input.retrieve 4).readableBytes := by
        rw [Buffer.retrieveAsString] at hread
        split at hread
        · assumption
        · cases hread
      have hfull : 4 + len.toNat ≤ input.readable.length := by
        rw [Buffer.readableBytes_retrieve] at hthere
        rw [Buffer.readable_length]
        omega
      rw [Buffer.retrieveAsString, if_pos hthere] at hread
      obtain ⟨rfl, rfl⟩ : _ = s ∧ _ = input' := by simpa using hread
      rw [Buffer.readable_retrieve, Buffer.readable_retrieve, List.drop_drop,
        hpeek] at ih
      obtain ⟨hsplit, hadm⟩ := record_of_header hlen hok (hpeek ▸ hfull)
      rw [hsplit] at h
      obtain ⟨ok, b, frames, hdecode, hrest⟩ := ih (h.tail hadm)
      rw [hpeek]
      refine ⟨ok, b, (input.readable.drop 4).take
        (value (input.readable.take 4)) :: frames, ?_, ?_⟩
      · rw [hdecode, List.append_assoc]
        rfl
      · rw [List.map_cons, List.flatten_cons, List.append_assoc, ← hrest]
        exact hsplit

theorem backed_of_contained {maxFrameLen : UInt32} {input : Buffer}
    {out : List (List UInt8)} (h : Contained input out maxFrameLen) :
    Backed maxFrameLen.toNat input.readable := by
  have hne : decode input out maxFrameLen ≠ none := by
    obtain ⟨ok, b, frames, hdecode, -⟩ := h
    rw [hdecode]
    exact Option.some_ne_none _
  intro fs
  clear h
  induction fs generalizing input out with
  | nil =>
      intro rest hs _ h4 hlow hhigh
      rw [List.map_nil, List.flatten_nil, List.nil_append] at hs
      subst hs
      refine Nat.le_of_not_lt fun hshort => hne ?_
      exact decode_beyond h4 hlow hhigh hshort out
  | cons f fs ih =>
      intro rest hs hfs
      rw [List.map_cons, List.flatten_cons, List.append_assoc] at hs
      obtain ⟨b, hb, hdecode⟩ := decode_record hs (hfs f List.mem_cons_self) out
      rw [hdecode] at hne
      refine ih hne rest hb fun g hg => ?_
      exact hfs g (List.mem_cons_of_mem _ hg)

/-- Four bytes that announce all that 32 bits can, and the limit that lets
them. -/
theorem decode_escapes : ¬ ∀ (input : Buffer) (out : List (List UInt8))
    (maxFrameLen : UInt32), Contained input out maxFrameLen := by
  intro hall
  have hbytes : (Buffer.new.append [255, 255, 255, 255]).readable =
      [255, 255, 255, 255] := by
    rw [Buffer.readable_append, Buffer.readable_new, List.nil_append]
  have h := backed_of_contained
    (hall (Buffer.new.append [255, 255, 255, 255]) [] 4294967295)
  rw [hbytes] at h
  have hthere := h [] [255, 255, 255, 255] rfl (by simp) (by decide)
    (by decide) (by decide)
  exact absurd hthere (by decide)

/-- Nothing is read past the readable bytes if and only if every header that
the limit lets through at the end of the 32 bits has its bytes behind it. -/
theorem decode_contained_iff (input : Buffer) (out : List (List UInt8))
    (maxFrameLen : UInt32) :
    Contained input out maxFrameLen ↔
      Backed maxFrameLen.toNat input.readable :=
  ⟨backed_of_contained, contained_of_backed input out⟩

end GameFrame.LengthPrefixedCodec
