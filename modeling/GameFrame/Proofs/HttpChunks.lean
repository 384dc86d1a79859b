import GameFrame.Proofs.HttpLines

/-!
# The parser, a chunk at a time

A request arrives in pieces, and `parse` is called after each of them until it
refuses or has it all. What comes of that is what one call on the whole stream
gives (`parseChunks_whole`): the parser is the same, and so is what has not
been used, of which a part is in the buffer and a part has not been appended.

For a parser that may go on whatever it found, that is `Feed`. This one stops
when it has a request, and then leaves everything where it is, so the chunks
it was not given may as well be counted as given.

What a request takes is its head: lines that are not empty, one that is, and
nothing behind it (`IsHead`).
-/

namespace GameFrame

namespace Buffer

/-- Where a line ends: in front of it there is no end of a line. -/
theorem searchCrlf_split {bytes : List UInt8} {i : Nat}
    (h : searchCrlf bytes = some i) :
    bytes = bytes.take i ++ 13 :: 10 :: bytes.drop (i + 2) ∧
      ¬ [13, 10] <:+: bytes.take i := by
  induction bytes generalizing i with
  | nil => cases h
  | cons c bytes ih =>
      rw [searchCrlf] at h
      split at h
      · next hcrlf =>
          cases h
          obtain ⟨rfl, hhead⟩ := hcrlf
          cases bytes with
          | nil => cases hhead
          | cons d bytes =>
              obtain rfl : d = 10 := by simpa using hhead
              exact ⟨rfl, by simp⟩
      · next hcrlf =>
          obtain ⟨j, hj, rfl⟩ := Option.map_eq_some_iff.mp h
          obtain ⟨hsplit, hnone⟩ := ih hj
          refine ⟨congrArg (c :: ·) hsplit, fun hin => ?_⟩
          rw [List.take_succ_cons, List.infix_cons_iff] at hin
          rcases hin with hpre | hin
          · rw [List.cons_prefix_cons] at hpre
            obtain ⟨rfl, t, ht⟩ := hpre
            refine hcrlf ⟨rfl, ?_⟩
            rw [hsplit, ← ht]
            rfl
          · exact hnone hin

end Buffer

namespace HttpContext

open Buffer Feed

/-- The lines up to the first empty one, that one included, are in front of
`rest`. -/
def IsHead (stream rest : List UInt8) : Prop :=
  ∃ ls : List (List UInt8), ls ≠ [] ∧
    (∀ l ∈ ls, l ≠ [] ∧ ¬ [13, 10] <:+: l) ∧
    stream = ls.flatMap (· ++ [13, 10]) ++ 13 :: 10 :: rest

/-! ## What a request takes -/

theorem parseHeader_state {ctx ctx' : HttpContext} {l : List UInt8} {ok : Bool}
    (h : ctx.parseHeader l = (ok, ctx')) : ctx'.state = ctx.state := by
  rw [parseHeader] at h
  split at h
  · cases h
    rfl
  · cases h
    rfl

theorem parseRequestLine_state (ctx : HttpContext) (l : List UInt8) :
    (ctx.parseRequestLine l).2.state = ctx.state := by
  rw [parseRequestLine]
  cases findByte l 32 0 with
  | none => rfl
  | some sp1 =>
      dsimp only
      split
      · rfl
      · cases findByte l 32 (sp1 + 1) with
        | none => rfl
        | some sp2 =>
            dsimp only
            split
            · rfl
            · split
              · rfl
              · rfl

/-- Whether a first line is one does not depend on what is there already. -/
theorem parseRequestLine_ok (ctx ctx' : HttpContext) (l : List UInt8) :
    (ctx.parseRequestLine l).1 = (ctx'.parseRequestLine l).1 := by
  have hmethod : ∀ m, (ctx.request.setMethod m).method =
      (ctx'.request.setMethod m).method := fun m => rfl
  rw [parseRequestLine, parseRequestLine]
  cases findByte l 32 0 with
  | none => rfl
  | some sp1 =>
      dsimp only
      rw [hmethod]
      split
      · rfl
      · cases findByte l 32 (sp1 + 1) with
        | none => rfl
        | some sp2 =>
            dsimp only
            split
            · rfl
            · split
              · rfl
              · rfl

/-- A line that is refused does not move the parser on, and is refused
again. -/
theorem line_refused {ctx ctx' : HttpContext} {l : List UInt8}
    (h : ctx.line l = (false, ctx')) :
    ctx'.state = ctx.state ∧ (ctx'.line l).1 = false := by
  rw [line] at h
  split at h
  · next hstate =>
      split at h
      · next hparse =>
          cases h
          have hsame : ctx'.state = ctx.state := by
            rw [← parseRequestLine_state ctx l, hparse]
          refine ⟨hsame, ?_⟩
          rw [line_request (hsame.trans hstate), parseRequestLine_ok ctx' ctx,
            hparse]
      · cases h
  · next hstate =>
      split at h
      · cases h
      · next hne =>
          have hsame := parseHeader_state h
          refine ⟨hsame, ?_⟩
          rw [line_header (hsame.trans hstate) hne]
          rw [parseHeader] at h ⊢
          cases hcolon : findByte l 58 0 with
          | none => rfl
          | some colon =>
              rw [hcolon] at h
              cases h
  · cases h

/-- The first line is not an empty one. -/
theorem parseRequestLine_ne {ctx ctx' : HttpContext} {l : List UInt8}
    (h : ctx.parseRequestLine l = (true, ctx')) : l ≠ [] := by
  rintro rfl
  cases h

/-- A line moves the parser one state on, and does so when it is not empty
and the first, or empty and a later one. -/
inductive Advances (ctx : HttpContext) (l : List UInt8) (ctx' : HttpContext) :
    Prop where
  | first : ctx.state = .kExpectRequestLine → l ≠ [] →
      ctx'.state = .kExpectHeaders → Advances ctx l ctx'
  | header : ctx.state = .kExpectHeaders → l ≠ [] →
      ctx'.state = .kExpectHeaders → Advances ctx l ctx'
  | last : ctx.state = .kExpectHeaders → l = [] →
      ctx'.state = .kGotAll → Advances ctx l ctx'

theorem line_advances {ctx ctx' : HttpContext} {l : List UInt8}
    (hgot : ctx.gotAll = false) (h : ctx.line l = (true, ctx')) :
    Advances ctx l ctx' := by
  rw [line] at h
  split at h
  · next hstate =>
      split at h
      · cases h
      · next hparse =>
          cases h
          exact .first hstate (parseRequestLine_ne hparse) rfl
  · next hstate =>
      split at h
      · next hnil =>
          cases h
          exact .last hstate hnil rfl
      · next hne =>
          exact .header hstate hne ((parseHeader_state h).trans hstate)
  · next hstate =>
      simp [gotAll, hstate] at hgot

/-- Behind the first line: headers, an empty line, and what is left. -/
theorem lines_headersOnly {r : Pos} (hstate : r.1.state = .kExpectHeaders)
    (hgot : (lines r).rest.1.gotAll = true) :
    ∃ ls : List (List UInt8), (∀ l ∈ ls, l ≠ [] ∧ ¬ [13, 10] <:+: l) ∧
      r.2 = ls.flatMap (· ++ [13, 10]) ++ 13 :: 10 :: (lines r).rest.2 := by
  fun_induction lines r with
  | case1 r hall =>
      simp [gotAll, hstate] at hall
  | case2 r hall hnone =>
      exact absurd hgot (by simp [hall])
  | case3 r hall i hi hgood ih =>
      obtain ⟨hsplit, hclear⟩ := searchCrlf_split hi
      have hline : r.1.line (r.2.take i) =
          (true, (r.1.line (r.2.take i)).2) := Prod.ext hgood rfl
      cases line_advances (by simpa using hall) hline with
      | first hfirst => cases hstate.symm.trans hfirst
      | header _ hne hnext =>
          obtain ⟨ls, hls, hrest⟩ := ih hnext hgot
          refine ⟨r.2.take i :: ls, ?_, ?_⟩
          · rintro l (_ | ⟨_, hl⟩)
            · exact ⟨hne, hclear⟩
            · exact hls l hl
          · rw [List.flatMap_cons, List.append_assoc, ← hrest,
              List.append_assoc]
            exact hsplit
      | last _ hnil hnext =>
          refine ⟨[], by simp, ?_⟩
          rw [lines_gotAll (by simp [gotAll, hnext])]
          rw [hnil] at hsplit
          exact hsplit
  | case4 r hall i hi hbad =>
      have hline : r.1.line (r.2.take i) =
          (false, (r.1.line (r.2.take i)).2) :=
        Prod.ext (by simpa using hbad) rfl
      have hsame := (line_refused hline).1
      simp [gotAll, hsame, hstate] at hgot

theorem lines_isHead {s : List UInt8}
    (hgot : (lines ({}, s)).rest.1.gotAll = true) :
    IsHead s (lines ({}, s)).rest.2 := by
  cases hi : searchCrlf s with
  | none =>
      rw [lines_none (by exact hi)] at hgot
      cases hgot
  | some i =>
      obtain ⟨hsplit, hclear⟩ := searchCrlf_split hi
      cases hline : ({} : HttpContext).line (s.take i) with
      | mk ok ctx =>
          cases ok with
          | false =>
              have hsame := (line_refused hline).1
              rw [lines_bad rfl hi hline] at hgot
              simp [gotAll, hsame] at hgot
          | true =>
              cases line_advances rfl hline with
              | first _ hne hnext =>
                  rw [lines_good rfl hi hline] at hgot ⊢
                  obtain ⟨ls, hls, hrest⟩ := lines_headersOnly hnext hgot
                  refine ⟨s.take i :: ls, List.cons_ne_nil _ _, ?_, ?_⟩
                  · rintro l (_ | ⟨_, hl⟩)
                    · exact ⟨hne, hclear⟩
                    · exact hls l hl
                  · rw [List.flatMap_cons, List.append_assoc, ← hrest,
                      List.append_assoc]
                    exact hsplit
              | header hlater => cases hlater
              | last hlater => cases hlater

/-! ## In chunks -/

/-- Nothing is taken from what comes behind a request. -/
theorem feed_gotAll {r : Pos} (h : r.1.gotAll = true)
    (chunks : List (List UInt8)) :
    feed push lines r chunks = ⟨true, [], push r chunks.flatten⟩ :=
  (feed_eq lines_resumable pushes_push (lines_gotAll h)).trans (lines_gotAll h)

theorem parseChunks_eq_feed (chunks : List (List UInt8)) :
    ∀ (ctx : HttpContext) (buf : Buffer), ∃ b left,
      parseChunks ctx buf chunks =
        ((feed push lines (ctx, buf.readable) chunks).ok,
          (feed push lines (ctx, buf.readable) chunks).rest.1, b, left) ∧
      (feed push lines (ctx, buf.readable) chunks).rest.2 =
        b.readable ++ left.flatten := by
  induction chunks with
  | nil =>
      intro ctx buf
      exact ⟨buf, [], rfl, (List.append_nil _).symm⟩
  | cons chunk chunks ih =>
      intro ctx buf
      obtain ⟨b, hparse, hrest⟩ := parse_eq_lines ctx (buf.append chunk)
      rw [readable_append] at hparse hrest
      rw [parseChunks, hparse, feed]
      have hpush : push (ctx, buf.readable) chunk =
          (ctx, buf.readable ++ chunk) := rfl
      rw [hpush]
      generalize lines (ctx, buf.readable ++ chunk) = o at hrest ⊢
      cases hok : o.ok with
      | false =>
          refine ⟨b, chunks, by simp [push], ?_⟩
          simp [push, hrest]
      | true =>
          have hpos : o.rest = (o.rest.1, b.readable) := Prod.ext rfl hrest.symm
          dsimp only
          split
          · next hgot =>
              refine ⟨b, chunks, ?_, ?_⟩
              · simp [feed_gotAll hgot, push]
              · simp [feed_gotAll hgot, push, hrest]
          · next hgot =>
              obtain ⟨b', left, hrun, hleft⟩ := ih o.rest.1 b
              rw [← hpos] at hrun hleft
              exact ⟨b', left, hrun, hleft⟩

/-- However the stream is cut, the verdict, the parser and what is left are
those of one call on all of it; and a request has taken its head. -/
theorem parseChunks_whole {chunks : List (List UInt8)} {input whole : Buffer}
    (hinput : input.readable = []) (hwhole : whole.readable = chunks.flatten) :
    ∃ ok ctx b left b',
      parseChunks {} input chunks = (ok, ctx, b, left) ∧
      parse {} whole = (ok, ctx, b') ∧
      b.readable ++ left.flatten = b'.readable ∧
      (ctx.gotAll = true → IsHead chunks.flatten b'.readable) := by
  obtain ⟨b, left, hrun, hleft⟩ := parseChunks_eq_feed chunks {} input
  obtain ⟨b', hparse, hrest⟩ := parse_eq_lines {} whole
  have hstart : Drained lines (({} : HttpContext), input.readable) := by
    rw [hinput]
    exact lines_none rfl
  have hfeed : feed push lines ({}, input.readable) chunks = _ :=
    feed_eq lines_resumable pushes_push hstart
  rw [push, hinput, List.nil_append, ← hwhole] at hfeed
  rw [hinput, hfeed] at hrun hleft
  refine ⟨_, _, b, left, b', hrun, hparse, hleft.symm.trans hrest.symm, ?_⟩
  intro hgot
  rw [hrest, ← hwhole]
  exact lines_isHead hgot

/-- A request cut inside its first line and inside both ends of its empty
one, with two bytes behind it and a chunk that is not reached. -/
def cutRequest : List (List UInt8) :=
  [ascii "GET /a", ascii " HTTP/1.0\r", ascii "\n\r", ascii "\nGE", ascii "T"]

theorem parseChunks_whole_cut :
    ∃ ok ctx b left b',
      parseChunks {} Buffer.new cutRequest = (ok, ctx, b, left) ∧
      parse {} (Buffer.new.append cutRequest.flatten) = (ok, ctx, b') ∧
      b.readable ++ left.flatten = b'.readable ∧
      (ctx.gotAll = true → IsHead cutRequest.flatten b'.readable) :=
  parseChunks_whole Buffer.readable_new (by
    rw [Buffer.readable_append, Buffer.readable_new, List.nil_append])

end HttpContext

end GameFrame
