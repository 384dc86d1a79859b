import GameFrame.Http.HttpContext
import GameFrame.Lib.Feed

/-!
# The parser, a line at a time

`parse` is one loop whatever the state: unless the request is complete, look
for the end of a line, and if there is one, take the line. What is done with a
line depends on the state (`line`), and whether the loop goes on only on the
verdict and on the state behind it. `lines` is that loop on the bytes alone,
and one call of `parse` on a buffer is one call of it on what is readable there
(`parse_eq_lines`).

It can be interrupted anywhere (`lines_resumable`): the end of a line that is
there stays where it is when more arrives behind it.
-/

namespace GameFrame

namespace Buffer

/-- What is found stays found, and in the same place. -/
theorem searchCrlf_append {bytes : List UInt8} {i : Nat}
    (h : searchCrlf bytes = some i) (more : List UInt8) :
    searchCrlf (bytes ++ more) = some i := by
  induction bytes generalizing i with
  | nil => cases h
  | cons c bytes ih =>
      rw [searchCrlf] at h
      rw [List.cons_append, searchCrlf]
      split at h
      · next hcrlf =>
          cases h
          rw [if_pos]
          refine ⟨hcrlf.1, ?_⟩
          rw [List.head?_append, hcrlf.2]
          rfl
      · next hcrlf =>
          obtain ⟨j, hj, rfl⟩ := Option.map_eq_some_iff.mp h
          have hne : bytes ≠ [] := by
            rintro rfl
            cases hj
          have hhead : (bytes ++ more).head? = bytes.head? := by
            cases bytes with
            | nil => exact absurd rfl hne
            | cons d bytes => rfl
          rw [hhead, if_neg hcrlf, ih hj]
          rfl

/-- The end of a line that has no carriage return in it. -/
theorem searchCrlf_line {l : List UInt8} (hl : 13 ∉ l) (more : List UInt8) :
    searchCrlf (l ++ 13 :: 10 :: more) = some l.length := by
  induction l with
  | nil =>
      rw [List.nil_append, searchCrlf, if_pos ⟨rfl, rfl⟩]
      rfl
  | cons c l ih =>
      rw [List.mem_cons, not_or] at hl
      rw [List.cons_append, searchCrlf, if_neg fun hc => hl.1 hc.1.symm,
        ih hl.2]
      rfl

end Buffer

namespace HttpContext

open Buffer Feed

/-- What a line does, and whether it is one of those that may stand there. -/
def line (ctx : HttpContext) (l : List UInt8) : Bool × HttpContext :=
  match ctx.state with
  | .kExpectRequestLine =>
      match ctx.parseRequestLine l with
      | (false, ctx) => (false, ctx)
      | (true, ctx) => (true, { ctx with state := .kExpectHeaders })
  | .kExpectHeaders =>
      if l = [] then (true, { ctx with state := .kGotAll })
      else ctx.parseHeader l
  | .kGotAll => (true, ctx)

/-- The parser and the bytes it has not used. -/
abbrev Pos := HttpContext × List UInt8

/-- The loop of `parse` on the bytes alone. -/
def lines (r : Pos) : Outcome HttpRequest Pos :=
  if r.1.gotAll then ⟨true, [], r⟩
  else
    match _h : searchCrlf r.2 with
    | none => ⟨true, [], r⟩
    | some i =>
        if (r.1.line (r.2.take i)).1 then
          lines ((r.1.line (r.2.take i)).2, r.2.drop (i + 2))
        else ⟨false, [], ((r.1.line (r.2.take i)).2, r.2)⟩
termination_by r.2.length
decreasing_by
  have := searchCrlf_lt _h
  rw [List.length_drop]
  omega

theorem lines_gotAll {r : Pos} (h : r.1.gotAll = true) :
    lines r = ⟨true, [], r⟩ := by
  rw [lines, if_pos h]

theorem lines_none {r : Pos} (h : searchCrlf r.2 = none) :
    lines r = ⟨true, [], r⟩ := by
  rw [lines]
  split
  · rfl
  · split
    · rfl
    · next i hi => cases h.symm.trans hi

theorem lines_some {r : Pos} (hgot : r.1.gotAll = false) {i : Nat}
    (h : searchCrlf r.2 = some i) :
    lines r =
      if (r.1.line (r.2.take i)).1 then
        lines ((r.1.line (r.2.take i)).2, r.2.drop (i + 2))
      else ⟨false, [], ((r.1.line (r.2.take i)).2, r.2)⟩ := by
  rw [lines, if_neg (by simp [hgot])]
  split
  · next hi => cases h.symm.trans hi
  · next j hj =>
      cases h.symm.trans hj
      rfl

theorem gotAll_false {ctx : HttpContext} (h : ctx.state ≠ .kGotAll) :
    ctx.gotAll = false := by
  rw [gotAll]
  simp [h]

/-- A line that may stand there. -/
theorem lines_good {ctx ctx' : HttpContext} {s : List UInt8}
    (hgot : ctx.gotAll = false) {i : Nat} (hi : searchCrlf s = some i)
    (h : ctx.line (s.take i) = (true, ctx')) :
    lines (ctx, s) = lines (ctx', s.drop (i + 2)) := by
  rw [lines_some hgot hi, h]
  exact if_pos rfl

/-- One that may not. -/
theorem lines_bad {ctx ctx' : HttpContext} {s : List UInt8}
    (hgot : ctx.gotAll = false) {i : Nat} (hi : searchCrlf s = some i)
    (h : ctx.line (s.take i) = (false, ctx')) :
    lines (ctx, s) = ⟨false, [], (ctx', s)⟩ := by
  rw [lines_some hgot hi, h]
  exact if_neg Bool.false_ne_true

theorem line_request {ctx : HttpContext} {l : List UInt8}
    (hstate : ctx.state = .kExpectRequestLine) :
    ctx.line l = ((ctx.parseRequestLine l).1,
      if (ctx.parseRequestLine l).1 then
        { (ctx.parseRequestLine l).2 with state := .kExpectHeaders }
      else (ctx.parseRequestLine l).2) := by
  rw [line, hstate]
  dsimp only
  split
  · next h => rw [h]; rfl
  · next h => rw [h]; rfl

theorem line_header {ctx : HttpContext} {l : List UInt8}
    (hstate : ctx.state = .kExpectHeaders) (hl : l ≠ []) :
    ctx.line l = ctx.parseHeader l := by
  rw [line, hstate]
  exact if_neg hl

theorem line_empty {ctx : HttpContext} (hstate : ctx.state = .kExpectHeaders) :
    ctx.line [] = (true, { ctx with state := .kGotAll }) := by
  rw [line, hstate]
  rfl

/-- One call of `parse` is `lines` on the readable bytes. -/
theorem parse_eq_lines (ctx : HttpContext) (buf : Buffer) :
    ∃ b, ctx.parse buf = ((lines (ctx, buf.readable)).ok,
        (lines (ctx, buf.readable)).rest.1, b) ∧
      b.readable = (lines (ctx, buf.readable)).rest.2 := by
  have hfirst : ∀ {ctx : HttpContext}, ctx.state = .kExpectRequestLine →
      ctx.gotAll = false := fun h => gotAll_false (by simp [h])
  have hlater : ∀ {ctx : HttpContext}, ctx.state = .kExpectHeaders →
      ctx.gotAll = false := fun h => gotAll_false (by simp [h])
  have hrest : ∀ (buf : Buffer) (i : Nat),
      (buf.retrieveUntil (i + 2)).readable = buf.readable.drop (i + 2) :=
    fun buf i => Buffer.readable_retrieve buf (i + 2)
  fun_induction parse ctx buf with
  | case1 ctx buf hstate =>
      rw [lines_gotAll (by simp [gotAll, hstate])]
      exact ⟨buf, rfl, rfl⟩
  | case2 ctx buf hstate hnone =>
      rw [lines_none (by exact hnone)]
      exact ⟨buf, rfl, rfl⟩
  | case3 ctx buf hstate i hi ctx' hbad =>
      have hline : ctx.line (buf.readable.take i) = (false, ctx') := by
        rw [line_request hstate, hbad]
        rfl
      rw [lines_bad (hfirst hstate) hi hline]
      exact ⟨buf, rfl, rfl⟩
  | case4 ctx buf hstate i hi ctx' hgood ih =>
      have hline : ctx.line (buf.readable.take i) =
          (true, { ctx' with state := .kExpectHeaders }) := by
        rw [line_request hstate, hgood]
        rfl
      rw [lines_good (hfirst hstate) hi hline, ← hrest]
      exact ih
  | case5 ctx buf hstate hnone =>
      rw [lines_none (by exact hnone)]
      exact ⟨buf, rfl, rfl⟩
  | case6 ctx buf hstate i hi l hnil =>
      have hline : ctx.line (buf.readable.take i) =
          (true, { ctx with state := .kGotAll }) := by
        rw [show buf.readable.take i = [] from hnil]
        exact line_empty hstate
      rw [lines_good (hlater hstate) hi hline, lines_gotAll rfl]
      exact ⟨_, rfl, hrest buf i⟩
  | case7 ctx buf hstate i hi l hne ctx' hbad =>
      have hline : ctx.line (buf.readable.take i) = (false, ctx') :=
        (line_header hstate hne).trans hbad
      rw [lines_bad (hlater hstate) hi hline]
      exact ⟨buf, rfl, rfl⟩
  | case8 ctx buf hstate i hi l hne ctx' hgood ih =>
      have hline : ctx.line (buf.readable.take i) = (true, ctx') :=
        (line_header hstate hne).trans hgood
      rw [lines_good (hlater hstate) hi hline, ← hrest]
      exact ih

/-- Requests are not frames: there is one at most, and it is in the parser. -/
theorem lines_frames (r : Pos) : (lines r).frames = [] := by
  fun_induction lines r with
  | case1 r hgot => rfl
  | case2 r hgot hnone => rfl
  | case3 r hgot i hi hgood ih => exact ih
  | case4 r hgot i hi hbad => rfl

/-! ## It can be interrupted -/

/-- More bytes behind those that are not used. -/
def push (r : Pos) (more : List UInt8) : Pos := (r.1, r.2 ++ more)

theorem pushes_push : Pushes push where
  nil := fun r => by rw [push, List.append_nil]
  append := fun r s t => by rw [push, push, push, List.append_assoc]

/-- The rest of the input behind a line, when there is more of it. -/
theorem lines_append {r : Pos} (hgot : r.1.gotAll = false) {i : Nat}
    (hi : searchCrlf r.2 = some i) (more : List UInt8) :
    lines (push r more) =
      if (r.1.line (r.2.take i)).1 then
        lines (push ((r.1.line (r.2.take i)).2, r.2.drop (i + 2)) more)
      else ⟨false, [], ((r.1.line (r.2.take i)).2, r.2 ++ more)⟩ := by
  have hlen := searchCrlf_lt hi
  have hmore : searchCrlf (push r more).2 = some i := searchCrlf_append hi more
  have hgot' : (push r more).1.gotAll = false := hgot
  rw [lines_some hgot' hmore, push]
  dsimp only
  rw [List.take_append_of_le_length (by omega),
    List.drop_append_of_le_length (by omega)]
  rfl

theorem lines_resumable : Resumable push lines := by
  constructor
  · intro r more hok
    fun_induction lines r with
    | case1 r hgot => rw [Outcome.after_nil]
    | case2 r hgot hnone => rw [Outcome.after_nil]
    | case3 r hgot i hi hgood ih =>
        rw [lines_append (by simpa using hgot) hi, if_pos hgood]
        exact ih hok
    | case4 r hgot i hi hbad => cases hok
  · intro r more hok
    fun_induction lines r with
    | case1 r hgot => cases hok
    | case2 r hgot hnone => cases hok
    | case3 r hgot i hi hgood ih =>
        rw [lines_append (by simpa using hgot) hi, if_pos hgood]
        exact ih hok
    | case4 r hgot i hi hbad =>
        rw [lines_append (by simpa using hgot) hi, if_neg hbad]
        rfl

/-- What is parsed later is parsed as if it had all been there. -/
theorem lines_resume {r : Pos} (hok : (lines r).ok = true)
    (more : List UInt8) : lines (push (lines r).rest more) =
      lines (push r more) := by
  rw [lines_resumable.resume r more hok, lines_frames, Outcome.after_nil]

end HttpContext

end GameFrame
