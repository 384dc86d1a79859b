import GameFrame.Proofs.HttpLines

/-!
# Requests as they are written

A request on the wire is a method, a path with or without a query, a version
and headers, each of which has to keep clear of the bytes that end it
(`RequestText`). It is one line for the first three, one line for each header,
and an empty one. Nothing here says what the parser does.

What the parser does with it is `lines_text`: from a parser that is reset, it
takes the request to its last byte and none that is behind it, and what it has
filled in is what was written, with keys in lower case and the blanks before a
value gone.
-/

namespace GameFrame

open Buffer Feed

structure HeaderText where
  key : List UInt8
  value : List UInt8
  key_ne : key ≠ []
  key_ok : ∀ c ∈ key, c ≠ 58 ∧ c ≠ 13 ∧ c ≠ 10
  value_ok : ∀ c ∈ value, c ≠ 13 ∧ c ≠ 10

def HttpVersion.string : HttpVersion → List UInt8
  | .kHttp10 => ascii "HTTP/1.0"
  | .kHttp11 => ascii "HTTP/1.1"
  | .kUnknown => []

structure RequestText where
  method : HttpMethod
  path : List UInt8
  query : Option (List UInt8)
  version : HttpVersion
  headers : List HeaderText
  method_ok : method ≠ .kInvalid
  path_ne : path ≠ []
  path_ok : ∀ c ∈ path, c ≠ 32 ∧ c ≠ 63 ∧ c ≠ 13 ∧ c ≠ 10
  query_ok : ∀ q ∈ query, ∀ c ∈ q, c ≠ 32 ∧ c ≠ 13 ∧ c ≠ 10
  version_ok : version ≠ .kUnknown

def HeaderText.line (h : HeaderText) : List UInt8 := h.key ++ 58 :: h.value

namespace RequestText

def uri (t : RequestText) : List UInt8 :=
  match t.query with
  | none => t.path
  | some q => t.path ++ 63 :: q

def requestLine (t : RequestText) : List UInt8 :=
  t.method.string ++ 32 :: (t.uri ++ 32 :: t.version.string)

/-- The headers, and the empty line behind them. -/
def headerLines (hs : List HeaderText) : List UInt8 :=
  hs.flatMap (fun h => h.line ++ [13, 10]) ++ [13, 10]

def bytes (t : RequestText) : List UInt8 :=
  t.requestLine ++ 13 :: 10 :: headerLines t.headers

/-- The entries of the headers, of which a later one takes the place of an
earlier one with the same key. -/
def entries (hs : Headers) (h : HeaderText) : Headers :=
  hs.assign (h.key.map toLower) (h.value.dropWhile (· == 32))

/-- The request that is written there. -/
def request (t : RequestText) : HttpRequest where
  method := t.method
  version := t.version
  path := t.path
  query := t.query.getD []
  headers := t.headers.foldl entries []

end RequestText

/-! ## Where a byte is found -/

theorem findByte_first {a : List UInt8} {c : UInt8} (ha : c ∉ a)
    (b : List UInt8) : findByte (a ++ c :: b) c 0 = some a.length := by
  have hnone : a.findIdx? (· == c) = none := by
    rw [List.findIdx?_eq_none_iff]
    intro x hx
    simpa using fun heq : x = c => ha (heq ▸ hx)
  rw [findByte, List.drop_zero, List.findIdx?_append, hnone,
    List.findIdx?_cons]
  simp

theorem findByte_none {l : List UInt8} {c : UInt8} (h : c ∉ l) :
    findByte l c 0 = none := by
  have hnone : l.findIdx? (· == c) = none := by
    rw [List.findIdx?_eq_none_iff]
    intro x hx
    simpa using fun heq : x = c => h (heq ▸ hx)
  rw [findByte, List.drop_zero, hnone]
  rfl

/-- The search begins behind a part of the line. -/
theorem findByte_behind {x l : List UInt8} {c : UInt8} {i : Nat}
    (h : findByte l c 0 = some i) :
    findByte (x ++ l) c x.length = some (i + x.length) := by
  rw [findByte, List.drop_zero] at h
  rw [findByte, List.drop_left]
  obtain ⟨j, hj, rfl⟩ := Option.map_eq_some_iff.mp h
  rw [hj]
  rfl

/-! ## The lines of a request -/

theorem string_clear (m : HttpMethod) : 32 ∉ m.string ∧ 13 ∉ m.string := by
  cases m <;> decide

theorem setMethod_string (req : HttpRequest) (m : HttpMethod) :
    req.setMethod m.string = { req with method := m } := by
  cases m <;> rfl

namespace RequestText

variable (t : RequestText)

theorem uri_clear : ∀ c ∈ t.uri, c ≠ 32 ∧ c ≠ 13 := by
  intro c hc
  rw [uri] at hc
  split at hc
  · have h := t.path_ok c hc
    exact ⟨h.1, h.2.2.1⟩
  · next q hq =>
      rcases List.mem_append.mp hc with hc | hc
      · have h := t.path_ok c hc
        exact ⟨h.1, h.2.2.1⟩
      · rcases List.mem_cons.mp hc with rfl | hc
        · decide
        · have h := t.query_ok q hq c hc
          exact ⟨h.1, h.2.1⟩

theorem setUri_uri (req : HttpRequest) (hquery : req.query = []) :
    HttpContext.setUri req t.uri =
      { req with path := t.path, query := t.query.getD [] } := by
  have hclear : 63 ∉ t.path := fun h => (t.path_ok 63 h).2.1 rfl
  rw [HttpContext.setUri, uri]
  cases t.query with
  | none =>
      dsimp only
      rw [findByte_none hclear]
      simp [hquery]
  | some q =>
      dsimp only
      rw [findByte_first hclear]
      simp

theorem version_line : t.version.string = ascii "HTTP/1.1" ∧
      t.version = .kHttp11 ∨
    t.version.string ≠ ascii "HTTP/1.1" ∧
      t.version.string = ascii "HTTP/1.0" ∧ t.version = .kHttp10 := by
  cases h : t.version with
  | kUnknown => exact absurd h t.version_ok
  | kHttp10 => exact .inr ⟨by decide, rfl, rfl⟩
  | kHttp11 => exact .inl ⟨rfl, rfl⟩

theorem bytes_ne : t.bytes ≠ [] := by
  rw [bytes]
  simp

/-- The first line, for a parser that is reset. -/
theorem line_requestLine :
    ({} : HttpContext).line t.requestLine =
      (true, ⟨.kExpectHeaders, { t.request with headers := [] }⟩) := by
  have hspace : 32 ∉ t.uri := fun h => (t.uri_clear 32 h).1 rfl
  have hsp1 := findByte_first (string_clear t.method).1
    (t.uri ++ 32 :: t.version.string)
  have hsp2 : findByte t.requestLine 32 (t.method.string.length + 1) =
      some (t.uri.length + (t.method.string.length + 1)) := by
    have h := findByte_behind (x := t.method.string ++ [32])
      (findByte_first hspace t.version.string)
    rw [List.append_assoc, List.length_append] at h
    exact h
  have hmethod : t.requestLine.take t.method.string.length =
      t.method.string := List.take_left
  have hbehind : t.requestLine.drop (t.method.string.length + 1) =
      t.uri ++ 32 :: t.version.string := by
    rw [requestLine, ← List.drop_drop, List.drop_left]
    rfl
  have huri : (t.requestLine.drop (t.method.string.length + 1)).take
      (t.uri.length + (t.method.string.length + 1) -
        t.method.string.length - 1) = t.uri := by
    rw [hbehind, show t.uri.length + (t.method.string.length + 1) -
      t.method.string.length - 1 = t.uri.length by omega, List.take_left]
  have hversion : t.requestLine.drop
      (t.uri.length + (t.method.string.length + 1) + 1) =
        t.version.string := by
    rw [show t.uri.length + (t.method.string.length + 1) + 1 =
      t.method.string.length + 1 + (t.uri.length + 1) by omega,
      ← List.drop_drop, hbehind, ← List.drop_drop, List.drop_left]
    rfl
  rw [HttpContext.line_request rfl, HttpContext.parseRequestLine]
  rw [show findByte t.requestLine 32 0 = some t.method.string.length from hsp1]
  simp only [hmethod, setMethod_string, if_neg t.method_ok, hsp2, huri,
    hversion, setUri_uri]
  rcases t.version_line with ⟨h11, hv⟩ | ⟨hne, h10, hv⟩
  · rw [if_pos h11]
    simp [request, hv]
  · rw [if_neg hne, if_pos h10]
    simp [request, hv]

theorem requestLine_clear : 13 ∉ t.requestLine := by
  have hversion : 13 ∉ t.version.string := by
    cases t.version <;> decide
  rw [requestLine, List.mem_append, List.mem_cons, List.mem_append,
    List.mem_cons]
  rintro (h | h | h | h | h)
  · exact (string_clear t.method).2 h
  · cases h
  · exact (t.uri_clear 13 h).2 rfl
  · cases h
  · exact hversion h

end RequestText

namespace HeaderText

theorem line_clear (h : HeaderText) : 13 ∉ h.line := by
  rw [line, List.mem_append, List.mem_cons]
  rintro (hc | hc | hc)
  · exact (h.key_ok 13 hc).2.1 rfl
  · cases hc
  · exact (h.value_ok 13 hc).1 rfl

theorem line_ne (h : HeaderText) : h.line ≠ [] := by
  rw [line]
  simp

/-- A header, for a parser that is behind the first line. -/
theorem line_line (h : HeaderText) (req : HttpRequest) :
    (⟨.kExpectHeaders, req⟩ : HttpContext).line h.line =
      (true, ⟨.kExpectHeaders,
        { req with headers := RequestText.entries req.headers h }⟩) := by
  have hcolon : findByte h.line 58 0 = some h.key.length :=
    findByte_first (fun hc => (h.key_ok 58 hc).1 rfl) h.value
  have hkey : h.line.take h.key.length = h.key := List.take_left
  have hvalue : h.line.drop (h.key.length + 1) = h.value := by
    rw [line, ← List.drop_drop, List.drop_left]
    rfl
  rw [HttpContext.line_header rfl h.line_ne, HttpContext.parseHeader, hcolon]
  simp only [hkey, hvalue]
  rfl

end HeaderText

namespace HttpContext

/-- A line, and its end. -/
theorem lines_line {ctx ctx' : HttpContext} {l : List UInt8}
    (hgot : ctx.gotAll = false) (hl : 13 ∉ l)
    (h : ctx.line l = (true, ctx')) (u : List UInt8) :
    lines (ctx, l ++ 13 :: 10 :: u) = lines (ctx', u) := by
  have hi := searchCrlf_line hl u
  have htake : (l ++ 13 :: 10 :: u).take l.length = l := List.take_left
  have hdrop : (l ++ 13 :: 10 :: u).drop (l.length + 2) = u := by
    rw [← List.drop_drop, List.drop_left]
    rfl
  rw [lines_good hgot hi (by rw [htake]; exact h), hdrop]

theorem lines_headers (hs : List HeaderText) (req : HttpRequest)
    (u : List UInt8) :
    lines (⟨.kExpectHeaders, req⟩, RequestText.headerLines hs ++ u) =
      ⟨true, [], (⟨.kGotAll, { req with
        headers := hs.foldl RequestText.entries req.headers }⟩, u)⟩ := by
  induction hs generalizing req with
  | nil =>
      have hempty : (⟨.kExpectHeaders, req⟩ : HttpContext).line [] =
          (true, ⟨.kGotAll, req⟩) := line_empty rfl
      have h := lines_line rfl List.not_mem_nil hempty u
      rw [List.nil_append] at h
      exact h.trans (lines_gotAll rfl)
  | cons h hs ih =>
      have hcons : RequestText.headerLines (h :: hs) ++ u =
          h.line ++ 13 :: 10 :: (RequestText.headerLines hs ++ u) := by
        rw [RequestText.headerLines, List.flatMap_cons]
        simp [RequestText.headerLines]
      rw [hcons, lines_line rfl h.line_clear (h.line_line req), ih]
      rfl

/-- A request, to its last byte and not beyond. -/
theorem lines_text (t : RequestText) (u : List UInt8) :
    lines ({}, t.bytes ++ u) = ⟨true, [], (⟨.kGotAll, t.request⟩, u)⟩ := by
  have hcons : t.bytes ++ u = t.requestLine ++
      13 :: 10 :: (RequestText.headerLines t.headers ++ u) := by
    rw [RequestText.bytes]
    simp
  rw [hcons, lines_line rfl t.requestLine_clear t.line_requestLine,
    lines_headers]
  rfl

/-- A part of a request, which is not all of it. -/
theorem lines_part {t : RequestText} {p q : List UInt8}
    (h : t.bytes = p ++ q) (hq : q ≠ []) :
    (lines ({}, p)).ok = true ∧ (lines ({}, p)).rest.1.gotAll = false := by
  have hwhole : lines (push ({}, p) q) =
      ⟨true, [], (⟨.kGotAll, t.request⟩, [])⟩ := by
    rw [push, ← h, ← List.append_nil t.bytes]
    exact lines_text t []
  have hok : (lines ({}, p)).ok = true := by
    cases hok : (lines ({}, p)).ok with
    | true => rfl
    | false =>
        have hbad := lines_resumable.refuse ({}, p) q hok
        rw [hwhole] at hbad
        have := congrArg Outcome.ok hbad
        exact absurd this (by simp [hok])
  refine ⟨hok, ?_⟩
  cases hgot : (lines ({}, p)).rest.1.gotAll with
  | false => rfl
  | true =>
      -- What is behind a request that is complete is left where it is.
      have hall := lines_resumable.resume ({}, p) q hok
      rw [hwhole, lines_gotAll (by exact hgot)] at hall
      have hnil := congrArg (fun o => o.rest.2) hall
      have : (lines ({}, p)).rest.2 ++ q = [] := hnil.symm
      exact absurd (List.append_eq_nil_iff.mp this).2 hq

end HttpContext

end GameFrame
