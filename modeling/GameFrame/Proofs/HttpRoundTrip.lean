import GameFrame.Proofs.HttpText

/-!
# Requests, written and parsed

The way a client writes a request: one space between the parts of the first
line, a colon and a space between a key and its value, and no key twice,
whichever way it is spelt (`PlainRequest`). Such a request is one of those that
`lines_text` is about, and as no header takes the place of another, nothing of
it is lost. So a parser that is new or reset gives back what was written, with
its keys in lower case, and leaves what is behind it in the buffer
(`parse_render`).
-/

namespace GameFrame

structure PlainHeader where
  key : List UInt8
  value : List UInt8
  key_ne : key ≠ []
  key_ok : ∀ c ∈ key, c ≠ 58 ∧ c ≠ 13 ∧ c ≠ 10
  value_ok : ∀ c ∈ value, c ≠ 13 ∧ c ≠ 10
  value_start : value.head? ≠ some 32

/-- The key a header is stored under. -/
def PlainHeader.stored (h : PlainHeader) : List UInt8 := h.key.map toLower

structure PlainRequest where
  method : HttpMethod
  path : List UInt8
  query : Option (List UInt8)
  version : HttpVersion
  headers : List PlainHeader
  method_ok : method ≠ .kInvalid
  path_ne : path ≠ []
  path_ok : ∀ c ∈ path, c ≠ 32 ∧ c ≠ 63 ∧ c ≠ 13 ∧ c ≠ 10
  query_ok : ∀ q ∈ query, ∀ c ∈ q, c ≠ 32 ∧ c ≠ 13 ∧ c ≠ 10
  version_ok : version ≠ .kUnknown
  distinct : (headers.map PlainHeader.stored).Nodup

namespace PlainRequest

def crlf : List UInt8 := ascii "\r\n"

def target (t : PlainRequest) : List UInt8 :=
  match t.query with
  | none => t.path
  | some q => t.path ++ ascii "?" ++ q

def render (t : PlainRequest) : List UInt8 :=
  t.method.string ++ ascii " " ++ t.target ++ ascii " " ++ t.version.string ++
    crlf ++
    t.headers.flatMap (fun h => h.key ++ ascii ": " ++ h.value ++ crlf) ++ crlf

/-- What there is to recover. -/
def request (t : PlainRequest) : HttpRequest where
  method := t.method
  version := t.version
  path := t.path
  query := t.query.getD []
  headers := t.headers.map fun h => (h.stored, h.value)

end PlainRequest

/-! ## The text of it -/

/-- The space belongs to the value, as far as the parser is concerned. -/
def PlainHeader.text (h : PlainHeader) : HeaderText where
  key := h.key
  value := 32 :: h.value
  key_ne := h.key_ne
  key_ok := h.key_ok
  value_ok := by
    rintro c (_ | ⟨_, hc⟩)
    · decide
    · exact h.value_ok c hc

namespace PlainRequest

def text (t : PlainRequest) : RequestText where
  method := t.method
  path := t.path
  query := t.query
  version := t.version
  headers := t.headers.map PlainHeader.text
  method_ok := t.method_ok
  path_ne := t.path_ne
  path_ok := t.path_ok
  query_ok := t.query_ok
  version_ok := t.version_ok

theorem render_eq (t : PlainRequest) : t.render = t.text.bytes := by
  have hcrlf : crlf = [13, 10] := rfl
  have hspace : ascii " " = [32] := rfl
  have htarget : t.target = t.text.uri := by
    rw [target, RequestText.uri]
    cases hq : t.query with
    | none => simp [text, hq]
    | some q => simp [text, hq, show ascii "?" = [63] from rfl]
  have hheaders : RequestText.headerLines t.text.headers =
      t.headers.flatMap (fun h => h.key ++ ascii ": " ++ h.value ++ crlf) ++
        crlf := by
    rw [RequestText.headerLines, text, List.flatMap_map]
    simp [HeaderText.line, PlainHeader.text, hcrlf,
      show ascii ": " = [58, 32] from rfl]
  rw [RequestText.bytes, hheaders, RequestText.requestLine, ← htarget, render]
  simp [text, hcrlf, hspace]

/-! ## The headers of it -/

theorem assign_new {hs : Headers} {key : List UInt8}
    (h : ∀ e ∈ hs, e.1 ≠ key) (value : List UInt8) :
    hs.assign key value = hs ++ [(key, value)] := by
  induction hs with
  | nil => rfl
  | cons e hs ih =>
      obtain ⟨k, v⟩ := e
      rw [Headers.assign, if_neg (h (k, v) List.mem_cons_self),
        ih fun e he => h e (List.mem_cons_of_mem _ he)]
      rfl

/-- A header with its space is stored without. -/
theorem entries_text (hs : Headers) (h : PlainHeader) :
    RequestText.entries hs h.text = hs.assign h.stored h.value := by
  have hvalue : (32 :: h.value).dropWhile (· == 32) = h.value := by
    rw [List.dropWhile_cons_of_pos rfl]
    cases hv : h.value with
    | nil => rfl
    | cons c v =>
        have hc : c ≠ 32 := by
          have := h.value_start
          rw [hv] at this
          simpa using this
        rw [List.dropWhile_cons_of_neg (by simpa using hc)]
  rw [RequestText.entries]
  exact congrArg (Headers.assign _ · hs) hvalue

theorem foldl_entries (hs : List PlainHeader) :
    ∀ stored : Headers, (hs.map PlainHeader.stored).Nodup →
      (∀ e ∈ stored, ∀ h ∈ hs, e.1 ≠ h.stored) →
      (hs.map PlainHeader.text).foldl RequestText.entries stored =
        stored ++ hs.map fun h => (h.stored, h.value) := by
  induction hs with
  | nil =>
      intro stored _ _
      exact (List.append_nil _).symm
  | cons h hs ih =>
      intro stored hnodup hnew
      rw [List.map_cons, List.nodup_cons] at hnodup
      rw [List.map_cons, List.foldl_cons, entries_text,
        assign_new fun e he => hnew e he h List.mem_cons_self,
        ih _ hnodup.2, List.append_assoc]
      · rfl
      · intro e he h' hh'
        rcases List.mem_append.mp he with he | he
        · exact hnew e he h' (List.mem_cons_of_mem _ hh')
        · obtain rfl := List.mem_singleton.mp he
          intro heq
          refine hnodup.1 ?_
          rw [show h.stored = h'.stored from heq]
          exact List.mem_map_of_mem hh'

theorem text_request (t : PlainRequest) : t.text.request = t.request := by
  have hheaders := foldl_entries t.headers [] t.distinct nofun
  rw [List.nil_append] at hheaders
  rw [RequestText.request, request, ← hheaders]
  rfl

/-- A header is found under its key in lower case. -/
theorem getHeader_request (t : PlainRequest) {h : PlainHeader}
    (hmem : h ∈ t.headers) : t.request.getHeader h.stored = h.value := by
  have hfind : ∀ hs : List PlainHeader, (hs.map PlainHeader.stored).Nodup →
      h ∈ hs → Headers.lookup h.stored
        (hs.map fun h => (h.stored, h.value)) = some h.value := by
    intro hs
    induction hs with
    | nil => nofun
    | cons h' hs ih =>
        intro hnodup hin
        rw [List.map_cons, List.nodup_cons] at hnodup
        rw [Headers.lookup, List.map_cons, List.find?_cons]
        rcases List.mem_cons.mp hin with rfl | hin
        · simp
        · have hne : h'.stored ≠ h.stored := by
            intro heq
            refine hnodup.1 ?_
            rw [heq]
            exact List.mem_map_of_mem hin
          rw [decide_eq_false hne]
          exact ih hnodup.2 hin
  rw [HttpRequest.getHeader, request, hfind t.headers t.distinct hmem]
  rfl

/-! ## There and back -/

/-- A parser that is new, or has been reset, recovers a request from its text
and leaves what is behind it. -/
theorem parse_render (t : PlainRequest) {ctx : HttpContext}
    (hctx : ctx = {} ∨ ∃ old : HttpContext, ctx = old.reset) {buf : Buffer}
    {u : List UInt8} (hbuf : buf.readable = t.render ++ u) :
    ∃ ctx' b, ctx.parse buf = (true, ctx', b) ∧ ctx'.gotAll = true ∧
      ctx'.request = t.request ∧
      (∀ h ∈ t.headers, ctx'.request.getHeader h.stored = h.value) ∧
      b.readable = u := by
  obtain rfl : ctx = {} := by
    rcases hctx with rfl | ⟨old, rfl⟩
    · rfl
    · rfl
  obtain ⟨b, hparse, hrest⟩ := HttpContext.parse_eq_lines {} buf
  rw [hbuf, render_eq, HttpContext.lines_text, text_request] at hparse hrest
  exact ⟨_, b, hparse, rfl, rfl, fun h hh => t.getHeader_request hh, hrest⟩

/-- A query with separators in it, and a key and a value that look alike. -/
def search : PlainRequest where
  method := .kHead
  path := ascii "/a"
  query := some (ascii "b?c=/")
  version := .kHttp10
  headers :=
    [⟨ascii "X-Y Z", ascii "a: b ", by decide, by decide +kernel,
        by decide +kernel, by decide⟩,
      ⟨ascii "x-y", [], by decide, by decide +kernel, by decide +kernel,
        by decide⟩]
  method_ok := by decide
  path_ne := by decide
  path_ok := by decide +kernel
  query_ok := by decide +kernel
  version_ok := by decide
  distinct := by decide

/-- It is parsed by a parser that has had another request, with the beginning
of the next behind it. -/
theorem parse_render_reset :
    ∃ ctx' b, (HttpContext.reset ⟨.kGotAll, { path := [47] }⟩).parse
        (Buffer.new.append (search.render ++ [71])) = (true, ctx', b) ∧
      ctx'.gotAll = true ∧ ctx'.request = search.request ∧
      (∀ h ∈ search.headers, ctx'.request.getHeader h.stored = h.value) ∧
      b.readable = [71] :=
  search.parse_render (.inr ⟨_, rfl⟩)
    (by rw [Buffer.readable_append, Buffer.readable_new, List.nil_append])

end PlainRequest

end GameFrame
