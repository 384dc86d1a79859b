import GameFrame.Proofs.HttpText

/-!
# The spellings of a `Connection` header

Names and tokens are read in any letter case, and blanks around a value do not
belong to it: that is how a `Connection` header may be written (`Spelling`).
The name is folded when a header is stored, spaces in front of the value are
skipped when it is parsed, and nothing is done about the rest of it. So
`keep_alive` finds the value as it was written but for these spaces
(`getHeader_spelt`), and compares it with a token in lower case. Whether that
comes out right depends on the spelling, unless the version says the same
without the header (`understood_iff`).
-/

namespace GameFrame

/-! ## Headers by their keys -/

theorem lookup_assign (key k v : List UInt8) (hs : Headers) :
    (hs.assign k v).lookup key = if k = key then some v else hs.lookup key := by
  induction hs with
  | nil =>
      rw [Headers.assign, Headers.lookup, List.find?_cons]
      by_cases h : k = key
      · simp [h]
      · simp [h, Headers.lookup]
  | cons e hs ih =>
      obtain ⟨k', v'⟩ := e
      rw [Headers.assign]
      by_cases hsame : k' = k
      · subst hsame
        rw [if_pos rfl, Headers.lookup, List.find?_cons]
        by_cases h : k' = key
        · simp [h]
        · simp [h, Headers.lookup]
      · rw [if_neg hsame, Headers.lookup, List.find?_cons]
        by_cases h : k' = key
        · have hne : k ≠ key := fun heq => hsame (h.trans heq.symm)
          simp [h, hne, Headers.lookup]
        · rw [decide_eq_false h, Headers.lookup, List.find?_cons,
            decide_eq_false h]
          exact ih

/-- Headers with other names do not touch an entry. -/
theorem lookup_foldl {key : List UInt8} {hs : List HeaderText}
    (h : ∀ e ∈ hs, e.key.map toLower ≠ key) (stored : Headers) :
    (hs.foldl RequestText.entries stored).lookup key = stored.lookup key := by
  induction hs generalizing stored with
  | nil => rfl
  | cons e hs ih =>
      rw [List.foldl_cons, ih fun e he => h e (List.mem_cons_of_mem _ he),
        RequestText.entries, lookup_assign, if_neg (h e List.mem_cons_self)]

/-! ## Spellings -/

def connectionKey : List UInt8 := ascii "connection"

/-- The token that is meant, in lower case. -/
def meant (close : Bool) : List UInt8 :=
  if close then ascii "close" else ascii "keep-alive"

/-- One way of writing the header, with blanks on both sides of the token. -/
structure Spelling where
  close : Bool
  name : List UInt8
  lead : List UInt8
  token : List UInt8
  trail : List UInt8
  name_ok : name.map toLower = connectionKey
  lead_ok : ∀ c ∈ lead, c = 32 ∨ c = 9
  token_ok : token.map toLower = meant close
  trail_ok : ∀ c ∈ trail, c = 32 ∨ c = 9

namespace Spelling

/-- A byte of a word that is folded to letters and hyphens. -/
theorem folded_clear {word folded : List UInt8} (h : word.map toLower = folded)
    {c : UInt8} (hc : toLower c = c) (hfolded : c ∉ folded) : c ∉ word := by
  intro hmem
  apply hfolded
  rw [← h, ← hc]
  exact List.mem_map_of_mem hmem

theorem meant_clear (close : Bool) : ∀ c ∈ meant close,
    c ≠ 32 ∧ c ≠ 9 ∧ c ≠ 13 ∧ c ≠ 10 := by
  cases close with
  | true => decide +kernel
  | false => decide +kernel

variable (s : Spelling)

theorem token_clear {c : UInt8} (hc : c = 32 ∨ c = 9 ∨ c = 13 ∨ c = 10) :
    c ∉ s.token := by
  have hfold : toLower c = c := by
    rcases hc with rfl | rfl | rfl | rfl <;> decide
  refine folded_clear s.token_ok hfold fun hmem => ?_
  obtain ⟨h32, h9, h13, h10⟩ := meant_clear s.close c hmem
  rcases hc with rfl | rfl | rfl | rfl
  · exact h32 rfl
  · exact h9 rfl
  · exact h13 rfl
  · exact h10 rfl

theorem token_length : s.token.length = (meant s.close).length := by
  rw [← s.token_ok, List.length_map]

theorem token_ne : s.token ≠ [] := by
  intro h
  have hlen := s.token_length
  rw [h] at hlen
  cases hclose : s.close with
  | true => simp [hclose, meant, ascii] at hlen
  | false => simp [hclose, meant, ascii] at hlen

/-- The header as it stands in the request. -/
def header : HeaderText where
  key := s.name
  value := s.lead ++ s.token ++ s.trail
  key_ne := by
    intro h
    have hname := s.name_ok
    rw [h] at hname
    exact absurd hname (by decide)
  key_ok := by
    intro c hc
    refine ⟨?_, ?_, ?_⟩
    · rintro rfl
      exact folded_clear s.name_ok (by decide) (by decide) hc
    · rintro rfl
      exact folded_clear s.name_ok (by decide) (by decide) hc
    · rintro rfl
      exact folded_clear s.name_ok (by decide) (by decide) hc
  value_ok := by
    have hblank : ∀ {c : UInt8}, c = 32 ∨ c = 9 → c ≠ 13 ∧ c ≠ 10 := by
      rintro c (rfl | rfl) <;> decide
    intro c hc
    rcases List.mem_append.mp hc with hc | hc
    · rcases List.mem_append.mp hc with hc | hc
      · exact hblank (s.lead_ok c hc)
      · constructor
        · rintro rfl
          exact s.token_clear (.inr (.inr (.inl rfl))) hc
        · rintro rfl
          exact s.token_clear (.inr (.inr (.inr rfl))) hc
    · exact hblank (s.trail_ok c hc)

/-- What the parser makes of the value. -/
def stored : List UInt8 := (s.lead ++ s.token ++ s.trail).dropWhile (· == 32)

/-- Spaces only in front of the token, the token in lower case, and nothing
behind it. -/
structure Plain : Prop where
  lead : ∀ c ∈ s.lead, c = 32
  token : s.token = meant s.close
  trail : s.trail = []

/-- Spaces are skipped, up to a tab or the token. -/
theorem dropWhile_blanks {lead : List UInt8} (hlead : ∀ c ∈ lead, c = 32 ∨ c = 9)
    {x w : List UInt8} (hx : x.head? ≠ some 32) (hw : w.head? ≠ some 9) :
    (lead ++ x).dropWhile (· == 32) = w ↔ (∀ c ∈ lead, c = 32) ∧ x = w := by
  induction lead with
  | nil =>
      have hstop : x.dropWhile (· == 32) = x := by
        cases x with
        | nil => rfl
        | cons c x =>
            have hc : c ≠ 32 := by simpa using hx
            rw [List.dropWhile_cons_of_neg (by simpa using hc)]
      rw [List.nil_append, hstop]
      simp
  | cons c lead ih =>
      have ih := ih fun d hd => hlead d (List.mem_cons_of_mem _ hd)
      rcases hlead c List.mem_cons_self with rfl | rfl
      · rw [List.cons_append, List.dropWhile_cons_of_pos (by decide), ih]
        simp
      · rw [List.cons_append, List.dropWhile_cons_of_neg (by decide)]
        refine iff_of_false ?_ ?_
        · rintro rfl
          exact hw rfl
        · intro h
          exact absurd (h.1 9 List.mem_cons_self) (by decide)

theorem head_token_trail {c : UInt8} (hc : c = 32 ∨ c = 9) :
    (s.token ++ s.trail).head? ≠ some c := by
  cases htoken : s.token with
  | nil => exact absurd htoken s.token_ne
  | cons d token =>
      intro h
      obtain rfl : d = c := by simpa using h
      have hclear := s.token_clear (c := d) (by
        rcases hc with hc | hc
        · exact .inl hc
        · exact .inr (.inl hc))
      rw [htoken] at hclear
      exact hclear List.mem_cons_self

/-- The value is the token that is meant if and only if it is written
plainly. -/
theorem stored_meant : s.stored = meant s.close ↔ s.Plain := by
  have hw : (meant s.close).head? ≠ some 9 := by
    cases s.close with
    | true => decide
    | false => decide
  rw [stored, List.append_assoc,
    dropWhile_blanks s.lead_ok (s.head_token_trail (.inl rfl)) hw]
  constructor
  · rintro ⟨hlead, h⟩
    have hlen := congrArg List.length h
    rw [List.length_append, s.token_length] at hlen
    have htrail : s.trail = [] := by
      rw [← List.length_eq_zero_iff]
      omega
    rw [htrail, List.append_nil] at h
    exact ⟨hlead, h, htrail⟩
  · rintro ⟨hlead, htoken, htrail⟩
    rw [htoken, htrail, List.append_nil]
    exact ⟨hlead, rfl⟩

/-- It is never the other one. -/
theorem stored_other : s.stored ≠ meant (!s.close) := by
  have hw : (meant (!s.close)).head? ≠ some 9 := by
    cases s.close with
    | true => decide
    | false => decide
  rw [stored, List.append_assoc, Ne,
    dropWhile_blanks s.lead_ok (s.head_token_trail (.inl rfl)) hw]
  rintro ⟨-, h⟩
  -- The tokens begin with different letters, in either case.
  have hfold := congrArg (fun w => (w.map toLower).head?) h
  simp only [List.map_append, s.token_ok] at hfold
  revert hfold
  cases s.close with
  | true => simp [meant, ascii, toLower]
  | false => simp [meant, ascii, toLower]

end Spelling

/-! ## Requests with such a header -/

/-- A request with one `Connection` header, whichever way it is written, and
others around it. -/
structure SpeltRequest where
  text : RequestText
  before : List HeaderText
  spelling : Spelling
  after : List HeaderText
  headers : text.headers = before ++ spelling.header :: after
  others : ∀ h ∈ before ++ after, h.key.map toLower ≠ connectionKey

namespace SpeltRequest

variable (t : SpeltRequest)

/-- A parser that is new or reset takes the request, and what it has parsed
says what is meant. -/
def Understood : Prop :=
  ∀ (ctx : HttpContext) (buf : Buffer) (u : List UInt8),
    (ctx = {} ∨ ∃ old : HttpContext, ctx = old.reset) →
    buf.readable = t.text.bytes ++ u →
    ∃ ctx' b, ctx.parse buf = (true, ctx', b) ∧ ctx'.gotAll = true ∧
      ctx'.request.keepAlive = !t.spelling.close

theorem getHeader_spelt :
    t.text.request.getHeader connectionKey = t.spelling.stored := by
  have hkey : t.spelling.header.key.map toLower = connectionKey :=
    t.spelling.name_ok
  have hafter : ∀ h ∈ t.after, h.key.map toLower ≠ connectionKey :=
    fun h hh => t.others h (List.mem_append_right _ hh)
  rw [HttpRequest.getHeader, RequestText.request, t.headers,
    List.foldl_append, List.foldl_cons]
  dsimp only
  rw [lookup_foldl hafter, RequestText.entries, lookup_assign, if_pos hkey]
  rfl

theorem version_cases :
    t.text.version = .kHttp11 ∨ t.text.version = .kHttp10 := by
  cases h : t.text.version with
  | kUnknown => exact absurd h t.text.version_ok
  | kHttp10 => exact .inr rfl
  | kHttp11 => exact .inl rfl

/-- The version says the same as the header, or the header is written as
`keep_alive` expects it. -/
def Answered : Prop :=
  (t.text.version = .kHttp11 ∧ t.spelling.close = false) ∨
    (t.text.version = .kHttp10 ∧ t.spelling.close = true) ∨
    t.spelling.Plain

theorem keepAlive_iff :
    t.text.request.keepAlive = (!t.spelling.close) ↔ t.Answered := by
  have hmeant := t.spelling.stored_meant
  have hother := t.spelling.stored_other
  have hget : t.text.request.getHeader (ascii "connection") =
    t.spelling.stored := t.getHeader_spelt
  have hversion : t.text.request.version = t.text.version := rfl
  rw [HttpRequest.keepAlive, hget, hversion, Answered, ← hmeant]
  rcases t.version_cases with h11 | h10
  · rw [h11]
    cases hclose : t.spelling.close with
    | true =>
        rw [if_pos rfl, show ascii "close" = meant true from rfl]
        simp
    | false =>
        rw [hclose] at hother
        have hne : t.spelling.stored ≠ ascii "close" := hother
        rw [if_pos rfl]
        simp [hne]
  · rw [h10]
    cases hclose : t.spelling.close with
    | true =>
        rw [hclose] at hother
        have hne : t.spelling.stored ≠ ascii "keep-alive" := hother
        rw [if_neg (by decide)]
        simp [hne]
    | false =>
        rw [if_neg (by decide), show ascii "keep-alive" = meant false from rfl]
        simp

/-- What is parsed is what was written. -/
theorem understood_keepAlive :
    t.Understood ↔ t.text.request.keepAlive = !t.spelling.close := by
  constructor
  · intro h
    obtain ⟨ctx, b, hparse, -, hkeep⟩ := h {}
      (Buffer.new.append t.text.bytes) [] (.inl rfl) (by simp)
    obtain ⟨b', hlines, -⟩ :=
      HttpContext.parse_eq_lines {} (Buffer.new.append t.text.bytes)
    have hread : (Buffer.new.append t.text.bytes).readable =
        t.text.bytes ++ [] := by simp
    rw [hread, HttpContext.lines_text, hparse] at hlines
    cases hlines
    exact hkeep
  · intro h ctx buf u hctx hbuf
    obtain rfl : ctx = {} := by
      rcases hctx with rfl | ⟨old, rfl⟩
      · rfl
      · rfl
    obtain ⟨b, hlines, -⟩ := HttpContext.parse_eq_lines {} buf
    rw [hbuf, HttpContext.lines_text] at hlines
    exact ⟨_, b, hlines, rfl, h⟩

/-- The request with one header, which has a capital letter. -/
def capital (text : RequestText) : SpeltRequest where
  text := { text with headers := [⟨ascii "Connection", ascii " Close", by decide,
    by decide +kernel, by decide +kernel⟩] }
  before := []
  spelling :=
    { close := true
      name := ascii "Connection"
      lead := [32]
      token := ascii "Close"
      trail := []
      name_ok := by decide
      lead_ok := by decide +kernel
      token_ok := by decide
      trail_ok := by simp }
  after := []
  headers := rfl
  others := by simp

theorem capital_misread : ¬ ∀ t : SpeltRequest, t.Understood := by
  intro hall
  have hroot := hall (capital
    { method := .kGet
      path := [47]
      query := none
      version := .kHttp11
      headers := []
      method_ok := by decide
      path_ne := by decide
      path_ok := by decide +kernel
      query_ok := by simp
      version_ok := by decide })
  rcases (keepAlive_iff _).mp ((understood_keepAlive _).mp hroot) with
    ⟨-, h⟩ | ⟨h, -⟩ | h
  · cases h
  · cases h
  · exact absurd h.token (by decide)

/-- The answer is the one that is meant if and only if the version gives it
anyway or the header is written plainly. -/
theorem understood_iff (t : SpeltRequest) : t.Understood ↔ t.Answered :=
  (understood_keepAlive t).trans (keepAlive_iff t)

end SpeltRequest

end GameFrame
