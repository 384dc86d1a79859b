import GameFrame.Lib.Decimal
import GameFrame.Proofs.HttpClose
import GameFrame.Proofs.HttpLines

/-!
# Responses, read one behind the other

On a connection that is kept a reader has only the responses themselves to tell
where one ends: the lines up to an empty one, and as many bytes as the
`Content-Length` among them says (`readAll`). `serialize` writes a head of
whole lines (`serialize_lines`), and its own two headers are in it. Of what a
handler adds, the name may be anything, and one that is read as one of these
two makes a second of it. What a reader makes of two lengths is its own
business (`pick`); so the responses are told apart by every reader, with one
header of each, if and only if no handler's header has such a name
(`delimited_iff`).
-/

namespace GameFrame

namespace HttpReader

open Buffer (searchCrlf searchCrlf_line searchCrlf_lt)

/-- The lines in front of the first that is empty, and what is behind it. -/
def readHead (text : List UInt8) : Option (List (List UInt8) × List UInt8) :=
  match _h : searchCrlf text with
  | none => none
  | some i =>
      if i = 0 then some ([], text.drop 2)
      else
        (readHead (text.drop (i + 2))).map fun r => (text.take i :: r.1, r.2)
termination_by text.length
decreasing_by
  have := searchCrlf_lt _h
  rw [List.length_drop]
  omega

/-- The name of a header, in lower case. -/
def fieldName (line : List UInt8) : List UInt8 :=
  (line.takeWhile (· != 58)).map toLower

/-- Its value, without the blanks in front. -/
def fieldValue (line : List UInt8) : List UInt8 :=
  ((line.dropWhile (· != 58)).drop 1).dropWhile (· == 32)

def lengthName : List UInt8 := ascii "content-length"

def connectionName : List UInt8 := ascii "connection"

/-- The headers of a head that have that name. The first line is not one. -/
def fields (name : List UInt8) (head : List (List UInt8)) :
    List (List UInt8) :=
  head.tail.filter fun line => fieldName line = name

/-- A decimal number. -/
def number (digits : List UInt8) : Nat :=
  Decimal.value (digits.map fun c => Char.ofNat c.toNat)

/-- A head and its body. -/
abbrev Message := List (List UInt8) × List UInt8

/-- The first response of a text, and what is behind it. `pick` chooses among
the lengths of a head. -/
def readOne (pick : List (List UInt8) → Option (List UInt8))
    (text : List UInt8) : Option (Message × List UInt8) :=
  match readHead text with
  | none => none
  | some (head, rest) =>
      match pick ((fields lengthName head).map fieldValue) with
      | none => none
      | some v =>
          if number v ≤ rest.length then
            some ((head, rest.take (number v)), rest.drop (number v))
          else none

theorem readHead_lt {text rest : List UInt8} {head : List (List UInt8)}
    (h : readHead text = some (head, rest)) : rest.length < text.length := by
  induction text using readHead.induct generalizing head rest with
  | case1 text hnone =>
      rw [readHead] at h
      split at h
      · cases h
      · next i hi => cases hnone.symm.trans hi
  | case2 text hzero =>
      have hlen := searchCrlf_lt hzero
      rw [readHead] at h
      split at h
      · cases h
      · next i hi =>
          cases hzero.symm.trans hi
          cases h
          rw [List.length_drop]
          omega
  | case3 text i hi hne ih =>
      rw [readHead] at h
      split at h
      · cases h
      · next j hj =>
          cases hi.symm.trans hj
          rw [if_neg hne] at h
          obtain ⟨r, hr, heq⟩ := Option.map_eq_some_iff.mp h
          cases heq
          have hlt := ih hr
          rw [List.length_drop] at hlt
          omega

theorem readOne_lt {pick : List (List UInt8) → Option (List UInt8)}
    {text rest : List UInt8} {m : Message}
    (h : readOne pick text = some (m, rest)) : rest.length < text.length := by
  rw [readOne] at h
  split at h
  · cases h
  · next head behind hhead =>
      split at h
      · cases h
      · split at h
        · cases h
          have hlt := readHead_lt hhead
          rw [List.length_drop]
          omega
        · cases h

/-- All responses of a text. -/
def readAll (pick : List (List UInt8) → Option (List UInt8))
    (text : List UInt8) : Option (List Message) :=
  if text = [] then some []
  else
    match _h : readOne pick text with
    | none => none
    | some (m, rest) => (readAll pick rest).map (m :: ·)
termination_by text.length
decreasing_by exact readOne_lt _h

theorem readAll_cons {pick : List (List UInt8) → Option (List UInt8)}
    {text rest : List UInt8} {m : Message}
    (h : readOne pick text = some (m, rest)) :
    readAll pick text = (readAll pick rest).map (m :: ·) := by
  have hne : text ≠ [] := by
    rintro rfl
    exact absurd (readOne_lt h) (Nat.not_lt_zero _)
  rw [readAll, if_neg hne]
  split
  · next hnone => cases h.symm.trans hnone
  · next m' rest' hsome =>
      cases h.symm.trans hsome
      rfl

/-! ## Reading whole lines -/

theorem readHead_lines {ls : List (List UInt8)}
    (h : ∀ l ∈ ls, l ≠ [] ∧ 13 ∉ l) (rest : List UInt8) :
    readHead (ls.flatMap (· ++ [13, 10]) ++ 13 :: 10 :: rest) =
      some (ls, rest) := by
  induction ls with
  | nil =>
      have hzero : searchCrlf (13 :: 10 :: rest) = some 0 :=
        searchCrlf_line List.not_mem_nil rest
      rw [List.flatMap_nil, List.nil_append, readHead]
      split
      · next hnone => cases hzero.symm.trans hnone
      · next i hi =>
          cases hzero.symm.trans hi
          rfl
  | cons l ls ih =>
      obtain ⟨hne, hclear⟩ := h l List.mem_cons_self
      have ih := ih fun l hl => h l (List.mem_cons_of_mem _ hl)
      have htext : (l :: ls).flatMap (· ++ [13, 10]) ++ 13 :: 10 :: rest =
          l ++ 13 :: 10 :: (ls.flatMap (· ++ [13, 10]) ++ 13 :: 10 :: rest) := by
        simp
      have hfirst := searchCrlf_line hclear
        (ls.flatMap (· ++ [13, 10]) ++ 13 :: 10 :: rest)
      have hlen : l.length ≠ 0 := fun hzero => hne (List.length_eq_zero_iff.mp hzero)
      rw [htext, readHead]
      split
      · next hnone => cases hfirst.symm.trans hnone
      · next i hi =>
          cases hfirst.symm.trans hi
          rw [if_neg hlen, ← List.drop_drop, List.drop_left, List.take_left]
          show Option.map _ (readHead
            (ls.flatMap (· ++ [13, 10]) ++ 13 :: 10 :: rest)) = _
          rw [ih]
          rfl

theorem fieldName_append {key : List UInt8} (h : 58 ∉ key)
    (rest : List UInt8) : fieldName (key ++ 58 :: rest) = key.map toLower := by
  have hall : ∀ c ∈ key, (c != 58) = true := by
    intro c hc
    simpa using fun heq : c = 58 => h (heq ▸ hc)
  rw [fieldName, List.takeWhile_append_of_pos hall,
    List.takeWhile_cons_of_neg (by simp), List.append_nil]

/-! ## A number of `to_string` -/

theorem number_toString (n : Nat) : number (ascii (toString n)) = n := by
  have hlist : (toString n).toList = Decimal.dec n := Nat.toList_repr
  have hback : ∀ c ∈ Decimal.dec n,
      Char.ofNat (UInt8.ofNat c.toNat).toNat = c := by
    intro c hc
    obtain ⟨-, hhigh⟩ := Char.isDigit_iff_toNat.mp (Decimal.isDigit_dec hc)
    have hhigh : c.toNat ≤ 57 := hhigh
    rw [UInt8.toNat_ofNat', Nat.mod_eq_of_lt (by omega)]
    exact Char.ofNat_toNat c
  rw [number, ascii, hlist, List.map_map]
  have hid : (Decimal.dec n).map ((fun c : UInt8 => Char.ofNat c.toNat) ∘
      fun c : Char => UInt8.ofNat c.toNat) = Decimal.dec n :=
    (List.map_congr_left hback).trans (List.map_id _)
  rw [hid, Decimal.value_dec]

end HttpReader

namespace HttpResponse

open HttpReader

/-! ## What is written -/

/-- Nothing that was set has an end of a line in it. -/
structure OneLined (resp : HttpResponse) : Prop where
  status : 13 ∉ resp.statusMessage ∧ 10 ∉ resp.statusMessage
  headers : ∀ h ∈ resp.headers,
    (13 ∉ h.1 ∧ 10 ∉ h.1) ∧ 13 ∉ h.2 ∧ 10 ∉ h.2

/-- The head, line by line. -/
def headLines (resp : HttpResponse) : List (List UInt8) :=
  resp.statusLine :: resp.connectionLine :: resp.lengthLine ::
    resp.headers.map fieldLine

theorem serialize_lines (resp : HttpResponse) :
    resp.serialize =
      resp.headLines.flatMap (· ++ [13, 10]) ++ 13 :: 10 :: resp.body := by
  rw [serialize_eq, headLines]
  simp [List.flatMap_map]

theorem headLines_clear {resp : HttpResponse} (h : resp.OneLined) :
    ∀ l ∈ resp.headLines, l ≠ [] ∧ 13 ∉ l := by
  intro l hl
  rw [headLines, List.mem_cons, List.mem_cons, List.mem_cons] at hl
  rcases hl with rfl | rfl | rfl | hl
  · refine ⟨by simp [statusLine, ascii], ?_⟩
    exact resp.statusLine_clear h.status.1
  · exact ⟨resp.connectionLine_ne_nil, resp.connectionLine_clear⟩
  · exact ⟨by simp [lengthLine, ascii], resp.lengthLine_clear⟩
  · obtain ⟨e, he, rfl⟩ := List.mem_map.mp hl
    refine ⟨by simp [fieldLine, ascii], ?_⟩
    exact fieldLine_clear (h.headers e he).1.1 (h.headers e he).2.1

/-! ## The two headers of its own -/

theorem fieldName_connectionLine (resp : HttpResponse) :
    fieldName resp.connectionLine = connectionName := by
  rw [connectionLine]
  split
  · decide
  · decide

theorem lengthLine_eq (resp : HttpResponse) :
    resp.lengthLine = ascii "Content-Length" ++
      58 :: 32 :: ascii (toString resp.body.length) := by
  have hname : ascii "Content-Length: " = ascii "Content-Length" ++ [58, 32] := by
    decide +kernel
  rw [lengthLine, hname, List.append_assoc]
  rfl

theorem fieldName_lengthLine (resp : HttpResponse) :
    fieldName resp.lengthLine = lengthName := by
  rw [lengthLine_eq, fieldName_append (by decide)]
  decide

theorem fieldValue_lengthLine (resp : HttpResponse) :
    fieldValue resp.lengthLine = ascii (toString resp.body.length) := by
  have hall : ∀ c ∈ ascii "Content-Length", (c != 58) = true := by
    decide +kernel
  have hdigits : (ascii (toString resp.body.length)).dropWhile (· == 32) =
      ascii (toString resp.body.length) := by
    cases hd : ascii (toString resp.body.length) with
    | nil => rfl
    | cons c cs =>
        have hrange := digits_range (by rw [hd]; exact List.mem_cons_self)
        have hne : ¬ (c == 32) = true := by
          intro heq
          rw [eq_of_beq heq] at hrange
          exact absurd hrange.1 (by decide)
        exact List.dropWhile_cons_of_neg hne
  rw [fieldValue, lengthLine_eq, List.dropWhile_append_of_pos hall,
    List.dropWhile_cons_of_neg (by decide), List.drop_one, List.tail_cons,
    List.dropWhile_cons_of_pos (by decide), hdigits]

/-- The name a header of the handler's own is read under: what is in front of
the first colon, if it has put one into the key. -/
def readName (key : List UInt8) : List UInt8 :=
  (key.takeWhile (· != 58)).map toLower

theorem fieldName_fieldLine (h : List UInt8 × List UInt8) :
    fieldName (fieldLine h) = readName h.1 := by
  have hline : fieldLine h = h.1 ++ 58 :: (32 :: h.2) := by
    simp [fieldLine, show ascii ": " = [58, 32] from rfl]
  have hstop : ∀ key more : List UInt8,
      (key ++ 58 :: more).takeWhile (· != 58) = key.takeWhile (· != 58) := by
    intro key more
    induction key with
    | nil => rfl
    | cons c key ih =>
        by_cases hc : c = 58
        · subst hc
          rfl
        · simp [hc, ih]
  rw [fieldName, hline, hstop, readName]

/-- No header of the handler's own is read as one of those two. -/
def Apart (resp : HttpResponse) : Prop :=
  ∀ h ∈ resp.headers,
    readName h.1 ≠ lengthName ∧ readName h.1 ≠ connectionName

instance (resp : HttpResponse) : Decidable resp.Apart :=
  inferInstanceAs (Decidable (∀ _ ∈ _, _ ∧ _))

theorem fields_headLines (resp : HttpResponse) (name : List UInt8) :
    fields name resp.headLines =
      (if connectionName = name then [resp.connectionLine] else []) ++
        ((if lengthName = name then [resp.lengthLine] else []) ++
          (resp.headers.filter fun h => readName h.1 = name).map fieldLine) := by
  have hown : (resp.headers.map fieldLine).filter
      (fun line => decide (fieldName line = name)) =
      (resp.headers.filter fun h => readName h.1 = name).map fieldLine := by
    rw [List.filter_map]
    congr 1
    refine List.filter_congr fun h _ => ?_
    simp [fieldName_fieldLine]
  rw [fields, headLines, List.tail_cons, List.filter_cons, List.filter_cons,
    hown, fieldName_connectionLine, fieldName_lengthLine]
  by_cases hc : connectionName = name
  · by_cases hl : lengthName = name
    · simp [hc, hl]
    · simp [hc, hl]
  · by_cases hl : lengthName = name
    · simp [hc, hl]
    · simp [hc, hl]

theorem fields_length (resp : HttpResponse) :
    fields lengthName resp.headLines =
      resp.lengthLine ::
        (resp.headers.filter fun h => readName h.1 = lengthName).map
          fieldLine := by
  rw [fields_headLines, if_neg (by decide), if_pos rfl]
  rfl

theorem fields_connection (resp : HttpResponse) :
    fields connectionName resp.headLines =
      resp.connectionLine ::
        (resp.headers.filter fun h => readName h.1 = connectionName).map
          fieldLine := by
  rw [fields_headLines, if_pos rfl, if_neg (by decide)]
  rfl

/-- One of each, if there is nothing else of that name. -/
theorem apart_iff (resp : HttpResponse) :
    resp.Apart ↔ (fields lengthName resp.headLines).length = 1 ∧
      (fields connectionName resp.headLines).length = 1 := by
  have hnone : ∀ name : List UInt8,
      (resp.headers.filter fun h => readName h.1 = name).length + 1 = 1 ↔
        ∀ h ∈ resp.headers, readName h.1 ≠ name := by
    intro name
    rw [Nat.add_eq_right, List.length_eq_zero_iff, List.filter_eq_nil_iff]
    simp
  rw [fields_length, fields_connection, List.length_cons, List.length_map,
    List.length_cons, List.length_map, hnone, hnone]
  exact ⟨fun h => ⟨fun e he => (h e he).1, fun e he => (h e he).2⟩,
    fun ⟨h₁, h₂⟩ e he => ⟨h₁ e he, h₂ e he⟩⟩

/-! ## What is read -/

/-- A reader that takes a length when there is only one takes this response,
and not a byte of the next. -/
theorem readOne_serialize {pick : List (List UInt8) → Option (List UInt8)}
    (hpick : ∀ v, pick [v] = some v) {resp : HttpResponse}
    (h : resp.OneLined) (hapart : resp.Apart) (more : List UInt8) :
    readOne pick (resp.serialize ++ more) =
      some ((resp.headLines, resp.body), more) := by
  have hhead : readHead (resp.serialize ++ more) =
      some (resp.headLines, resp.body ++ more) := by
    have hread := readHead_lines (headLines_clear h) (resp.body ++ more)
    rw [serialize_lines, List.append_assoc]
    exact hread
  have hlength : (fields lengthName resp.headLines).map fieldValue =
      [ascii (toString resp.body.length)] := by
    have hone := ((apart_iff resp).mp hapart).1
    rw [fields_length, List.length_cons, Nat.add_eq_right,
      List.length_eq_zero_iff] at hone
    rw [fields_length, hone, List.map_singleton, fieldValue_lengthLine]
  rw [readOne, hhead]
  dsimp only
  rw [hlength, hpick]
  dsimp only
  rw [number_toString, if_pos (by rw [List.length_append]; omega),
    List.take_left, List.drop_left]

/-- Every reader that takes a length when there is only one splits the row of
texts into the heads and bodies of the responses, and each head has one header
of each kind. -/
structure Delimited (resps : List HttpResponse) : Prop where
  split : ∀ pick : List (List UInt8) → Option (List UInt8),
    (∀ v, pick [v] = some v) →
    readAll pick (resps.flatMap serialize) =
      some (resps.map fun resp => (resp.headLines, resp.body))
  once : ∀ resp ∈ resps, (fields lengthName resp.headLines).length = 1 ∧
    (fields connectionName resp.headLines).length = 1

theorem readAll_serialize {pick : List (List UInt8) → Option (List UInt8)}
    (hpick : ∀ v, pick [v] = some v) {resps : List HttpResponse}
    (h : ∀ resp ∈ resps, resp.OneLined ∧ resp.Apart) :
    readAll pick (resps.flatMap serialize) =
      some (resps.map fun resp => (resp.headLines, resp.body)) := by
  induction resps with
  | nil =>
      rw [List.flatMap_nil, readAll, if_pos rfl]
      rfl
  | cons resp resps ih =>
      obtain ⟨hone, hapart⟩ := h resp List.mem_cons_self
      rw [List.flatMap_cons,
        readAll_cons (readOne_serialize hpick hone hapart _),
        ih fun resp hresp => h resp (List.mem_cons_of_mem _ hresp)]
      rfl

/-- A handler that says itself how long its body is. -/
def doubled : HttpResponse :=
  ({ body := ascii "hello" } : HttpResponse).addHeader (ascii "content-length")
    (ascii "4")

theorem doubled_undelimited : ¬ ∀ resps : List HttpResponse,
    (∀ resp ∈ resps, resp.OneLined) → Delimited resps := by
  intro hall
  have hclear : ∀ resp ∈ [doubled], resp.OneLined := by
    intro resp hresp
    obtain rfl := List.mem_singleton.mp hresp
    exact ⟨by decide, by decide⟩
  have honce := (hall [doubled] hclear).once doubled List.mem_cons_self
  exact absurd ((apart_iff doubled).mpr honce) (by decide)

/-- Responses are told apart by what they say of themselves if and only if no
handler says it again. -/
theorem delimited_iff {resps : List HttpResponse}
    (h : ∀ resp ∈ resps, resp.OneLined) :
    Delimited resps ↔ ∀ resp ∈ resps, resp.Apart := by
  constructor
  · intro hdel resp hresp
    exact (apart_iff resp).mpr (hdel.once resp hresp)
  · intro hapart
    refine ⟨fun pick hpick => readAll_serialize hpick ?_, ?_⟩
    · exact fun resp hresp => ⟨h resp hresp, hapart resp hresp⟩
    · exact fun resp hresp => (apart_iff resp).mp (hapart resp hresp)

/-- A body that looks like a response, and one with nothing in it. -/
theorem delimited_iff_nested :
    Delimited [{ body := ascii "HTTP/1.1 200 OK\r\nContent-Length: 9\r\n\r\n" },
      ({ } : HttpResponse).setContentType (ascii "text/plain")] := by
  refine (delimited_iff ?_).mpr ?_
  · intro resp hresp
    rcases List.mem_cons.mp hresp with rfl | hresp
    · exact ⟨by decide, by decide⟩
    · obtain rfl := List.mem_singleton.mp hresp
      exact ⟨by decide, by decide⟩
  · intro resp hresp
    rcases List.mem_cons.mp hresp with rfl | hresp
    · decide
    · obtain rfl := List.mem_singleton.mp hresp
      decide

end HttpResponse

end GameFrame
