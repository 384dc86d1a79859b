import GameFrame.Http.HttpServer
import GameFrame.Lib.Lines
import GameFrame.Proofs.ConnectionMoves
import Mathlib.Data.List.Basic

/-!
# What a response says about its connection

`on_request` decides from the request, before the handler runs, whether the
connection is going to be half-closed, and `serialize` writes the line about it
from the response, after the handler has run. A handler that calls
`set_close_connection` makes them differ: the peer is told that the connection
ends and it stays open, or the other way round (`close_disagrees`).

What a response tells its peer is read off its fields (`carries_iff`). The
server does what it says if and only if the handler leaves that as it was
(`agrees_iff`).
-/

namespace GameFrame

namespace HttpResponse

/-! ## The head of a response -/

def closeLine : List UInt8 := ascii "Connection: close"

/-- The text tells its peer that the connection ends: the line is in its head,
which ends with the first empty line. -/
def Carries (text : List UInt8) : Prop :=
  closeLine ∈ Lines.head (Lines.split 13 10 text)

def statusLine (resp : HttpResponse) : List UInt8 :=
  ascii "HTTP/1.1 " ++ ascii (toString resp.statusCode.toInt) ++ ascii " " ++
    resp.statusMessage

def connectionLine (resp : HttpResponse) : List UInt8 :=
  if resp.closeConnection then ascii "Connection: close"
  else ascii "Connection: keep-alive"

def lengthLine (resp : HttpResponse) : List UInt8 :=
  ascii "Content-Length: " ++ ascii (toString resp.body.length)

def fieldLine (h : List UInt8 × List UInt8) : List UInt8 :=
  h.1 ++ ascii ": " ++ h.2

/-- The lines of what the handler chose. The setters take any bytes, so there
can be more of them than it meant. -/
def statusLines (resp : HttpResponse) : List (List UInt8) :=
  Lines.split 13 10 resp.statusLine

def fieldLines (resp : HttpResponse) : List (List UInt8) :=
  resp.headers.flatMap fun h => Lines.split 13 10 (fieldLine h)

/-- The flag says so, or a header of the handler's own, unless an empty line in
the status message hides both. -/
def Announces (resp : HttpResponse) : Prop :=
  closeLine ∈ Lines.head resp.statusLines ∨
    [] ∉ resp.statusLines ∧
      (resp.closeConnection = true ∨ closeLine ∈ Lines.head resp.fieldLines)

instance (resp : HttpResponse) : Decidable resp.Announces :=
  inferInstanceAs (Decidable (_ ∨ _ ∧ (_ ∨ _)))

end HttpResponse

namespace HttpServer

open HttpResponse

/-- The write half is shut, or is going to be when the buffer is empty. -/
def HalfClosed (c : Connection) : Prop :=
  c.state = .kDisconnecting ∧
    (c.log.getLast? = some .shutWr ∨ c.shutdownPending = true)

/-- The response says that the connection ends if and only if the server
half-closes it. A connection that was shut before is not sent any response, and
one that is closed by the sending has not been sent this one. -/
def Agrees (srv : HttpServer) (req : HttpRequest) : Prop :=
  ∀ (s s' : HttpPeer) (writes : List WriteRes), s.conn.state = .kConnected →
    srv.onRequest s req writes = some s' → s'.conn.state ≠ .kDisconnected →
    (Carries (srv.respond req).serialize ↔ HalfClosed s'.conn)

/-- What the handler is given. -/
def prepared (req : HttpRequest) : HttpResponse :=
  { closeConnection := !req.keepAlive : HttpResponse }.setContentType
    (ascii "text/plain")

/-- The handler changes nothing about what the response says of the
connection. -/
def Leaves (srv : HttpServer) (req : HttpRequest) : Prop :=
  ∀ cb, srv.httpCb = some cb →
    ((cb req (prepared req)).Announces ↔ (prepared req).Announces)

/-- A handler that wants the connection to end. -/
def endingServer : HttpServer where
  httpCb := some fun _ resp => { resp with closeConnection := true }

theorem close_disagrees :
    ¬ ∀ (srv : HttpServer) (req : HttpRequest), Agrees srv req := by
  intro hall
  let req : HttpRequest := { method := .kGet, version := .kHttp11, path := [47] }
  let text := (endingServer.respond req).serialize
  have hsent : (endingServer.onRequest newPeer req
      [.accepted text.length]).any (·.conn.state = .kConnected) = true := by
    decide +kernel
  obtain ⟨s, hs, hstate⟩ := (Option.any_eq_true _ _).mp hsent
  have hstate : s.conn.state = .kConnected := of_decide_eq_true hstate
  have hiff := hall endingServer req newPeer s _ rfl hs (by rw [hstate]; decide)
  have hcarries : Carries (endingServer.respond req).serialize := by
    unfold Carries
    decide +kernel
  rw [hiff.mp hcarries |>.1] at hstate
  cases hstate

end HttpServer

namespace HttpResponse

/-! ## The lines of a response -/

variable (resp : HttpResponse)

theorem serialize_eq :
    resp.serialize =
      resp.statusLine ++ 13 :: 10 ::
        (resp.connectionLine ++ 13 :: 10 ::
          (resp.lengthLine ++ 13 :: 10 ::
            (resp.headers.flatMap (fun h => fieldLine h ++ [13, 10]) ++
              13 :: 10 :: resp.body))) := by
  simp [serialize, statusLine, connectionLine, lengthLine, fieldLine, crlf]

/-- What a decimal number is written in. -/
theorem digits_range {n : Nat} {c : UInt8} (h : c ∈ ascii (toString n)) :
    48 ≤ c.toNat ∧ c.toNat ≤ 57 := by
  rw [ascii, List.mem_map] at h
  obtain ⟨d, hd, rfl⟩ := h
  have hdigit : d.isDigit = true := by
    refine Nat.isDigit_of_mem_toDigits (by decide) (by decide)
      (b := 10) (n := n) ?_
    rw [← Nat.toList_repr]
    exact hd
  have hrange : 48 ≤ d.toNat ∧ d.toNat ≤ 57 :=
    Char.isDigit_iff_toNat.mp hdigit
  rw [UInt8.toNat_ofNat', Nat.mod_eq_of_lt (by omega)]
  exact hrange

/-- A decimal number is no end of a line. -/
theorem digits_clear (n : Nat) : 13 ∉ ascii (toString n) := by
  intro h
  exact absurd (digits_range h).1 (by decide)

theorem statusLine_clear (h : 13 ∉ resp.statusMessage) : 13 ∉ resp.statusLine := by
  simp only [statusLine, List.mem_append, not_or]
  exact ⟨⟨⟨by decide, digits_clear _⟩, by decide⟩, h⟩

theorem connectionLine_clear : 13 ∉ resp.connectionLine := by
  rw [connectionLine]
  split
  · decide
  · decide

theorem connectionLine_ne_nil : resp.connectionLine ≠ [] := by
  rw [connectionLine]
  split
  · decide
  · decide

theorem lengthLine_clear : 13 ∉ resp.lengthLine := by
  rw [lengthLine, List.mem_append, not_or]
  exact ⟨by decide, digits_clear _⟩

theorem fieldLine_clear {e : List UInt8 × List UInt8} (hkey : 13 ∉ e.1)
    (hvalue : 13 ∉ e.2) : 13 ∉ fieldLine e := by
  simp only [fieldLine, List.mem_append, not_or]
  exact ⟨⟨hkey, by decide⟩, hvalue⟩

theorem lines_serialize :
    Lines.split 13 10 resp.serialize =
      resp.statusLines ++ ([resp.connectionLine, resp.lengthLine] ++
        (resp.fieldLines ++ ([] :: Lines.split 13 10 resp.body))) := by
  have hsep : (13 : UInt8) ≠ 10 := by decide
  have hend : Lines.split 13 10 (13 :: 10 :: resp.body) =
      [] :: Lines.split 13 10 resp.body := Lines.split_sep hsep [] resp.body
  rw [serialize_eq, Lines.split_sep hsep, Lines.split_sep hsep,
    Lines.split_sep hsep, Lines.split_flatMap hsep,
    Lines.split_clear resp.connectionLine_clear,
    Lines.split_clear resp.lengthLine_clear, hend]
  rfl

/-- What the peer reads is what the fields say. -/
theorem carries_iff : Carries resp.serialize ↔ resp.Announces := by
  have hconnection : closeLine ∈ Lines.head [resp.connectionLine] ↔
      resp.closeConnection = true := by
    rw [connectionLine]
    cases resp.closeConnection with
    | true => decide
    | false => decide
  have hlength : closeLine ∉ Lines.head [resp.lengthLine] := by
    intro h
    have heq : closeLine = resp.lengthLine := by
      simpa using List.takeWhile_subset _ h
    have hfourth := congrArg (·[3]?) heq
    simp [closeLine, lengthLine, ascii] at hfourth
  have hne : [] ∉ [resp.connectionLine] ∧ [] ∉ [resp.lengthLine] := by
    refine ⟨by simpa using resp.connectionLine_ne_nil.symm, ?_⟩
    simp [lengthLine, ascii]
  have hbody : ∀ ls, closeLine ∉ Lines.head ([] :: ls) := by simp [Lines.head]
  have hpair : [resp.connectionLine, resp.lengthLine] =
    [resp.connectionLine] ++ [resp.lengthLine] := rfl
  rw [Carries, lines_serialize, Lines.mem_head_append, hpair, List.append_assoc,
    Lines.mem_head_append, Lines.mem_head_append, Lines.mem_head_append,
    hconnection, Announces]
  simp only [hlength, hne, hbody, not_false_eq_true, true_and, false_or,
    and_false, or_false]

/-- As long as nothing that was set has an end of a line in it, the response
says what the flag says, or what a header says that has these very words. -/
theorem announces_clear (hstatus : 13 ∉ resp.statusMessage)
    (hheaders : ∀ h ∈ resp.headers, 13 ∉ h.1 ∧ 13 ∉ h.2) :
    resp.Announces ↔
      resp.closeConnection = true ∨ ∃ h ∈ resp.headers, fieldLine h = closeLine := by
  have hline : resp.statusLines = [resp.statusLine] :=
    Lines.split_clear (resp.statusLine_clear hstatus)
  have hfields : resp.fieldLines = resp.headers.map fieldLine := by
    rw [fieldLines, List.map_eq_flatMap]
    refine List.flatMap_congr fun h hmem => Lines.split_clear ?_
    exact fieldLine_clear (hheaders h hmem).1 (hheaders h hmem).2
  have hfirst : closeLine ∉ Lines.head [resp.statusLine] := by
    intro h
    have heq : closeLine = resp.statusLine := by
      simpa using List.takeWhile_subset _ h
    have hfirst := congrArg (·[0]?) heq
    simp [closeLine, statusLine, ascii] at hfirst
  have hne : [] ∉ [resp.statusLine] := by
    simp [statusLine, ascii]
  have hhead : Lines.head (resp.headers.map fieldLine) =
      resp.headers.map fieldLine := by
    refine Lines.head_all ?_
    simp [fieldLine, ascii]
  rw [Announces, hline, hfields, hhead]
  simp [hfirst, hne]

end HttpResponse

namespace HttpServer

open HttpResponse

/-! ## What the server does -/

theorem prepared_announces (req : HttpRequest) :
    (prepared req).Announces ↔ req.keepAlive = false := by
  rw [prepared]
  cases req.keepAlive with
  | true => decide
  | false => decide

/-- Without a handler, the response is one that says what it was prepared to
say. -/
theorem notFound_announces {srv : HttpServer} (hnone : srv.httpCb = none)
    (req : HttpRequest) :
    (srv.respond req).Announces ↔ req.keepAlive = false := by
  rw [respond, hnone]
  dsimp only
  cases req.keepAlive with
  | true => decide
  | false => decide

theorem respond_announces_iff (srv : HttpServer) (req : HttpRequest) :
    ((srv.respond req).Announces ↔ req.keepAlive = false) ↔ Leaves srv req := by
  cases hcb : srv.httpCb with
  | none =>
      refine iff_of_true (notFound_announces hcb req) ?_
      intro cb hsome
      rw [hcb] at hsome
      cases hsome
  | some cb =>
      have hrespond : srv.respond req = cb req (prepared req) := by
        rw [respond, hcb]
        rfl
      rw [hrespond, ← prepared_announces req]
      constructor
      · intro h cb' hsome
        rw [hcb] at hsome
        cases hsome
        exact h
      · intro h
        exact h cb hcb

/-- A connection that was up, and was sent something, is still up unless it was
closed. -/
theorem send_state {c c' : Connection} {data : List UInt8}
    {writes : List WriteRes} (hstate : c.state = .kConnected)
    (h : c.send data writes = some c') :
    c'.state = .kConnected ∨ c'.state = .kDisconnected := by
  cases Connection.send_sent h with
  | ignored => exact .inl hstate
  | behind =>
      left
      rw [(Connection.sendRest_spec _ _).1]
      exact hstate
  | failed => exact .inr (Connection.close_state _)
  | taken =>
      left
      rw [(Connection.sendRest_spec _ _).1]
      exact hstate

theorem shutdown_halfClosed {c : Connection} (hstate : c.state = .kConnected) :
    HalfClosed c.shutdown := by
  rw [Connection.shutdown, if_pos hstate, Connection.shutdownInLoop,
    if_neg (by simp)]
  split
  · exact ⟨rfl, .inl (by simp [Connection.note])⟩
  · exact ⟨rfl, .inr rfl⟩

/-- An answer that was sent, and the half-close behind it. -/
theorem onRequest_halfClosed {srv : HttpServer} {req : HttpRequest}
    {s s' : HttpPeer} {writes : List WriteRes}
    (hstate : s.conn.state = .kConnected)
    (h : srv.onRequest s req writes = some s')
    (hopen : s'.conn.state ≠ .kDisconnected) :
    HalfClosed s'.conn ↔ req.keepAlive = false := by
  rw [onRequest] at h
  split at h
  · cases h
  · next c hsend =>
      cases h
      dsimp only at hopen ⊢
      have hup := send_state hstate hsend
      cases hkeep : req.keepAlive with
      | true =>
          rw [hkeep, if_pos rfl] at hopen
          have hc : c.state = .kConnected := hup.resolve_right hopen
          rw [if_pos rfl]
          refine iff_of_false ?_ (by simp)
          intro hhalf
          rw [hhalf.1] at hc
          cases hc
      | false =>
          rw [hkeep, if_neg (by simp)] at hopen
          rw [if_neg (by simp)]
          refine iff_of_true (shutdown_halfClosed (hup.resolve_right ?_)) rfl
          intro hclosed
          apply hopen
          rw [Connection.shutdown, if_neg (by simp [hclosed])]
          exact hclosed

/-- The socket takes all of an answer. -/
theorem onRequest_taken (srv : HttpServer) (req : HttpRequest) :
    ∃ s', srv.onRequest newPeer req
        [.accepted (srv.respond req).serialize.length] = some s' ∧
      s'.conn.state ≠ .kDisconnected := by
  have hne : (srv.respond req).serialize ≠ [] := by
    rw [serialize_eq]
    simp [statusLine, ascii]
  obtain ⟨c, hsend, hstate⟩ : ∃ c, newPeer.conn.send (srv.respond req).serialize
      [.accepted (srv.respond req).serialize.length] = some c ∧
      c.state = .kConnected := by
    have hup : newPeer.conn.state = .kConnected := rfl
    have hempty : newPeer.conn.outputBuffer.empty = true := by decide +kernel
    rw [Connection.send, if_neg (by simp [hup, hne]), if_pos hempty]
    simp [Connection.sendLoop, hne, Connection.sendRest, Connection.note, hup]
  rw [onRequest, hsend]
  refine ⟨_, rfl, ?_⟩
  dsimp only
  split
  · simp [hstate]
  · simp [(shutdown_halfClosed hstate).1]

/-- What the response says and what the server does agree if and only if the
handler leaves what the response says. -/
theorem agrees_iff (srv : HttpServer) (req : HttpRequest) :
    Agrees srv req ↔ Leaves srv req := by
  rw [← respond_announces_iff, ← carries_iff]
  constructor
  · intro h
    obtain ⟨s', hs', hopen⟩ := onRequest_taken srv req
    rw [← onRequest_halfClosed rfl hs' hopen]
    exact h newPeer s' _ rfl hs' hopen
  · intro h s s' writes hstate hs' hopen
    rw [onRequest_halfClosed hstate hs' hopen]
    exact h

end HttpServer

end GameFrame
