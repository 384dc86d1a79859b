import GameFrame.Http.HttpDemo
import GameFrame.Proofs.HttpExchange
import GameFrame.Proofs.HttpRoundTrip

/-!
# What the demo serves

A client that writes its requests the plain way, one behind the other, and
reads responses by their length. Between the two are the connection in both
directions, cut anywhere, the parser, the handler and what a response is
written as. None of that is left in what the client gets: it is the page under
the path it wrote, for one request after the other, up to the one that asks for
the connection to be closed (`served`).
-/

namespace GameFrame.HttpDemo

open HttpReader HttpResponse HttpServer Session

/-- The first line of what there is under a path, and the text. -/
def page (path : List UInt8) : List UInt8 × List UInt8 :=
  if path = ascii "/" then
    (ascii "HTTP/1.1 200 OK", ascii "Hello, epoll_proj!\n")
  else if path = ascii "/hello" then
    (ascii "HTTP/1.1 200 OK", ascii "Hello, World!\n")
  else (ascii "HTTP/1.1 404 Not Found", ascii "404 Not Found\n")

/-- What a client is to read for a request of its own. -/
def answer (t : PlainRequest) : Message :=
  ([(page t.path).1,
    if t.request.keepAlive then ascii "Connection: keep-alive"
    else ascii "Connection: close",
    ascii "Content-Length: " ++ ascii (toString (page t.path).2.length),
    ascii "Content-Type: text/plain"],
    (page t.path).2)

/-- The requests up to the first that is not kept alive. -/
def heard : List PlainRequest → List PlainRequest
  | [] => []
  | t :: ts => if t.request.keepAlive then t :: heard ts else [t]

/-! ## The handler -/

theorem respond_eq (req : HttpRequest) :
    server.respond req =
      httpCb req
        { closeConnection := !req.keepAlive
          headers := [(ascii "Content-Type", ascii "text/plain")] } := rfl

/-- The handler sets the status and the body, and nothing of these has an end of
a line in its head. -/
theorem legible_server : server.Legible := by
  intro req
  have hheaders : (server.respond req).headers =
      [(ascii "Content-Type", ascii "text/plain")] := by
    rw [respond_eq, httpCb]
    split
    · rfl
    · split
      · rfl
      · rfl
  have hstatus : 13 ∉ (server.respond req).statusMessage ∧
      10 ∉ (server.respond req).statusMessage := by
    rw [respond_eq, httpCb]
    split
    · exact (by decide : 13 ∉ ascii "OK" ∧ 10 ∉ ascii "OK")
    · split
      · exact (by decide : 13 ∉ ascii "OK" ∧ 10 ∉ ascii "OK")
      · exact (by decide : 13 ∉ ascii "Not Found" ∧ 10 ∉ ascii "Not Found")
  refine ⟨⟨hstatus, ?_⟩, ?_⟩
  · rw [hheaders]
    decide
  · rw [Apart, hheaders]
    decide

theorem message_respond (t : PlainRequest) :
    message (server.respond t.request) = answer t := by
  have hpath : t.request.path = t.path := rfl
  have hclose : (if (!t.request.keepAlive) = true then ascii "Connection: close"
      else ascii "Connection: keep-alive") =
      if t.request.keepAlive then ascii "Connection: keep-alive"
      else ascii "Connection: close" := by
    cases t.request.keepAlive with
    | true => rfl
    | false => rfl
  have hok : ascii "HTTP/1.1 " ++ ascii (toString 200) ++ ascii " " ++
      ascii "OK" = ascii "HTTP/1.1 200 OK" := by decide +kernel
  have hlost : ascii "HTTP/1.1 " ++ ascii (toString 404) ++ ascii " " ++
      ascii "Not Found" = ascii "HTTP/1.1 404 Not Found" := by decide +kernel
  have htype : fieldLine (ascii "Content-Type", ascii "text/plain") =
      ascii "Content-Type: text/plain" := by decide +kernel
  rw [respond_eq, httpCb, answer, page, hpath, ← hclose, ← htype]
  split
  · rw [← hok]
    rfl
  · split
    · rw [← hok]
      rfl
    · rw [← hlost]
      rfl

/-! ## The stream -/

theorem stream_texts (ts : List PlainRequest) :
    stream (ts.map PlainRequest.text) = ts.flatMap PlainRequest.render := by
  rw [stream, List.flatMap_map]
  exact congrArg ts.flatMap (funext fun t => (PlainRequest.render_eq t).symm)

theorem requests_texts (ts : List PlainRequest) :
    (ts.map PlainRequest.text).map RequestText.request =
      ts.map PlainRequest.request := by
  rw [List.map_map]
  exact congrArg ts.map (funext PlainRequest.text_request)

theorem answered_requests (ts : List PlainRequest) :
    answered (ts.map PlainRequest.request) =
      (heard ts).map PlainRequest.request := by
  induction ts with
  | nil => rfl
  | cons t ts ih =>
      rw [List.map_cons, answered, heard, ih]
      split
      · rfl
      · rfl

theorem replies_requests (ts : List PlainRequest) :
    (server.replies (ts.map PlainRequest.request)).map message =
      (heard ts).map answer := by
  rw [replies, answered_requests, List.map_map, List.map_map]
  exact List.map_congr_left fun t _ => message_respond t

/-- However the stream of a client's requests is cut, the server has handed over
the first so many, each of which has come as a whole, and no others. What the
client has read, at any time, is the page it asked for first, then that it asked
for next, and so on; and when nothing is buffered it has read one for each. -/
theorem served {pick : List (List UInt8) → Option (List UInt8)}
    (hpick : ∀ v, pick [v] = some v) {ts : List PlainRequest}
    {ls : List (Session.Label (List WriteRes))} {s : HttpPeer}
    (hrun : Machine.run server.step newPeer ls = some s)
    (hstream : arrived server.onMessage newPeer ls <+:
      ts.flatMap PlainRequest.render) :
    ∃ done, done <+: ts ∧ s.own.handed = done.map PlainRequest.request ∧
      done.flatMap PlainRequest.render <+:
        arrived server.onMessage newPeer ls ∧
      readWhole pick (written s.conn.log) <+: (heard done).map answer ∧
      (s.conn.state ≠ .kDisconnected → s.conn.outputBuffer.readable = [] →
        readWhole pick (written s.conn.log) = (heard done).map answer) := by
  rw [← stream_texts] at hstream
  have hs := run_follows hrun hstream
  obtain ⟨hread, hall⟩ := hs.read legible_server hpick hrun hstream
  obtain ⟨texts, rest, p, htexts, hr, hhanded, -⟩ := hs.cut
  obtain ⟨done, more, rfl, rfl, -⟩ := List.map_eq_append_iff.mp htexts
  rw [requests_texts] at hhanded
  rw [hhanded, replies_requests] at hread hall
  refine ⟨done, List.prefix_append _ _, hhanded, ?_, hread, hall⟩
  rw [hr, ← stream_texts]
  exact List.prefix_append _ _

def hello : PlainRequest where
  method := .kGet
  path := ascii "/hello"
  query := none
  version := .kHttp11
  headers := []
  method_ok := getRoot.method_ok
  path_ne := by decide
  path_ok := by decide +kernel
  query_ok := getRoot.query_ok
  version_ok := getRoot.version_ok
  distinct := by decide

def missing : PlainRequest where
  method := .kGet
  path := ascii "/new"
  query := none
  version := .kHttp11
  headers := [{
    key := ascii "CONNECTION"
    value := ascii "close"
    key_ne := by decide
    key_ok := by decide +kernel
    value_ok := by decide +kernel
    value_start := by decide }]
  method_ok := getRoot.method_ok
  path_ne := by decide
  path_ok := by decide +kernel
  query_ok := getRoot.query_ok
  version_ok := getRoot.version_ok
  distinct := by decide

/-- The second request comes in two pieces, and so does the first response. -/
def cutTwice : List (Session.Label (List WriteRes)) :=
  [.event { revents := EPOLLIN,
            reads := [.data (hello.render ++ missing.render.take 9),
              .stop .eagain] }
      [.accepted 20, .stop .eagain],
    .event { revents := EPOLLIN ||| EPOLLOUT,
             reads := [.data (missing.render.drop 9), .stop .eagain],
             writes := [.accepted 7, .eintr, .accepted 181] } []]

theorem served_cutTwice :
    ∃ s, Machine.run server.step newPeer cutTwice = some s ∧
      s.conn.state ≠ .kDisconnected ∧ s.conn.outputBuffer.readable = [] ∧
      ∃ done, done <+: [hello, missing] ∧ done.length = s.own.handed.length ∧
        s.own.handed.length = 2 ∧
        readWhole List.head? (written s.conn.log) =
          (heard done).map answer := by
  have hany : (Machine.run server.step newPeer cutTwice).any (fun s =>
      s.own.handed.length == 2 && s.conn.state != .kDisconnected &&
      s.conn.outputBuffer.readable.isEmpty) = true := by
    decide +kernel
  have hstream : arrived server.onMessage newPeer cutTwice <+:
      [hello, missing].flatMap PlainRequest.render :=
    List.isPrefixOf_iff_prefix.mp (by decide +kernel)
  obtain ⟨s, hrun, hs⟩ := (Option.any_eq_true _ _).mp hany
  simp only [Bool.and_eq_true, beq_iff_eq, bne_iff_ne, List.isEmpty_iff] at hs
  obtain ⟨⟨htwo, hstate⟩, hnil⟩ := hs
  have hpick : ∀ v : List UInt8, List.head? [v] = some v := fun _ => rfl
  obtain ⟨done, hdone, hhanded, -, -, hall⟩ := served hpick hrun hstream
  refine ⟨s, hrun, hstate, hnil, done, hdone, ?_, htwo, hall hstate hnil⟩
  rw [hhanded, List.length_map]

end GameFrame.HttpDemo
