import GameFrame.Http.HttpContext
import GameFrame.Http.HttpResponse
import GameFrame.Net.Session

/-!
# `HttpServer`, one connection of it

`http/http_server.h`, `http/http_server.cpp`. A connection gets a parser when
it is up. The message callback parses once. On an error it answers and
half-closes; when a request is complete it is answered, and the parser reset
for the next; and else more has to arrive.

`http_cb_` belongs to the user and is a function of the request. The answers
its response gets from the socket are given with the batch. What is kept here
beside the parser is what was handed to `on_request`, in that order; it writes
a line to the standard output, which is left out.
-/

namespace GameFrame

structure HttpServer where
  httpCb : Option (HttpRequest → HttpResponse → HttpResponse) := none

/-- What there is beside a connection: the context set on it, and the requests
handed to `on_request` so far. -/
structure HttpOwn where
  context : Option HttpContext := none
  handed : List HttpRequest := []

abbrev HttpPeer := Session HttpOwn

namespace HttpServer

/-- `on_connection(conn)`, of a connection that is up. -/
def onConnection (s : HttpPeer) : HttpPeer :=
  { s with own := { s.own with context := some {} } }

def newPeer : HttpPeer :=
  onConnection { conn := Connection.start {}, own := {} }

/-- The response of `on_message` to what cannot be parsed. -/
def badRequest : HttpResponse :=
  { statusCode := .k400BadRequest
    statusMessage := ascii "Bad Request"
    closeConnection := true
    body := ascii "400 Bad Request\n" : HttpResponse }.setContentType
      (ascii "text/plain")

/-- The response of `on_request`. -/
def respond (srv : HttpServer) (req : HttpRequest) : HttpResponse :=
  let resp := { closeConnection := !req.keepAlive : HttpResponse }.setContentType
    (ascii "text/plain")
  match srv.httpCb with
  | some cb => cb req resp
  | none =>
      { resp with
        statusCode := .k404NotFound
        statusMessage := ascii "Not Found"
        body := ascii "404 Not Found\n" }

/-- `on_request(conn, req)`. -/
def onRequest (srv : HttpServer) (s : HttpPeer) (req : HttpRequest)
    (writes : List WriteRes) : Option HttpPeer :=
  match s.conn.send (srv.respond req).serialize writes with
  | none => none
  | some c =>
      some
        { conn := if req.keepAlive then c else c.shutdown
          own := { s.own with handed := s.own.handed ++ [req] } }

/-- `on_message(conn, buf)`. -/
def onMessage (srv : HttpServer) (writes : List WriteRes) :
    Session.Callback HttpOwn := fun s =>
  match s.own.context with
  | none => if writes = [] then some s.close else none
  | some ctx =>
      match ctx.parse s.conn.inputBuffer with
      | (false, ctx, buf) =>
          match { s.conn with inputBuffer := buf }.send badRequest.serialize
            writes with
          | none => none
          | some c =>
              some
                { conn := c.shutdown
                  own := { s.own with context := some ctx } }
      | (true, ctx, buf) =>
          let s := { s with conn := { s.conn with inputBuffer := buf } }
          if ctx.gotAll then
            match srv.onRequest s ctx.request writes with
            | none => none
            | some s =>
                some { s with own := { s.own with context := some ctx.reset } }
          else if writes = [] then
            some { s with own := { s.own with context := some ctx } }
          else none

/-- A batch, and the answers its response gets. A connection that is closed
gets no more. -/
structure Batch where
  reads : List ReadRes
  writes : List WriteRes := []
  deriving DecidableEq, Repr

def receive (srv : HttpServer) (s : HttpPeer) (b : Batch) : Option HttpPeer :=
  if s.conn.state = .kDisconnected then none
  else s.handleRead (srv.onMessage b.writes) b.reads

/-! ## What a call of the callback can do -/

inductive Handled (srv : HttpServer) (writes : List WriteRes) (s : HttpPeer) :
    HttpPeer → Prop where
  | noContext : s.own.context = none → writes = [] →
      Handled srv writes s s.close
  | refused (ctx ctx' : HttpContext) (buf : Buffer) (c : Connection) :
      s.own.context = some ctx →
      ctx.parse s.conn.inputBuffer = (false, ctx', buf) →
      { s.conn with inputBuffer := buf }.send badRequest.serialize writes =
        some c →
      Handled srv writes s
        { conn := c.shutdown, own := { s.own with context := some ctx' } }
  | complete (ctx ctx' : HttpContext) (buf : Buffer) (c : Connection) :
      s.own.context = some ctx →
      ctx.parse s.conn.inputBuffer = (true, ctx', buf) →
      ctx'.gotAll = true →
      { s.conn with inputBuffer := buf }.send
        (srv.respond ctx'.request).serialize writes = some c →
      Handled srv writes s
        { conn := if ctx'.request.keepAlive then c else c.shutdown
          own :=
            { context := some ctx'.reset
              handed := s.own.handed ++ [ctx'.request] } }
  | part (ctx ctx' : HttpContext) (buf : Buffer) :
      s.own.context = some ctx →
      ctx.parse s.conn.inputBuffer = (true, ctx', buf) →
      ctx'.gotAll = false → writes = [] →
      Handled srv writes s
        { conn := { s.conn with inputBuffer := buf }
          own := { s.own with context := some ctx' } }

theorem onMessage_handled {srv : HttpServer} {writes : List WriteRes}
    {s s' : HttpPeer} (h : srv.onMessage writes s = some s') :
    Handled srv writes s s' := by
  rw [onMessage] at h
  split at h
  · next hctx =>
      split at h
      · next hwrites =>
          cases h
          exact .noContext hctx hwrites
      · cases h
  · next ctx hctx =>
      split at h
      · next ctx' buf hparse =>
          split at h
          · cases h
          · next c hsend =>
              cases h
              exact .refused ctx ctx' buf c hctx hparse hsend
      · next ctx' buf hparse =>
          dsimp only at h
          split at h
          · next hgot =>
              split at h
              · cases h
              · next t hreq =>
                  cases h
                  rw [onRequest] at hreq
                  split at hreq
                  · cases hreq
                  · next c hsend =>
                      cases hreq
                      exact .complete ctx ctx' buf c hctx hparse hgot hsend
          · next hgot =>
              split at h
              · next hwrites =>
                  cases h
                  exact .part ctx ctx' buf hctx hparse
                    (Bool.eq_false_iff.mpr hgot) hwrites
              · cases h

/-! ## The callback as a script -/

/-- The parser takes from the buffer line by line, and nothing else. -/
theorem parse_retrieves (ctx : HttpContext) (buf : Buffer) :
    ∃ lens : List Nat,
      (ctx.parse buf).2.2 = lens.foldl Buffer.retrieve buf := by
  fun_induction HttpContext.parse ctx buf with
  | case1 ctx buf hstate => exact ⟨[], rfl⟩
  | case2 ctx buf hstate hnone => exact ⟨[], rfl⟩
  | case3 ctx buf hstate i hi ctx' hbad => exact ⟨[], rfl⟩
  | case4 ctx buf hstate i hi ctx' hgood ih =>
      obtain ⟨lens, hlens⟩ := ih
      exact ⟨(i + 2) :: lens, hlens⟩
  | case5 ctx buf hstate hnone => exact ⟨[], rfl⟩
  | case6 ctx buf hstate i hi l hnil => exact ⟨[i + 2], rfl⟩
  | case7 ctx buf hstate i hi l hne ctx' hbad => exact ⟨[], rfl⟩
  | case8 ctx buf hstate i hi l hne ctx' hgood ih =>
      obtain ⟨lens, hlens⟩ := ih
      exact ⟨(i + 2) :: lens, hlens⟩

theorem scripted_onMessage (srv : HttpServer) (writes : List WriteRes) :
    Session.Scripted (srv.onMessage writes) := by
  have hscript : ∀ {c c' : Connection} {lens : List Nat} {ops : List UserOp},
      { c with inputBuffer := lens.foldl Buffer.retrieve c.inputBuffer }.userOps
        ops = some c' →
      c.userOps (lens.map .retrieve ++ ops) = some c' := by
    intro c c' lens ops h
    rw [Connection.userOps, List.foldlM_append]
    exact (congrArg (·.bind fun c => c.userOps ops)
      (Connection.userOps_retrieve c lens)).trans h
  -- What is sent, and whether the connection is half-closed behind it.
  have hanswer : ∀ {c c₁ : Connection} {data : List UInt8},
      c.send data writes = some c₁ →
      c.userOps [.send data writes] = some c₁ ∧
      c.userOps [.send data writes, .shutdown] = some c₁.shutdown := by
    intro c c₁ data h
    constructor
    · exact (congrArg (·.bind fun c => some c) h).trans rfl
    · exact (congrArg (·.bind fun c => some c.shutdown) h).trans rfl
  have hbuffer : ∀ {s : HttpPeer} {ctx ctx' : HttpContext} {ok : Bool}
      {buf : Buffer}, ctx.parse s.conn.inputBuffer = (ok, ctx', buf) →
      ∃ lens : List Nat, buf = lens.foldl Buffer.retrieve s.conn.inputBuffer := by
    intro s ctx ctx' ok buf hparse
    have h := parse_retrieves ctx s.conn.inputBuffer
    rw [hparse] at h
    exact h
  intro s s' h
  cases onMessage_handled h with
  | noContext => exact ⟨[.close], rfl⟩
  | refused ctx ctx' buf c hctx hparse hsend =>
      obtain ⟨lens, rfl⟩ := hbuffer hparse
      exact ⟨_, hscript (hanswer hsend).2⟩
  | complete ctx ctx' buf c hctx hparse hgot hsend =>
      obtain ⟨lens, rfl⟩ := hbuffer hparse
      dsimp only
      split
      · exact ⟨_, hscript (hanswer hsend).1⟩
      · exact ⟨_, hscript (hanswer hsend).2⟩
  | part ctx ctx' buf hctx hparse =>
      obtain ⟨lens, rfl⟩ := hbuffer hparse
      exact ⟨lens.map .retrieve ++ [], hscript rfl⟩

/-- What the connection goes through is a run of a connection. -/
theorem run_connection {srv : HttpServer} {s t : HttpPeer}
    {batches : List Batch} (h : Machine.run srv.receive s batches = some t) :
    ∃ ls, Machine.run Connection.step s.conn ls = some t.conn := by
  refine Machine.run_simulates (f := Session.conn) ?_ h
  intro s b s' h
  rw [receive] at h
  split at h
  · cases h
  · exact Session.handleRead_event (scripted_onMessage srv b.writes) h

end HttpServer

end GameFrame
