import GameFrame.Proofs.HttpLast
import GameFrame.Proofs.HttpReader
import GameFrame.Proofs.SessionStream

/-!
# What an HTTP client reads

A connection of an `HttpServer`, through any events. Requests are answered in
the order they were handed over, one response each, up to the first that is not
kept alive; a text that cannot be parsed is answered too, and then nothing else
is. That is all the server has to say (`script`), whatever it is told after it
has half-closed.

How much of it gets to the client depends on the connection. It is a beginning
in any case (`run_said`), and a reader that takes the responses it has whole
never makes anything else of it (`answers_read`).
-/

namespace GameFrame

namespace HttpServer

open Session
open HttpResponse (serialize)

/-- A connection, event by event. -/
def step (srv : HttpServer) :
    HttpPeer → Session.Label (List WriteRes) → Option HttpPeer :=
  Session.step srv.onMessage

/-- The requests that are answered: up to the first that is not kept alive. -/
def answered : List HttpRequest → List HttpRequest
  | [] => []
  | req :: reqs => if req.keepAlive then req :: answered reqs else [req]

def Kept (reqs : List HttpRequest) : Prop :=
  ∀ req ∈ reqs, req.keepAlive = true

instance (reqs : List HttpRequest) : Decidable (Kept reqs) :=
  inferInstanceAs (Decidable (∀ req ∈ reqs, _))

def replies (srv : HttpServer) (reqs : List HttpRequest) :
    List HttpResponse := (answered reqs).map srv.respond

/-- What there may be to say on a connection on which these are handed over. -/
def script (srv : HttpServer) (reqs : List HttpRequest) : List HttpResponse :=
  srv.replies reqs ++ if Kept reqs then [badRequest] else []

theorem answered_kept {reqs : List HttpRequest} (h : Kept reqs)
    (more : List HttpRequest) :
    answered (reqs ++ more) = reqs ++ answered more := by
  induction reqs with
  | nil => rfl
  | cons req reqs ih =>
      rw [List.cons_append, answered, if_pos (h req List.mem_cons_self),
        ih fun r hr => h r (List.mem_cons_of_mem _ hr)]
      rfl

/-- Behind the last nothing counts. -/
theorem answered_last {reqs : List HttpRequest} (h : ¬ Kept reqs)
    (more : List HttpRequest) : answered (reqs ++ more) = answered reqs := by
  induction reqs with
  | nil => exact absurd (fun _ hreq => absurd hreq List.not_mem_nil) h
  | cons req reqs ih =>
      rw [List.cons_append, answered, answered]
      split
      · next hkeep =>
          rw [ih]
          intro hkept
          refine h fun r hr => ?_
          rcases List.mem_cons.mp hr with rfl | hr
          · exact hkeep
          · exact hkept r hr
      · rfl

theorem answered_self {reqs : List HttpRequest} (h : Kept reqs) :
    answered reqs = reqs := by
  have hall := answered_kept h []
  rwa [List.append_nil, answered, List.append_nil] at hall

theorem replies_kept {srv : HttpServer} {reqs : List HttpRequest}
    (h : Kept reqs) : srv.replies reqs = reqs.map srv.respond := by
  rw [replies, answered_self h]

theorem replies_mono {srv : HttpServer} {reqs more : List HttpRequest}
    (h : reqs <+: more) : srv.replies reqs <+: srv.replies more := by
  obtain ⟨rest, rfl⟩ := h
  by_cases hkept : Kept reqs
  · rw [replies_kept hkept, replies, answered_kept hkept, List.map_append]
    exact List.prefix_append _ _
  · simp only [replies, answered_last hkept, List.prefix_refl]

/-! ## What has been said -/

/-- The responses that were sent while the connection was up. -/
inductive Said (srv : HttpServer) (s : HttpPeer) : List HttpResponse → Prop
    where
  | up : s.conn.state = .kConnected → Kept s.own.handed →
      Said srv s (srv.replies s.own.handed)
  | last : s.conn.state ≠ .kConnected → ¬ Kept s.own.handed →
      Said srv s (srv.replies s.own.handed)
  | refused : s.conn.state ≠ .kConnected → Kept s.own.handed → Refusing s →
      Said srv s (srv.replies s.own.handed ++ [badRequest])
  | closed (done : List HttpRequest) : s.conn.state = .kDisconnected →
      done <+: s.own.handed → Kept done → Said srv s (srv.replies done)

structure Answering (srv : HttpServer) (s : HttpPeer) : Prop where
  messageCb : s.conn.messageCb = true
  said : ∃ resps, Said srv s resps ∧
    accepted s.conn.log = resps.flatMap serialize

theorem answering_newPeer (srv : HttpServer) : Answering srv newPeer :=
  ⟨rfl, [], .up rfl fun _ h => absurd h List.not_mem_nil, rfl⟩

theorem Refusing.moved {s t : HttpPeer} {bytes : List UInt8} (hs : Refusing s)
    (h : s.Moved bytes t) : Refusing t := by
  obtain ⟨ctx, hctx, hbad⟩ := hs.context
  refine ⟨h.silent.messageCb.trans hs.messageCb, ctx, by rw [h.own, hctx], ?_⟩
  intro x
  rw [h.input, List.append_assoc]
  exact hbad _

theorem Said.moved {srv : HttpServer} {s t : HttpPeer} {bytes : List UInt8}
    {resps : List HttpResponse} (hs : Said srv s resps) (h : s.Moved bytes t) :
    Said srv t resps := by
  have hclosed : s.conn.state ≠ .kConnected → t.conn.state ≠ .kConnected := by
    intro hs
    rcases h.state with hsame | hdown
    · rwa [hsame]
    · rw [hdown]
      nofun
  cases hs with
  | up hstate hkept =>
      rw [← h.own] at hkept ⊢
      rcases h.state with hsame | hdown
      · exact .up (hsame.trans hstate) hkept
      · exact .closed _ hdown (List.prefix_refl _) hkept
  | last hstate hlast =>
      rw [← h.own] at hlast ⊢
      exact .last (hclosed hstate) hlast
  | refused hstate hkept hbad =>
      rw [← h.own] at hkept ⊢
      exact .refused (hclosed hstate) hkept (hbad.moved h)
  | closed done hstate hdone hkept =>
      rw [← h.own] at hdone
      refine .closed done ?_ hdone hkept
      rcases h.state with hsame | hdown
      · exact hsame.trans hstate
      · exact hdown

theorem Answering.moved {srv : HttpServer} {s t : HttpPeer}
    {bytes : List UInt8} (hs : Answering srv s) (h : s.Moved bytes t) :
    Answering srv t := by
  obtain ⟨resps, hsaid, hlog⟩ := hs.said
  exact ⟨h.silent.messageCb.trans hs.messageCb, resps, hsaid.moved h,
    h.silent.accepted.trans hlog⟩

/-! ## One call -/

theorem parse_lines {ctx ctx' : HttpContext} {buf buf' : Buffer} {ok : Bool}
    (h : ctx.parse buf = (ok, ctx', buf')) :
    (HttpContext.lines (ctx, buf.readable)).ok = ok := by
  obtain ⟨b, hlines, -⟩ := HttpContext.parse_eq_lines ctx buf
  exact congrArg Prod.fst (hlines.symm.trans h)

theorem Refusing.parse {s : HttpPeer} (hs : Refusing s)
    {ctx ctx' : HttpContext} {buf : Buffer} (hctx : s.own.context = some ctx) :
    ctx.parse s.conn.inputBuffer ≠ (true, ctx', buf) := by
  intro hparse
  obtain ⟨ctx', hctx', hbad⟩ := hs.context
  obtain rfl := Option.some.inj (hctx.symm.trans hctx')
  have hno := (hbad []).1
  rw [List.append_nil] at hno
  cases hno.symm.trans (parse_lines hparse)

theorem shutdown_down (c : Connection) : c.shutdown.state ≠ .kConnected := by
  rw [Connection.shutdown]
  split
  · have hstate : ∀ c : Connection, c.shutdownInLoop.state = c.state := by
      intro c
      rw [Connection.shutdownInLoop]
      split
      · rfl
      · split <;> rfl
    rw [hstate]
    intro hup
    cases hup
  · next hdown => exact hdown

/-- A connection that is not up does not change when it is sent something, nor
when it is half-closed behind that. -/
theorem send_down {c c' : Connection} {data : List UInt8}
    {writes : List WriteRes} (hdown : c.state ≠ .kConnected)
    (h : c.send data writes = some c') :
    c'.state = c.state ∧ c'.shutdown.state = c.state := by
  have hstate := (send_frame h).2 hdown
  refine ⟨hstate, ?_⟩
  rw [Connection.shutdown, if_neg (by rwa [hstate]), hstate]

/-- The connection the callback sends on: something has been taken from its
buffer. -/
structure Taken (s : HttpPeer) (c : Connection) : Prop where
  state : c.state = s.conn.state
  messageCb : c.messageCb = s.conn.messageCb
  log : c.log = s.conn.log

/-- A text that cannot be parsed, and the answer to it. -/
theorem Answering.refused {srv : HttpServer} {s : HttpPeer}
    {writes : List WriteRes} {c₀ c : Connection} {own : HttpOwn}
    (hs : Answering srv s) (hc₀ : Taken s c₀)
    (hsend : c₀.send badRequest.serialize writes = some c)
    (hown : own.handed = s.own.handed)
    (hrefusing : Refusing { conn := c.shutdown, own := own }) :
    Answering srv { conn := c.shutdown, own := own } := by
  obtain ⟨resps, hsaid, hlog⟩ := hs.said
  have haccepted : accepted c.shutdown.log = accepted s.conn.log ++
      if s.conn.state = .kConnected then badRequest.serialize else [] := by
    rw [(Connection.silent_shutdown c).accepted,
      Connection.accepted_send hsend, hc₀.state, hc₀.log]
  refine ⟨hrefusing.messageCb, ?_⟩
  cases hsaid with
  | up hstate hkept =>
      rw [← hown] at hkept hlog
      refine ⟨_, .refused (shutdown_down c) hkept hrefusing, ?_⟩
      rw [haccepted, if_pos hstate, hlog, List.flatMap_append,
        List.flatMap_singleton]
  | last hstate hlast =>
      rw [← hown] at hlast hlog
      refine ⟨_, .last (shutdown_down c) hlast, ?_⟩
      rw [haccepted, if_neg hstate, List.append_nil, hlog]
  | refused hstate hkept =>
      rw [← hown] at hkept hlog
      refine ⟨_, .refused (shutdown_down c) hkept hrefusing, ?_⟩
      rw [haccepted, if_neg hstate, List.append_nil, hlog]
  | closed done hstate hdone hkept =>
      have hdown : s.conn.state ≠ .kConnected := by
        rw [hstate]
        nofun
      have hsame := (send_down (by rwa [hc₀.state]) hsend).2
      rw [← hown] at hdone
      refine ⟨_, .closed done ?_ hdone hkept, ?_⟩
      · rw [hsame, hc₀.state, hstate]
      · rw [haccepted, if_neg hdown, List.append_nil, hlog]

/-- A request that is complete, and its response. -/
theorem Answering.complete {srv : HttpServer} {s : HttpPeer}
    {writes : List WriteRes} {c₀ c c' : Connection} {own : HttpOwn}
    {req : HttpRequest} (hs : Answering srv s) (hc₀ : Taken s c₀)
    (hsend : c₀.send (srv.respond req).serialize writes = some c)
    (hc' : c' = if req.keepAlive then c else c.shutdown)
    (hown : own.handed = s.own.handed ++ [req]) (hfine : ¬ Refusing s) :
    Answering srv { conn := c', own := own } := by
  obtain ⟨resps, hsaid, hlog⟩ := hs.said
  have hsilent : Connection.Silent c c' := by
    rw [hc']
    split
    · exact .refl c
    · exact Connection.silent_shutdown c
  have haccepted : accepted c'.log = accepted s.conn.log ++
      if s.conn.state = .kConnected then (srv.respond req).serialize
      else [] := by
    rw [hsilent.accepted, Connection.accepted_send hsend, hc₀.state, hc₀.log]
  have hsame : s.conn.state ≠ .kConnected → c'.state = s.conn.state := by
    intro hdown
    rw [← hc₀.state] at hdown ⊢
    obtain ⟨hsent, hshut⟩ := send_down hdown hsend
    rw [hc']
    split
    · exact hsent
    · exact hshut
  refine ⟨hsilent.messageCb.trans ((Connection.calls_send hsend).1.trans
    (hc₀.messageCb.trans hs.messageCb)), ?_⟩
  cases hsaid with
  | up hstate hkept =>
      have hreplies : srv.replies own.handed =
          srv.replies s.own.handed ++ [srv.respond req] := by
        rw [hown, replies, replies, answered_kept hkept, answered_self hkept,
          List.map_append]
        congr 1
        rw [answered]
        split <;> rfl
      refine ⟨srv.replies own.handed, ?_, ?_⟩
      · by_cases hkeep : req.keepAlive = true
        · have hall : Kept own.handed := by
            rw [hown]
            intro r hr
            rcases List.mem_append.mp hr with hr | hr
            · exact hkept r hr
            · rwa [List.mem_singleton.mp hr]
          rw [if_pos hkeep] at hc'
          rcases send_state (hc₀.state.trans hstate) hsend with hup | hdown
          · exact .up (hc' ▸ hup) hall
          · exact .closed own.handed (hc' ▸ hdown) (List.prefix_refl _) hall
        · rw [if_neg hkeep] at hc'
          refine .last (hc' ▸ shutdown_down c) fun hall => hkeep (hall req ?_)
          rw [hown]
          exact List.mem_append_right _ List.mem_cons_self
      · rw [haccepted, if_pos hstate, hlog, hreplies, List.flatMap_append,
          List.flatMap_singleton]
  | last hstate hlast =>
      have hreplies : srv.replies own.handed = srv.replies s.own.handed := by
        rw [hown, replies, replies, answered_last hlast]
      refine ⟨srv.replies own.handed, .last ?_ fun hall => hlast ?_, ?_⟩
      · rwa [hsame hstate]
      · intro r hr
        refine hall r ?_
        rw [hown]
        exact List.mem_append_left _ hr
      · rw [haccepted, if_neg hstate, List.append_nil, hlog, hreplies]
  | refused _ _ hbad => exact absurd hbad hfine
  | closed done hstate hdone hkept =>
      have hdown : s.conn.state ≠ .kConnected := by
        rw [hstate]
        nofun
      refine ⟨srv.replies done, .closed done ?_ ?_ hkept, ?_⟩
      · rw [hsame hdown, hstate]
      · rw [hown]
        exact hdone.trans (List.prefix_append _ _)
      · rw [haccepted, if_neg hdown, List.append_nil, hlog]

theorem Answering.onMessage {srv : HttpServer} {s u : HttpPeer}
    {writes : List WriteRes} (hs : Answering srv s)
    (h : srv.onMessage writes s = some u) : Answering srv u := by
  have htaken : ∀ buf, Taken s { s.conn with inputBuffer := buf } :=
    fun _ => ⟨rfl, rfl, rfl⟩
  have hfine : ∀ {ctx ctx' : HttpContext} {buf : Buffer},
      s.own.context = some ctx →
      ctx.parse s.conn.inputBuffer = (true, ctx', buf) → ¬ Refusing s :=
    fun hctx hparse hbad => hbad.parse hctx hparse
  cases onMessage_handled h with
  | noContext => exact hs.moved (moved_close s)
  | refused ctx ctx' buf c hctx hparse hsend =>
      obtain ⟨-, hrefusing⟩ :=
        onMessage_refused hs.messageCb hctx (parse_lines hparse) h
      exact hs.refused (htaken buf) hsend rfl hrefusing
  | complete ctx ctx' buf c hctx hparse hgot hsend =>
      exact hs.complete (htaken buf) hsend rfl rfl (hfine hctx hparse)
  | part ctx ctx' buf hctx hparse =>
      obtain ⟨resps, hsaid, hlog⟩ := hs.said
      refine ⟨hs.messageCb, resps, ?_, hlog⟩
      cases hsaid with
      | up hstate hkept => exact .up hstate hkept
      | last hstate hlast => exact .last hstate hlast
      | refused _ _ hbad => exact absurd hbad (hfine hctx hparse)
      | closed done hstate hdone hkept =>
          exact .closed done hstate hdone hkept

theorem keeps_answering (srv : HttpServer) :
    Keeps srv.onMessage fun s _ => Answering srv s where
  moved hs h := hs.moved h
  call hs h := hs.onMessage h

section

variable {srv : HttpServer} {s : HttpPeer} {resps : List HttpResponse}

theorem Said.script (h : Said srv s resps) :
    resps <+: srv.script s.own.handed := by
  cases h with
  | up | last => exact List.prefix_append _ _
  | refused _ hkept =>
      simp only [HttpServer.script, if_pos hkept, List.prefix_refl]
  | closed done _ hdone =>
      exact (replies_mono hdone).trans (List.prefix_append _ _)

/-- Nothing that is to be answered is left out as long as the connection is
there. -/
theorem Said.replies (h : Said srv s resps)
    (hopen : s.conn.state ≠ .kDisconnected) :
    srv.replies s.own.handed <+: resps := by
  cases h with
  | up | last => exact List.prefix_refl _
  | refused => exact List.prefix_append _ _
  | closed _ hclosed => exact absurd hclosed hopen

theorem Said.fine (h : Said srv s resps) (hfine : ¬ Refusing s) :
    resps <+: srv.replies s.own.handed := by
  cases h with
  | up | last => exact List.prefix_refl _
  | refused _ _ hbad => exact absurd hbad hfine
  | closed done _ hdone => exact replies_mono hdone

/-- Whatever gets to the socket is the beginning of what was said, and as long
as the connection is not closed all of it is there or buffered. -/
theorem run_said {ls : List (Session.Label (List WriteRes))}
    (hrun : Machine.run srv.step newPeer ls = some s) :
    ∃ resps, Said srv s resps ∧
      written s.conn.log ++ s.conn.outputBuffer.readable <+:
        resps.flatMap serialize ∧
      (s.conn.state ≠ .kDisconnected →
        written s.conn.log ++ s.conn.outputBuffer.readable =
          resps.flatMap serialize) := by
  have hs : Answering srv s :=
    run_arrives (r := []) (keeps_answering srv) (answering_newPeer srv) hrun
  have hnew : newPeer.conn.New := ⟨rfl, rfl, Buffer.readable_new, rfl, rfl⟩
  have hconn := run_prefixed (scripted_onMessage srv) hnew.prefixed hrun
  obtain ⟨resps, hsaid, hlog⟩ := hs.said
  exact ⟨resps, hsaid, hlog ▸ hconn.bytes, fun hopen => hlog ▸ hconn.all hopen⟩

end

end HttpServer

/-! ## Reading it -/

namespace HttpReader

open Buffer (searchCrlf searchCrlf_append searchCrlf_lt)

theorem readHead_append {text rest : List UInt8} {head : List (List UInt8)}
    (h : readHead text = some (head, rest)) (more : List UInt8) :
    readHead (text ++ more) = some (head, rest ++ more) := by
  induction text using readHead.induct generalizing head rest with
  | case1 text hnone =>
      rw [readHead] at h
      split at h
      · cases h
      · next i hi => cases hnone.symm.trans hi
  | case2 text hzero =>
      rw [readHead] at h
      split at h
      · cases h
      · next i hi =>
          cases hzero.symm.trans hi
          cases h
          rw [readHead]
          split
          · next hnone =>
              cases (searchCrlf_append hzero more).symm.trans hnone
          · next j hj =>
              cases (searchCrlf_append hzero more).symm.trans hj
              rw [if_pos rfl, List.drop_append_of_le_length]
              have := searchCrlf_lt hzero
              omega
  | case3 text i hi hne ih =>
      rw [readHead] at h
      split at h
      · cases h
      · next j hj =>
          cases hi.symm.trans hj
          rw [if_neg hne] at h
          obtain ⟨r, hr, heq⟩ := Option.map_eq_some_iff.mp h
          cases heq
          have hlt := searchCrlf_lt hi
          have hmore := ih hr
          rw [readHead]
          split
          · next hnone => cases (searchCrlf_append hi more).symm.trans hnone
          · next k hk =>
              cases (searchCrlf_append hi more).symm.trans hk
              rw [if_neg hne, List.drop_append_of_le_length (by omega), hmore,
                List.take_append_of_le_length (by omega)]
              rfl

/-- A response that is there is there whatever comes behind it. -/
theorem readOne_append {pick : List (List UInt8) → Option (List UInt8)}
    {text rest : List UInt8} {m : Message}
    (h : readOne pick text = some (m, rest)) (more : List UInt8) :
    readOne pick (text ++ more) = some (m, rest ++ more) := by
  rw [readOne] at h
  split at h
  · cases h
  · next head behind hhead =>
      split at h
      · cases h
      · next v hv =>
          split at h
          · next hlen =>
              cases h
              rw [readOne, readHead_append hhead]
              dsimp only
              rw [hv]
              dsimp only
              rw [if_pos (by rw [List.length_append]; omega),
                List.take_append_of_le_length hlen,
                List.drop_append_of_le_length hlen]
          · cases h

/-- The responses that are there as a whole. -/
def readWhole (pick : List (List UInt8) → Option (List UInt8))
    (text : List UInt8) : List Message :=
  match _h : readOne pick text with
  | none => []
  | some (m, rest) => m :: readWhole pick rest
termination_by text.length
decreasing_by exact readOne_lt _h

theorem readWhole_cons {pick : List (List UInt8) → Option (List UInt8)}
    {text rest : List UInt8} {m : Message}
    (h : readOne pick text = some (m, rest)) :
    readWhole pick text = m :: readWhole pick rest := by
  rw [readWhole]
  split
  · next hnone => cases h.symm.trans hnone
  · next m' rest' hsome =>
      cases h.symm.trans hsome
      rfl

theorem readWhole_nil (pick : List (List UInt8) → Option (List UInt8)) :
    readWhole pick [] = [] := by
  rw [readWhole]
  split
  · rfl
  · next m rest hsome => exact absurd (readOne_lt hsome) (Nat.not_lt_zero _)

end HttpReader

namespace HttpResponse

open HttpReader

/-- As a reader has it. -/
def message (resp : HttpResponse) : Message := (resp.headLines, resp.body)

variable {pick : List (List UInt8) → Option (List UInt8)}

theorem readWhole_serialize (hpick : ∀ v, pick [v] = some v)
    {resps : List HttpResponse}
    (h : ∀ resp ∈ resps, resp.OneLined ∧ resp.Apart) :
    readWhole pick (resps.flatMap serialize) = resps.map message := by
  induction resps with
  | nil => exact readWhole_nil pick
  | cons resp resps ih =>
      obtain ⟨hone, hapart⟩ := h resp List.mem_cons_self
      rw [List.flatMap_cons,
        readWhole_cons (readOne_serialize hpick hone hapart _),
        ih fun resp hresp => h resp (List.mem_cons_of_mem _ hresp)]
      rfl

/-- A part of the text has some of the responses, from the first on. -/
theorem readWhole_part (hpick : ∀ v, pick [v] = some v)
    {resps : List HttpResponse}
    (h : ∀ resp ∈ resps, resp.OneLined ∧ resp.Apart) {text : List UInt8}
    (htext : text <+: resps.flatMap serialize) :
    readWhole pick text <+: resps.map message := by
  induction resps generalizing text with
  | nil =>
      obtain rfl := List.prefix_nil.mp htext
      rw [readWhole_nil]
      exact List.nil_prefix
  | cons resp resps ih =>
      obtain ⟨more, hmore⟩ := htext
      cases hone : readOne pick text with
      | none =>
          rw [readWhole]
          split
          · exact List.nil_prefix
          · next hsome => cases hone.symm.trans hsome
      | some out =>
          obtain ⟨m, rest⟩ := out
          obtain ⟨hlined, hapart⟩ := h resp List.mem_cons_self
          have hfirst := readOne_append hone more
          rw [hmore, List.flatMap_cons,
            readOne_serialize hpick hlined hapart] at hfirst
          obtain ⟨rfl, hrest⟩ := Prod.mk.inj (Option.some.inj hfirst)
          rw [readWhole_cons hone, List.map_cons]
          refine List.cons_prefix_cons.mpr ⟨rfl, ih ?_ ⟨more, hrest.symm⟩⟩
          exact fun resp hresp => h resp (List.mem_cons_of_mem _ hresp)

end HttpResponse

namespace HttpServer

open HttpReader HttpResponse

/-- No response of the server has anything in its head that a reader could take
for something else. -/
def Legible (srv : HttpServer) : Prop :=
  ∀ req, (srv.respond req).OneLined ∧ (srv.respond req).Apart

theorem legible_badRequest : badRequest.OneLined ∧ badRequest.Apart :=
  ⟨⟨by decide, by decide⟩, by decide⟩

theorem Legible.script {srv : HttpServer} (h : srv.Legible)
    (reqs : List HttpRequest) :
    ∀ resp ∈ srv.script reqs, resp.OneLined ∧ resp.Apart := by
  intro resp hresp
  rcases List.mem_append.mp hresp with hresp | hresp
  · obtain ⟨req, -, rfl⟩ := List.mem_map.mp hresp
    exact h req
  · split at hresp
    · rw [List.mem_singleton.mp hresp]
      exact legible_badRequest
    · cases hresp

/-- What a client has read of a connection, at any time: one response for each
request, in the order they were handed over, up to the last that is answered,
and nothing in between, and then perhaps the one to a text that was no request.
When the connection is not closed and nothing is buffered, it has read all those
to requests. -/
theorem answers_read {srv : HttpServer} (hsrv : srv.Legible)
    {pick : List (List UInt8) → Option (List UInt8)}
    (hpick : ∀ v, pick [v] = some v)
    {ls : List (Session.Label (List WriteRes))} {s : HttpPeer}
    (hrun : Machine.run srv.step newPeer ls = some s) :
    readWhole pick (written s.conn.log) <+:
        (srv.script s.own.handed).map message ∧
      (s.conn.state ≠ .kDisconnected → s.conn.outputBuffer.readable = [] →
        (srv.replies s.own.handed).map message <+:
          readWhole pick (written s.conn.log)) := by
  obtain ⟨resps, hsaid, hwritten, hopen⟩ := run_said hrun
  have hlegible : ∀ resp ∈ resps, resp.OneLined ∧ resp.Apart :=
    fun resp hresp => hsrv.script _ resp (hsaid.script.subset hresp)
  constructor
  · have hbegin : written s.conn.log <+: resps.flatMap serialize :=
      (List.prefix_append _ _).trans hwritten
    exact (readWhole_part hpick hlegible hbegin).trans
      (hsaid.script.map message)
  · intro hstate hnil
    have hall := hopen hstate
    rw [hnil, List.append_nil] at hall
    rw [hall, readWhole_serialize hpick hlegible]
    exact (hsaid.replies hstate).map message

theorem legible_plainServer : plainServer.Legible := by
  intro req
  have hheaders : (plainServer.respond req).headers =
      [(ascii "Content-Type", ascii "text/plain")] := rfl
  refine ⟨⟨(by decide : 13 ∉ ascii "OK" ∧ 10 ∉ ascii "OK"), ?_⟩, ?_⟩
  · rw [hheaders]
    decide
  · rw [Apart, hheaders]
    decide

/-- Two requests and a part of a third: the first is kept alive, and its
response comes in two pieces. The second is the last. -/
def twoAndMore : List (Session.Label (List WriteRes)) :=
  [.event { revents := EPOLLIN, reads := [.data getRoot.bytes, .stop .eagain] }
      [.accepted 20, .stop .eagain],
    .event { revents := EPOLLIN ||| EPOLLOUT,
             reads := [.data (closingRoot.bytes ++ [71]), .stop .eagain],
             writes := [.accepted 7, .eintr, .accepted 144] } []]

theorem answers_read_twoAndMore :
    ∃ s, Machine.run plainServer.step newPeer twoAndMore = some s ∧
      s.own.handed = [getRoot.request, closingRoot.request] ∧
      (plainServer.replies s.own.handed).map message <+:
        readWhole List.head? (written s.conn.log) := by
  have hany : (Machine.run plainServer.step newPeer twoAndMore).any (fun s =>
      decide (s.own.handed = [getRoot.request, closingRoot.request]) &&
      s.conn.state != .kDisconnected &&
      s.conn.outputBuffer.readable.isEmpty) = true := by
    decide +kernel
  obtain ⟨s, hrun, hs⟩ := (Option.any_eq_true _ _).mp hany
  simp only [Bool.and_eq_true, decide_eq_true_eq, bne_iff_ne,
    List.isEmpty_iff] at hs
  obtain ⟨⟨hhanded, hstate⟩, hnil⟩ := hs
  exact ⟨s, hrun, hhanded,
    (answers_read legible_plainServer (fun _ => rfl) hrun).2 hstate hnil⟩

end HttpServer

end GameFrame
