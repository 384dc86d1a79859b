import GameFrame.Proofs.HttpChunks
import GameFrame.Proofs.HttpPipeline

/-!
# After the last request

A response that ends its connection is followed by a half-close, and a
half-close stops writing only. The connection still reads, and the parser has
been reset for the next request whatever the last one said. So if the bytes
behind the last request make another one, the next batch hands it over, be it
the empty one at the end of the stream (`last_followed`). Its response goes
nowhere.

After a text that cannot be parsed that does not happen. The parser is not
reset then, and it takes nothing from a line it refuses: it meets the same line
with every batch (`Refusing`).
-/

namespace GameFrame

namespace HttpContext

open Buffer Feed

/-- A parser that refused refuses again, whatever arrives. -/
theorem lines_refused {r : Pos} (h : (lines r).ok = false) (x : List UInt8) :
    (lines (push (lines r).rest x)).ok = false ∧
      (lines (push (lines r).rest x)).rest.1.gotAll = false := by
  fun_induction lines r with
  | case1 r hgot => cases h
  | case2 r hgot hnone => cases h
  | case3 r hgot i hi hgood ih => exact ih h
  | case4 r hgot i hi hbad =>
      have hline : r.1.line (r.2.take i) =
          (false, (r.1.line (r.2.take i)).2) :=
        Prod.ext (by simpa using hbad) rfl
      obtain ⟨hsame, hagain⟩ := line_refused hline
      have hgot' : (r.1.line (r.2.take i)).2.gotAll = false := by
        simpa [gotAll, hsame] using hgot
      have hline' : (r.1.line (r.2.take i)).2.line (r.2.take i) =
          (false, ((r.1.line (r.2.take i)).2.line (r.2.take i)).2) :=
        Prod.ext hagain rfl
      have hstays := (line_refused hline').1
      rw [lines_append (r := ((r.1.line (r.2.take i)).2, r.2)) hgot' hi,
        if_neg (by simp [hagain])]
      refine ⟨rfl, ?_⟩
      simpa [gotAll, hstays] using hgot'

theorem lines_refused_gotAll {r : Pos} (h : (lines r).ok = false) :
    (lines r).rest.1.gotAll = false := by
  cases hgot : (lines r).rest.1.gotAll with
  | false => rfl
  | true =>
      have hagain := (lines_refused h []).1
      rw [pushes_push.nil, lines_gotAll hgot] at hagain
      cases hagain

end HttpContext

namespace HttpServer

open Session Feed

/-! ## Last requests -/

/-- The requests `http_cb_` was called with. -/
def httpCbCalls (srv : HttpServer) (s : HttpPeer) : List HttpRequest :=
  match srv.httpCb with
  | none => []
  | some _ => s.own.handed

/-- The batch holds the last request of its connection: one that is handed over
and is not to be kept alive, or something that cannot be parsed. -/
inductive Ends (s : HttpPeer) (b : Batch) (s' : HttpPeer) : Prop where
  | closing (req : HttpRequest) : req.keepAlive = false →
      s'.own.handed = s.own.handed ++ [req] → Ends s b s'
  | refused (ctx : HttpContext) (buf : Buffer) :
      readStop b.reads ≠ some .fatal → s.own.context = some ctx →
      buf.readable = s.input ++ readBytes b.reads →
      (ctx.parse buf).1 = false → Ends s b s'

/-- The batches the callback is called for: those that no error ended. -/
def heard (bs : List Batch) : List Batch :=
  bs.filter fun b => readStop b.reads ≠ some .fatal

/-- What is in the buffer already, and what comes behind it, makes another
request. -/
def Another (s : HttpPeer) (bs : List Batch) : Prop :=
  heard bs ≠ [] ∧
    ∃ ctx buf, s.own.context = some ctx ∧
      buf.readable = s.input ++ bytes (heard bs) ∧
      (ctx.parse buf).2.1.gotAll = true

/-- `GET / HTTP/1.0`, which is not kept alive. -/
def closingRoot : RequestText :=
  { getRoot with version := .kHttp10, version_ok := by intro h; cases h }

def plainServer : HttpServer where
  httpCb := some fun _ resp => resp

def closingBatch (data : List UInt8) : Batch where
  reads := [.data data, .stop .eagain]
  writes :=
    [.accepted (plainServer.respond closingRoot.request).serialize.length]

/-- A request in one batch with the last, and then the end of the stream. -/
theorem last_followed :
    ¬ ∀ (srv : HttpServer) (bs₁ bs₂ : List Batch) (b : Batch)
      (s s' t : HttpPeer), Machine.run srv.receive newPeer bs₁ = some s →
      srv.receive s b = some s' → Machine.run srv.receive s' bs₂ = some t →
      Ends s b s' → httpCbCalls srv t = httpCbCalls srv s' := by
  intro hall
  have hboth : (plainServer.receive newPeer
      (closingBatch (closingRoot.bytes ++ getRoot.bytes))).any (fun s =>
        s.own.handed = [closingRoot.request] ∧
        (Machine.run plainServer.receive s [{ reads := [.stop .eof] }]).any
          (fun t => t.own.handed = [closingRoot.request, getRoot.request])) =
      true := by
    decide +kernel
  obtain ⟨s, hs, hone⟩ := (Option.any_eq_true _ _).mp hboth
  obtain ⟨hone, htwo⟩ := of_decide_eq_true hone
  obtain ⟨t, ht, htwo⟩ := (Option.any_eq_true _ _).mp htwo
  have htwo := of_decide_eq_true htwo
  have hsame := hall plainServer [] _ _ newPeer s t rfl hs ht
    (.closing closingRoot.request (by decide) hone)
  have hsame : t.own.handed = s.own.handed := hsame
  rw [hone, htwo] at hsame
  cases hsame

/-! ## Behind a text that cannot be parsed -/

/-- The parser refuses what is in the buffer, whatever comes behind it. -/
structure Refusing (s : HttpPeer) : Prop where
  messageCb : s.conn.messageCb = true
  context : ∃ ctx, s.own.context = some ctx ∧ ∀ x,
    (HttpContext.lines (ctx, s.input ++ x)).ok = false ∧
      (HttpContext.lines (ctx, s.input ++ x)).rest.1.gotAll = false

theorem Refusing.close {s : HttpPeer} (h : Refusing s) : Refusing s.close := by
  refine ⟨(Connection.close_messageCb _).trans h.messageCb, ?_⟩
  have hinput : s.close.input = s.input :=
    congrArg Buffer.readable (Connection.close_inputBuffer s.conn)
  rw [hinput]
  exact h.context

/-- One call that refuses. -/
theorem onMessage_refused {srv : HttpServer} {writes : List WriteRes}
    {s u : HttpPeer} {ctx : HttpContext} (hcb : s.conn.messageCb = true)
    (hctx : s.own.context = some ctx)
    (hbad : (HttpContext.lines (ctx, s.input)).ok = false)
    (h : srv.onMessage writes s = some u) :
    u.own.handed = s.own.handed ∧ Refusing u := by
  obtain ⟨b, hlines, hrest⟩ :=
    HttpContext.parse_eq_lines ctx s.conn.inputBuffer
  have hnot : ∀ {k ctx' : HttpContext} {buf : Buffer},
      s.own.context = some k →
      k.parse s.conn.inputBuffer ≠ (true, ctx', buf) := by
    intro k ctx' buf hk hparse
    obtain rfl : ctx = k := Option.some.inj (hctx.symm.trans hk)
    have hok := congrArg Prod.fst (hlines.symm.trans hparse)
    cases hbad.symm.trans hok
  cases onMessage_handled h with
  | noContext hnone => cases hctx.symm.trans hnone
  | refused k ctx' buf c hk hparse hsend =>
      obtain rfl : ctx = k := Option.some.inj (hctx.symm.trans hk)
      have heq := hlines.symm.trans hparse
      simp only [Prod.mk.injEq] at heq
      obtain ⟨-, rfl, rfl⟩ := heq
      obtain ⟨hinput, hsame⟩ := send_input hsend
      obtain ⟨hinput', hsame'⟩ := shutdown_input c
      refine ⟨rfl, hsame'.trans (hsame.trans hcb), _, rfl, ?_⟩
      intro x
      have hleft : c.shutdown.inputBuffer.readable =
          (HttpContext.lines (ctx, s.input)).rest.2 := by
        rw [hinput', hinput]
        exact hrest
      have hagain := HttpContext.lines_refused hbad x
      rw [HttpContext.push, ← hleft] at hagain
      exact hagain
  | complete k ctx' buf c hk hparse => exact absurd hparse (hnot hk)
  | part k ctx' buf hk hparse => exact absurd hparse (hnot hk)

/-- A batch whose bytes the parser refuses. -/
theorem receive_refused {srv : HttpServer} {s s' : HttpPeer} {b : Batch}
    {ctx : HttpContext} (hcb : s.conn.messageCb = true)
    (hctx : s.own.context = some ctx) (hstop : readStop b.reads ≠ some .fatal)
    (hbad : (HttpContext.lines (ctx, s.input ++ readBytes b.reads)).ok = false)
    (h : srv.receive s b = some s') :
    s'.own.handed = s.own.handed ∧ Refusing s' := by
  rw [receive] at h
  split at h
  · cases h
  · obtain ⟨t, u, hread, hcall, hend⟩ := handleRead_batch hcb hstop h
    have hinput := hread.input
    have hlast : u.own.handed = s.own.handed ∧ Refusing u := by
      rcases hcall with ⟨-, hu⟩ | ⟨hnil, -⟩
      · rw [← hinput] at hbad
        obtain ⟨hsame, hu⟩ := onMessage_refused (hread.messageCb.trans hcb)
          (by rw [hread.own, hctx]) hbad hu
        exact ⟨by rw [hsame, hread.own], hu⟩
      · rw [← hinput, hnil, HttpContext.lines_none rfl] at hbad
        cases hbad
    rcases hend with ⟨-, rfl⟩ | ⟨-, rfl⟩
    · exact hlast
    · exact ⟨hlast.1, hlast.2.close⟩

theorem receive_fatal {srv : HttpServer} {s s' : HttpPeer} {b : Batch}
    (hstop : readStop b.reads = some .fatal) (h : srv.receive s b = some s') :
    s'.own = s.own ∧ s'.conn.state = .kDisconnected := by
  rw [receive] at h
  split at h
  · cases h
  · exact handleRead_fatal hstop h

theorem run_closed {srv : HttpServer} {s t : HttpPeer} {bs : List Batch}
    (hclosed : s.conn.state = .kDisconnected)
    (h : Machine.run srv.receive s bs = some t) : bs = [] ∧ t = s := by
  cases bs with
  | nil => exact ⟨rfl, by simpa using h.symm⟩
  | cons b bs =>
      obtain ⟨s', hs', -⟩ := Machine.run_cons_some.mp h
      rw [receive, if_pos hclosed] at hs'
      cases hs'

theorem Refusing.run {srv : HttpServer} {bs : List Batch} :
    ∀ {s t : HttpPeer}, Refusing s →
      Machine.run srv.receive s bs = some t →
      t.own.handed = s.own.handed := by
  induction bs with
  | nil =>
      intro s t _ h
      obtain rfl : s = t := by simpa using h
      rfl
  | cons b bs ih =>
      intro s t hs h
      obtain ⟨s', hs', h⟩ := Machine.run_cons_some.mp h
      by_cases hstop : readStop b.reads = some .fatal
      · obtain ⟨hown, hclosed⟩ := receive_fatal hstop hs'
        obtain ⟨-, rfl⟩ := run_closed hclosed h
        rw [hown]
      · obtain ⟨ctx, hctx, hbad⟩ := hs.context
        obtain ⟨hsame, hs'⟩ :=
          receive_refused hs.messageCb hctx hstop (hbad _).1 hs'
        rw [ih hs' h, hsame]

/-! ## Behind a request -/

theorem receive_grows {srv : HttpServer} {s s' : HttpPeer} {b : Batch}
    (h : srv.receive s b = some s') : s.own.handed <+: s'.own.handed := by
  rw [receive] at h
  split at h
  · cases h
  · refine handleRead_own
      (R := fun own own' => own.handed <+: own'.handed)
      (fun _ => List.prefix_refl _) ?_ h
    intro t u hu
    cases onMessage_handled hu with
    | noContext | refused | part => exact List.prefix_refl _
    | complete => exact List.prefix_append _ _

theorem run_grows {srv : HttpServer} {s t : HttpPeer} {bs : List Batch}
    (h : Machine.run srv.receive s bs = some t) :
    s.own.handed <+: t.own.handed := by
  refine Machine.run_preserves (P := fun u => s.own.handed <+: u.own.handed)
    ?_ (List.prefix_refl _) h
  intro u b u' hu hstep
  exact hu.trans (receive_grows hstep)

/-- One batch, for a parser that waits for a request. -/
inductive Received (s : HttpPeer) (p : List UInt8) (b : Batch)
    (s' : HttpPeer) : Prop where
  | closed : readStop b.reads = some .fatal → s'.own = s.own →
      s'.conn.state = .kDisconnected → Received s p b s'
  | refused : readStop b.reads ≠ some .fatal →
      (HttpContext.lines ({}, p ++ readBytes b.reads)).ok = false →
      s'.own.handed = s.own.handed → Refusing s' → Received s p b s'
  | took : readStop b.reads ≠ some .fatal →
      (HttpContext.lines ({}, p ++ readBytes b.reads)).ok = true →
      Took s (HttpContext.lines ({}, p ++ readBytes b.reads))
        (p ++ readBytes b.reads) s' → Received s p b s'

theorem Waits.receive {srv : HttpServer} {s s' : HttpPeer} {b : Batch}
    {p : List UInt8} (hs : Waits s p) (h : srv.receive s b = some s') :
    Received s p b s' := by
  by_cases hstop : readStop b.reads = some .fatal
  · obtain ⟨hown, hclosed⟩ := receive_fatal hstop h
    exact .closed hstop hown hclosed
  · cases hok : (HttpContext.lines ({}, p ++ readBytes b.reads)).ok with
    | true => exact .took hstop hok (receive_took hs hstop hok h)
    | false =>
        obtain ⟨ctx, hctx, -, hgo⟩ := hs.context
        obtain ⟨hsame, hs'⟩ := receive_refused hs.messageCb hctx hstop
          ((congrArg Outcome.ok (hgo _)).trans hok) h
        exact .refused hstop hok hsame hs'

theorem heard_fatal {b : Batch} (h : readStop b.reads = some .fatal)
    (bs : List Batch) : heard (b :: bs) = heard bs :=
  List.filter_cons_of_neg (by simp [h])

theorem heard_cons {b : Batch} (h : readStop b.reads ≠ some .fatal)
    (bs : List Batch) : heard (b :: bs) = b :: heard bs :=
  List.filter_cons_of_pos (by simp [h])

/-- Nothing is handed over if and only if nothing is completed. -/
theorem Waits.run {srv : HttpServer} {bs : List Batch} :
    ∀ {s t : HttpPeer} {p : List UInt8}, Waits s p →
      Machine.run srv.receive s bs = some t →
      (t.own.handed = s.own.handed ↔
        ¬ (heard bs ≠ [] ∧
          (HttpContext.lines ({}, p ++ bytes (heard bs))).rest.1.gotAll =
            true)) := by
  induction bs with
  | nil =>
      intro s t p _ h
      obtain rfl : s = t := by simpa using h
      simp [heard]
  | cons b bs ih =>
      intro s t p hs h
      obtain ⟨s', hs', h⟩ := Machine.run_cons_some.mp h
      have hbytes : p ++ bytes (b :: heard bs) =
          p ++ readBytes b.reads ++ bytes (heard bs) := by
        rw [List.append_assoc]
        rfl
      cases hs.receive hs' with
      | closed hstop hown hclosed =>
          obtain ⟨rfl, rfl⟩ := run_closed hclosed h
          rw [heard_fatal hstop, hown]
          simp [heard]
      | refused hstop hbad hsame hs' =>
          rw [heard_cons hstop, hbytes]
          refine iff_of_true ((hs'.run h).trans hsame) ?_
          have hrest := HttpContext.lines_resumable.refuse _
            (bytes (heard bs)) hbad
          rintro ⟨-, hgot⟩
          have hgot' : (HttpContext.lines (HttpContext.push
            ({}, p ++ readBytes b.reads) (bytes (heard bs)))).rest.1.gotAll =
              true := hgot
          rw [hrest] at hgot'
          cases (HttpContext.lines_refused_gotAll hbad).symm.trans hgot'
      | took hstop hok htook =>
          rw [heard_cons hstop, hbytes]
          cases htook with
          | part hgot hsame hs' =>
              rw [← hsame, ih hs' h]
              refine not_congr (and_congr_left fun hlater => ?_)
              refine iff_of_true (fun hnil => ?_) (List.cons_ne_nil _ _)
              rw [hnil, bytes, List.flatMap_nil, List.append_nil, hgot] at hlater
              cases hlater
          | one hgot hhanded hs' =>
              refine iff_of_false ?_ ?_
              · intro hsame
                have hle := (run_grows h).length_le
                rw [hsame, hhanded, List.length_append,
                  List.length_singleton] at hle
                omega
              · intro hnot
                refine hnot ⟨List.cons_ne_nil _ _, ?_⟩
                have hmore := HttpContext.lines_resume hok (bytes (heard bs))
                rw [HttpContext.lines_gotAll (by exact hgot)] at hmore
                have hgot' := congrArg (·.rest.1.gotAll) hmore
                exact hgot'.symm.trans hgot

/-! ## The last request -/

theorem parse_gotAll (ctx : HttpContext) (buf : Buffer) :
    (ctx.parse buf).1 = (HttpContext.lines (ctx, buf.readable)).ok ∧
      (ctx.parse buf).2.1 =
        (HttpContext.lines (ctx, buf.readable)).rest.1 := by
  obtain ⟨b, hparse, -⟩ := HttpContext.parse_eq_lines ctx buf
  rw [hparse]
  exact ⟨rfl, rfl⟩

theorem Waits.another {s : HttpPeer} {p : List UInt8} (hs : Waits s p)
    (bs : List Batch) :
    Another s bs ↔ heard bs ≠ [] ∧
      (HttpContext.lines ({}, p ++ bytes (heard bs))).rest.1.gotAll = true := by
  obtain ⟨ctx, hctx, -, hgo⟩ := hs.context
  refine and_congr_right fun _ => ⟨?_, ?_⟩
  · rintro ⟨k, buf, hk, hbuf, hgot⟩
    obtain rfl : ctx = k := Option.some.inj (hctx.symm.trans hk)
    rw [(parse_gotAll ctx buf).2, hbuf, hgo] at hgot
    exact hgot
  · intro hgot
    refine ⟨ctx, Buffer.new.append (s.input ++ bytes (heard bs)), hctx, ?_, ?_⟩
    · rw [Buffer.readable_append, Buffer.readable_new, List.nil_append]
    · rw [(parse_gotAll ctx _).2, Buffer.readable_append, Buffer.readable_new,
        List.nil_append, hgo]
      exact hgot

theorem Refusing.not_another {s : HttpPeer} (hs : Refusing s)
    (bs : List Batch) : ¬ Another s bs := by
  obtain ⟨ctx, hctx, hbad⟩ := hs.context
  rintro ⟨-, k, buf, hk, hbuf, hgot⟩
  obtain rfl : ctx = k := Option.some.inj (hctx.symm.trans hk)
  rw [(parse_gotAll ctx buf).2, hbuf, (hbad _).2] at hgot
  cases hgot

/-- Where the batches of a connection leave it. -/
inductive Stands (s : HttpPeer) : Prop where
  | waits (p : List UInt8) : Waits s p → Stands s
  | refusing : Refusing s → Stands s
  | closed : s.conn.state = .kDisconnected → Stands s

theorem Stands.receive {srv : HttpServer} {s s' : HttpPeer} {b : Batch}
    (h : Stands s) (hs' : srv.receive s b = some s') : Stands s' := by
  cases h with
  | waits p hs =>
      cases hs.receive hs' with
      | closed _ _ hclosed => exact .closed hclosed
      | refused _ _ _ hs' => exact .refusing hs'
      | took _ _ htook =>
          cases htook with
          | part _ _ hs' => exact .waits _ hs'
          | one _ _ hs' => exact .waits _ hs'
  | refusing hs =>
      by_cases hstop : readStop b.reads = some .fatal
      · exact .closed (receive_fatal hstop hs').2
      · obtain ⟨ctx, hctx, hbad⟩ := hs.context
        exact .refusing
          (receive_refused hs.messageCb hctx hstop (hbad _).1 hs').2
  | closed hclosed =>
      rw [HttpServer.receive, if_pos hclosed] at hs'
      cases hs'

theorem run_stands {srv : HttpServer} {bs : List Batch} {s : HttpPeer}
    (h : Machine.run srv.receive newPeer bs = some s) : Stands s :=
  Machine.run_preserves Stands.receive (.waits [] waits_newPeer) h

/-- After the last request, the connection waits for another. -/
theorem closing_waits {srv : HttpServer} {s s' : HttpPeer} {b : Batch}
    (h : Stands s) (hs' : srv.receive s b = some s')
    (hnew : s'.own.handed ≠ s.own.handed) : ∃ p, Waits s' p := by
  cases h with
  | waits p hs =>
      cases hs.receive hs' with
      | closed _ hown => exact absurd (by rw [hown]) hnew
      | refused _ _ hsame => exact absurd hsame hnew
      | took _ _ htook =>
          cases htook with
          | part _ hsame => exact absurd hsame hnew
          | one _ _ hs' => exact ⟨_, hs'⟩
  | refusing hs =>
      have hone : Machine.run srv.receive s [b] = some s' :=
        Machine.run_cons_some.mpr ⟨s', hs', rfl⟩
      exact absurd (hs.run hone) hnew
  | closed hclosed =>
      rw [HttpServer.receive, if_pos hclosed] at hs'
      cases hs'

theorem Stands.messageCb {srv : HttpServer} {s s' : HttpPeer} {b : Batch}
    (h : Stands s) (hs' : srv.receive s b = some s') :
    s.conn.messageCb = true := by
  cases h with
  | waits p hs => exact hs.messageCb
  | refusing hs => exact hs.messageCb
  | closed hclosed =>
      rw [HttpServer.receive, if_pos hclosed] at hs'
      cases hs'

/-- Behind the last request `http_cb_` is not called again if and only if there
is no other request behind it. -/
theorem ended_iff {srv : HttpServer} {bs₁ bs₂ : List Batch} {b : Batch}
    {s s' t : HttpPeer} (hbefore : Machine.run srv.receive newPeer bs₁ = some s)
    (hb : srv.receive s b = some s')
    (hafter : Machine.run srv.receive s' bs₂ = some t) (hends : Ends s b s') :
    httpCbCalls srv t = httpCbCalls srv s' ↔
      srv.httpCb = none ∨ ¬ Another s' bs₂ := by
  have hstands := run_stands hbefore
  have hhanded : t.own.handed = s'.own.handed ↔ ¬ Another s' bs₂ := by
    cases hends with
    | closing req hkeep hreq =>
        obtain ⟨p, hs'⟩ := closing_waits hstands hb (by simp [hreq])
        rw [hs'.another]
        exact hs'.run hafter
    | refused ctx buf hstop hctx hbuf hbad =>
        rw [(parse_gotAll ctx buf).1, hbuf] at hbad
        have hs' := (receive_refused (hstands.messageCb hb) hctx hstop hbad hb).2
        exact iff_of_true (hs'.run hafter) (hs'.not_another bs₂)
  rw [httpCbCalls, httpCbCalls]
  cases srv.httpCb with
  | none => simp
  | some cb => simpa using hhanded

/-- A last request with a part of another behind it. -/
theorem ended_iff_part :
    ∃ s' t, plainServer.receive newPeer (closingBatch closingRoot.bytes) =
        some s' ∧
      Machine.run plainServer.receive s'
        [{ reads := [.data (getRoot.bytes.take 5), .stop .eof] }] = some t ∧
      httpCbCalls plainServer t = httpCbCalls plainServer s' := by
  have hboth : (plainServer.receive newPeer
      (closingBatch closingRoot.bytes)).any (fun s =>
        (s.own.handed = [closingRoot.request] ∧ s.input = [] ∧
          s.own.context = some {}) ∧
        (Machine.run plainServer.receive s
          [{ reads := [.data (getRoot.bytes.take 5), .stop .eof] }]).isSome) =
      true := by
    decide +kernel
  obtain ⟨s', hs', hafter⟩ := (Option.any_eq_true _ _).mp hboth
  obtain ⟨⟨hone, hnil, hctx⟩, hafter⟩ := of_decide_eq_true hafter
  obtain ⟨t, ht⟩ := Option.isSome_iff_exists.mp hafter
  have hnew : Machine.run plainServer.receive newPeer [] = some newPeer := rfl
  refine ⟨s', t, hs', ht, (ended_iff hnew hs' ht
    (.closing closingRoot.request (by decide) hone)).mpr (.inr ?_)⟩
  rintro ⟨-, k, buf, hk, hbuf, hgot⟩
  cases hk.symm.trans hctx
  have hnone : Buffer.searchCrlf buf.readable = none := by
    rw [hbuf, hnil]
    decide
  rw [(parse_gotAll {} buf).2, HttpContext.lines_none hnone] at hgot
  cases hgot

end HttpServer

end GameFrame
