import GameFrame.Proofs.HttpAnswers

/-!
# Requests and what comes back

A client that writes well-formed requests, one behind the other, on a
connection of an `HttpServer`. Which of them have been handed over at some time
depends on how the stream is cut. But it is always the first so many of those
that have arrived as a whole (`run_follows`), so nothing is refused, and what
the client reads is the response to its first request, then that to its second,
and so on, at any time and however both directions are cut
(`requests_answered`).
-/

namespace GameFrame.HttpServer

open Session HttpReader HttpResponse

/-- Some of the requests have been handed over, the first so many, and the
parser has the bytes behind them. -/
structure Follows (texts : List RequestText) (r : List UInt8) (s : HttpPeer) :
    Prop where
  cut : ∃ done ts p, texts = done ++ ts ∧ r = stream done ++ p ∧
    s.own.handed = done.map RequestText.request ∧ Waits s p

theorem Waits.moved {s t : HttpPeer} {p bytes : List UInt8} (hs : Waits s p)
    (h : s.Moved bytes t) : Waits t (p ++ bytes) := by
  obtain ⟨ctx, hctx, hgot, hgo⟩ := hs.context
  refine ⟨h.silent.messageCb.trans hs.messageCb, ctx, by rw [h.own, hctx],
    hgot, fun x => ?_⟩
  rw [h.input, List.append_assoc, hgo, List.append_assoc]

/-- A part of the stream has nothing in it that is refused, and what it
completes is the next request. -/
theorem lines_begins {ts : List RequestText} {p : List UInt8}
    (hp : p <+: stream ts) :
    (HttpContext.lines ({}, p)).ok = true ∧
      ((HttpContext.lines ({}, p)).rest.1.gotAll = true →
        ∃ t ts' u, ts = t :: ts' ∧ p = t.bytes ++ u ∧
          HttpContext.lines ({}, p) =
            ⟨true, [], (⟨.kGotAll, t.request⟩, u)⟩) := by
  cases hnew : completed ts p.length with
  | nil =>
      obtain ⟨hok, hgot⟩ := lines_incomplete hp hnew
      exact ⟨hok, fun hall => by cases hgot.symm.trans hall⟩
  | cons t more =>
      obtain ⟨ts', rfl, hle, -⟩ := completed_cons hnew
      obtain ⟨u, rfl⟩ : t.bytes <+: p :=
        List.prefix_of_prefix_length_le (List.prefix_append _ _) hp hle
      have hlines := HttpContext.lines_text t u
      rw [hlines]
      exact ⟨rfl, fun _ => ⟨t, ts', u, rfl, rfl, rfl⟩⟩

theorem Follows.call {srv : HttpServer} {texts : List RequestText}
    {r : List UInt8} {s u : HttpPeer} {writes : List WriteRes}
    (hs : Follows texts r s) (hr : r <+: stream texts)
    (h : srv.onMessage writes s = some u) : Follows texts r u := by
  obtain ⟨done, ts, p, rfl, rfl, hhanded, hwaits⟩ := hs.cut
  rw [stream_append, List.prefix_append_right_inj] at hr
  obtain ⟨hok, hnext⟩ := lines_begins hr
  cases onMessage_took hwaits hok h with
  | part _ hsame hwaits =>
      exact ⟨done, ts, p, rfl, rfl, hsame.trans hhanded, hwaits⟩
  | one hgot hhanded' hwaits =>
      obtain ⟨t, ts', u, rfl, rfl, hlines⟩ := hnext hgot
      rw [hlines] at hhanded' hwaits
      refine ⟨done ++ [t], ts', u, ?_, ?_, ?_, hwaits⟩
      · rw [List.append_assoc]
        rfl
      · have hone : stream [t] = t.bytes := List.append_nil _
        rw [stream_append, hone, List.append_assoc]
      · rw [hhanded', hhanded, List.map_append]
        rfl

theorem keeps_follows (srv : HttpServer) (texts : List RequestText) :
    Keeps srv.onMessage fun s r => r <+: stream texts → Follows texts r s where
  moved hs h hr := by
    obtain ⟨done, ts, p, htexts, rfl, hhanded, hwaits⟩ :=
      (hs ((List.prefix_append _ _).trans hr)).cut
    refine ⟨done, ts, _, htexts, List.append_assoc _ _ _, ?_, hwaits.moved h⟩
    rw [h.own, hhanded]
  call hs h hr := (hs hr).call hr h

theorem run_follows {srv : HttpServer} {texts : List RequestText}
    {ls : List (Session.Label (List WriteRes))} {s : HttpPeer}
    (hrun : Machine.run srv.step newPeer ls = some s)
    (hstream : arrived srv.onMessage newPeer ls <+: stream texts) :
    Follows texts (arrived srv.onMessage newPeer ls) s := by
  have hnew : Follows texts [] newPeer :=
    ⟨[], texts, [], rfl, rfl, rfl, waits_newPeer⟩
  exact run_arrives (r := []) (keeps_follows srv texts) (fun _ => hnew) hrun
    hstream

/-- Nothing of a well-formed stream is refused. -/
theorem Follows.fine {texts : List RequestText} {r : List UInt8}
    {s : HttpPeer} (hs : Follows texts r s) (hr : r <+: stream texts) :
    ¬ Refusing s := by
  intro hbad
  obtain ⟨done, ts, p, rfl, rfl, -, hwaits⟩ := hs.cut
  rw [stream_append, List.prefix_append_right_inj] at hr
  obtain ⟨ctx, hctx, -, hlines⟩ := hwaits.lines
  obtain ⟨ctx', hctx', hno⟩ := hbad.context
  obtain rfl := Option.some.inj (hctx.symm.trans hctx')
  have hno := (hno []).1
  rw [List.append_nil, hlines, (lines_begins hr).1] at hno
  cases hno

/-- The requests that have arrived as a whole. -/
def complete (texts : List RequestText) (received : List UInt8) :
    List HttpRequest :=
  (completed texts received.length).map RequestText.request

theorem Follows.complete {texts : List RequestText} {r : List UInt8}
    {s : HttpPeer} (hs : Follows texts r s) :
    s.own.handed <+: complete texts r := by
  obtain ⟨done, ts, p, rfl, rfl, hhanded, -⟩ := hs.cut
  rw [HttpServer.complete, List.length_append, completed_append,
    List.map_append, hhanded]
  exact List.prefix_append _ _

/-- What a client has read of a well-formed stream's responses, against what was
handed over. -/
theorem Follows.read {srv : HttpServer} (hsrv : srv.Legible)
    {pick : List (List UInt8) → Option (List UInt8)}
    (hpick : ∀ v, pick [v] = some v) {texts : List RequestText}
    {r : List UInt8} {ls : List (Session.Label (List WriteRes))} {s : HttpPeer}
    (hrun : Machine.run srv.step newPeer ls = some s) (hs : Follows texts r s)
    (hr : r <+: stream texts) :
    readWhole pick (written s.conn.log) <+:
        (srv.replies s.own.handed).map message ∧
      (s.conn.state ≠ .kDisconnected → s.conn.outputBuffer.readable = [] →
        readWhole pick (written s.conn.log) =
          (srv.replies s.own.handed).map message) := by
  obtain ⟨resps, hsaid, hwritten, hopen⟩ := run_said hrun
  have hfine := hsaid.fine (hs.fine hr)
  have hlegible : ∀ resp ∈ resps, resp.OneLined ∧ resp.Apart :=
    fun resp hresp => hsrv.script _ resp (hsaid.script.subset hresp)
  constructor
  · have hbegin : written s.conn.log <+: resps.flatMap serialize :=
      (List.prefix_append _ _).trans hwritten
    exact (readWhole_part hpick hlegible hbegin).trans (hfine.map message)
  · intro hstate hnil
    have hall := hopen hstate
    rw [hnil, List.append_nil] at hall
    rw [hall, readWhole_serialize hpick hlegible]
    have hlen := (hsaid.replies hstate).length_le
    rw [hfine.eq_of_length_le hlen]

/-- Of a well-formed stream the requests that are handed over are the first so
many of those that have arrived as a whole. The responses that a client has
read are those to its requests, one each and in the order it sent them, from
the first on up to one that is not kept alive; and when nothing is buffered it
has read the response to each that was handed over. -/
theorem requests_answered {srv : HttpServer} (hsrv : srv.Legible)
    {pick : List (List UInt8) → Option (List UInt8)}
    (hpick : ∀ v, pick [v] = some v) {texts : List RequestText}
    {ls : List (Session.Label (List WriteRes))} {s : HttpPeer}
    (hrun : Machine.run srv.step newPeer ls = some s)
    (hstream : arrived srv.onMessage newPeer ls <+: stream texts) :
    s.own.handed <+: complete texts (arrived srv.onMessage newPeer ls) ∧
      readWhole pick (written s.conn.log) <+:
        (srv.replies (complete texts (arrived srv.onMessage newPeer ls))).map
          message ∧
      (s.conn.state ≠ .kDisconnected → s.conn.outputBuffer.readable = [] →
        readWhole pick (written s.conn.log) =
          (srv.replies s.own.handed).map message) := by
  have hs := run_follows hrun hstream
  obtain ⟨hread, hall⟩ := hs.read hsrv hpick hrun hstream
  have hmore : srv.replies s.own.handed <+:
      srv.replies (complete texts (arrived srv.onMessage newPeer ls)) :=
    replies_mono hs.complete
  exact ⟨hs.complete, hread.trans (hmore.map message), hall⟩

/-- The two requests and the first byte of the third. -/
theorem requests_answered_twoAndMore :
    ∃ s, Machine.run plainServer.step newPeer twoAndMore = some s ∧
      s.own.handed.length = 2 ∧
      readWhole List.head? (written s.conn.log) =
        (plainServer.replies s.own.handed).map message := by
  have hany : (Machine.run plainServer.step newPeer twoAndMore).any (fun s =>
      s.own.handed.length == 2 && s.conn.state != .kDisconnected &&
      s.conn.outputBuffer.readable.isEmpty) = true := by
    decide +kernel
  have hstream : arrived plainServer.onMessage newPeer twoAndMore <+:
      stream [getRoot, closingRoot, getRoot] :=
    List.isPrefixOf_iff_prefix.mp (by decide +kernel)
  obtain ⟨s, hrun, hs⟩ := (Option.any_eq_true _ _).mp hany
  simp only [Bool.and_eq_true, beq_iff_eq, bne_iff_ne, List.isEmpty_iff] at hs
  obtain ⟨⟨htwo, hstate⟩, hnil⟩ := hs
  exact ⟨s, hrun, htwo,
    (requests_answered legible_plainServer (fun _ => rfl) hrun hstream).2.2
      hstate hnil⟩

end GameFrame.HttpServer
