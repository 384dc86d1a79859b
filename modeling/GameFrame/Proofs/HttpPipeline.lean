import GameFrame.Http.HttpServer
import GameFrame.Proofs.ConnectionCalls
import GameFrame.Proofs.HttpText
import GameFrame.Proofs.SessionBatches

/-!
# One request a batch

`on_message` parses once, and hands one request to `on_request` at most. If the
batch has two, the second stays in the buffer, complete, until the peer sends
something more; a peer that waits for its answer does not (`request_waits`).

So the requests are handed over as they arrive if and only if no batch
completes more than one of them (`handed_iff`). It does not matter where they
are cut.
-/

namespace GameFrame.HttpServer

open Session Feed

/-- Requests, one behind the other. -/
def stream (texts : List RequestText) : List UInt8 :=
  texts.flatMap RequestText.bytes

def bytes (batches : List Batch) : List UInt8 :=
  batches.flatMap fun b => readBytes b.reads

/-- Those that are complete in the first bytes of the stream. -/
def completed : List RequestText → Nat → List RequestText
  | [], _ => []
  | t :: texts, n =>
      if t.bytes.length ≤ n then t :: completed texts (n - t.bytes.length)
      else []

/-- What has been handed over is what is complete, and the buffer holds nothing
that another call would hand over. -/
structure Prompt (texts : List RequestText) (n : Nat) (s : HttpPeer) :
    Prop where
  handed : s.own.handed = (completed texts n).map RequestText.request
  nothingLeft : ∀ ctx, s.own.context = some ctx →
    (ctx.parse s.conn.inputBuffer).2.1.gotAll = false

/-- No batch completes more than one request. -/
def OneEach (texts : List RequestText) (batches : List Batch) : Prop :=
  ∀ k < batches.length,
    (completed texts (bytes (batches.take (k + 1))).length).length ≤
      (completed texts (bytes (batches.take k)).length).length + 1

instance (texts : List RequestText) (batches : List Batch) :
    Decidable (OneEach texts batches) :=
  inferInstanceAs (Decidable (∀ k < _, _ ≤ _))

/-- `GET / HTTP/1.1`, without any headers. -/
def getRoot : RequestText where
  method := .kGet
  path := [47]
  query := none
  version := .kHttp11
  headers := []
  method_ok := by decide
  path_ne := by decide
  path_ok := by simp
  query_ok := by simp
  version_ok := by decide

/-- A batch that the socket takes the answer of. -/
def batch (data : List UInt8) : Batch where
  reads := [.data data, .stop .eagain]
  writes := [.accepted (respond {} getRoot.request).serialize.length]

/-- Two requests in one batch. -/
theorem request_waits :
    ¬ ∀ (srv : HttpServer) (texts : List RequestText) (bs : List Batch)
      (s : HttpPeer), (∀ t ∈ texts, t.request.keepAlive = true) →
      (∀ b ∈ bs, readStop b.reads ≠ some .fatal) →
      bytes bs = stream texts →
      Machine.run srv.receive newPeer bs = some s →
      Prompt texts (bytes bs).length s := by
  intro hall
  have hany : (Machine.run (HttpServer.receive {}) newPeer
      [batch (getRoot.bytes ++ getRoot.bytes)]).any
        (fun s => s.own.handed.length == 1) = true := by
    decide +kernel
  obtain ⟨s, hrun, hone⟩ := (Option.any_eq_true _ _).mp hany
  have hprompt := hall {} [getRoot, getRoot] _ s (by decide) (by decide)
    (by decide) hrun
  have htwo := congrArg List.length hprompt.handed
  rw [eq_of_beq hone] at htwo
  exact absurd htwo (by decide)

/-! ## What the first bytes of a stream complete -/

theorem bytes_append (bs cs : List Batch) :
    bytes (bs ++ cs) = bytes bs ++ bytes cs := List.flatMap_append

theorem bytes_take_succ {bs : List Batch} {k : Nat} (hk : k < bs.length) :
    bytes (bs.take (k + 1)) = bytes (bs.take k) ++ readBytes bs[k].reads := by
  rw [List.take_succ_eq_append_getElem hk, bytes_append]
  exact congrArg _ (List.append_nil _)

theorem bytes_take_prefix (bs : List Batch) (k : Nat) :
    bytes (bs.take k) <+: bytes bs := by
  refine ⟨bytes (bs.drop k), ?_⟩
  rw [← bytes_append, List.take_append_drop]

theorem completed_append (done ts : List RequestText) (n : Nat) :
    completed (done ++ ts) ((stream done).length + n) =
      done ++ completed ts n := by
  induction done with
  | nil =>
      rw [stream, List.flatMap_nil, List.length_nil, Nat.zero_add]
      rfl
  | cons t done ih =>
      have hlen : (stream (t :: done)).length =
          t.bytes.length + (stream done).length := List.length_append
      have hrest : (stream (t :: done)).length + n - t.bytes.length =
          (stream done).length + n := by omega
      rw [List.cons_append, completed, if_pos (by omega), hrest, ih]
      rfl

/-- The first of those that are complete. -/
theorem completed_cons {ts more : List RequestText} {t : RequestText} {n : Nat}
    (h : completed ts n = t :: more) :
    ∃ ts', ts = t :: ts' ∧ t.bytes.length ≤ n ∧
      completed ts' (n - t.bytes.length) = more := by
  cases ts with
  | nil => cases h
  | cons t' ts =>
      rw [completed] at h
      split at h
      · next hle =>
          cases h
          exact ⟨ts, rfl, hle, rfl⟩
      · cases h

/-- If none is complete, the parser wants more. -/
theorem lines_incomplete {ts : List RequestText} {p : List UInt8}
    (hp : p <+: stream ts) (hnone : completed ts p.length = []) :
    (HttpContext.lines ({}, p)).ok = true ∧
      (HttpContext.lines ({}, p)).rest.1.gotAll = false := by
  cases ts with
  | nil =>
      obtain rfl : p = [] := List.prefix_nil.mp hp
      rw [HttpContext.lines_none rfl]
      exact ⟨rfl, rfl⟩
  | cons t ts =>
      rw [completed] at hnone
      split at hnone
      · cases hnone
      · next hlong =>
          obtain ⟨q, hq⟩ : p <+: t.bytes :=
            List.prefix_of_prefix_length_le hp (List.prefix_append _ _)
              (by omega)
          refine HttpContext.lines_part hq.symm ?_
          rintro rfl
          rw [List.append_nil] at hq
          exact hlong (Nat.le_of_eq (congrArg List.length hq.symm))

/-! ## One batch -/

/-- The bytes `p` have arrived since the last request, and the parser and its
buffer are where one that was given `p` is. -/
structure Waits (s : HttpPeer) (p : List UInt8) : Prop where
  messageCb : s.conn.messageCb = true
  context : ∃ ctx, s.own.context = some ctx ∧ ctx.gotAll = false ∧
    ∀ x, HttpContext.lines (ctx, s.input ++ x) =
      HttpContext.lines ({}, p ++ x)

theorem waits_newPeer : Waits newPeer [] := ⟨rfl, {}, rfl, rfl, fun _ => rfl⟩

theorem Waits.lines {s : HttpPeer} {p : List UInt8} (h : Waits s p) :
    ∃ ctx, s.own.context = some ctx ∧ ctx.gotAll = false ∧
      HttpContext.lines (ctx, s.input) = HttpContext.lines ({}, p) := by
  obtain ⟨ctx, hctx, hgot, hgo⟩ := h.context
  refine ⟨ctx, hctx, hgot, ?_⟩
  have hnil := hgo []
  rw [List.append_nil, List.append_nil] at hnil
  exact hnil

theorem send_input {c c' : Connection} {data : List UInt8}
    {writes : List WriteRes} (h : c.send data writes = some c') :
    c'.inputBuffer = c.inputBuffer ∧ c'.messageCb = c.messageCb := by
  refine ⟨?_, (Connection.calls_send h).1⟩
  cases Connection.send_sent h with
  | ignored => rfl
  | behind => exact Connection.sendRest_inputBuffer _ _
  | failed => exact Connection.close_inputBuffer _
  | taken => exact Connection.sendRest_inputBuffer _ _

theorem shutdown_input (c : Connection) :
    c.shutdown.inputBuffer = c.inputBuffer ∧
      c.shutdown.messageCb = c.messageCb := by
  rw [Connection.shutdown]
  split
  · rw [Connection.shutdownInLoop]
    split
    · exact ⟨rfl, rfl⟩
    · split
      · exact ⟨rfl, rfl⟩
      · exact ⟨rfl, rfl⟩
  · exact ⟨rfl, rfl⟩

/-- The callback, when nothing is wrong with what is there. -/
theorem onMessage_lines {srv : HttpServer} {writes : List WriteRes}
    {s u : HttpPeer} {ctx : HttpContext} (hctx : s.own.context = some ctx)
    {o : Outcome HttpRequest HttpContext.Pos}
    (ho : HttpContext.lines (ctx, s.input) = o) (hok : o.ok = true)
    (h : srv.onMessage writes s = some u) :
    u.input = o.rest.2 ∧ u.conn.messageCb = s.conn.messageCb ∧
      u.own =
        if o.rest.1.gotAll then
          { context := some {}
            handed := s.own.handed ++ [o.rest.1.request] }
        else { s.own with context := some o.rest.1 } := by
  subst ho
  obtain ⟨b, hlines, hrest⟩ :=
    HttpContext.parse_eq_lines ctx s.conn.inputBuffer
  have hsame : ∀ {k ctx' : HttpContext} {v : Bool} {buf : Buffer},
      s.own.context = some k →
      k.parse s.conn.inputBuffer = (v, ctx', buf) →
      (HttpContext.lines (ctx, s.input)).ok = v ∧
        ctx' = (HttpContext.lines (ctx, s.input)).rest.1 ∧
        buf.readable = (HttpContext.lines (ctx, s.input)).rest.2 := by
    intro k ctx' v buf hk hparse
    obtain rfl : ctx = k := Option.some.inj (hctx.symm.trans hk)
    have heq := hlines.symm.trans hparse
    simp only [Prod.mk.injEq] at heq
    obtain ⟨hv, hctx', hbuf⟩ := heq
    exact ⟨hv, hctx'.symm, hbuf ▸ hrest⟩
  cases onMessage_handled h with
  | noContext hnone => cases hctx.symm.trans hnone
  | refused k ctx' buf c hk hparse =>
      cases hok.symm.trans (hsame hk hparse).1
  | complete k ctx' buf c hk hparse hgot hsend =>
      obtain ⟨-, rfl, hbuf⟩ := hsame hk hparse
      obtain ⟨hinput, hcb⟩ := send_input hsend
      obtain ⟨hinput', hcb'⟩ := shutdown_input c
      rw [if_pos hgot]
      refine ⟨Eq.trans ?_ hbuf, ?_, rfl⟩
      · show (if _ then c else c.shutdown).inputBuffer.readable = _
        split
        · rw [hinput]
        · rw [hinput', hinput]
      · show (if _ then c else c.shutdown).messageCb = _
        split
        · exact hcb
        · exact hcb'.trans hcb
  | part k ctx' buf hk hparse hgot =>
      obtain ⟨-, rfl, hbuf⟩ := hsame hk hparse
      rw [if_neg (by simp [hgot])]
      exact ⟨hbuf, rfl, rfl⟩

/-- Nothing is complete, or one request is and is handed over. -/
inductive Took (s : HttpPeer) (o : Outcome HttpRequest HttpContext.Pos)
    (p : List UInt8) (s' : HttpPeer) : Prop where
  | part : o.rest.1.gotAll = false → s'.own.handed = s.own.handed →
      Waits s' p → Took s o p s'
  | one : o.rest.1.gotAll = true →
      s'.own.handed = s.own.handed ++ [o.rest.1.request] →
      Waits s' o.rest.2 → Took s o p s'

/-- The end of the stream takes nothing away. -/
theorem Waits.close {s : HttpPeer} {p : List UInt8} (h : Waits s p) :
    Waits s.close p := by
  refine ⟨(Connection.close_messageCb _).trans h.messageCb, ?_⟩
  have hinput : s.close.input = s.input :=
    congrArg Buffer.readable (Connection.close_inputBuffer s.conn)
  rw [hinput]
  exact h.context

/-- One call of the callback. -/
theorem onMessage_took {srv : HttpServer} {writes : List WriteRes}
    {s u : HttpPeer} {p : List UInt8} (hs : Waits s p)
    (hok : (HttpContext.lines ({}, p)).ok = true)
    (h : srv.onMessage writes s = some u) :
    Took s (HttpContext.lines ({}, p)) p u := by
  obtain ⟨ctx, hctx, -, hlines⟩ := hs.lines
  obtain ⟨hinput, hcb, hown⟩ := onMessage_lines hctx hlines hok h
  have hcb := hcb.trans hs.messageCb
  split at hown
  · next hgot =>
      refine .one hgot (by rw [hown]) ⟨hcb, {}, by rw [hown], rfl, ?_⟩
      intro x
      rw [hinput]
  · next hgot =>
      have hgot := Bool.eq_false_iff.mpr hgot
      refine .part hgot (by rw [hown]) ⟨hcb, _, by rw [hown], hgot, ?_⟩
      intro x
      rw [hinput]
      exact HttpContext.lines_resume hok x

/-- Nothing has arrived, and the callback is not called. -/
theorem Waits.took {s : HttpPeer} {p : List UInt8} (hs : Waits s p)
    (hnil : s.input = []) : Took s (HttpContext.lines ({}, p)) p s := by
  obtain ⟨ctx, -, hgot, hlines⟩ := hs.lines
  refine .part ?_ rfl hs
  rw [← hlines, hnil, HttpContext.lines_none rfl]
  exact hgot

/-- One batch, of which the parser does not refuse anything. -/
theorem receive_took {srv : HttpServer} {s s' : HttpPeer} {b : Batch}
    {p : List UInt8} (hs : Waits s p) (hstop : readStop b.reads ≠ some .fatal)
    (hok : (HttpContext.lines ({}, p ++ readBytes b.reads)).ok = true)
    (h : srv.receive s b = some s') :
    Took s (HttpContext.lines ({}, p ++ readBytes b.reads))
      (p ++ readBytes b.reads) s' := by
  rw [receive] at h
  split at h
  · cases h
  · obtain ⟨t, u, hread, hcall, hend⟩ :=
      handleRead_batch hs.messageCb hstop h
    obtain ⟨ctx, hctx, hgot, hgo⟩ := hs.context
    have hwaits : Waits t (p ++ readBytes b.reads) := by
      refine ⟨hread.messageCb.trans hs.messageCb, ctx, ?_, hgot, fun x => ?_⟩
      · rw [hread.own, hctx]
      · rw [hread.input, List.append_assoc, hgo, List.append_assoc]
    have hclosed : s' = u ∨ s' = u.close := by
      rcases hend with ⟨-, rfl⟩ | ⟨-, rfl⟩
      · exact .inl rfl
      · exact .inr rfl
    have hown : s'.own = u.own := by
      rcases hclosed with rfl | rfl
      · rfl
      · rfl
    have hlater : ∀ {q}, Waits u q → Waits s' q := by
      intro q hq
      rcases hclosed with rfl | rfl
      · exact hq
      · exact hq.close
    have htook : Took t (HttpContext.lines ({}, p ++ readBytes b.reads))
        (p ++ readBytes b.reads) u := by
      rcases hcall with ⟨-, hu⟩ | ⟨hnil, rfl⟩
      · exact onMessage_took hwaits hok hu
      · exact hwaits.took hnil
    cases htook with
    | part hgot hhanded hq =>
        refine .part hgot ?_ (hlater hq)
        rw [hown, hhanded, hread.own]
    | one hgot hhanded hq =>
        refine .one hgot ?_ (hlater hq)
        rw [hown, hhanded, hread.own]

/-! ## All of them -/

/-- After some bytes of the stream: what is complete has been handed over, and
the parser has the rest. -/
structure At (texts : List RequestText) (received : List UInt8)
    (s : HttpPeer) : Prop where
  cut : ∃ done ts p, texts = done ++ ts ∧ received = stream done ++ p ∧
    completed ts p.length = [] ∧
    s.own.handed = done.map RequestText.request ∧ Waits s p

theorem at_newPeer (texts : List RequestText) : At texts [] newPeer := by
  refine ⟨[], texts, [], rfl, rfl, ?_, rfl, waits_newPeer⟩
  cases texts with
  | nil => rfl
  | cons t texts =>
      rw [completed, if_neg]
      have hne := t.bytes_ne
      exact fun h => hne (List.length_eq_zero_iff.mp (Nat.le_zero.mp h))

theorem stream_append (done ts : List RequestText) :
    stream (done ++ ts) = stream done ++ stream ts := List.flatMap_append

theorem At.prompt {texts : List RequestText} {received : List UInt8}
    {s : HttpPeer} (h : At texts received s)
    (hpre : received <+: stream texts) : Prompt texts received.length s := by
  obtain ⟨done, ts, p, rfl, rfl, hnone, hhanded, hs⟩ := h.cut
  rw [stream_append, List.prefix_append_right_inj] at hpre
  refine ⟨?_, fun ctx hctx => ?_⟩
  · rw [List.length_append, completed_append, hnone, List.append_nil]
    exact hhanded
  · obtain ⟨ctx', hctx', -, hlines⟩ := hs.lines
    obtain rfl : ctx = ctx' := Option.some.inj (hctx.symm.trans hctx')
    obtain ⟨b, hparse, -⟩ :=
      HttpContext.parse_eq_lines ctx s.conn.inputBuffer
    rw [hparse]
    show (HttpContext.lines (ctx, s.input)).rest.1.gotAll = false
    rw [hlines]
    exact (lines_incomplete hpre hnone).2

/-- A batch that completes one request at most. -/
theorem At.receive {srv : HttpServer} {texts : List RequestText}
    {received : List UInt8} {s s' : HttpPeer} {b : Batch}
    (h : At texts received s) (hstop : readStop b.reads ≠ some .fatal)
    (hpre : received ++ readBytes b.reads <+: stream texts)
    (hone : (completed texts (received ++ readBytes b.reads).length).length ≤
      (completed texts received.length).length + 1)
    (hs' : srv.receive s b = some s') :
    At texts (received ++ readBytes b.reads) s' := by
  obtain ⟨done, ts, p, rfl, rfl, hnone, hhanded, hs⟩ := h.cut
  rw [stream_append, List.append_assoc, List.prefix_append_right_inj] at hpre
  have hdone : (completed (done ++ ts) (stream done ++ p).length).length =
      done.length := by
    rw [List.length_append, completed_append, hnone, List.append_nil]
  rw [hdone, List.append_assoc, List.length_append, completed_append,
    List.length_append] at hone
  rw [List.append_assoc]
  cases hnew : completed ts (p ++ readBytes b.reads).length with
  | nil =>
      obtain ⟨hok, hgot⟩ := lines_incomplete hpre hnew
      cases receive_took hs hstop hok hs' with
      | part _ hsame hs' =>
          exact ⟨done, ts, _, rfl, rfl, hnew, hsame.trans hhanded, hs'⟩
      | one hgot' => cases hgot.symm.trans hgot'
  | cons t more =>
      obtain ⟨ts, rfl, hle, hmore⟩ := completed_cons hnew
      obtain rfl : more = [] := by
        rw [hnew, List.length_cons] at hone
        exact List.length_eq_zero_iff.mp (by omega)
      obtain ⟨u, hu⟩ : t.bytes <+: p ++ readBytes b.reads :=
        List.prefix_of_prefix_length_le (List.prefix_append _ _) hpre hle
      have hlines : HttpContext.lines ({}, p ++ readBytes b.reads) =
          ⟨true, [], (⟨.kGotAll, t.request⟩, u)⟩ := by
        rw [← hu]
        exact HttpContext.lines_text t u
      have htook := receive_took hs hstop (by rw [hlines]) hs'
      rw [hlines] at htook
      cases htook with
      | part hgot => cases hgot
      | one _ hhanded' hs' =>
          refine ⟨done ++ [t], ts, u, ?_, ?_, ?_, ?_, hs'⟩
          · rw [List.append_assoc]
            rfl
          · have hone : stream [t] = t.bytes := List.append_nil _
            rw [← hu, stream_append, hone, List.append_assoc]
          · rw [← hmore, ← hu, List.length_append, Nat.add_sub_cancel_left]
          · rw [hhanded', hhanded, List.map_append]
            rfl

theorem run_at {srv : HttpServer} {texts : List RequestText}
    {bs : List Batch} (hstops : ∀ b ∈ bs, readStop b.reads ≠ some .fatal)
    (hstream : bytes bs = stream texts) (hone : OneEach texts bs) :
    ∀ {k : Nat} {s : HttpPeer},
      Machine.run srv.receive newPeer (bs.take k) = some s →
      At texts (bytes (bs.take k)) s := by
  intro k
  induction k with
  | zero =>
      intro s hrun
      obtain rfl : newPeer = s := by simpa using hrun
      exact at_newPeer texts
  | succ k ih =>
      intro s hrun
      by_cases hk : k < bs.length
      · rw [List.take_succ_eq_append_getElem hk,
          Machine.run_snoc_some] at hrun
        obtain ⟨s₀, hrun, hlast⟩ := hrun
        have hpre := bytes_take_prefix bs (k + 1)
        have honce := hone k hk
        rw [bytes_take_succ hk, hstream] at hpre
        rw [bytes_take_succ hk] at honce ⊢
        exact (ih hrun).receive (hstops _ (List.getElem_mem hk)) hpre honce
          hlast
      · have hall : bs.take (k + 1) = bs.take k := by
          rw [List.take_of_length_le (by omega),
            List.take_of_length_le (by omega)]
        rw [hall] at hrun ⊢
        exact ih hrun

/-- One call hands one request over at most. -/
theorem onMessage_handed {srv : HttpServer} {writes : List WriteRes}
    {s u : HttpPeer} (h : srv.onMessage writes s = some u) :
    u.own.handed.length ≤ s.own.handed.length + 1 := by
  cases onMessage_handled h with
  | noContext | refused | part => exact Nat.le_succ _
  | complete => exact Nat.le_of_eq List.length_append

theorem receive_handed {srv : HttpServer} {s s' : HttpPeer} {b : Batch}
    (h : srv.receive s b = some s') :
    s'.own.handed.length ≤ s.own.handed.length + 1 := by
  rw [receive] at h
  split at h
  · cases h
  · refine handleRead_own
      (R := fun own own' => own'.handed.length ≤ own.handed.length + 1)
      (fun _ => Nat.le_succ _) ?_ h
    intro t u hu
    exact onMessage_handed hu

/-- A batch completes one request at most if and only if every one is handed
over by the batch that completes it, and none is left in the buffer. -/
theorem handed_iff {srv : HttpServer} {texts : List RequestText}
    {bs : List Batch} (hstops : ∀ b ∈ bs, readStop b.reads ≠ some .fatal)
    (hstream : bytes bs = stream texts) {t : HttpPeer}
    (hrun : Machine.run srv.receive newPeer bs = some t) :
    (∀ k s, Machine.run srv.receive newPeer (bs.take k) = some s →
      Prompt texts (bytes (bs.take k)).length s) ↔ OneEach texts bs := by
  constructor
  · intro hall k hk
    have hsplit := List.take_append_drop (k + 1) bs
    rw [← hsplit, Machine.run_append_some] at hrun
    obtain ⟨s', hs', -⟩ := hrun
    have hsnoc := hs'
    rw [List.take_succ_eq_append_getElem hk, Machine.run_snoc_some] at hsnoc
    obtain ⟨s, hs, hlast⟩ := hsnoc
    have hbefore := congrArg List.length (hall k s hs).handed
    have hbehind := congrArg List.length (hall (k + 1) s' hs').handed
    rw [List.length_map] at hbefore hbehind
    rw [← hbefore, ← hbehind]
    exact receive_handed hlast
  · intro hone k s hs
    refine (run_at hstops hstream hone hs).prompt ?_
    rw [← hstream]
    exact bytes_take_prefix bs k

/-- Two requests, of which the first batch has all of the one and a part of
the other. -/
theorem handed_iff_cut :
    ∃ t, Machine.run (HttpServer.receive {}) newPeer
        [batch (getRoot.bytes ++ getRoot.bytes.take 5),
          batch (getRoot.bytes.drop 5)] = some t ∧
      ∀ k s, Machine.run (HttpServer.receive {}) newPeer
          ([batch (getRoot.bytes ++ getRoot.bytes.take 5),
            batch (getRoot.bytes.drop 5)].take k) = some s →
        Prompt [getRoot, getRoot]
          (bytes ([batch (getRoot.bytes ++ getRoot.bytes.take 5),
            batch (getRoot.bytes.drop 5)].take k)).length s := by
  have hrun : (Machine.run (HttpServer.receive {}) newPeer
      [batch (getRoot.bytes ++ getRoot.bytes.take 5),
        batch (getRoot.bytes.drop 5)]).isSome = true := by decide +kernel
  obtain ⟨t, ht⟩ := Option.isSome_iff_exists.mp hrun
  exact ⟨t, ht, (handed_iff (by decide) (by decide) ht).mpr (by decide)⟩

end GameFrame.HttpServer
