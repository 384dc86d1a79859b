import GameFrame.Proofs.ConnectionCalls
import GameFrame.Proofs.SendBatch
import GameFrame.Proofs.SenderThread

/-!
# Every message is in the queue or was sent

Of the messages that were accepted, those that were passed to `send` come
first and those still in the queue come behind, and together they are all of
them, in the order they were accepted. Of the pushes that were refused, some
have been reported in a batch and the others are in `dropped_`, or, between
the two halves of `do_drain_and_send`, in its local variable.

The step that could break this takes messages out of the queue before it sends
them. It goes well if the batch does, which is what `BatchOk` asks; otherwise
what is behind the failed message is lost with the process (`message_lost`).
`Accounted` is the statement. The invariant behind it has two halves that do
not touch: the books (`Core`), which the connection cannot reach, and the
connection (`Links`), which is there when the client says so and has been sent
what the books say.
-/

namespace GameFrame

/-- The message, if it is one that was pushed. -/
def Payload.message? : Payload → Option (List UInt8)
  | .msg bytes => some bytes
  | .logDropped _ => none

/-- The number of lost messages it reports. -/
def Payload.lost : Payload → Nat
  | .msg _ => 0
  | .logDropped n => n

namespace LogSender

variable {ι : Type _}

/-- The calls of `send` that were made on `fd`, as its connection sees them. -/
def frames (passed : List (Nat × Payload)) (fd : Nat) :
    List (ConnState × List UInt8) :=
  (passed.filter fun p => p.1 = fd).map fun p =>
    (.kConnected, LengthPrefixedCodec.encode p.2.bytes)

/-- The number of lost messages reported so far. -/
def reported : List (Nat × Payload) → Nat
  | [] => 0
  | p :: passed => p.2.lost + reported passed

/-- The refused pushes `do_drain_and_send` is about to report. -/
def inHand (w : LogSender ι) : Nat :=
  match w.loopPc with
  | .idle => 0
  | .draining dropped _ => dropped

/-- Every message accepted is in the queue or was passed to `send`, once and
in order; every push refused is counted; and what was passed was passed as a
whole frame, on a connection that was connected. -/
structure Accounted (w : LogSender ι) : Prop where
  messages : w.passed.filterMap (·.2.message?) ++ w.queue.contents = w.accepted
  reports : reported w.passed + w.inHand + w.queue.dropped = w.refused
  frames : ∀ fd, (w.conns fd).calls = frames w.passed fd

/-- How many strings the batch is going to have. -/
def batchSize (w : LogSender ι) (dropped : Nat) : Nat :=
  (if dropped > 0 then 1 else 0) + min w.opts.maxBatchPerTick w.queue.count

/-- No write fails but those of the batch's last message. -/
def BatchOk (w : LogSender ι) : Label ι → Prop
  | .drain scripts =>
      ∀ ws ∈ scripts.take (w.batchSize w.inHand - 1), writeStop ws ≠ some .fatal
  | _ => True

instance (w : LogSender ι) : ∀ l, Decidable (BatchOk w l)
  | .drain scripts => inferInstanceAs (Decidable (∀ ws ∈ scripts.take _, _))
  | .enter _ _ | .leave _ | .wake _ | .start | .stop | .functor _ | .timer _ _
  | .handshake _ | .event _ _ _ => .isTrue trivial

/-- Two messages are pushed, a tick takes both, and the write of the first
fails. -/
theorem message_lost :
    ¬ ∀ (opts : Options) (ls : List (Label Unit)) (w : LogSender Unit),
      Machine.run step (new opts) ls = some w → w.stopped = false →
      w.Accounted := by
  intro hall
  have hany : (Machine.run step (new { queueCapacity := 4 }) (up ++
      ([.enter () [1], .leave (), .wake (), .enter () [2], .leave (),
        .functor .inProgress, .drain [[.stop .fatal]]] :
          List (Label Unit)))).any (fun w =>
      !w.stopped && w.passed.filterMap (·.2.message?) ++ w.queue.contents !=
        w.accepted) = true := by
    decide +kernel
  obtain ⟨w, hrun, hw⟩ := (Option.any_eq_true _ _).mp hany
  obtain ⟨hstopped, hlost⟩ := Bool.and_eq_true_iff.mp hw
  have hacc := hall _ _ w hrun (by simpa using hstopped)
  rw [hacc.messages] at hlost
  simp at hlost

/-! ## The connection's half -/

/-- The client's sockets: `connection_` and whatever was sent on are not the
socket being dialled. -/
structure Owns (w : LogSender ι) (c : TcpClient) : Prop where
  wf : c.Wf
  passed : ∀ p ∈ w.passed, c.Used p.1
  connection : ∀ fd, w.connection = some fd → c.Used fd

structure Links (w : LogSender ι) : Prop where
  fault : w.fault = none
  client : ∃ c, w.tcpClient = some c ∧ w.Owns c
  frames : ∀ fd, (w.conns fd).calls = frames w.passed fd
  quiet : ∀ fd, (w.conns fd).messageCb = false

theorem links_new (opts : Options) : (new opts : LogSender ι).Links where
  fault := rfl
  client := ⟨{}, rfl, by simp [TcpClient.Wf], by simp [new], by simp [new]⟩
  frames := fun _ => rfl
  quiet := fun _ => rfl

/-- A socket nothing was sent on. -/
theorem frames_fresh {passed : List (Nat × Payload)} {fd : Nat}
    (h : ∀ p ∈ passed, p.1 ≠ fd) : frames passed fd = [] := by
  rw [frames, List.filter_eq_nil_iff.mpr (by simpa using h)]
  rfl

/-- One connection is exchanged, and what was sent on it with it. -/
theorem Links.exchange {w w' : LogSender ι} (hw : w.Links) (fd : Nat)
    (hfault : w'.fault = w.fault) (hclient : w'.tcpClient = w.tcpClient)
    (hconnection : w'.connection = w.connection)
    (hconns : ∀ i, i ≠ fd → w'.conns i = w.conns i)
    (hpassed : ∀ p ∈ w'.passed, p ∈ w.passed ∨
      w.connection = some fd ∧ p.1 = fd)
    (hframes : ∀ i, i ≠ fd → LogSender.frames w'.passed i =
      LogSender.frames w.passed i)
    (hcalls : (w'.conns fd).calls = LogSender.frames w'.passed fd)
    (hquiet : (w'.conns fd).messageCb = false) : w'.Links := by
  obtain ⟨c, hc, hwf, howned, hcurrent⟩ := hw.client
  refine ⟨hfault.trans hw.fault, ⟨c, hclient.trans hc, hwf, ?_, ?_⟩, ?_, ?_⟩
  · intro p hp
    rcases hpassed p hp with hp | ⟨hfd, hp⟩
    · exact howned p hp
    · rw [hp]
      exact hcurrent fd hfd
  · rw [hconnection]
    exact hcurrent
  · intro i
    by_cases hi : i = fd
    · rw [hi, hcalls]
    · rw [hconns i hi, hw.frames, hframes i hi]
  · intro i
    by_cases hi : i = fd
    · rw [hi, hquiet]
    · rw [hconns i hi, hw.quiet]

theorem Links.setConn {w : LogSender ι} (hw : w.Links) {fd : Nat}
    {c : Connection} (h : Connection.Silent (w.conns fd) c) :
    (w.setConn fd c).Links := by
  refine hw.exchange fd rfl rfl rfl (fun i hi => if_neg hi)
    (fun p hp => .inl hp) (fun _ _ => rfl) ?_ ?_
  · show (if fd = fd then c else _).calls = _
    rw [if_pos rfl, h.calls]
    exact hw.frames fd
  · show (if fd = fd then c else _).messageCb = _
    rw [if_pos rfl, h.messageCb]
    exact hw.quiet fd

/-- What has nothing to do with connections. -/
theorem Links.other {w w' : LogSender ι} (hw : w.Links)
    (h : (w'.fault, w'.tcpClient, w'.connection, w'.conns, w'.passed) =
      (w.fault, w.tcpClient, w.connection, w.conns, w.passed)) :
    w'.Links := by
  simp only [Prod.mk.injEq] at h
  obtain ⟨hfault, hclient, hconnection, hconns, hpassed⟩ := h
  obtain ⟨c, hc, howns⟩ := hw.client
  refine ⟨hfault.trans hw.fault, ⟨c, hclient.trans hc, howns.wf, ?_, ?_⟩,
    ?_, ?_⟩
  · rw [hpassed]; exact howns.passed
  · rw [hconnection]; exact howns.connection
  · rw [hconns, hpassed]; exact hw.frames
  · rw [hconns]; exact hw.quiet

/-- Forgetting the connection. -/
theorem Links.reset {w : LogSender ι} (hw : w.Links) (paused : Bool) :
    { w with connection := none, paused := paused }.Links := by
  obtain ⟨c, hc, hwf, howned, -⟩ := hw.client
  exact ⟨hw.fault, ⟨c, hc, hwf, howned, by simp⟩, hw.frames, hw.quiet⟩

theorem Links.onConnection {w : LogSender ι} (hw : w.Links) (fd : Nat)
    (hused : ∀ c, w.tcpClient = some c → c.Used fd) :
    (w.onConnection fd).Links := by
  have hset : ∀ w' : LogSender ι, w'.Links → w'.tcpClient = w.tcpClient →
      { w' with connection := some fd, paused := false }.Links := by
    intro w' hw' hsame
    obtain ⟨c, hc, hwf, howned, -⟩ := hw'.client
    refine ⟨hw'.fault, ⟨c, hc, hwf, howned, fun fd' hfd => ?_⟩, hw'.frames,
      hw'.quiet⟩
    obtain rfl : fd = fd' := by simpa using hfd
    exact hused c (hsame.symm.trans hc)
  rw [LogSender.onConnection]
  split
  · dsimp only
    split
    · exact hset _ (hw.setConn ⟨rfl, rfl⟩) rfl
    · exact hset _ hw rfl
  · exact hw.reset false

/-- The client has done something, and the rest follows. -/
theorem Links.settle {w : LogSender ι} (hw : w.Links) {c : TcpClient}
    (hc : w.tcpClient = some c) {r : TcpClient × ClientAsk}
    (h : c.Wf → c.Hands r) : (w.settle r).Links := by
  obtain ⟨c', hc', hwf, howned, hcurrent⟩ := hw.client
  cases hc'.symm.trans hc
  have hands := h hwf
  have hclient : { w with tcpClient := some r.1 }.Links :=
    ⟨hw.fault, ⟨r.1, rfl, hands.wf, fun p hp => hands.used (howned p hp),
      fun fd hfd => hands.used (hcurrent fd hfd)⟩, hw.frames, hw.quiet⟩
  rw [LogSender.settle]
  split
  · exact hclient
  · exact hclient.other rfl
  · next fd hask =>
      obtain ⟨hused, hfresh⟩ := hands.fresh hask
      have hnew : ∀ p ∈ w.passed, p.1 ≠ fd := fun p hp heq =>
        hfresh (heq ▸ howned p hp)
      have hbuilt : ({ w with tcpClient := some r.1 }.setConn fd
          { messageCb := false }).Links := by
        refine hclient.exchange fd rfl rfl rfl (fun i hi => if_neg hi)
          (fun p hp => .inl hp) (fun _ _ => rfl) ?_ ?_
        · show ((if fd = fd then { messageCb := false } else w.conns fd :
            Connection)).calls = LogSender.frames w.passed fd
          rw [frames_fresh hnew, if_pos rfl]
          rfl
        · show ((if fd = fd then { messageCb := false } else w.conns fd :
            Connection)).messageCb = false
          rw [if_pos rfl]
      have hup := hbuilt.onConnection fd fun k hk => by
        obtain rfl : r.1 = k := Option.some.inj hk
        exact hused
      exact hup.setConn ⟨rfl, rfl⟩

theorem Links.onConnectionClosed {w : LogSender ι} (hw : w.Links) {fd : Nat}
    (hclosed : (w.conns fd).state = .kDisconnected) :
    (w.onConnectionClosed fd).Links := by
  have hreset : w.onConnection fd =
      { w with connection := none, paused := false } := by
    rw [LogSender.onConnection, if_neg (by simp [hclosed])]
  obtain ⟨c, hc, -⟩ := hw.client
  rw [LogSender.onConnectionClosed, hreset]
  simp only [hc]
  exact (hw.reset false).settle (c := c) hc TcpClient.hands_onConnectionClosed

theorem Links.putConn_of {w : LogSender ι} {fd : Nat} {c : Connection}
    (hw : (w.withConn fd c).Links) : (w.putConn fd c).Links := by
  by_cases hclosed : (w.conns fd).state ≠ .kDisconnected ∧
      c.state = .kDisconnected
  · rw [putConn_closed hclosed.1 hclosed.2]
    refine hw.onConnectionClosed ?_
    rw [withConn_self]
    exact hclosed.2
  · rw [putConn_open hclosed]
    exact hw

theorem Links.putConn {w : LogSender ι} (hw : w.Links) {fd : Nat}
    {c : Connection} (h : Connection.Silent (w.conns fd) c) :
    (w.putConn fd c).Links := by
  refine .putConn_of ?_
  have hset : (w.setConn fd { c with pending := [] }).Links :=
    hw.setConn ⟨h.messageCb, h.calls⟩
  exact hset.other rfl

theorem Links.scheduleNextTick {w : LogSender ι} (hw : w.Links) :
    w.scheduleNextTick.Links := by
  rw [LogSender.scheduleNextTick]
  split
  · exact hw
  · exact hw.other rfl

/-- One message, passed to the connection. -/
theorem Links.pass {w : LogSender ι} (hw : w.Links) {fd : Nat}
    {p : Payload} {ws : List WriteRes} {c : Connection}
    (hconn : w.connection = some fd)
    (hstate : (w.conns fd).state = .kConnected)
    (h : (w.conns fd).send (LengthPrefixedCodec.encode p.bytes) ws = some c) :
    ({ w with passed := w.passed ++ [(fd, p)] }.putConn fd c).Links := by
  obtain ⟨hquiet, hcalls⟩ := Connection.calls_send h
  refine .putConn_of ?_
  have hframes : ∀ i, LogSender.frames (w.passed ++ [(fd, p)]) i =
      LogSender.frames w.passed i ++ LogSender.frames [(fd, p)] i := by
    intro i
    rw [LogSender.frames, List.filter_append, List.map_append]
    rfl
  refine hw.exchange fd rfl rfl rfl (fun i hi => if_neg hi)
    (fun q hq => ?_) (fun i hi => ?_) ?_ ?_
  · rcases List.mem_append.mp hq with hq | hq
    · exact .inl hq
    · rw [List.mem_singleton.mp hq]
      exact .inr ⟨hconn, rfl⟩
  · have hone : LogSender.frames [(fd, p)] i = [] := by
      refine frames_fresh fun q hq => ?_
      rw [List.mem_singleton.mp hq]
      exact Ne.symm hi
    show LogSender.frames (w.passed ++ [(fd, p)]) i = _
    rw [hframes, hone, List.append_nil]
  · rw [withConn_self]
    show c.calls = LogSender.frames (w.passed ++ [(fd, p)]) fd
    rw [hcalls, hframes, hw.frames, hstate]
    simp [LogSender.frames]
  · rw [withConn_self]
    exact hquiet.trans (hw.quiet fd)

/-- A batch that goes through: all of it is passed to one connection. -/
theorem Links.sendBatch {fd : Nat} {batch : List Payload} :
    ∀ {w w' : LogSender ι} {scripts : List (List WriteRes)}, w.Links →
    w.connection = some fd → (w.conns fd).state = .kConnected →
    (∀ ws ∈ scripts.take (batch.length - 1), writeStop ws ≠ some .fatal) →
    w.sendBatch batch scripts = some w' →
    w'.Links ∧ Steady w w' (batch.map fun p => (fd, p)) := by
  induction batch with
  | nil =>
      intro w w' scripts hw _ _ _ h
      rw [LogSender.sendBatch] at h
      split at h
      · cases h
        exact ⟨hw, .refl w⟩
      · cases h
  | cons p ps ih =>
      intro w w' scripts hw hconn hstate hgood h
      obtain ⟨ws, rest, c, rfl, hsend, hrest⟩ := sendBatch_cons hconn h
      have hpass := hw.pass hconn hstate hsend
      have hsteady : Steady w
          ({ w with passed := w.passed ++ [(fd, p)] }.putConn fd c)
          [(fd, p)] := by
        have hbook : Steady w { w with passed := w.passed ++ [(fd, p)] }
            [(fd, p)] := ⟨rfl, rfl, rfl, rfl, rfl, rfl, rfl⟩
        exact hbook.trans (steady_putConn _ fd c)
      cases ps with
      | nil =>
          rw [LogSender.sendBatch] at hrest
          split at hrest
          · cases hrest
            exact ⟨hpass, hsteady⟩
          · cases hrest
      | cons q qs =>
          have hopen : c.state = .kConnected := by
            rcases Connection.send_outcome hsend hstate
              (LengthPrefixedCodec.encode_ne_nil _) with ⟨hstop, -⟩ |
                ⟨-, hopen⟩
            · exact absurd hstop (hgood ws (by simp))
            · exact hopen
          have heq : { w with passed := w.passed ++ [(fd, p)] }.putConn fd c =
              { w with passed := w.passed ++ [(fd, p)] }.withConn fd c :=
            putConn_open (by simp [hopen])
          rw [heq] at hpass hsteady hrest
          obtain ⟨hlinks, hrun⟩ := ih hpass hconn
            (by rw [withConn_self]; exact hopen)
            (fun ws' hws' => hgood ws' (by
              simp only [List.length_cons, Nat.add_sub_cancel] at hws' ⊢
              exact List.mem_cons_of_mem _ hws')) hrest
          exact ⟨hlinks, hsteady.trans hrun⟩

/-! ## The books -/

structure Core (w : LogSender ι) : Prop where
  links : w.Links
  wf : w.queue.Wf
  messages : w.passed.filterMap (·.2.message?) ++ w.queue.contents = w.accepted
  reports : reported w.passed + w.inHand + w.queue.dropped = w.refused
  ready : ∀ dropped stopping, w.loopPc = .draining dropped stopping →
    w.connected = true ∧ stopping = false

theorem Core.accounted {w : LogSender ι} (hw : w.Core) : w.Accounted :=
  ⟨hw.messages, hw.reports, hw.links.frames⟩

theorem core_new (opts : Options) : (new opts : LogSender ι).Core where
  links := links_new opts
  wf := MPSCQueue.wf_new _
  messages := rfl
  reports := rfl
  ready := fun _ _ h => by simp [new] at h

/-- A function of the loop thread that sends nothing. -/
theorem Core.loop {w w' : LogSender ι} (hw : w.Core) (hidle : w.loopPc = .idle)
    (hsteady : Steady w w' []) (hlinks : w'.Links) : w'.Core := by
  have hpassed : w'.passed = w.passed := by
    rw [hsteady.passed, List.append_nil]
  refine ⟨hlinks, ?_, ?_, ?_, fun dropped stopping h => ?_⟩
  · rw [hsteady.queue]
    exact hw.wf
  · rw [hpassed, hsteady.queue, hsteady.accepted]
    exact hw.messages
  · rw [hpassed, hsteady.queue, hsteady.refused, inHand, hsteady.loopPc]
    exact hw.reports
  · rw [hsteady.loopPc, hidle] at h
    cases h

/-- A producer changes the queue, what it was told, and functors. -/
theorem Core.produce {w w' : LogSender ι} (hw : w.Core)
    (h : (w'.fault, w'.tcpClient, w'.connection, w'.conns, w'.passed,
      w'.loopPc) = (w.fault, w.tcpClient, w.connection, w.conns, w.passed,
      w.loopPc)) (hwf : w'.queue.Wf)
    (hmessages : ∃ new, w'.queue.contents = w.queue.contents ++ new ∧
      w'.accepted = w.accepted ++ new)
    (hreports : ∃ n, w'.queue.dropped = w.queue.dropped + n ∧
      w'.refused = w.refused + n) : w'.Core := by
  simp only [Prod.mk.injEq] at h
  obtain ⟨hfault, hclient, hconnection, hconns, hpassed, hloop⟩ := h
  obtain ⟨new, hcontents, haccepted⟩ := hmessages
  obtain ⟨n, hdropped, hrefused⟩ := hreports
  refine ⟨hw.links.other ?_, hwf, ?_, ?_, ?_⟩
  · rw [hfault, hclient, hconnection, hconns, hpassed]
  · rw [hpassed, hcontents, haccepted, ← hw.messages, List.append_assoc]
  · rw [hpassed, hdropped, hrefused, ← hw.reports, inHand, hloop]
    simp only [inHand, Nat.add_assoc]
  · rw [hloop, connected, hconnection, hconns]
    exact hw.ready

/-- Functors are queued, and producers go on. -/
theorem Core.pending {w : LogSender ι} (hw : w.Core)
    (pending : List SenderFunctor) (pc : ι → PushPc) :
    { w with pending := pending, pc := pc }.Core :=
  hw.produce rfl hw.wf
    ⟨[], (List.append_nil _).symm, (List.append_nil _).symm⟩ ⟨0, rfl, rfl⟩

theorem Core.takeDropped {w : LogSender ι} (hw : w.Core)
    (hidle : w.loopPc = .idle) (hconn : w.connected = true) :
    (w.takeDropped false).Core := by
  refine ⟨hw.links.other rfl, hw.wf.takeDropped, hw.messages, ?_, ?_⟩
  · have hreports := hw.reports
    rw [inHand, hidle] at hreports
    exact hreports
  · intro dropped stopping h
    cases h
    exact ⟨hconn, rfl⟩

theorem Core.onTick {w : LogSender ι} (hw : w.Core) (hidle : w.loopPc = .idle) :
    w.onTick.Core := by
  rw [LogSender.onTick]
  split
  · exact hw
  · split
    · next hgate =>
        exact hw.takeDropped hidle (Bool.and_eq_true_iff.mp hgate).1
    · exact hw.loop hidle (steady_scheduleNextTick w) hw.links.scheduleNextTick

theorem Core.startInLoop {w : LogSender ι} (hw : w.Core)
    (hidle : w.loopPc = .idle) (d : Dial) : (w.startInLoop d).Core := by
  rw [LogSender.startInLoop]
  split
  · exact hw
  · have hstart : Steady w { w with started := true } [] := .of_eq rfl
    have hlinks : { w with started := true }.Links := hw.links.other rfl
    obtain ⟨c, hc, -⟩ := hw.links.client
    simp only [hc]
    refine hw.loop hidle ((hstart.trans (steady_settle _ _)).trans
      (steady_scheduleNextTick _)) ?_
    refine (hlinks.settle (c := c) hc fun hwf => ?_).scheduleNextTick
    exact TcpClient.hands_connectInLoop hwf d

theorem Core.runFunctor {w : LogSender ι} (hw : w.Core)
    (hidle : w.loopPc = .idle) {d : Dial} {f : SenderFunctor}
    (hstopped : (w.runFunctor d f).stopped = false) :
    (w.runFunctor d f).Core := by
  cases f with
  | startInLoop => exact hw.startInLoop hidle d
  | stopInLoop =>
      exact absurd (stopInLoop_stopped w) (by
        rw [LogSender.runFunctor] at hstopped
        simp [hstopped])
  | wake =>
      rw [LogSender.runFunctor]
      split
      · exact hw
      · exact hw.onTick hidle
  | conn fd f =>
      cases f with
      | shutdownInLoop =>
          exact hw.loop hidle (steady_putConn w fd _)
            (hw.links.putConn (Connection.silent_shutdownInLoop _))
      | highWaterMark =>
          exact hw.loop hidle (.of_eq rfl) (hw.links.other rfl)
      | writeComplete =>
          exact hw.loop hidle (.of_eq rfl) (hw.links.other rfl)

theorem Core.fireTimer {w : LogSender ι} (hw : w.Core)
    (hidle : w.loopPc = .idle) (d : Dial) (k : TimerKind) :
    (w.fireTimer d k).Core := by
  cases k with
  | tick =>
      refine Core.onTick ?_ hidle
      exact hw.loop hidle (.of_eq rfl) (hw.links.other rfl)
  | retry =>
      obtain ⟨c, hc, -⟩ := hw.links.client
      rw [LogSender.fireTimer]
      simp only [hc]
      exact hw.loop hidle (steady_settle w _)
        (hw.links.settle hc fun hwf => TcpClient.hands_retry hwf d)

/-! ## The batch

`do_drain_and_send` takes a prefix off the queue and passes all of it on, the
report first. -/

/-- The batch: a report, if there is anything to report, and what was taken. -/
def batch (dropped : Nat) (taken : List (List UInt8)) : List Payload :=
  (if dropped > 0 then [Payload.logDropped dropped] else []) ++ taken.map .msg

theorem length_batch (dropped : Nat) (taken : List (List UInt8)) :
    (batch dropped taken).length =
      (if dropped > 0 then 1 else 0) + taken.length := by
  rw [batch]
  split
  · simp [Nat.add_comm]
  · simp

theorem messages_batch (fd dropped : Nat) (taken : List (List UInt8)) :
    ((batch dropped taken).map fun p => (fd, p)).filterMap (·.2.message?) =
      taken := by
  have hmsgs : (taken.map Payload.msg).filterMap Payload.message? = taken := by
    rw [List.filterMap_map]
    exact List.filterMap_some
  rw [List.filterMap_map, batch, List.filterMap_append]
  show _ ++ (taken.map Payload.msg).filterMap Payload.message? = taken
  rw [hmsgs]
  split
  · rfl
  · rfl

theorem reported_append (passed sent : List (Nat × Payload)) :
    reported (passed ++ sent) = reported passed + reported sent := by
  induction passed with
  | nil => exact (Nat.zero_add _).symm
  | cons p ps ih =>
      show p.2.lost + reported (ps ++ sent) = p.2.lost + reported ps + _
      rw [ih, Nat.add_assoc]

theorem reported_batch (fd dropped : Nat) (taken : List (List UInt8)) :
    reported ((batch dropped taken).map fun p => (fd, p)) = dropped := by
  have hmsgs : reported ((taken.map Payload.msg).map fun p => (fd, p)) = 0 := by
    induction taken with
    | nil => rfl
    | cons m ms ih => exact (Nat.zero_add _).trans ih
  rw [batch, List.map_append, reported_append, hmsgs]
  split
  · rfl
  · next hzero => exact (Nat.eq_zero_of_not_pos hzero).symm

theorem Links.drainAndSend {w w' : LogSender ι} (hw : w.Links)
    (hconn : w.connected = true) {dropped : Nat}
    {scripts : List (List WriteRes)} {taken : List (List UInt8)}
    (htaken : (w.queue.drain [] w.opts.maxBatchPerTick).2 = taken)
    (hok : ∀ ws ∈ scripts.take ((batch dropped taken).length - 1),
      writeStop ws ≠ some .fatal)
    (h : w.drainAndSend dropped scripts = some w') :
    ∃ fd, w'.Links ∧ Steady
      { w with queue := (w.queue.drain [] w.opts.maxBatchPerTick).1 } w'
      ((batch dropped taken).map fun p => (fd, p)) := by
  have hlinks : { w with
      queue := (w.queue.drain [] w.opts.maxBatchPerTick).1 }.Links :=
    hw.other rfl
  rw [connected] at hconn
  split at hconn
  · cases hconn
  · next fd hfd =>
      have hstate : (w.conns fd).state = .kConnected := by simpa using hconn
      refine ⟨fd, ?_⟩
      rw [LogSender.drainAndSend, htaken] at h
      split at h
      · next hnone =>
          obtain ⟨rfl, rfl⟩ := hnone
          split at h
          · cases h
            exact ⟨hlinks, .refl _⟩
          · cases h
      · exact hlinks.sendBatch hfd hstate hok h

theorem Core.finishDrain {w w' : LogSender ι} (hw : w.Core) {dropped : Nat}
    {stopping : Bool} (hloop : w.loopPc = .draining dropped stopping)
    {scripts : List (List WriteRes)}
    (hok : ∀ ws ∈ scripts.take (w.batchSize dropped - 1),
      writeStop ws ≠ some .fatal)
    (h : w.finishDrain dropped stopping scripts = some w') : w'.Core := by
  obtain ⟨hconn, rfl⟩ := hw.ready dropped stopping hloop
  obtain ⟨w₁, hdrain, rfl⟩ := Option.map_eq_some_iff.mp h
  obtain ⟨taken, htaken, hwf, -, hdropped, hcontents, hlength⟩ :=
    MPSCQueue.drain_splits hw.wf [] w.opts.maxBatchPerTick
  have hidle : { w with loopPc := .idle }.Links := hw.links.other rfl
  rw [batchSize, ← hlength, ← length_batch] at hok
  obtain ⟨fd, hlinks, hsteady⟩ := hidle.drainAndSend hconn htaken hok hdrain
  have hbooks : w₁.Core := by
    refine ⟨hlinks, ?_, ?_, ?_, fun dropped stopping hpc => ?_⟩
    · rw [hsteady.queue]
      exact hwf
    · rw [hsteady.passed, List.filterMap_append, messages_batch, hsteady.queue,
        hsteady.accepted, List.append_assoc]
      show _ ++ (taken ++ (w.queue.drain [] _).1.contents) = w.accepted
      rw [hcontents]
      exact hw.messages
    · have hreports := hw.reports
      rw [inHand, hloop] at hreports
      rw [hsteady.passed, reported_append, reported_batch, hsteady.queue,
        hsteady.refused, inHand, hsteady.loopPc]
      show reported w.passed + dropped + 0 + (w.queue.drain [] _).1.dropped =
        w.refused
      rw [hdropped, ← hreports, Nat.add_zero]
    · cases hsteady.loopPc.symm.trans hpc
  rw [behindDrain, if_neg (by simp [hlinks.fault]), if_neg Bool.false_ne_true]
  exact hbooks.loop hsteady.loopPc (steady_scheduleNextTick w₁)
    hlinks.scheduleNextTick

/-! ## The step -/

variable [DecidableEq ι]

theorem Core.enter {w : LogSender ι} (hw : w.Core) (p : ι) (msg : List UInt8) :
    (w.enter p msg).Core := by
  refine hw.produce rfl (hw.wf.pushLocked msg)
    ⟨_, MPSCQueue.contents_pushLocked hw.wf msg, rfl⟩ ⟨0, ?_, rfl⟩
  exact MPSCQueue.pushLocked_dropped _ _

theorem Core.leave {w : LogSender ι} (hw : w.Core) (p : ι) (ok : Bool) :
    (w.leave p ok).Core := by
  refine hw.produce rfl (hw.wf.pushUnlocked ok)
    ⟨[], ?_, (List.append_nil _).symm⟩ ⟨if ok then 0 else 1, ?_, rfl⟩
  · rw [List.append_nil]
    exact MPSCQueue.contents_pushUnlocked _ ok
  · cases ok with
    | true => rfl
    | false => rfl

theorem core_step {w w' : LogSender ι} {l : Label ι} (hw : w.Core)
    (hok : w.BatchOk l) (hstopped : w'.stopped = false)
    (h : w.step l = some w') : w'.Core := by
  cases (step_stepped h).2 with
  | enter p msg => exact hw.enter p msg
  | leave p ok => exact hw.leave p ok
  | wake | start | stop => exact hw.pending _ _
  | drain scripts dropped stopping _ hloop hfinish =>
      refine hw.finishDrain hloop ?_ hfinish
      rw [BatchOk, inHand, hloop] at hok
      exact hok
  | functor d f fs hidle =>
      exact (hw.pending fs w.pc).runFunctor hidle hstopped
  | timer id d t hidle =>
      refine Core.fireTimer ?_ (by exact hidle) d t.kind
      exact hw.loop hidle (.of_eq rfl) (hw.links.other rfl)
  | handshake err c hidle hc =>
      exact hw.loop hidle (steady_settle w _) (hw.links.settle hc
        fun hwf => TcpClient.hands_handleConnectWritable hwf err)
  | event fd revents d c hidle hadded hc =>
      exact hw.loop hidle (steady_putConn w fd c) (hw.links.putConn
        (Connection.silent_handleEvent (hw.links.quiet fd) hc))

/-- Up to the end, which is `stop()`. -/
def Inv (w : LogSender ι) : Prop := w.stopped = false → w.Core

theorem inv_step {w w' : LogSender ι} {l : Label ι} (hw : w.Inv)
    (hok : w.BatchOk l) (h : w.step l = some w') : w'.Inv := by
  intro hstopped
  have hbefore : w.stopped = false := by
    cases hs : w.stopped with
    | false => rfl
    | true => exact absurd (step_stopped h hs) (by simp [hstopped])
  exact core_step (hw hbefore) hok hstopped h

/-- In a run whose batches go through, nothing that was accepted is lost, and
nothing that was refused is forgotten. -/
theorem delivered {opts : Options} {ls : List (Label ι)} {w : LogSender ι}
    (hok : Machine.Meets step BatchOk (new opts) ls)
    (hrun : Machine.run step (new opts) ls = some w)
    (hstopped : w.stopped = false) : w.Accounted := by
  have hinv : w.Inv := Machine.run_preserves_of_meets inv_step
    (fun _ => core_new opts) hok hrun
  exact (hinv hstopped).accounted

/-- A queue of two that is pushed three messages. The report and the first
message are sent, the write of the second fails, and a fourth goes out on the
next connection. -/
def reconnect : List (Label Unit) :=
  up ++ ([.enter () [1], .leave (), .wake (), .enter () [2], .leave (),
    .enter () [3], .leave (), .functor .inProgress,
    .drain [[.accepted 33], [.accepted 5], [.stop .fatal]],
    .timer 2 .inProgress, .enter () [4], .leave (), .wake (),
    .handshake false, .functor .inProgress,
    .drain [[.accepted 2, .stop .eagain]]] : List (Label Unit))

theorem delivered_reconnect :
    ∃ w, Machine.run step (new { queueCapacity := 2 }) reconnect = some w ∧
      w.passed = [(0, .logDropped 1), (0, .msg [1]), (0, .msg [2]),
        (1, .msg [4])] ∧ w.Accounted := by
  have hany : (Machine.run step (new { queueCapacity := 2 }) reconnect).any
      (fun w => !w.stopped && w.passed == [(0, .logDropped 1), (0, .msg [1]),
        (0, .msg [2]), (1, .msg [4])]) = true := by decide +kernel
  obtain ⟨w, hrun, hw⟩ := (Option.any_eq_true _ _).mp hany
  obtain ⟨hstopped, hpassed⟩ := Bool.and_eq_true_iff.mp hw
  exact ⟨w, hrun, by simpa using hpassed,
    delivered (by decide +kernel) hrun (by simpa using hstopped)⟩

end LogSender

end GameFrame
