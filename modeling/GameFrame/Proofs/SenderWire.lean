import GameFrame.Proofs.ConnectionPrefix
import GameFrame.Proofs.LogDelivery
import GameFrame.Proofs.SenderCalls

/-!
# What a sender puts on the wire

`delivered` speaks of a sender that has not been stopped and whose batches go
through. Here it may be anywhere: in the middle of a batch that fails, behind
`stop()`, at the null pointer that ends the process. Two things hold all the
same.

Of the messages that were accepted, those that were passed to `send` are a
subsequence, and those still in the queue come behind them (`Ordered`). None is
passed twice, and none overtakes another.

On each socket the bytes that were written are a beginning of the frames of what
was passed on it (`Wired`). All of them were passed while the connection was
connected: a batch is only begun on one that is (`Manned`), and if it closes
under the batch, `connection_` is reset before the next message is due.
-/

namespace GameFrame

namespace LogSender

variable {ι : Type _}

/-- What was passed on `fd`. -/
def sentOn (passed : List (Nat × Payload)) (fd : Nat) : List Payload :=
  (passed.filter fun p => p.1 = fd).map (·.2)

/-- The frames of some payloads, one behind the other. -/
def wire (payloads : List Payload) : List UInt8 :=
  payloads.flatMap fun p => LengthPrefixedCodec.encode p.bytes

theorem accepted_of_frames {c : Connection} {passed : List (Nat × Payload)}
    {fd : Nat} (h : c.calls = frames passed fd) :
    GameFrame.accepted c.log = wire (sentOn passed fd) := by
  rw [c.accepted_calls, h, frames, wire, sentOn, List.flatMap_map,
    List.flatMap_map]
  rfl

/-! ## Connections -/

structure Wired (w : LogSender ι) : Prop where
  owns : ∀ c, w.tcpClient = some c → w.Owns c
  quiet : ∀ fd, (w.conns fd).messageCb = false
  frames : ∀ fd, (w.conns fd).calls = frames w.passed fd
  streams : ∀ fd, (w.conns fd).Prefixed

theorem prefixed_fresh : ({ messageCb := false } : Connection).Prefixed :=
  .of_eq (by rw [show ({ messageCb := false } : Connection).outputBuffer =
    .new from rfl, Buffer.readable_new]; rfl)

theorem wired_new (opts : Options) : (new opts : LogSender ι).Wired where
  owns := fun c h => by
    cases h
    exact ⟨by simp [TcpClient.Wf], by simp [new], by simp [new]⟩
  quiet := fun _ => rfl
  frames := fun _ => rfl
  streams := fun _ => prefixed_fresh

/-- On every socket, in every state, the bytes written are a beginning of the
frames of what was passed on it. -/
theorem Wired.written {w : LogSender ι} (hw : w.Wired) (fd : Nat) :
    written (w.conns fd).log <+: wire (sentOn w.passed fd) := by
  have hpart := (hw.streams fd).bytes
  rw [accepted_of_frames (hw.frames fd)] at hpart
  exact (List.prefix_append _ _).trans hpart

/-- What has nothing to do with connections. -/
theorem Wired.other {w w' : LogSender ι} (hw : w.Wired)
    (h : (w'.tcpClient, w'.connection, w'.conns, w'.passed) =
      (w.tcpClient, w.connection, w.conns, w.passed)) : w'.Wired := by
  simp only [Prod.mk.injEq] at h
  obtain ⟨hclient, hconnection, hconns, hpassed⟩ := h
  refine ⟨fun c hc => ?_, ?_, ?_, ?_⟩
  · have howns := hw.owns c (hclient ▸ hc)
    refine ⟨howns.wf, ?_, ?_⟩
    · rw [hpassed]; exact howns.passed
    · rw [hconnection]; exact howns.connection
  · rw [hconns]; exact hw.quiet
  · rw [hconns, hpassed]; exact hw.frames
  · rw [hconns]; exact hw.streams

/-- A connection behind something that is not a call of `send`. -/
theorem Wired.setConn {w : LogSender ι} (hw : w.Wired) {fd : Nat}
    {c : Connection} (h : Connection.Silent (w.conns fd) c)
    (hc : c.Prefixed) : (w.setConn fd c).Wired := by
  refine ⟨fun k hk => ?_, fun i => ?_, fun i => ?_, fun i => ?_⟩
  · exact ⟨(hw.owns k hk).wf, (hw.owns k hk).passed, (hw.owns k hk).connection⟩
  · show (if i = fd then c else w.conns i).messageCb = false
    split
    · exact h.messageCb.trans (hw.quiet fd)
    · exact hw.quiet i
  · show (if i = fd then c else w.conns i).calls = LogSender.frames w.passed i
    split
    · next hi => rw [h.calls, hi, hw.frames fd]
    · exact hw.frames i
  · show (if i = fd then c else w.conns i).Prefixed
    split
    · exact hc
    · exact hw.streams i

/-- Another client, to which the sockets in use are known, or none. -/
theorem Wired.setClient {w : LogSender ι} (hw : w.Wired) {c c' : TcpClient}
    (hc : w.tcpClient = some c) (hwf : c.Wf → c'.Wf)
    (hused : c.Wf → ∀ {fd}, c.Used fd → c'.Used fd) :
    { w with tcpClient := some c' }.Wired := by
  obtain ⟨hcwf, howned, hcurrent⟩ := hw.owns c hc
  refine ⟨fun k hk => ?_, hw.quiet, hw.frames, hw.streams⟩
  obtain rfl : c' = k := Option.some.inj hk
  exact ⟨hwf hcwf, fun p hp => hused hcwf (howned p hp),
    fun fd hfd => hused hcwf (hcurrent fd hfd)⟩

theorem Wired.noClient {w : LogSender ι} (hw : w.Wired) :
    { w with tcpClient := none }.Wired :=
  ⟨nofun, hw.quiet, hw.frames, hw.streams⟩

/-- Forgetting the connection. -/
theorem Wired.reset {w : LogSender ι} (hw : w.Wired) (paused : Bool) :
    { w with connection := none, paused := paused }.Wired :=
  ⟨fun c hc => ⟨(hw.owns c hc).wf, (hw.owns c hc).passed, by simp⟩,
    hw.quiet, hw.frames, hw.streams⟩

theorem Wired.onConnection {w : LogSender ι} (hw : w.Wired) {fd : Nat}
    (hused : ∀ c, w.tcpClient = some c → c.Used fd) :
    (w.onConnection fd).Wired := by
  have hset : ∀ w' : LogSender ι, w'.Wired → w'.tcpClient = w.tcpClient →
      { w' with connection := some fd, paused := false }.Wired := by
    intro w' hw' hsame
    refine ⟨fun c hc => ?_, hw'.quiet, hw'.frames, hw'.streams⟩
    have howns := hw'.owns c hc
    refine ⟨howns.wf, howns.passed, fun fd' hfd => ?_⟩
    obtain rfl : fd = fd' := Option.some.inj hfd
    exact hused c (hsame.symm.trans hc)
  rw [LogSender.onConnection]
  split
  · dsimp only
    split
    · refine hset _ (hw.setConn ⟨rfl, rfl⟩ ?_) rfl
      exact (hw.streams fd).other rfl rfl id
    · exact hset _ hw rfl
  · exact hw.reset false

/-- The client has done something, and the rest follows. -/
theorem Wired.settle {w : LogSender ι} (hw : w.Wired) {c : TcpClient}
    (hc : w.tcpClient = some c) {r : TcpClient × ClientAsk}
    (h : c.Wf → c.Hands r) : (w.settle r).Wired := by
  have howns := hw.owns c hc
  have hands := h howns.wf
  have hclient : { w with tcpClient := some r.1 }.Wired :=
    hw.setClient hc (fun _ => hands.wf) fun _ => hands.used
  rw [LogSender.settle]
  split
  · exact hclient
  · exact hclient.other rfl
  · next fd hask =>
      obtain ⟨hused, hfresh⟩ := hands.fresh hask
      have hnew : ∀ p ∈ w.passed, p.1 ≠ fd := fun p hp heq =>
        hfresh (heq ▸ howns.passed p hp)
      -- Nothing was passed on it, and a fresh connection has no log.
      have hbuilt : ({ w with tcpClient := some r.1 }.setConn fd
          { messageCb := false }).Wired := by
        refine ⟨fun k hk => ?_, fun i => ?_, fun i => ?_, fun i => ?_⟩
        · have howns := hclient.owns k hk
          exact ⟨howns.wf, howns.passed, howns.connection⟩
        · show (if i = fd then { messageCb := false } else
            w.conns i : Connection).messageCb = false
          split
          · rfl
          · exact hw.quiet i
        · show (if i = fd then { messageCb := false } else
            w.conns i : Connection).calls = LogSender.frames w.passed i
          split
          · next hi =>
              rw [hi, frames_fresh hnew]
              rfl
          · exact hw.frames i
        · show (if i = fd then { messageCb := false } else
            w.conns i : Connection).Prefixed
          split
          · exact prefixed_fresh
          · exact hw.streams i
      have hup := hbuilt.onConnection fun k hk => by
        obtain rfl : r.1 = k := Option.some.inj hk
        exact hused
      exact hup.setConn ⟨rfl, rfl⟩ ((hup.streams fd).other rfl rfl id)

theorem Wired.onConnectionClosed {w : LogSender ι} (hw : w.Wired) {fd : Nat}
    (hclosed : (w.conns fd).state = .kDisconnected) :
    (w.onConnectionClosed fd).Wired := by
  rw [LogSender.onConnectionClosed, onConnection_closed hclosed]
  split
  · exact (hw.reset false).other rfl
  · next c hc =>
      exact (hw.reset false).settle hc TcpClient.hands_onConnectionClosed

theorem Wired.putConn_of {w : LogSender ι} {fd : Nat} {c : Connection}
    (hw : (w.withConn fd c).Wired) : (w.putConn fd c).Wired := by
  by_cases hclosed : (w.conns fd).state ≠ .kDisconnected ∧
      c.state = .kDisconnected
  · rw [putConn_closed hclosed.1 hclosed.2]
    refine hw.onConnectionClosed ?_
    rw [withConn_self]
    exact hclosed.2
  · rw [putConn_open hclosed]
    exact hw

theorem Wired.putConn {w : LogSender ι} (hw : w.Wired) {fd : Nat}
    {c : Connection} (h : Connection.Silent (w.conns fd) c)
    (hc : c.Prefixed) : (w.putConn fd c).Wired := by
  have hset : (w.setConn fd { c with pending := [] }).Wired :=
    hw.setConn ⟨h.messageCb, h.calls⟩ (hc.other rfl rfl id)
  exact .putConn_of (hset.other rfl)

/-! ## The batch -/

/-- One message, passed to the connection. -/
theorem Wired.pass {w : LogSender ι} (hw : w.Wired) {fd : Nat} {p : Payload}
    {ws : List WriteRes} {c : Connection} (hconn : w.connection = some fd)
    (hstate : (w.conns fd).state = .kConnected)
    (h : (w.conns fd).send (LengthPrefixedCodec.encode p.bytes) ws = some c) :
    ({ w with passed := w.passed ++ [(fd, p)] }.putConn fd c).Wired := by
  obtain ⟨hquiet, hcalls⟩ := Connection.calls_send h
  have hframes : ∀ i, LogSender.frames (w.passed ++ [(fd, p)]) i =
      LogSender.frames w.passed i ++ LogSender.frames [(fd, p)] i := by
    intro i
    rw [LogSender.frames, List.filter_append, List.map_append]
    rfl
  refine .putConn_of ⟨fun k hk => ?_, fun i => ?_, fun i => ?_, fun i => ?_⟩
  · have howns := hw.owns k hk
    refine ⟨howns.wf, fun q hq => ?_, howns.connection⟩
    rcases List.mem_append.mp hq with hq | hq
    · exact howns.passed q hq
    · rw [List.mem_singleton.mp hq]
      exact howns.connection fd hconn
  · show (if i = fd then { c with pending := [] } else w.conns i).messageCb = _
    split
    · exact hquiet.trans (hw.quiet fd)
    · exact hw.quiet i
  · show (if i = fd then { c with pending := [] } else w.conns i).calls =
      LogSender.frames (w.passed ++ [(fd, p)]) i
    split
    · next hi =>
        show c.calls = _
        rw [hi, hcalls, hframes, hw.frames, hstate]
        simp [LogSender.frames]
    · next hi =>
        have hnone : LogSender.frames [(fd, p)] i = [] :=
          frames_fresh fun q hq => by
            rw [List.mem_singleton.mp hq]
            exact Ne.symm hi
        rw [hframes, hnone, List.append_nil]
        exact hw.frames i
  · show (if i = fd then { c with pending := [] } else w.conns i).Prefixed
    split
    · exact ((hw.streams fd).send trivial h).other rfl rfl id
    · exact hw.streams i

/-- A batch that is being sent has a connection that is up, or none. -/
def Live (w : LogSender ι) : Prop :=
  ∀ fd, w.connection = some fd → (w.conns fd).state = .kConnected

theorem live_of_connected {w : LogSender ι} (h : w.connected = true) :
    w.Live := by
  intro fd hfd
  simpa [connected, hfd] using h

/-- Behind a call of `send` there is the connection, up, or there is none. -/
theorem Live.pass {w : LogSender ι} (hw : w.Live) {fd : Nat} {p : Payload}
    {ws : List WriteRes} {c : Connection} (hconn : w.connection = some fd)
    (h : (w.conns fd).send (LengthPrefixedCodec.encode p.bytes) ws = some c) :
    ({ w with passed := w.passed ++ [(fd, p)] }.putConn fd c).Live := by
  have hstate := hw fd hconn
  rcases Connection.send_outcome h hstate
    (LengthPrefixedCodec.encode_ne_nil _) with ⟨-, hclosed⟩ | ⟨-, hopen⟩
  · have hnone : ({ w with passed := w.passed ++ [(fd, p)] }.putConn fd
        c).connection = none := by
      rw [putConn_closed (by simp [hstate]) hclosed]
      generalize hw₁ : { w with passed := w.passed ++ [(fd, p)] }.withConn fd
        c = w₁
      have hclosed₁ : (w₁.conns fd).state = .kDisconnected := by
        rw [← hw₁, withConn_self]
        exact hclosed
      cases hclient : w₁.tcpClient with
      | none =>
          rw [LogSender.onConnectionClosed, onConnection_closed hclosed₁]
          simp only [hclient]
          rfl
      | some k =>
          obtain ⟨timers, next, heq⟩ := onConnectionClosed_eq hclosed₁ hclient
          rw [heq]
    intro fd' hfd'
    cases hnone.symm.trans hfd'
  · rw [putConn_open (by simp [hopen])]
    intro fd' hfd'
    obtain rfl : fd = fd' := Option.some.inj (hconn.symm.trans hfd')
    rw [withConn_self]
    exact hopen

theorem Wired.sendBatch {batch : List Payload} {w w' : LogSender ι}
    {scripts : List (List WriteRes)} (hw : w.Wired) (hlive : w.Live)
    (h : w.sendBatch batch scripts = some w') : w'.Wired := by
  refine sendBatch_rule (P := fun w => w.Wired ∧ w.Live) ?_ (fun hw => hw.1)
    (fun hw => hw.1.other rfl) ⟨hw, hlive⟩ h
  intro w fd p ws c hw hconn hsend
  exact ⟨hw.1.pass hconn (hw.2 fd hconn) hsend, hw.2.pass hconn hsend⟩

/-! ## The other functions of the loop thread -/

theorem Wired.scheduleNextTick {w : LogSender ι} (hw : w.Wired) :
    w.scheduleNextTick.Wired := by
  rw [LogSender.scheduleNextTick]
  split
  · exact hw
  · exact hw.other rfl

theorem Wired.onTick {w : LogSender ι} (hw : w.Wired) : w.onTick.Wired := by
  rw [LogSender.onTick]
  split
  · exact hw
  · split
    · exact hw.other rfl
    · exact hw.scheduleNextTick

theorem Wired.startInLoop {w : LogSender ι} (hw : w.Wired) (d : Dial) :
    (w.startInLoop d).Wired := by
  rw [LogSender.startInLoop]
  split
  · exact hw
  · have hstart : { w with started := true }.Wired := hw.other rfl
    dsimp only
    split
    · exact hstart.other rfl
    · next c hc =>
        refine (hstart.settle hc fun hwf => ?_).scheduleNextTick
        exact TcpClient.hands_connectInLoop hwf d

theorem Wired.closeConn {w : LogSender ι} (hw : w.Wired) (fd : Option Nat) :
    (w.closeConn fd).Wired := by
  cases fd with
  | none => exact hw
  | some fd =>
      exact hw.putConn (Connection.silent_close _) (hw.streams fd).close

/-- What is in use stays in use when a dial is given up. -/
theorem used_disconnectInLoop {c : TcpClient} (hc : c.Wf) :
    c.disconnectInLoop.1.Wf ∧
      ∀ {fd}, c.Used fd → c.disconnectInLoop.1.Used fd := by
  rw [TcpClient.disconnectInLoop]
  dsimp only
  split
  · exact ⟨hc, id⟩
  · split
    · rw [TcpClient.abandonDial]
      split
      · exact ⟨hc, id⟩
      · exact ⟨by simp [TcpClient.Wf, TcpClient.closeFd],
          fun hu => ⟨hu.1, by simp [TcpClient.closeFd]⟩⟩
    · split
      · exact ⟨hc, id⟩
      · exact ⟨hc, id⟩

theorem Wired.stopRest {w : LogSender ι} (hw : w.Wired) :
    w.stopRest.Wired := by
  have hshut : w.shutdownConn.Wired := by
    rw [LogSender.shutdownConn]
    split
    · exact hw
    · next fd _ =>
        refine hw.putConn ?_ (hw.streams fd).shutdown
        rw [Connection.shutdown]
        split
        · have hinLoop := Connection.silent_shutdownInLoop
            { w.conns fd with state := .kDisconnecting }
          exact ⟨hinLoop.messageCb, hinLoop.calls⟩
        · exact .refl _
  rw [LogSender.stopRest]
  revert hshut
  generalize w.shutdownConn = w₁
  intro hw₁
  dsimp only
  split
  · exact hw₁.other rfl
  · next c hc =>
      have hclosed : { w₁.disconnect c with connection := none }.Wired := by
        rw [LogSender.disconnect]
        have hoff := hw₁.setClient hc (fun hwf => (used_disconnectInLoop hwf).1)
          fun hwf => (used_disconnectInLoop hwf).2
        exact (hoff.closeConn _).reset _
      split
      · exact hclosed
      · next c' hc' =>
          have hoff : Wired { w₁.disconnect c with
              connection := none
              tcpClient := some { c' with retryEnabled := false } } :=
            hclosed.setClient hc' id fun _ => id
          exact (hoff.closeConn _).noClient

theorem Wired.stopInLoop {w : LogSender ι} (hw : w.Wired) :
    w.stopInLoop.Wired := by
  rw [LogSender.stopInLoop]
  split
  · exact hw
  · have hcancel : { w with stopped := true }.cancelTick.Wired := by
      rw [cancelTick]
      split
      · exact hw.other rfl
      · exact hw.other rfl
    dsimp only
    split
    · exact hcancel.other rfl
    · exact hcancel.stopRest

theorem Wired.runFunctor {w : LogSender ι} (hw : w.Wired) (d : Dial)
    (f : SenderFunctor) : (w.runFunctor d f).Wired := by
  cases f with
  | startInLoop => exact hw.startInLoop d
  | stopInLoop => exact hw.stopInLoop
  | wake =>
      rw [LogSender.runFunctor]
      split
      · exact hw
      · exact hw.onTick
  | conn fd f =>
      cases f with
      | shutdownInLoop =>
          exact hw.putConn (Connection.silent_shutdownInLoop _)
            (hw.streams fd).shutdownInLoop
      | highWaterMark | writeComplete => exact hw.other rfl

theorem Wired.fireTimer {w : LogSender ι} (hw : w.Wired) (d : Dial)
    (k : TimerKind) : (w.fireTimer d k).Wired := by
  cases k with
  | tick =>
      have hfired : { w with tickTimerId := 0 }.Wired := hw.other rfl
      exact hfired.onTick
  | retry =>
      rw [LogSender.fireTimer]
      split
      · exact hw.other rfl
      · next c hc =>
          exact hw.settle hc fun hwf => TcpClient.hands_retry hwf d

theorem Wired.finishDrain {w w' : LogSender ι} (hw : w.Wired)
    (hconn : w.connected = true) {dropped : Nat} {stopping : Bool}
    {scripts : List (List WriteRes)}
    (h : w.finishDrain dropped stopping scripts = some w') : w'.Wired := by
  obtain ⟨w₁, hdrain, rfl⟩ := Option.map_eq_some_iff.mp h
  have hlive : { w with loopPc := .idle }.Live := live_of_connected hconn
  have hdone : w₁.Wired := by
    rw [drainAndSend_eq] at hdrain
    refine Wired.sendBatch ?_ ?_ hdrain
    · exact hw.other rfl
    · exact hlive
  rw [behindDrain]
  split
  · exact hdone
  · split
    · exact hdone.stopRest
    · exact hdone.scheduleNextTick

/-! ## Between the two halves of `do_drain_and_send` -/

/-- A batch that is due has a connection that is up. -/
def Manned (w : LogSender ι) : Prop :=
  ∀ dropped stopping, w.loopPc = .draining dropped stopping →
    w.connected = true

theorem manned_idle {w : LogSender ι} (h : w.loopPc = .idle) : w.Manned :=
  fun _ _ hpc => by cases h.symm.trans hpc

theorem Manned.onTick {w : LogSender ι} (hidle : w.loopPc = .idle) :
    w.onTick.Manned := by
  rw [LogSender.onTick]
  split
  · exact manned_idle hidle
  · split
    · next hgate => exact fun _ _ _ => (Bool.and_eq_true_iff.mp hgate).1
    · exact manned_idle ((steady_scheduleNextTick w).loopPc.trans hidle)

theorem Manned.stopInLoop {w : LogSender ι} (hidle : w.loopPc = .idle) :
    w.stopInLoop.Manned := by
  rw [LogSender.stopInLoop]
  split
  · exact manned_idle hidle
  · have hcancel : { w with stopped := true }.cancelTick.loopPc = .idle :=
      (steady_cancelTick { w with stopped := true }).loopPc.trans hidle
    dsimp only
    split
    · next hconn => exact fun _ _ _ => hconn
    · exact manned_idle ((steady_stopRest _).loopPc.trans hcancel)

theorem Manned.runFunctor {w : LogSender ι} (hidle : w.loopPc = .idle)
    (d : Dial) (f : SenderFunctor) : (w.runFunctor d f).Manned := by
  cases f with
  | startInLoop =>
      exact manned_idle ((startInLoop_called w d).2.2.2.trans hidle)
  | stopInLoop => exact Manned.stopInLoop hidle
  | wake =>
      rw [LogSender.runFunctor]
      split
      · exact manned_idle hidle
      · exact Manned.onTick hidle
  | conn fd f =>
      cases f with
      | shutdownInLoop =>
          exact manned_idle ((steady_putConn w fd _).loopPc.trans hidle)
      | highWaterMark | writeComplete => exact manned_idle hidle

theorem Manned.fireTimer {w : LogSender ι} (hidle : w.loopPc = .idle)
    (d : Dial) (k : TimerKind) : (w.fireTimer d k).Manned := by
  cases k with
  | tick => exact Manned.onTick (w := { w with tickTimerId := 0 }) hidle
  | retry =>
      rw [LogSender.fireTimer]
      split
      · exact manned_idle hidle
      · exact manned_idle ((steady_settle w _).loopPc.trans hidle)

/-! ## The step -/

variable [DecidableEq ι]

theorem manned_step {w w' : LogSender ι} {l : Label ι} (hw : w.Manned)
    (h : w.step l = some w') : w'.Manned := by
  cases (step_stepped h).2 with
  | enter | leave | wake | start | stop => exact hw
  | drain scripts dropped stopping _ hloop hfinish =>
      exact manned_idle (finishDrain_idle hfinish)
  | functor d f fs hidle => exact Manned.runFunctor (by exact hidle) d f
  | timer id d t hidle => exact Manned.fireTimer (by exact hidle) d t.kind
  | handshake err c hidle =>
      exact manned_idle ((steady_settle w _).loopPc.trans hidle)
  | event fd revents d c hidle =>
      exact manned_idle ((steady_putConn w fd c).loopPc.trans hidle)

theorem wired_step {w w' : LogSender ι} {l : Label ι}
    (hw : w.Wired ∧ w.Manned) (h : w.step l = some w') :
    w'.Wired ∧ w'.Manned := by
  refine ⟨?_, manned_step hw.2 h⟩
  cases (step_stepped h).2 with
  | enter | leave | wake | start | stop => exact hw.1.other rfl
  | drain scripts dropped stopping _ hloop hfinish =>
      exact hw.1.finishDrain (hw.2 dropped stopping hloop) hfinish
  | functor d f fs =>
      have hpop : { w with pending := fs }.Wired := hw.1.other rfl
      exact hpop.runFunctor d f
  | timer id d t =>
      have hcancel : (w.cancelTimer id).Wired := hw.1.other rfl
      exact hcancel.fireTimer d t.kind
  | handshake err c hidle hc =>
      exact hw.1.settle hc fun hwf =>
        TcpClient.hands_handleConnectWritable hwf err
  | event fd revents d c hidle hadded hc =>
      exact hw.1.putConn (Connection.silent_handleEvent (hw.1.quiet fd) hc)
        ((hw.1.streams fd).handleEvent (fun _ _ => trivial) hc)

theorem wired_reachable {opts : Options} {ls : List (Label ι)}
    {w : LogSender ι} (hrun : Machine.run step (new opts) ls = some w) :
    w.Wired :=
  (Machine.run_preserves (P := fun w : LogSender ι => w.Wired ∧ w.Manned)
    (fun hw h => wired_step hw h)
    ⟨wired_new opts, manned_idle rfl⟩ hrun).1

end LogSender

end GameFrame
