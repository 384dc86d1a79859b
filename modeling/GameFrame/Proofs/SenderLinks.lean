import GameFrame.Proofs.LogDelivery
import GameFrame.Proofs.TickTimer

/-!
# One connection at a time

What `stop()` finds depends on how the sender, its client and the connections
hang together: `connection_` of the one is `connection_` of the other, it is
there when the client's state says so, it is connected and has its mark set,
and every other connection is off the loop (`Tidy`). This holds in every state
before `stop_in_loop` of a process that has not ended, and nothing is asked of
the run (`tidy_reachable`): a batch that meets a null pointer does not leave a
state behind.
-/

namespace GameFrame

/-! ## The client -/

namespace TcpClient

/-- The state is what the fields say. -/
structure Sound (c : TcpClient) : Prop where
  dialling : c.connectChannel.isSome = true → c.state = .kConnecting
  connection : c.connection.isSome = true ↔ c.state = .kConnected
  enabled : c.state ≠ .kDisconnected → c.retryEnabled = true

/-- A function of the client leaves it sound, and a new connection takes the
place of none. -/
structure Answers (c : TcpClient) (r : TcpClient × ClientAsk) : Prop where
  sound : r.1.Sound
  kept : (∀ fd, r.2 ≠ .established fd) → r.1.connection = c.connection
  fresh : ∀ fd, r.2 = .established fd →
    c.connection = none ∧ r.1.connection = some fd

theorem answers_nothing {c : TcpClient} (hc : c.Sound) :
    c.Answers (c, .nothing) := ⟨hc, fun _ => rfl, nofun⟩

theorem answers_scheduleRetry {c : TcpClient} (hchan : c.connectChannel = none)
    (hconn : c.connection = none) : c.Answers c.scheduleRetry := by
  rw [scheduleRetry]
  split
  · exact ⟨⟨by simp [hchan], by simp [hconn], by simp⟩, fun _ => rfl, by simp⟩
  · next henabled =>
      exact ⟨⟨by simp [hchan], by simp [hconn], fun _ => by simpa using henabled⟩,
        fun _ => rfl, by simp⟩

theorem answers_handleConnectWritable {c : TcpClient} (err : Bool)
    (hconn : c.connection = none) (henabled : c.retryEnabled = true) :
    c.Answers (c.handleConnectWritable err) := by
  have hretry : ∀ c' : TcpClient, c'.connectChannel = none →
      c'.connection = none → c.Answers c'.scheduleRetry := by
    intro c' hchan hconn'
    have h := answers_scheduleRetry hchan hconn'
    refine ⟨h.sound, fun hask => (h.kept hask).trans ?_, fun fd hask => ?_⟩
    · rw [hconn', hconn]
    · exact ⟨hconn, (h.fresh fd hask).2⟩
  rw [handleConnectWritable]
  split
  · exact hretry _ rfl hconn
  · next fd _ =>
      split
      · exact hretry _ rfl hconn
      · refine ⟨⟨by simp, by simp, fun _ => henabled⟩, fun hask => ?_, ?_⟩
        · exact absurd rfl (hask fd)
        · intro fd' hask
          cases hask
          exact ⟨hconn, rfl⟩

theorem answers_startConnect {c : TcpClient} (d : Dial)
    (hchan : c.connectChannel = none) (hconn : c.connection = none) :
    c.Answers (c.startConnect d) := by
  have hretry : ∀ c' : TcpClient, c'.connectChannel = none →
      c'.connection = c.connection → c.Answers c'.scheduleRetry := by
    intro c' hchan' hsame
    have h := answers_scheduleRetry hchan' (hsame.trans hconn)
    exact ⟨h.sound, fun hask => (h.kept hask).trans hsame,
      fun fd hask => ⟨hconn, (h.fresh fd hask).2⟩⟩
  rw [startConnect]
  split
  · exact ⟨⟨by simp [hchan], by simp [hconn], by simp⟩, fun _ => rfl, by simp⟩
  · next henabled =>
      have henabled : c.retryEnabled = true := by simpa using henabled
      cases d with
      | noSocket => exact hretry c hchan rfl
      | blocking => exact hretry _ hchan rfl
      | immediate err =>
          have h := answers_handleConnectWritable
            (c := { c with
              sockets := c.sockets + 1
              connectingFd := some c.sockets
              state := .kConnecting }) err hconn henabled
          exact ⟨h.sound, h.kept, h.fresh⟩
      | refused => exact hretry _ hchan rfl
      | inProgress =>
          exact ⟨⟨fun _ => rfl, by simp [openSocket, hconn], fun _ => henabled⟩,
            fun _ => rfl, by simp⟩

/-- A sound client that is not connected has no connection, and one that is
not dialling no channel. -/
theorem Sound.noConnection {c : TcpClient} (hc : c.Sound)
    (h : c.state ≠ .kConnected) : c.connection = none := by
  cases hconn : c.connection with
  | none => rfl
  | some fd => exact absurd (hc.connection.mp (by rw [hconn]; rfl)) h

theorem Sound.noChannel {c : TcpClient} (hc : c.Sound)
    (h : c.state ≠ .kConnecting) : c.connectChannel = none := by
  cases hchan : c.connectChannel with
  | none => rfl
  | some ch => exact absurd (hc.dialling (by rw [hchan]; rfl)) h

theorem answers_connectInLoop {c : TcpClient} (hc : c.Sound) (d : Dial) :
    c.Answers (c.connectInLoop d) := by
  rw [connectInLoop]
  split
  · exact answers_nothing hc
  · next hidle =>
      have hchan := hc.noChannel fun h => hidle (.inl h)
      have hconn := hc.noConnection fun h => hidle (.inr h)
      have h := answers_startConnect (c := { c with
        retryEnabled := true
        backoffMs := kInitialBackoffMs }) d hchan hconn
      exact ⟨h.sound, h.kept, h.fresh⟩

theorem answers_retry {c : TcpClient} (hc : c.Sound) (d : Dial) :
    c.Answers (c.retry d) := by
  rw [retry]
  split
  · exact answers_nothing hc
  · next hstate =>
      have hstate : c.state = .kRetrying := by simpa using hstate
      exact answers_startConnect d (hc.noChannel (by simp [hstate]))
        (hc.noConnection (by simp [hstate]))

/-- Behind a connection that is closed, the client has none. -/
theorem answers_onConnectionClosed {c : TcpClient} (hc : c.Sound)
    (hconn : c.connection.isSome = true) :
    { c with connection := none }.Answers c.onConnectionClosed :=
  answers_scheduleRetry
    (hc.noChannel (by simp [hc.connection.mp hconn])) rfl

end TcpClient

/-! ## The connection -/

namespace Connection

/-- The connection is closed and off its loop for good. -/
def Gone (c : Connection) : Prop :=
  c.state = .kDisconnected ∧ c.channel.state ≠ .kAdded ∧ c.fdOpen = false

/-- What its owner has set is as before, and the connection is either up or
gone. -/
structure Lives (c₀ c : Connection) : Prop where
  messageCb : c.messageCb = c₀.messageCb
  highWaterCb : c.highWaterCb = c₀.highWaterCb
  highWaterMark : c.highWaterMark = c₀.highWaterMark
  upOrGone : c.state = .kConnected ∨ c.Gone

theorem Lives.refl {c : Connection} (h : c.state = .kConnected) : Lives c c :=
  ⟨rfl, rfl, rfl, .inl h⟩

/-- A change of buffers, functors or log. -/
theorem Lives.same {c₀ c c' : Connection} (hc : Lives c₀ c)
    (h : (c'.messageCb, c'.highWaterCb, c'.highWaterMark, c'.state, c'.channel,
      c'.fdOpen) = (c.messageCb, c.highWaterCb, c.highWaterMark, c.state,
      c.channel, c.fdOpen)) : Lives c₀ c' := by
  simp only [Prod.mk.injEq] at h
  obtain ⟨hmessage, hcb, hmark, hstate, hchan, hfd⟩ := h
  refine ⟨hmessage.trans hc.messageCb, hcb.trans hc.highWaterCb,
    hmark.trans hc.highWaterMark, ?_⟩
  rw [Gone, hstate, hchan, hfd]
  exact hc.upOrGone

theorem Lives.close {c₀ c : Connection} (hc : Lives c₀ c) :
    Lives c₀ c.close := by
  rw [Connection.close]
  split
  · exact hc
  · dsimp only
    split
    · exact ⟨hc.messageCb, hc.highWaterCb, hc.highWaterMark,
        .inr ⟨rfl, by simp [note, Channel.remove], rfl⟩⟩
    · exact ⟨hc.messageCb, hc.highWaterCb, hc.highWaterMark,
        .inr ⟨rfl, by simp [Channel.remove], rfl⟩⟩

theorem Lives.handleRead {c₀ c c' : Connection} (hc : Lives c₀ c)
    (hquiet : c₀.messageCb = false) {reads : List ReadRes} {cb : List UserOp}
    (h : c.handleRead reads cb = some c') : Lives c₀ c' := by
  have hheard : ∀ n b, Lives c₀ (c.heard n b) := fun _ _ => hc.same rfl
  obtain ⟨n, b, rfl | rfl⟩ :=
    handleRead_quiet (hc.messageCb.trans hquiet) h
  · exact hheard n b
  · exact (hheard n b).close

theorem Lives.stopWriting {c₀ c : Connection} (hc : Lives c₀ c) :
    Lives c₀ c.stopWriting := by
  rw [Connection.stopWriting]
  split
  · refine ⟨hc.messageCb, hc.highWaterCb, hc.highWaterMark, ?_⟩
    rcases hc.upOrGone with hup | ⟨hstate, hchan, hfd⟩
    · exact .inl hup
    · refine .inr ⟨hstate, ?_, hfd⟩
      -- `epoll_ctl` fails on the closed descriptor.
      simp only [Channel.disableWriting, Channel.update, hfd]
      split
      · simpa using hchan
      · simpa using hchan
      · next h => exact absurd h hchan
  · exact hc

theorem Lives.halfClose {c₀ c : Connection} (hc : Lives c₀ c) :
    Lives c₀ c.halfClose := by
  rw [Connection.halfClose]
  split
  · exact hc.same rfl
  · exact hc

theorem Lives.notifyWritten {c₀ c : Connection} (hc : Lives c₀ c) :
    Lives c₀ c.notifyWritten := by
  rw [Connection.notifyWritten]
  split
  · exact hc.same rfl
  · exact hc

theorem Lives.handleWrite {c₀ c c' : Connection} (hc : Lives c₀ c)
    {writes : List WriteRes} (h : c.handleWrite writes = some c') :
    Lives c₀ c' := by
  have hflushed : ∀ chunks b, Lives c₀ (c.flushed chunks b) :=
    fun _ _ => hc.same rfl
  cases handleWrite_flushed h with
  | idle => exact hc.stopWriting
  | full chunks b => exact hflushed chunks b
  | failed chunks b => exact (hflushed chunks b).close
  | taken chunks b =>
      exact (hflushed chunks b).stopWriting.halfClose.notifyWritten

theorem lives_handleEvent {c c' : Connection} {revents : UInt32} {d : Dispatch}
    (hstate : c.state = .kConnected) (hquiet : c.messageCb = false)
    (h : c.handleEvent revents d = some c') : Lives c c' := by
  have hclose : ∀ {s s' : Connection}, Lives c s → some s.close = some s' →
      Lives c s' := by
    intro s s' hs h
    cases h
    exact hs.close
  rw [handleEvent] at h
  exact Channel.handleEvent_preserves hclose hclose
    (fun hs h => hs.handleRead hquiet h) (fun hs h => hs.handleWrite h)
    (.refl hstate) h

theorem Lives.sendRest {c₀ c : Connection} (hc : Lives c₀ c)
    (hstate : c.state = .kConnected) (rem : List UInt8) :
    Lives c₀ (c.sendRest rem) := by
  have hkeep := (sendRest_spec c rem).1.trans hstate
  have hset : (c.sendRest rem).messageCb = c.messageCb ∧
      (c.sendRest rem).highWaterCb = c.highWaterCb ∧
      (c.sendRest rem).highWaterMark = c.highWaterMark := by
    rw [Connection.sendRest]
    split
    · exact ⟨rfl, rfl, rfl⟩
    · dsimp only
      repeat' split
      all_goals exact ⟨rfl, rfl, rfl⟩
  exact ⟨hset.1.trans hc.messageCb, hset.2.1.trans hc.highWaterCb,
    hset.2.2.trans hc.highWaterMark, .inl hkeep⟩

theorem lives_send {c c' : Connection} {data : List UInt8}
    {writes : List WriteRes} (hstate : c.state = .kConnected)
    (h : c.send data writes = some c') : Lives c c' := by
  have hwrote : ∀ chunks, Lives c (c.wrote data chunks) := fun _ =>
    (Lives.refl hstate).same rfl
  cases send_sent h with
  | ignored => exact (Lives.refl hstate).same rfl
  | behind => exact (hwrote []).sendRest hstate data
  | failed chunks => exact (hwrote chunks).close
  | taken chunks rem => exact (hwrote chunks).sendRest hstate rem

/-- What `on_connection` hands out is connected and has its mark set. -/
structure Watched (opts : Options) (c : Connection) : Prop where
  state : c.state = .kConnected
  highWaterCb : c.highWaterCb = decide (0 < opts.highWaterMark)
  highWaterMark : c.highWaterMark = opts.highWaterMark

theorem Watched.lives {opts : Options} {c c' : Connection} (hc : c.Watched opts)
    (h : Lives c c') (hstate : c'.state = .kConnected) : c'.Watched opts :=
  ⟨hstate, h.highWaterCb.trans hc.highWaterCb,
    h.highWaterMark.trans hc.highWaterMark⟩

end Connection

/-! ## The sender -/

namespace LogSender

variable {ι : Type _}

structure Tidy (w : LogSender ι) : Prop where
  numbered : w.Numbered
  queue : w.queue.Wf
  client : ∃ c, w.tcpClient = some c ∧ c.Sound ∧ c.connection = w.connection
  current : ∀ fd, w.connection = some fd → (w.conns fd).Watched w.opts
  others : ∀ fd, w.connection ≠ some fd →
    (w.conns fd).channel.state ≠ .kAdded
  swept : ∀ fd, (w.conns fd).pending = []
  quiet : ∀ fd, (w.conns fd).messageCb = false
  working : ∀ dropped stopping, w.loopPc = .draining dropped stopping →
    stopping = false

theorem tidy_new (opts : Options) : (new opts : LogSender ι).Tidy where
  numbered := ⟨Nat.one_pos, fun _ h => absurd h List.not_mem_nil⟩
  queue := MPSCQueue.wf_new _
  client := ⟨{}, rfl, ⟨by simp, by simp, by simp⟩, rfl⟩
  current := nofun
  others := fun _ _ => nofun
  swept := fun _ => rfl
  quiet := fun _ => rfl
  working := fun _ _ h => by cases h

/-- A change of nothing but functors, timers, producers and books. -/
theorem Tidy.other {w w' : LogSender ι} (hw : w.Tidy)
    (h : (w'.opts, w'.tcpClient, w'.connection, w'.conns) =
      (w.opts, w.tcpClient, w.connection, w.conns)) (hnum : w'.Numbered)
    (hqueue : w'.queue.Wf)
    (hloop : ∀ dropped stopping, w'.loopPc = .draining dropped stopping →
      w'.loopPc = w.loopPc ∨ stopping = false) : w'.Tidy := by
  simp only [Prod.mk.injEq] at h
  obtain ⟨hopts, hclient, hconnection, hconns⟩ := h
  refine ⟨hnum, hqueue, ?_, ?_, ?_, ?_, ?_, fun dropped stopping h => ?_⟩
  · rw [hclient, hconnection]; exact hw.client
  · rw [hconnection, hconns, hopts]; exact hw.current
  · rw [hconnection, hconns]; exact hw.others
  · rw [hconns]; exact hw.swept
  · rw [hconns]; exact hw.quiet
  · rcases hloop dropped stopping h with hsame | hfalse
    · exact hw.working dropped stopping (hsame ▸ h)
    · exact hfalse

/-- The connection it has is exchanged for one that is up. -/
theorem Tidy.withConn {w : LogSender ι} (hw : w.Tidy) {fd : Nat}
    {c : Connection} (hcurrent : w.connection = some fd → c.Watched w.opts)
    (hother : w.connection ≠ some fd → c.channel.state ≠ .kAdded)
    (hquiet : c.messageCb = false) : (w.withConn fd c).Tidy := by
  have hat : (w.withConn fd c).conns fd = { c with pending := [] } :=
    withConn_self w fd c
  have hoff : ∀ i, i ≠ fd → (w.withConn fd c).conns i = w.conns i :=
    fun i hi => if_neg hi
  refine ⟨hw.numbered, hw.queue, hw.client, fun i hi => ?_, fun i hi => ?_,
    fun i => ?_, fun i => ?_, hw.working⟩
  · by_cases heq : i = fd
    · have h := hcurrent (heq ▸ hi)
      rw [heq, hat]
      exact ⟨h.state, h.highWaterCb, h.highWaterMark⟩
    · rw [hoff i heq]
      exact hw.current i hi
  · by_cases heq : i = fd
    · rw [heq, hat]
      exact hother (heq ▸ hi)
    · rw [hoff i heq]
      exact hw.others i hi
  · by_cases heq : i = fd
    · rw [heq, hat]
    · rw [hoff i heq]
      exact hw.swept i
  · by_cases heq : i = fd
    · rw [heq, hat]
      exact hquiet
    · rw [hoff i heq]
      exact hw.quiet i

/-- A function of the current connection is over, and it is up or gone. -/
theorem Tidy.putConn {w : LogSender ι} (hw : w.Tidy) {fd : Nat}
    {c : Connection} (hfd : w.connection = some fd)
    (h : Connection.Lives (w.conns fd) c) : (w.putConn fd c).Tidy := by
  have hquiet : c.messageCb = false := h.messageCb.trans (hw.quiet fd)
  rcases h.upOrGone with hup | hgone
  · rw [putConn_open (by simp [hup])]
    exact hw.withConn (fun _ => (hw.current fd hfd).lives h hup)
      (fun hne => absurd hfd hne) hquiet
  · have hopen : (w.conns fd).state ≠ .kDisconnected := by
      simp [(hw.current fd hfd).state]
    obtain ⟨k, hk, hsound, hconn⟩ := hw.client
    have hanswer := TcpClient.answers_onConnectionClosed hsound
      (by rw [hconn, hfd]; rfl)
    have hnone : k.onConnectionClosed.1.connection = none :=
      hanswer.kept fun fd' => by
        rw [TcpClient.onConnectionClosed, TcpClient.scheduleRetry]
        split <;> simp
    have hnum := (aside_putConn w fd c).numbered hw.numbered
    rw [putConn_closed hopen hgone.1] at hnum ⊢
    obtain ⟨timers, next, heq⟩ := onConnectionClosed_eq
      (w := w.withConn fd c) (by rw [withConn_self]; exact hgone.1) hk
    rw [heq] at hnum ⊢
    refine ⟨hnum, hw.queue, ⟨_, rfl, hanswer.sound, hnone⟩, by simp,
      fun i _ => ?_, fun i => ?_, fun i => ?_, hw.working⟩
    · show ((w.withConn fd c).conns i).channel.state ≠ .kAdded
      by_cases hi : i = fd
      · rw [hi, withConn_self]
        exact hgone.2.1
      · rw [show (w.withConn fd c).conns i = w.conns i from if_neg hi]
        refine hw.others i fun hsome => hi ?_
        exact Option.some.inj (hsome.symm.trans hfd)
    · show ((w.withConn fd c).conns i).pending = []
      by_cases hi : i = fd
      · rw [hi, withConn_self]
      · rw [show (w.withConn fd c).conns i = w.conns i from if_neg hi]
        exact hw.swept i
    · show ((w.withConn fd c).conns i).messageCb = false
      by_cases hi : i = fd
      · rw [hi, withConn_self]
        exact hquiet
      · rw [show (w.withConn fd c).conns i = w.conns i from if_neg hi]
        exact hw.quiet i

/-- The connection as it is when `on_connection` and `start()` are done. -/
def opened (opts : Options) : Connection :=
  Connection.start
    { messageCb := false
      highWaterCb := decide (0 < opts.highWaterMark)
      highWaterMark := opts.highWaterMark
      writeCompleteCb := decide (0 < opts.highWaterMark) }

theorem settle_established {w : LogSender ι} {r : TcpClient × ClientAsk}
    {fd : Nat} (h : r.2 = .established fd) :
    w.settle r =
      { w.setConn fd (opened w.opts) with
        tcpClient := some r.1
        connection := some fd
        paused := false } := by
  have hself : ∀ (w : LogSender ι) (c : Connection),
      (w.setConn fd c).conns fd = c := fun w c => if_pos rfl
  rw [settle, h]
  simp only [onConnection, hself, if_pos]
  by_cases hmark : w.opts.highWaterMark > 0
  · have hopts : (w.setConn fd { messageCb := false }).opts = w.opts := rfl
    simp only [setConn, hmark, if_pos, opened, decide_true]
    congr 1
    funext i
    split
    · rfl
    · rfl
  · have hzero : w.opts.highWaterMark = 0 := by omega
    simp only [setConn, hzero, opened, Nat.lt_irrefl, decide_false, gt_iff_lt,
      if_neg, not_false_eq_true]
    congr 1
    funext i
    split
    · rfl
    · rfl

theorem Tidy.settle {w : LogSender ι} (hw : w.Tidy) {c : TcpClient}
    (hc : w.tcpClient = some c) {r : TcpClient × ClientAsk}
    (h : c.Sound → c.Answers r) : (w.settle r).Tidy := by
  obtain ⟨c', hc', hsound, hconn⟩ := hw.client
  cases hc'.symm.trans hc
  have hanswer := h hsound
  have hnum := (aside_settle w r).numbered hw.numbered
  cases hask : r.2 with
  | established fd =>
      obtain ⟨hnone, hfresh⟩ := hanswer.fresh fd hask
      rw [settle_established hask] at hnum ⊢
      have hno : ∀ i, w.connection ≠ some i := by
        intro i hi
        rw [← hconn, hnone] at hi
        cases hi
      refine ⟨hnum, hw.queue, ⟨_, rfl, hanswer.sound, hfresh⟩,
        fun i hi => ?_, fun i hi => ?_, fun i => ?_, fun i => ?_, hw.working⟩
      · cases hi
        show (if fd = fd then opened w.opts else _).Watched w.opts
        rw [if_pos rfl]
        exact ⟨rfl, rfl, rfl⟩
      · have hne : i ≠ fd := fun heq => hi (by rw [heq])
        show (if i = fd then opened w.opts else w.conns i).channel.state ≠ _
        rw [if_neg hne]
        exact hw.others i (hno i)
      · show (if i = fd then opened w.opts else w.conns i).pending = []
        split
        · rfl
        · exact hw.swept i
      · show (if i = fd then opened w.opts else w.conns i).messageCb = false
        split
        · rfl
        · exact hw.quiet i
  | nothing | runAfter _ =>
      have hkept : r.1.connection = w.connection :=
        (hanswer.kept fun fd => by simp [hask]).trans hconn
      rw [LogSender.settle, hask] at hnum ⊢
      exact ⟨hnum, hw.queue, ⟨_, rfl, hanswer.sound, hkept⟩, hw.current,
        hw.others, hw.swept, hw.quiet, hw.working⟩

theorem Tidy.scheduleNextTick {w : LogSender ι} (hw : w.Tidy) :
    w.scheduleNextTick.Tidy := by
  rw [LogSender.scheduleNextTick]
  split
  · exact hw
  · exact hw.other rfl (numbered_runAfter hw.numbered _ _) hw.queue
      fun _ _ _ => .inl rfl

theorem Tidy.onTick {w : LogSender ι} (hw : w.Tidy) : w.onTick.Tidy := by
  rw [LogSender.onTick]
  split
  · exact hw
  · split
    · refine hw.other rfl hw.numbered hw.queue.takeDropped fun _ _ h => .inr ?_
      cases h
      rfl
    · exact hw.scheduleNextTick

theorem Tidy.startInLoop {w : LogSender ι} (hw : w.Tidy) (d : Dial) :
    (w.startInLoop d).Tidy := by
  obtain ⟨c, hc, -⟩ := hw.client
  rw [LogSender.startInLoop]
  split
  · exact hw
  · have hstart : { w with started := true }.Tidy :=
      hw.other rfl hw.numbered hw.queue fun _ _ _ => .inl rfl
    simp only [hc]
    refine Tidy.scheduleNextTick (hstart.settle (c := c) hc fun hsound => ?_)
    exact TcpClient.answers_connectInLoop hsound d

/-- `shutdown_in_loop` of a connection, current or not, comes to little. -/
theorem Tidy.shutdownFunctor {w : LogSender ι} (hw : w.Tidy) (fd : Nat) :
    (w.putConn fd (w.conns fd).shutdownInLoop).Tidy := by
  have hsame : (w.conns fd).shutdownInLoop.state = (w.conns fd).state ∧
      (w.conns fd).shutdownInLoop.channel = (w.conns fd).channel ∧
      (w.conns fd).shutdownInLoop.messageCb = (w.conns fd).messageCb ∧
      (w.conns fd).shutdownInLoop.highWaterCb = (w.conns fd).highWaterCb ∧
      (w.conns fd).shutdownInLoop.highWaterMark =
        (w.conns fd).highWaterMark := by
    rw [Connection.shutdownInLoop]
    repeat' split
    all_goals exact ⟨rfl, rfl, rfl, rfl, rfl⟩
  obtain ⟨hstate, hchan, hmessage, hcb, hmark⟩ := hsame
  rw [putConn_open (by rw [hstate]; simp)]
  refine hw.withConn (fun hfd => ?_) (fun hne => ?_) ?_
  · have hcur := hw.current fd hfd
    exact ⟨hstate.trans hcur.state, hcb.trans hcur.highWaterCb,
      hmark.trans hcur.highWaterMark⟩
  · rw [hchan]
    exact hw.others fd hne
  · exact hmessage.trans (hw.quiet fd)

theorem Tidy.runFunctor {w : LogSender ι} (hw : w.Tidy) {d : Dial}
    {f : SenderFunctor} (hstopped : (w.runFunctor d f).stopped = false) :
    (w.runFunctor d f).Tidy := by
  cases f with
  | startInLoop => exact hw.startInLoop d
  | stopInLoop =>
      rw [LogSender.runFunctor, stopInLoop_stopped] at hstopped
      cases hstopped
  | wake =>
      rw [LogSender.runFunctor]
      split
      · exact hw
      · exact hw.onTick
  | conn fd f =>
      cases f with
      | shutdownInLoop => exact hw.shutdownFunctor fd
      | highWaterMark | writeComplete =>
          exact hw.other rfl hw.numbered hw.queue fun _ _ _ => .inl rfl

theorem Tidy.cancelTimer {w : LogSender ι} (hw : w.Tidy) (id : Nat) :
    (w.cancelTimer id).Tidy :=
  hw.other rfl ⟨hw.numbered.1, fun t ht =>
    hw.numbered.2 t (List.mem_filter.mp ht).1⟩ hw.queue fun _ _ _ => .inl rfl

theorem Tidy.fireTimer {w : LogSender ι} (hw : w.Tidy) (d : Dial)
    (k : TimerKind) : (w.fireTimer d k).Tidy := by
  cases k with
  | tick =>
      have hfired : { w with tickTimerId := 0 }.Tidy :=
        hw.other rfl hw.numbered hw.queue fun _ _ _ => .inl rfl
      exact hfired.onTick
  | retry =>
      obtain ⟨c, hc, -⟩ := hw.client
      rw [LogSender.fireTimer]
      simp only [hc]
      exact hw.settle hc fun hsound => TcpClient.answers_retry hsound d

theorem Tidy.pass {w : LogSender ι} (hw : w.Tidy) {fd : Nat} {p : Payload}
    {ws : List WriteRes} {c : Connection} (hconn : w.connection = some fd)
    (hsend : (w.conns fd).send (LengthPrefixedCodec.encode p.bytes) ws =
      some c) :
    ({ w with passed := w.passed ++ [(fd, p)] }.putConn fd c).Tidy := by
  have hbook : { w with passed := w.passed ++ [(fd, p)] }.Tidy :=
    hw.other rfl hw.numbered hw.queue fun _ _ _ => .inl rfl
  exact hbook.putConn hconn
    (Connection.lives_send (hw.current fd hconn).state hsend)

/-- A batch that does not end the process. -/
theorem Tidy.sendBatch {batch : List Payload} {w w' : LogSender ι}
    {scripts : List (List WriteRes)} (hw : w.Tidy)
    (h : w.sendBatch batch scripts = some w') (hfault : w'.fault = none) :
    w'.Tidy :=
  sendBatch_rule (Q := fun w => w.fault = none → w.Tidy)
    (fun hw => hw.pass) (fun hw _ => hw)
    (fun _ h => absurd h (fail_fault _ _)) hw h hfault

theorem Tidy.drainAndSend {w w' : LogSender ι} (hw : w.Tidy) {dropped : Nat}
    {scripts : List (List WriteRes)}
    (h : w.drainAndSend dropped scripts = some w') (hfault : w'.fault = none) :
    w'.Tidy := by
  obtain ⟨taken, -, hwf, -⟩ :=
    MPSCQueue.drain_splits hw.queue [] w.opts.maxBatchPerTick
  have hqueue : { w with
      queue := (w.queue.drain [] w.opts.maxBatchPerTick).1 }.Tidy :=
    hw.other rfl hw.numbered hwf fun _ _ _ => .inl rfl
  rw [LogSender.drainAndSend] at h
  split at h
  · split at h
    · cases h
      exact hqueue
    · cases h
  · exact hqueue.sendBatch h hfault

theorem behindDrain_fault {w : LogSender ι} {stopping : Bool}
    (h : (behindDrain stopping w).fault = none) : w.fault = none := by
  rw [behindDrain] at h
  split at h
  · exact h
  · next hnone => simpa using hnone

theorem Tidy.finishDrain {w w' : LogSender ι} (hw : w.Tidy) {dropped : Nat}
    {stopping : Bool} (hloop : w.loopPc = .draining dropped stopping)
    {scripts : List (List WriteRes)} (hfault : w'.fault = none)
    (h : w.finishDrain dropped stopping scripts = some w') : w'.Tidy := by
  obtain rfl := hw.working dropped stopping hloop
  obtain ⟨w₁, hdrain, rfl⟩ := Option.map_eq_some_iff.mp h
  have hidle : { w with loopPc := .idle }.Tidy :=
    hw.other rfl hw.numbered hw.queue fun _ _ h => by cases h
  have hdone := hidle.drainAndSend hdrain (behindDrain_fault hfault)
  rw [behindDrain]
  split
  · exact hdone
  · rw [if_neg Bool.false_ne_true]
    exact hdone.scheduleNextTick

variable [DecidableEq ι]

theorem tidy_step {w w' : LogSender ι} {l : Label ι} (hw : w.Tidy)
    (hstopped : w'.stopped = false) (hfault : w'.fault = none)
    (h : w.step l = some w') : w'.Tidy := by
  cases (step_stepped h).2 with
  | enter p msg =>
      exact hw.other rfl hw.numbered (hw.queue.pushLocked msg)
        fun _ _ _ => .inl rfl
  | leave p ok =>
      exact hw.other rfl hw.numbered (hw.queue.pushUnlocked ok)
        fun _ _ _ => .inl rfl
  | wake | start | stop =>
      exact hw.other rfl hw.numbered hw.queue fun _ _ _ => .inl rfl
  | drain scripts dropped stopping _ hloop hfinish =>
      exact hw.finishDrain hloop hfault hfinish
  | functor d f fs =>
      have hpop : { w with pending := fs }.Tidy :=
        hw.other rfl hw.numbered hw.queue fun _ _ _ => .inl rfl
      exact hpop.runFunctor hstopped
  | timer id d t => exact (hw.cancelTimer id).fireTimer d t.kind
  | handshake err c hidle hc hchan =>
      refine hw.settle hc fun hsound => ?_
      have hstate := hsound.dialling hchan
      exact TcpClient.answers_handleConnectWritable err
        (hsound.noConnection (by simp [hstate]))
        (hsound.enabled (by simp [hstate]))
  | event fd revents d c hidle hadded hc =>
      have hfd : w.connection = some fd :=
        Decidable.byContradiction fun hne => hw.others fd hne hadded
      exact hw.putConn hfd (Connection.lives_handleEvent
        (hw.current fd hfd).state (hw.quiet fd) hc)

theorem step_fault {w w' : LogSender ι} {l : Label ι}
    (h : w.step l = some w') : w.fault = none := (step_stepped h).1

/-- In every state before `stop_in_loop`. -/
theorem tidy_reachable {opts : Options} {ls : List (Label ι)}
    {w : LogSender ι} (hrun : Machine.run step (new opts) ls = some w)
    (hstopped : w.stopped = false) (hfault : w.fault = none) : w.Tidy := by
  have hstep : ∀ {w : LogSender ι} {l : Label ι} {w' : LogSender ι},
      (w.stopped = false → w.fault = none → w.Tidy) → w.step l = some w' →
      w'.stopped = false → w'.fault = none → w'.Tidy := by
    intro w l w' hw h hstopped hfault
    have hbefore : w.stopped = false := by
      cases hs : w.stopped with
      | false => rfl
      | true => exact absurd (step_stopped h hs) (by simp [hstopped])
    exact tidy_step (hw hbefore (step_fault h)) hstopped hfault h
  exact Machine.run_preserves
    (P := fun w => w.stopped = false → w.fault = none → w.Tidy) hstep
    (fun _ _ => tidy_new opts) hrun hstopped hfault

end LogSender

end GameFrame
