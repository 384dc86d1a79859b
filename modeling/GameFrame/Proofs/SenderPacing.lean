import GameFrame.Proofs.SenderLinks

/-!
# What the functors of a sender's connections come to

`paused_` is set by the functor of a high-water mark and taken back by that of
a write that is complete, and neither looks at the connection it is about. So
what counts is not `paused_`, but what it will be when all that is queued has
run (`willPause`). That is settled when a functor is queued: the mark is passed
by what goes into the buffer, and the functor that ends a pause is queued when
the buffer is empty (`Pausing`).

A change of connection empties nothing but the buffer. The functors of the
connection that is closed stay where they are, and those of its mark are left
out of the account. As long as such a functor, when it runs, finds something
that will resume the sender (`StaleOk`), the account is right: the sender will
be paused only while there is something in the current connection's buffer
(`Paced`).
-/

namespace GameFrame

namespace LogSender

variable {ι : Type _}

def isWriteComplete : SenderFunctor → Bool
  | .conn _ .writeComplete => true
  | _ => false

/-- There is something behind which the current connection is written out. -/
def HasResume (w : LogSender ι) (fd : Nat) (fs : List SenderFunctor) : Prop :=
  (w.conns fd).outputBuffer.readable ≠ [] ∨ fs.any isWriteComplete = true

/-- A sender that is paused over a connection will be resumed. -/
def Resumable (w : LogSender ι) : Prop :=
  w.paused = true → ∀ fd, w.connection = some fd →
    (w.conns fd).state = .kConnected → w.HasResume fd w.pending

/-- The current connection, if the functor that is due is about the mark of
another. -/
def overtaken (w : LogSender ι) : Option Nat :=
  match w.pending.head? with
  | some (.conn i .highWaterMark) => w.connection.filter (· ≠ i)
  | _ => none

/-- Such a functor finds something that will resume the sender again. -/
def StaleOk (w : LogSender ι) : Prop :=
  ∀ fd ∈ w.overtaken, w.HasResume fd w.pending.tail

instance (w : LogSender ι) (fd : Nat) (fs : List SenderFunctor) :
    Decidable (w.HasResume fd fs) := inferInstanceAs (Decidable (_ ∨ _))

instance (w : LogSender ι) : Decidable w.StaleOk :=
  inferInstanceAs (Decidable (∀ fd ∈ w.overtaken, _))

end LogSender

/-! ## What the queued functors come to -/

/-- `paused_` behind a functor of the current connection. -/
def ConnFunctor.pauses (paused : Bool) : ConnFunctor → Bool
  | .highWaterMark => true
  | .writeComplete => false
  | .shutdownInLoop => paused

namespace Connection

/-- If the functors it has queued leave the sender paused, there is something
in the buffer. -/
structure Pausing (paused : Bool) (c : Connection) : Prop where
  writeCompleteCb : c.writeCompleteCb = true
  buffered : c.state = .kConnected →
    c.pending.foldl ConnFunctor.pauses paused = true →
    c.outputBuffer.readable ≠ []

variable {paused : Bool} {c c' : Connection}

/-- A change of nothing but the books, the channel and what was read. -/
theorem Pausing.aside (hc : c.Pausing paused)
    (h : (c'.writeCompleteCb, c'.state, c'.pending, c'.outputBuffer) =
      (c.writeCompleteCb, c.state, c.pending, c.outputBuffer)) :
    c'.Pausing paused := by
  simp only [Prod.mk.injEq] at h
  obtain ⟨hcb, hstate, hpending, hbuf⟩ := h
  refine ⟨hcb.trans hc.writeCompleteCb, ?_⟩
  rw [hstate, hpending, hbuf]
  exact hc.buffered

theorem pausing_close (h : c.writeCompleteCb = true) :
    c.close.Pausing paused := by
  refine ⟨?_, fun hstate => by simp at hstate⟩
  rw [Connection.close]
  split
  · exact h
  · dsimp only
    split
    · exact h
    · exact h

/-- What is left over goes into the buffer, and only then can the mark be
passed. -/
theorem Pausing.sendRest (hc : c.Pausing paused) (rem : List UInt8) :
    (c.sendRest rem).Pausing paused := by
  by_cases hrem : rem = []
  · rw [Connection.sendRest, if_pos hrem]
    exact hc
  · obtain ⟨-, -, -, hbuf, -⟩ := sendRest_spec c rem
    refine ⟨?_, fun _ _ => ?_⟩
    · rw [Connection.sendRest, if_neg hrem]
      dsimp only
      repeat' split
      all_goals exact hc.writeCompleteCb
    · rw [hbuf]
      simp [hrem]

theorem Pausing.send (hc : c.Pausing paused) {data : List UInt8}
    {writes : List WriteRes} (h : c.send data writes = some c') :
    c'.Pausing paused := by
  have hwrote : ∀ chunks, (c.wrote data chunks).Pausing paused := fun _ =>
    hc.aside rfl
  cases send_sent h with
  | ignored => exact hc.aside rfl
  | behind => exact (hwrote []).sendRest data
  | failed chunks => exact pausing_close hc.writeCompleteCb
  | taken chunks rem => exact (hwrote chunks).sendRest rem

theorem Pausing.handleRead (hc : c.Pausing paused)
    (hquiet : c.messageCb = false) {reads : List ReadRes} {cb : List UserOp}
    (h : c.handleRead reads cb = some c') : c'.Pausing paused := by
  obtain ⟨n, b, rfl | rfl⟩ := handleRead_quiet hquiet h
  · exact hc.aside rfl
  · exact pausing_close hc.writeCompleteCb

/-- A buffer that ran empty is announced behind everything else. -/
theorem pausing_notifyWritten (h : c.writeCompleteCb = true) :
    c.notifyWritten.Pausing paused := by
  rw [notifyWritten, if_pos h]
  refine ⟨h, fun _ hpaused => ?_⟩
  simp only [queueInLoop, List.foldl_append, List.foldl_cons, List.foldl_nil,
    ConnFunctor.pauses] at hpaused
  cases hpaused

theorem Pausing.stopWriting (hc : c.Pausing paused) :
    c.stopWriting.Pausing paused := by
  rw [Connection.stopWriting]
  split
  · exact hc.aside rfl
  · exact hc

theorem halfClose_writeCompleteCb (c : Connection) :
    c.halfClose.writeCompleteCb = c.writeCompleteCb := by
  rw [halfClose]
  split
  · rfl
  · rfl

theorem stopWriting_writeCompleteCb (c : Connection) :
    c.stopWriting.writeCompleteCb = c.writeCompleteCb := by
  rw [Connection.stopWriting]
  split
  · rfl
  · rfl

theorem Pausing.handleWrite (hc : c.Pausing paused) {writes : List WriteRes}
    (h : c.handleWrite writes = some c') : c'.Pausing paused := by
  cases handleWrite_flushed h with
  | idle => exact hc.stopWriting
  | full chunks b hne hbytes hleft hstop =>
      -- The socket is full, and what it did not take is still there.
      exact ⟨hc.writeCompleteCb, fun _ _ => hleft⟩
  | failed chunks b => exact pausing_close hc.writeCompleteCb
  | taken chunks b =>
      refine pausing_notifyWritten ?_
      rw [halfClose_writeCompleteCb, stopWriting_writeCompleteCb]
      exact hc.writeCompleteCb

theorem Pausing.handleEvent (hc : c.Pausing paused)
    (hstate : c.state = .kConnected) (hquiet : c.messageCb = false)
    {revents : UInt32} {d : Dispatch}
    (h : c.handleEvent revents d = some c') : c'.Pausing paused := by
  have hclose : ∀ {s s' : Connection}, Lives c s ∧ s.Pausing paused →
      some s.close = some s' → Lives c s' ∧ s'.Pausing paused := by
    intro s s' hs h
    cases h
    exact ⟨hs.1.close, pausing_close hs.2.writeCompleteCb⟩
  rw [Connection.handleEvent] at h
  have hboth : Lives c c' ∧ c'.Pausing paused :=
    Channel.handleEvent_preserves (P := fun s => Lives c s ∧ s.Pausing paused)
      hclose hclose
      (fun hs h => ⟨hs.1.handleRead hquiet h,
        hs.2.handleRead (hs.1.messageCb.trans hquiet) h⟩)
      (fun hs h => ⟨hs.1.handleWrite h, hs.2.handleWrite h⟩)
      ⟨.refl hstate, hc⟩ h
  exact hboth.2

end Connection

namespace LogSender

variable {ι : Type _}

/-- `paused_` behind a functor, but for the marks of earlier connections. -/
def pausedBy (fd : Nat) (paused : Bool) : SenderFunctor → Bool
  | .conn i f =>
      match f with
      | .highWaterMark => paused || i == fd
      | .writeComplete => false
      | .shutdownInLoop => paused
  | _ => paused

/-- `paused_` behind all that is queued. -/
def willPause (w : LogSender ι) (fd : Nat) : Bool :=
  w.pending.foldl (pausedBy fd) w.paused

theorem foldl_conn (fd : Nat) (fs : List ConnFunctor) (paused : Bool) :
    (fs.map (SenderFunctor.conn fd)).foldl (pausedBy fd) paused =
      fs.foldl ConnFunctor.pauses paused := by
  rw [List.foldl_map]
  congr 1
  funext p f
  cases f with
  | highWaterMark => simp [pausedBy, ConnFunctor.pauses]
  | writeComplete | shutdownInLoop => rfl

/-- Behind a write that is complete it does not matter what was before. -/
theorem foldl_resumed {fd : Nat} {fs : List SenderFunctor}
    (h : fs.any isWriteComplete = true) (p q : Bool) :
    fs.foldl (pausedBy fd) p = fs.foldl (pausedBy fd) q := by
  induction fs generalizing p q with
  | nil => cases h
  | cons f fs ih =>
      rw [List.any_cons, Bool.or_eq_true] at h
      rw [List.foldl_cons, List.foldl_cons]
      by_cases hf : isWriteComplete f = true
      · have hsame : pausedBy fd p f = pausedBy fd q f := by
          cases f with
          | conn i g =>
              cases g with
              | writeComplete => rfl
              | highWaterMark | shutdownInLoop => cases hf
          | startInLoop | stopInLoop | wake => cases hf
        rw [hsame]
      · exact ih (h.resolve_left hf) _ _

/-- Nothing else takes a pause back. -/
theorem foldl_paused {fd : Nat} {fs : List SenderFunctor}
    (h : fs.foldl (pausedBy fd) true = false) :
    fs.any isWriteComplete = true := by
  induction fs with
  | nil => cases h
  | cons f fs ih =>
      rw [List.any_cons, Bool.or_eq_true]
      by_cases hf : isWriteComplete f = true
      · exact .inl hf
      · have hkeep : pausedBy fd true f = true := by
          cases f with
          | conn i g =>
              cases g with
              | writeComplete => exact absurd rfl hf
              | highWaterMark | shutdownInLoop => rfl
          | startInLoop | stopInLoop | wake => rfl
        rw [List.foldl_cons, hkeep] at h
        exact .inr (ih h)

/-- A connection none of the functors is about is not paused by them. -/
theorem foldl_fresh {fd : Nat} {fs : List SenderFunctor}
    (h : ∀ f, .conn fd f ∉ fs) : fs.foldl (pausedBy fd) false = false := by
  induction fs with
  | nil => rfl
  | cons f fs ih =>
      have hkeep : pausedBy fd false f = false := by
        cases f with
        | conn i g =>
            cases g with
            | highWaterMark =>
                have hne : i ≠ fd := fun heq =>
                  h .highWaterMark (by rw [heq]; exact List.mem_cons_self)
                simpa [pausedBy] using hne
            | writeComplete | shutdownInLoop => rfl
        | startInLoop | stopInLoop | wake => rfl
      rw [List.foldl_cons, hkeep]
      exact ih fun g hg => h g (List.mem_cons_of_mem _ hg)

/-! ## The invariant -/

/-- The sockets of the functors that are queued, and of the connection, are
not the one being dialled, nor one that is still to come. -/
structure Books (w : LogSender ι) (c : TcpClient) : Prop where
  wf : c.Wf
  queued : ∀ fd f, .conn fd f ∈ w.pending → c.Used fd
  connection : ∀ fd, w.connection = some fd → c.Used fd

/-- The current connection has something in its buffer if the sender is going
to be paused. -/
structure Paced (w : LogSender ι) : Prop where
  mark : 0 < w.opts.highWaterMark
  client : ∃ c, w.tcpClient = some c ∧ w.Books c
  current : ∀ fd, w.connection = some fd →
    (w.conns fd).Pausing (w.willPause fd)

theorem paced_new {opts : Options} (h : 0 < opts.highWaterMark) :
    (new opts : LogSender ι).Paced where
  mark := h
  client := ⟨{}, rfl, by simp [TcpClient.Wf], by simp [new], by simp [new]⟩
  current := by simp [new]

theorem Paced.resumable {w : LogSender ι} (hw : w.Paced)
    (hswept : ∀ fd, (w.conns fd).pending = []) : w.Resumable := by
  intro hpaused fd hfd hstate
  cases hwill : w.willPause fd with
  | true =>
      refine .inl ((hw.current fd hfd).buffered hstate ?_)
      rw [hswept, hwill]
      rfl
  | false =>
      rw [willPause, hpaused] at hwill
      exact .inr (foldl_paused hwill)

/-- A change of nothing but timers, producers, the queue and books. -/
theorem Paced.other {w w' : LogSender ι} (hw : w.Paced)
    (h : (w'.opts, w'.tcpClient, w'.connection, w'.conns, w'.pending,
      w'.paused) = (w.opts, w.tcpClient, w.connection, w.conns, w.pending,
      w.paused)) : w'.Paced := by
  simp only [Prod.mk.injEq] at h
  obtain ⟨hopts, hclient, hconnection, hconns, hpending, hpaused⟩ := h
  obtain ⟨c, hc, hbooks⟩ := hw.client
  refine ⟨?_, ⟨c, hclient.trans hc, hbooks.wf, ?_, ?_⟩, ?_⟩
  · rw [hopts]; exact hw.mark
  · rw [hpending]; exact hbooks.queued
  · rw [hconnection]; exact hbooks.connection
  · rw [hconnection, hconns]
    intro fd hfd
    rw [willPause, hpending, hpaused]
    exact hw.current fd hfd

/-- Another queue of functors, and another `paused_`, which come to the same
for the current connection. -/
theorem Paced.requeue {w : LogSender ι} (hw : w.Paced)
    {fs : List SenderFunctor} {paused : Bool}
    (hmem : ∀ fd f, .conn fd f ∈ fs → .conn fd f ∈ w.pending)
    (hwill : ∀ fd, w.connection = some fd →
      (w.conns fd).outputBuffer.readable ≠ [] ∨
        fs.foldl (pausedBy fd) paused = w.willPause fd) :
    { w with pending := fs, paused := paused }.Paced := by
  obtain ⟨c, hc, hbooks⟩ := hw.client
  refine ⟨hw.mark, ⟨c, hc, hbooks.wf,
    fun fd f hf => hbooks.queued fd f (hmem fd f hf), hbooks.connection⟩,
    fun fd hfd => ?_⟩
  have hcur := hw.current fd hfd
  rcases hwill fd hfd with hne | hsame
  · exact ⟨hcur.writeCompleteCb, fun _ _ => hne⟩
  · show (w.conns fd).Pausing (fs.foldl (pausedBy fd) paused)
    rw [hsame]
    exact hcur

/-! ## The functions of the loop thread -/

/-- A function of the current connection is over, and it is up. -/
theorem Paced.withConn {w : LogSender ι} (hw : w.Paced) {fd : Nat}
    {c : Connection} (hfd : w.connection = some fd)
    (h : c.Pausing (w.willPause fd)) : (w.withConn fd c).Paced := by
  obtain ⟨k, hk, hbooks⟩ := hw.client
  refine ⟨hw.mark, ⟨k, hk, hbooks.wf, fun i f hf => ?_, hbooks.connection⟩,
    ?_⟩
  · rcases List.mem_append.mp hf with hf | hf
    · exact hbooks.queued i f hf
    · obtain ⟨g, -, heq⟩ := List.mem_map.mp hf
      cases heq
      exact hbooks.connection fd hfd
  · intro i hi
    cases hfd.symm.trans hi
    have hwill : (w.withConn fd c).willPause fd =
        c.pending.foldl ConnFunctor.pauses (w.willPause fd) := by
      rw [← foldl_conn]
      exact List.foldl_append
    rw [withConn_self, hwill]
    exact ⟨h.writeCompleteCb, h.buffered⟩

/-- The client does something that does not make a connection. -/
theorem Paced.client_of {w w' : LogSender ι} (hw : w.Paced) {c c' : TcpClient}
    (hc : w.tcpClient = some c) (hwf : c'.Wf)
    (hused : ∀ {fd}, c.Used fd → c'.Used fd)
    (h : (w'.opts, w'.tcpClient, w'.connection, w'.conns, w'.pending,
      w'.paused) = (w.opts, some c', w.connection, w.conns, w.pending,
      w.paused)) : w'.Paced := by
  obtain ⟨k, hk, hbooks⟩ := hw.client
  cases hc.symm.trans hk
  have hclient : { w with tcpClient := some c' }.Paced :=
    ⟨hw.mark, ⟨c', rfl, hwf, fun fd f hf => hused (hbooks.queued fd f hf),
      fun fd hfd => hused (hbooks.connection fd hfd)⟩, hw.current⟩
  exact hclient.other h

/-- The same with no connection left. -/
theorem Paced.reset {w : LogSender ι} (hw : w.Paced) (paused : Bool) :
    { w with connection := none, paused := paused }.Paced := by
  obtain ⟨c, hc, hbooks⟩ := hw.client
  exact ⟨hw.mark, ⟨c, hc, hbooks.wf, hbooks.queued, by simp⟩, by simp⟩

theorem Paced.putConn {w : LogSender ι} (hw : w.Paced) {fd : Nat}
    {c : Connection} (hfd : w.connection = some fd)
    (hstate : (w.conns fd).state = .kConnected)
    (h : c.Pausing (w.willPause fd)) : (w.putConn fd c).Paced := by
  have hup := hw.withConn hfd h
  by_cases hclosed : c.state = .kDisconnected
  · obtain ⟨k, hk, hbooks⟩ := hw.client
    rw [putConn_closed (by simp [hstate]) hclosed]
    obtain ⟨timers, next, heq⟩ := onConnectionClosed_eq
      (w := w.withConn fd c) (by rw [withConn_self]; exact hclosed) hk
    have hands := TcpClient.hands_onConnectionClosed hbooks.wf
    rw [heq]
    exact (hup.reset false).client_of (c := k) hk hands.wf hands.used rfl
  · rw [putConn_open fun hboth => hclosed hboth.2]
    exact hup

theorem Paced.settle {w : LogSender ι} (hw : w.Paced) {c : TcpClient}
    (hc : w.tcpClient = some c) {r : TcpClient × ClientAsk}
    (h : c.Wf → c.Hands r) : (w.settle r).Paced := by
  obtain ⟨k, hk, hbooks⟩ := hw.client
  cases hc.symm.trans hk
  have hands := h hbooks.wf
  cases hask : r.2 with
  | established fd =>
      -- No functor is about a connection that has not been there yet.
      obtain ⟨hused, hfresh⟩ := hands.fresh hask
      rw [settle_established hask]
      refine ⟨hw.mark, ⟨r.1, rfl, hands.wf,
        fun i f hf => hands.used (hbooks.queued i f hf), ?_⟩, ?_⟩
      · intro i hi
        cases hi
        exact hused
      · intro i hi
        cases hi
        have hwill : w.pending.foldl (pausedBy fd) false = false :=
          foldl_fresh fun f hf => hfresh (hbooks.queued fd f hf)
        show (if fd = fd then opened w.opts else w.conns fd).Pausing
          (w.pending.foldl (pausedBy fd) false)
        rw [if_pos rfl, hwill]
        refine ⟨decide_eq_true hw.mark, fun _ hpaused => ?_⟩
        cases hpaused
  | nothing | runAfter _ =>
      rw [LogSender.settle, hask]
      exact hw.client_of hc hands.wf hands.used rfl

theorem Paced.scheduleNextTick {w : LogSender ι} (hw : w.Paced) :
    w.scheduleNextTick.Paced := by
  rw [LogSender.scheduleNextTick]
  split
  · exact hw
  · exact hw.other rfl

theorem Paced.onTick {w : LogSender ι} (hw : w.Paced) : w.onTick.Paced := by
  rw [LogSender.onTick]
  split
  · exact hw
  · split
    · exact hw.other rfl
    · exact hw.scheduleNextTick

theorem Paced.startInLoop {w : LogSender ι} (hw : w.Paced) (d : Dial) :
    (w.startInLoop d).Paced := by
  obtain ⟨c, hc, -⟩ := hw.client
  rw [LogSender.startInLoop]
  split
  · exact hw
  · have hstart : { w with started := true }.Paced := hw.other rfl
    simp only [hc]
    refine Paced.scheduleNextTick (hstart.settle (c := c) hc fun hwf => ?_)
    exact TcpClient.hands_connectInLoop hwf d

/-- `shutdown_in_loop` of a connection, current or not. -/
theorem Paced.shutdownFunctor {w : LogSender ι} (hw : w.Paced)
    (hswept : ∀ fd, (w.conns fd).pending = []) (fd : Nat) :
    (w.putConn fd (w.conns fd).shutdownInLoop).Paced := by
  have hsame : (w.conns fd).shutdownInLoop.state = (w.conns fd).state ∧
      (w.conns fd).shutdownInLoop.writeCompleteCb =
        (w.conns fd).writeCompleteCb ∧
      (w.conns fd).shutdownInLoop.outputBuffer = (w.conns fd).outputBuffer ∧
      (w.conns fd).shutdownInLoop.pending = (w.conns fd).pending := by
    rw [Connection.shutdownInLoop]
    repeat' split
    all_goals exact ⟨rfl, rfl, rfl, rfl⟩
  obtain ⟨hstate, hcb, hbuf, hpending⟩ := hsame
  rw [putConn_open (by rw [hstate]; simp)]
  by_cases hfd : w.connection = some fd
  · exact hw.withConn hfd ((hw.current fd hfd).aside
      (by rw [hcb, hstate, hpending, hbuf]))
  · obtain ⟨k, hk, hbooks⟩ := hw.client
    have hqueue : (w.withConn fd (w.conns fd).shutdownInLoop).pending =
        w.pending := by
      show w.pending ++ _ = _
      rw [hpending, hswept, List.map_nil, List.append_nil]
    refine ⟨hw.mark, ⟨k, hk, hbooks.wf, ?_, hbooks.connection⟩,
      fun i hi => ?_⟩
    · rw [hqueue]
      exact hbooks.queued
    · have hne : i ≠ fd := fun heq => hfd (heq ▸ hi)
      have hat : (w.withConn fd (w.conns fd).shutdownInLoop).conns i =
          w.conns i := if_neg hne
      rw [hat, willPause, hqueue]
      exact hw.current i hi

theorem Paced.runFunctor {w : LogSender ι} {f : SenderFunctor}
    {fs : List SenderFunctor} (hw : w.Paced)
    (hswept : ∀ fd, (w.conns fd).pending = []) (hq : w.pending = f :: fs)
    (hok : w.StaleOk) {d : Dial} (hstop : f ≠ .stopInLoop) :
    ({ w with pending := fs }.runFunctor d f).Paced := by
  have hmem : ∀ fd g, .conn fd g ∈ fs → .conn fd g ∈ w.pending := by
    intro fd g hg
    rw [hq]
    exact List.mem_cons_of_mem _ hg
  have hwill : ∀ fd, w.willPause fd =
      fs.foldl (pausedBy fd) (pausedBy fd w.paused f) := by
    intro fd
    rw [willPause, hq]
    rfl
  have hpop : (∀ fd, pausedBy fd w.paused f = w.paused) →
      { w with pending := fs }.Paced := by
    intro hkeep
    refine hw.requeue hmem fun fd _ => .inr ?_
    rw [hwill, hkeep]
  cases f with
  | startInLoop => exact (hpop fun _ => rfl).startInLoop d
  | stopInLoop => exact absurd rfl hstop
  | wake =>
      rw [LogSender.runFunctor]
      split
      · exact hpop fun _ => rfl
      · exact (hpop fun _ => rfl).onTick
  | conn i g =>
      cases g with
      | shutdownInLoop => exact (hpop fun _ => rfl).shutdownFunctor hswept i
      | writeComplete =>
          exact hw.requeue hmem fun fd _ => .inr (hwill fd).symm
      | highWaterMark =>
          refine hw.requeue hmem fun fd hfd => ?_
          by_cases hi : i = fd
          · refine .inr ?_
            rw [hwill, hi]
            simp [pausedBy]
          · have hover : fd ∈ w.overtaken := by
              rw [overtaken, hq]
              simp [hfd, Ne.symm hi]
            have hresume := hok fd hover
            rw [hq] at hresume
            rcases hresume with hne | hany
            · exact .inl hne
            · refine .inr ?_
              rw [hwill]
              exact foldl_resumed hany _ _

theorem Paced.fireTimer {w : LogSender ι} (hw : w.Paced) (d : Dial)
    (k : TimerKind) : (w.fireTimer d k).Paced := by
  cases k with
  | tick =>
      have hfired : { w with tickTimerId := 0 }.Paced := hw.other rfl
      exact hfired.onTick
  | retry =>
      obtain ⟨c, hc, -⟩ := hw.client
      rw [LogSender.fireTimer]
      simp only [hc]
      exact hw.settle hc fun hwf => TcpClient.hands_retry hwf d

/-- A batch that does not end the process. -/
theorem Paced.sendBatch {batch : List Payload} {w w' : LogSender ι}
    {scripts : List (List WriteRes)} (hw : w.Paced) (htidy : w.Tidy)
    (h : w.sendBatch batch scripts = some w') (hfault : w'.fault = none) :
    w'.Paced := by
  refine sendBatch_rule (P := fun w => w.Paced ∧ w.Tidy)
    (Q := fun w => w.fault = none → w.Paced) ?_ (fun hw _ => hw.1)
    (fun _ h => absurd h (fail_fault _ _)) ⟨hw, htidy⟩ h hfault
  rintro w fd p ws c ⟨hw, htidy⟩ hconn hsend
  have hbook : { w with passed := w.passed ++ [(fd, p)] }.Paced := hw.other rfl
  exact ⟨hbook.putConn hconn (htidy.current fd hconn).state
    ((hw.current fd hconn).send hsend), htidy.pass hconn hsend⟩

theorem Paced.finishDrain {w w' : LogSender ι} (hw : w.Paced) (htidy : w.Tidy)
    {dropped : Nat} {stopping : Bool}
    (hloop : w.loopPc = .draining dropped stopping)
    {scripts : List (List WriteRes)} (hfault : w'.fault = none)
    (h : w.finishDrain dropped stopping scripts = some w') : w'.Paced := by
  obtain rfl := htidy.working dropped stopping hloop
  obtain ⟨w₁, hdrain, rfl⟩ := Option.map_eq_some_iff.mp h
  have hdone : w₁.Paced := by
    obtain ⟨taken, -, hwf, -⟩ :=
      MPSCQueue.drain_splits htidy.queue [] w.opts.maxBatchPerTick
    have hqueue : { w with
        loopPc := .idle
        queue := (w.queue.drain [] w.opts.maxBatchPerTick).1 }.Paced :=
      hw.other rfl
    have htaken : { w with
        loopPc := .idle
        queue := (w.queue.drain [] w.opts.maxBatchPerTick).1 }.Tidy :=
      htidy.other rfl htidy.numbered hwf fun _ _ h => by cases h
    rw [drainAndSend] at hdrain
    split at hdrain
    · split at hdrain
      · cases hdrain
        exact hqueue
      · cases hdrain
    · exact hqueue.sendBatch htaken hdrain (behindDrain_fault hfault)
  rw [behindDrain]
  split
  · exact hdone
  · rw [if_neg Bool.false_ne_true]
    exact hdone.scheduleNextTick

/-- A functor of someone else goes to the end of the queue. -/
theorem Paced.enqueue {w : LogSender ι} (hw : w.Paced) {f : SenderFunctor}
    (hf : ∀ fd g, f ≠ .conn fd g) :
    { w with pending := w.pending ++ [f] }.Paced := by
  refine hw.requeue (fun fd g hg => ?_) fun fd _ => .inr ?_
  · rcases List.mem_append.mp hg with hg | hg
    · exact hg
    · exact absurd (List.mem_singleton.mp hg).symm (hf fd g)
  · rw [List.foldl_append, willPause]
    cases f with
    | conn i g => exact absurd rfl (hf i g)
    | startInLoop | stopInLoop | wake => rfl

theorem paced_step [DecidableEq ι] {w w' : LogSender ι} {l : Label ι}
    (hw : w.Paced) (htidy : w.Tidy)
    (hok : ∀ d, l = .functor d → w.StaleOk) (hstopped : w'.stopped = false)
    (hfault : w'.fault = none) (h : w.step l = some w') : w'.Paced := by
  cases (step_stepped h).2 with
  | enter | leave => exact hw.other rfl
  | wake p => exact (hw.enqueue (f := .wake) (by simp)).other rfl
  | start | stop => exact hw.enqueue (by simp)
  | drain scripts dropped stopping _ hloop hfinish =>
      exact hw.finishDrain htidy hloop hfault hfinish
  | functor d f fs hidle hq =>
      refine hw.runFunctor htidy.swept hq (hok d rfl) fun hf => ?_
      rw [hf, LogSender.runFunctor, stopInLoop_stopped] at hstopped
      cases hstopped
  | timer id d t =>
      have hcancel : (w.cancelTimer id).Paced := hw.other rfl
      exact hcancel.fireTimer d t.kind
  | handshake err c hidle hc =>
      exact hw.settle hc fun hwf =>
        TcpClient.hands_handleConnectWritable hwf err
  | event fd revents d c hidle hadded hc =>
      have hfd : w.connection = some fd :=
        Decidable.byContradiction fun hne => htidy.others fd hne hadded
      have hstate := (htidy.current fd hfd).state
      exact hw.putConn hfd hstate
        ((hw.current fd hfd).handleEvent hstate (htidy.quiet fd) hc)

end LogSender

end GameFrame
