import Mathlib.Logic.Relation
import GameFrame.Proofs.SenderPacing
import GameFrame.Proofs.SenderStop

/-!
# The brake of a sender

`paused_` and the functors that set it and take it back, with the connection
they are about (`Brake`). What one step of a sender does to these is one of
three things: functors of someone else are queued and the connection is sent
something, any number of times; or the connection has an event; or there is
another connection, or none (`turn_step`). A functor is taken off the queue
before that (`due`).

Two things are said of the connection. If it has as much as the mark in its
buffer, the functors it has queued leave the sender paused (`Braking`), for the
mark is passed by what goes into the buffer. And the functor that ends a pause
is queued when the buffer is empty, and by an event (`Emptied`,
`pending_send`).
-/

namespace GameFrame

/-! ## The connection -/

namespace Connection

/-- If a connection that is up has as much as the mark in its buffer, its
functors leave the sender paused. -/
def Braking (mark : Nat) (paused : Bool) (c : Connection) : Prop :=
  c.state = .kConnected → mark ≤ c.outputBuffer.readable.length →
    c.pending.foldl ConnFunctor.pauses paused = true

/-- The end of a pause is only queued when there is nothing left to write. -/
def Emptied (c : Connection) : Prop :=
  c.state = .kConnected → ConnFunctor.writeComplete ∈ c.pending →
    c.outputBuffer.readable = []

variable {mark : Nat} {paused : Bool} {c c' : Connection}

theorem braking_closed (h : c.state ≠ .kConnected) : c.Braking mark paused :=
  fun hstate => absurd hstate h

theorem emptied_closed (h : c.state ≠ .kConnected) : c.Emptied :=
  fun hstate => absurd hstate h

theorem emptied_swept (h : c.pending = []) : c.Emptied := by
  intro _ hqueued
  rw [h] at hqueued
  cases hqueued

theorem Braking.aside (hc : c.Braking mark paused)
    (h : (c'.state, c'.pending, c'.outputBuffer) =
      (c.state, c.pending, c.outputBuffer)) : c'.Braking mark paused := by
  simp only [Prod.mk.injEq] at h
  rw [Braking, h.1, h.2.1, h.2.2]
  exact hc

theorem Emptied.aside (hc : c.Emptied)
    (h : (c'.state, c'.pending, c'.outputBuffer) =
      (c.state, c.pending, c.outputBuffer)) : c'.Emptied := by
  simp only [Prod.mk.injEq] at h
  rw [Emptied, h.1, h.2.1, h.2.2]
  exact hc

/-- The mark is passed by what goes into the buffer. -/
theorem marked_sendRest {rem : List UInt8} (hcb : c.highWaterCb = true)
    (hmark : 0 < c.highWaterMark) (hrem : rem ≠ [])
    (hbefore : c.outputBuffer.readable.length < c.highWaterMark)
    (hbehind : c.highWaterMark ≤
      (c.sendRest rem).outputBuffer.readable.length) :
    (c.sendRest rem).pending = c.pending ++ [ConnFunctor.highWaterMark] := by
  rw [(sendRest_spec c rem).2.2.2.1, ← Buffer.readable_append,
    Buffer.readable_length] at hbehind
  rw [Buffer.readable_length] at hbefore
  rw [Connection.sendRest, if_neg hrem]
  simp only [hcb, hmark, hbefore, hbehind, decide_true, Bool.and_true,
    if_true]
  split
  · rfl
  · rfl

/-- What goes into the buffer either passes the mark, or does not come up to
it, or finds that it was passed before. -/
theorem Braking.sendRest {opts : Options} (hmark : 0 < opts.highWaterMark)
    (hwatched : c.Watched opts) (hc : c.Braking opts.highWaterMark paused)
    (rem : List UInt8) :
    (c.sendRest rem).Braking opts.highWaterMark paused := by
  by_cases hrem : rem = []
  · rw [Connection.sendRest, if_pos hrem]
    exact hc
  · intro _ hfull
    by_cases hbefore :
        c.outputBuffer.readable.length < opts.highWaterMark
    · have hcb : c.highWaterCb = true := by
        rw [hwatched.highWaterCb]
        exact decide_eq_true hmark
      rw [← hwatched.highWaterMark] at hmark hbefore hfull
      rw [marked_sendRest hcb hmark hrem hbefore hfull, List.foldl_append]
      rfl
    · have hold := hc hwatched.state (Nat.le_of_not_lt hbefore)
      rcases (sendRest_spec c rem).2.2.2.2 with hsame | hpassed
      · rw [hsame]
        exact hold
      · rw [hpassed, List.foldl_append]
        rfl

theorem Braking.send {opts : Options} (hmark : 0 < opts.highWaterMark)
    (hwatched : c.Watched opts) (hc : c.Braking opts.highWaterMark paused)
    {data : List UInt8} {writes : List WriteRes}
    (h : c.send data writes = some c') :
    c'.Braking opts.highWaterMark paused := by
  have hwrote : ∀ chunks rem, ((c.wrote data chunks).sendRest rem).Braking
      opts.highWaterMark paused := by
    intro chunks rem
    have hbooked : (c.wrote data chunks).Braking opts.highWaterMark paused :=
      hc.aside rfl
    have hset : (c.wrote data chunks).Watched opts :=
      ⟨hwatched.state, hwatched.highWaterCb, hwatched.highWaterMark⟩
    exact hbooked.sendRest hmark hset rem
  cases send_sent h with
  | ignored => exact hc.aside rfl
  | behind => exact hwrote [] data
  | failed chunks => exact braking_closed (by simp)
  | taken chunks rem => exact hwrote chunks rem

/-- A call of `send` does not end a pause. -/
theorem pending_send {data : List UInt8} {writes : List WriteRes}
    (hc : ConnFunctor.writeComplete ∉ c.pending) (hup : c'.state = .kConnected)
    (h : c.send data writes = some c') :
    ConnFunctor.writeComplete ∉ c'.pending := by
  have hrest : ∀ chunks rem, ConnFunctor.writeComplete ∉
      ((c.wrote data chunks).sendRest rem).pending := by
    intro chunks rem
    rcases (sendRest_spec (c.wrote data chunks) rem).2.2.2.2 with hp | hp
    · rw [hp]
      exact hc
    · rw [hp]
      intro hmem
      rcases List.mem_append.mp hmem with hold | hnew
      · exact hc hold
      · cases List.mem_singleton.mp hnew
  cases send_sent h with
  | ignored => exact hc
  | behind => exact hrest [] data
  | failed chunks => simp at hup
  | taken chunks rem => exact hrest chunks rem

theorem shutdownInLoop_same (c : Connection) :
    (c.shutdownInLoop.state, c.shutdownInLoop.pending,
      c.shutdownInLoop.outputBuffer) =
      (c.state, c.pending, c.outputBuffer) := by
  rw [Connection.shutdownInLoop]
  repeat' split
  all_goals rfl

theorem Lives.shutdownInLoop {c₀ : Connection} (hc : Lives c₀ c) :
    Lives c₀ c.shutdownInLoop := by
  rw [Connection.shutdownInLoop]
  split
  · exact hc
  · split
    · exact hc.same rfl
    · exact hc.same rfl

theorem stopWriting_pending (c : Connection) :
    c.stopWriting.pending = c.pending := by
  rw [Connection.stopWriting]
  split
  · rfl
  · rfl

theorem Braking.handleWrite (hmark : 0 < mark) (hc : c.Braking mark paused)
    (hemptied : c.Emptied) {writes : List WriteRes}
    (h : c.handleWrite writes = some c') :
    c'.Braking mark paused ∧ c'.Emptied := by
  cases handleWrite_flushed h with
  | idle =>
      have hsame : (c.stopWriting.state, c.stopWriting.pending,
          c.stopWriting.outputBuffer) =
          (c.state, c.pending, c.outputBuffer) := by
        simp [stopWriting_pending]
      exact ⟨hc.aside hsame, hemptied.aside hsame⟩
  | full chunks b hne hbytes =>
      refine ⟨fun hstate hfull => hc hstate ?_, fun hstate hqueued => ?_⟩
      · have hlen := congrArg List.length hbytes
        rw [List.length_append] at hlen
        have hfull : mark ≤ b.readable.length := hfull
        omega
      · exact absurd (hemptied hstate hqueued) hne
  | failed chunks b =>
      exact ⟨braking_closed (by simp), emptied_closed (by simp)⟩
  | taken chunks b hne hbytes hnil =>
      have hempty : ((c.flushed chunks b).stopWriting.halfClose.notifyWritten
          ).outputBuffer.readable = [] := by
        rw [notifyWritten_outputBuffer, (halfClose_spec _).2.1,
          stopWriting_outputBuffer]
        exact hnil
      refine ⟨fun _ hfull => ?_, fun _ _ => hempty⟩
      rw [hempty] at hfull
      exact absurd hfull (Nat.not_le_of_lt hmark)

theorem Braking.handleEvent (hmark : 0 < mark) (hstate : c.state = .kConnected)
    (hquiet : c.messageCb = false) (hc : c.Braking mark paused)
    (hemptied : c.Emptied) {revents : UInt32} {d : Dispatch}
    (h : c.handleEvent revents d = some c') :
    c'.Braking mark paused ∧ c'.Emptied := by
  have hclose : ∀ {s s' : Connection},
      Lives c s ∧ s.Braking mark paused ∧ s.Emptied → some s.close = some s' →
      Lives c s' ∧ s'.Braking mark paused ∧ s'.Emptied := by
    intro s s' hs h
    cases h
    exact ⟨hs.1.close, braking_closed (by simp), emptied_closed (by simp)⟩
  have hread : ∀ {s s' : Connection},
      Lives c s ∧ s.Braking mark paused ∧ s.Emptied →
      s.handleRead d.reads d.cb = some s' →
      Lives c s' ∧ s'.Braking mark paused ∧ s'.Emptied := by
    intro s s' hs h
    refine ⟨hs.1.handleRead hquiet h, ?_⟩
    obtain ⟨n, b, rfl | rfl⟩ := handleRead_quiet (hs.1.messageCb.trans hquiet) h
    · exact ⟨hs.2.1.aside rfl, hs.2.2.aside rfl⟩
    · exact ⟨braking_closed (by simp), emptied_closed (by simp)⟩
  rw [Connection.handleEvent] at h
  exact (Channel.handleEvent_preserves
    (P := fun s => Lives c s ∧ s.Braking mark paused ∧ s.Emptied)
    hclose hclose hread
    (fun hs h => ⟨hs.1.handleWrite h, hs.2.1.handleWrite hmark hs.2.2 h⟩)
    ⟨.refl hstate, hc, hemptied⟩ h).2

end Connection

/-! ## What a step does to it -/

/-- What of a sender has to do with its pauses. -/
structure Brake where
  opts : Options
  connection : Option Nat
  conns : Nat → Connection
  pending : List SenderFunctor
  paused : Bool

/-- `paused_` behind a functor. -/
def SenderFunctor.pauses (paused : Bool) : SenderFunctor → Bool
  | .conn _ f => f.pauses paused
  | _ => paused

namespace Brake

/-- `paused_` behind all that is queued. -/
def comesTo (b : Brake) : Bool := b.pending.foldl SenderFunctor.pauses b.paused

/-- The next functor has run, as far as it is about a pause. -/
def run (b : Brake) : Brake :=
  { b with
    pending := b.pending.tail
    paused := (b.pending.take 1).foldl SenderFunctor.pauses b.paused }

/-- A function of the current connection is over, which is `c` then. -/
structure Put (fd : Nat) (c : Connection) (b b' : Brake) : Prop where
  before : b.connection = some fd
  opts : b'.opts = b.opts
  connection : b'.connection = some fd
  paused : b'.paused = b.paused
  conn : b'.conns fd = { c with pending := [] }
  pending : b'.pending = b.pending ++ c.pending.map (.conn fd)

/-- Something that does not change which connection there is: functors of
someone else are queued, or the connection is sent something or half-closed. -/
inductive Move (b b' : Brake) : Prop where
  | queue (fs : List SenderFunctor) (hfs : ∀ fd f, .conn fd f ∉ fs)
      (hsame : (b'.opts, b'.connection, b'.paused) =
        (b.opts, b.connection, b.paused))
      (hconn : ∀ fd, b.connection = some fd → b'.conns fd = b.conns fd)
      (hpending : b'.pending = b.pending ++ fs)
  | send (fd : Nat) (c : Connection) (data : List UInt8)
      (writes : List WriteRes) (hsend : (b.conns fd).send data writes = some c)
      (hup : c.state = .kConnected) (hput : Put fd c b b')
  | shutdown (fd : Nat) (hput : Put fd (b.conns fd).shutdownInLoop b b')

/-- What one step does, but for the functor that it takes off the queue. -/
inductive Turn (b b' : Brake) : Prop where
  | moved (h : Relation.ReflTransGen Move b b')
  | event (fd : Nat) (revents : UInt32) (d : Connection.Dispatch)
      (c : Connection) (hc : (b.conns fd).handleEvent revents d = some c)
      (hup : c.state = .kConnected) (hput : Put fd c b b')
  | changed (hopts : b'.opts = b.opts) (hne : b'.connection ≠ b.connection)
      (hopened : ∀ fd, b'.connection = some fd →
        b'.conns fd = LogSender.opened b.opts)

theorem turn_refl (b : Brake) : Turn b b := .moved .refl

theorem Move.same {b b' : Brake} (h : Move b b') :
    b'.opts = b.opts ∧ b'.connection = b.connection := by
  cases h with
  | queue fs hfs hsame =>
      simp only [Prod.mk.injEq] at hsame
      exact ⟨hsame.1, hsame.2.1⟩
  | send fd c data writes hsend hup hput =>
      exact ⟨hput.opts, hput.connection.trans hput.before.symm⟩
  | shutdown fd hput =>
      exact ⟨hput.opts, hput.connection.trans hput.before.symm⟩

theorem moved_same {b b' : Brake} (h : Relation.ReflTransGen Move b b') :
    b'.opts = b.opts ∧ b'.connection = b.connection := by
  induction h with
  | refl => exact ⟨rfl, rfl⟩
  | tail _ hmove ih =>
      exact ⟨hmove.same.1.trans ih.1, hmove.same.2.trans ih.2⟩

end Brake

namespace LogSender

open Brake

variable {ι : Type _}

def brake (w : LogSender ι) : Brake :=
  ⟨w.opts, w.connection, w.conns, w.pending, w.paused⟩

theorem put_withConn {w : LogSender ι} {fd : Nat}
    (hfd : w.connection = some fd) (c : Connection) :
    Put fd c w.brake (w.withConn fd c).brake :=
  ⟨hfd, rfl, hfd, rfl, withConn_self w fd c, rfl⟩

theorem brake_scheduleNextTick (w : LogSender ι) :
    w.scheduleNextTick.brake = w.brake := by
  rw [scheduleNextTick]
  split
  · rfl
  · rfl

theorem brake_onTick (w : LogSender ι) : w.onTick.brake = w.brake := by
  rw [onTick]
  split
  · rfl
  · split
    · rfl
    · exact brake_scheduleNextTick w

theorem turn_settle {w : LogSender ι} (hw : w.Tidy)
    {c : TcpClient} (hc : w.tcpClient = some c) {r : TcpClient × ClientAsk}
    (h : c.Sound → c.Answers r) : Turn w.brake (w.settle r).brake := by
  obtain ⟨k, hk, hsound, hsame⟩ := hw.client
  cases hk.symm.trans hc
  cases hask : r.2 with
  | established fd =>
      have hnone : w.connection = none := by
        rw [← hsame]
        exact ((h hsound).fresh fd hask).1
      rw [settle_established hask]
      refine .changed rfl ?_ fun i hi => ?_
      · show some fd ≠ w.connection
        rw [hnone]
        exact Option.some_ne_none fd
      · cases hi
        exact if_pos rfl
  | nothing | runAfter _ =>
      rw [settle, hask]
      exact turn_refl w.brake

theorem turn_startInLoop {w : LogSender ι} (hw : w.Tidy)
    (d : Dial) : Turn w.brake (w.startInLoop d).brake := by
  obtain ⟨c, hc, -⟩ := hw.client
  rw [startInLoop]
  split
  · exact turn_refl w.brake
  · have hstart : { w with started := true }.Tidy :=
      hw.other rfl hw.numbered hw.queue fun _ _ _ => .inl rfl
    simp only [hc, brake_scheduleNextTick]
    exact turn_settle hstart (c := c) hc fun hsound =>
      TcpClient.answers_connectInLoop hsound d

/-- `shutdown_in_loop` of a connection, current or not. -/
theorem turn_shutdownFunctor {w : LogSender ι} (hw : w.Tidy)
    (fd : Nat) :
    Turn w.brake (w.putConn fd (w.conns fd).shutdownInLoop).brake := by
  have hsame := (w.conns fd).shutdownInLoop_same
  simp only [Prod.mk.injEq] at hsame
  rw [putConn_open (by rw [hsame.1]; simp)]
  by_cases hfd : w.connection = some fd
  · exact .moved (.single (.shutdown fd (put_withConn hfd _)))
  · refine .moved (.single (.queue [] (by simp) rfl (fun i hi => ?_) ?_))
    · have hne : i ≠ fd := fun heq => hfd (heq ▸ hi)
      exact if_neg hne
    · show w.pending ++ (w.conns fd).shutdownInLoop.pending.map _ = _
      rw [hsame.2.1, hw.swept]
      rfl

/-- The current connection is closed, and there is none. -/
theorem putConn_gone {w : LogSender ι} (hw : w.Tidy) {fd : Nat}
    (hfd : w.connection = some fd) {c : Connection}
    (h : c.state = .kDisconnected) :
    (w.putConn fd c).brake.opts = w.opts ∧
      (w.putConn fd c).brake.connection = none := by
  have hopen : (w.conns fd).state ≠ .kDisconnected := by
    simp [(hw.current fd hfd).state]
  obtain ⟨k, hk, -⟩ := hw.client
  rw [putConn_closed hopen h]
  obtain ⟨timers, next, heq⟩ := onConnectionClosed_eq
    (w := w.withConn fd c) (by rw [withConn_self]; exact h) hk
  rw [heq]
  exact ⟨rfl, rfl⟩

/-- Nothing but sends, or the connection is lost. -/
def Batched (w u : LogSender ι) : Prop :=
  Relation.ReflTransGen Move w.brake u.brake ∨
    w.connection ≠ none ∧ u.opts = w.opts ∧ u.connection = none

theorem Batched.turn {w u : LogSender ι} (h : Batched w u) :
    Turn w.brake u.brake := by
  rcases h with hmoved | ⟨hsome, hopts, hnone⟩
  · exact .moved hmoved
  · refine .changed hopts ?_ fun fd hfd => ?_
    · show u.connection ≠ w.connection
      rw [hnone]
      exact hsome.symm
    · cases hnone.symm.trans hfd

theorem Batched.pass {w u : LogSender ι} (h : Batched w u) (hu : u.Tidy)
    {fd : Nat} {p : Payload} {ws : List WriteRes} {c : Connection}
    (hconn : u.connection = some fd)
    (hsend : (u.conns fd).send (LengthPrefixedCodec.encode p.bytes) ws =
      some c) :
    Batched w ({ u with passed := u.passed ++ [(fd, p)] }.putConn fd c) := by
  rcases h with hmoved | ⟨-, -, hnone⟩
  · have hbook : { u with passed := u.passed ++ [(fd, p)] }.Tidy :=
      hu.other rfl hu.numbered hu.queue fun _ _ _ => .inl rfl
    have hlives := Connection.lives_send (hu.current fd hconn).state hsend
    rcases hlives.upOrGone with hup | hgone
    · rw [putConn_open (by simp [hup])]
      exact .inl (hmoved.tail (.send fd c _ ws hsend hup
        (put_withConn (w := { u with passed := u.passed ++ [(fd, p)] })
          hconn c)))
    · obtain ⟨hopts, hnone⟩ := putConn_gone hbook hconn hgone.1
      obtain ⟨hsame, hbefore⟩ := moved_same hmoved
      have hbefore : u.connection = w.connection := hbefore
      refine .inr ⟨?_, hopts.trans hsame, hnone⟩
      rw [← hbefore, hconn]
      exact Option.some_ne_none fd
  · cases hnone.symm.trans hconn

/-- A batch that does not end the process. -/
theorem batched_sendBatch {batch : List Payload} {w w' : LogSender ι}
    {scripts : List (List WriteRes)} (hw : w.Tidy)
    (h : w.sendBatch batch scripts = some w') (hfault : w'.fault = none) :
    Batched w w' := by
  refine sendBatch_rule (P := fun u => u.Tidy ∧ Batched w u)
    (Q := fun u => u.fault = none → Batched w u) ?_ (fun hu _ => hu.2)
    (fun _ h => absurd h (fail_fault _ _)) ⟨hw, .inl .refl⟩ h hfault
  rintro u fd p ws c ⟨hu, hbatched⟩ hconn hsend
  exact ⟨hu.pass hconn hsend, hbatched.pass hu hconn hsend⟩

theorem turn_finishDrain {w w' : LogSender ι} (hw : w.Tidy)
    {dropped : Nat} {stopping : Bool}
    (hloop : w.loopPc = .draining dropped stopping)
    {scripts : List (List WriteRes)} (hfault : w'.fault = none)
    (h : w.finishDrain dropped stopping scripts = some w') :
    Turn w.brake w'.brake := by
  obtain rfl := hw.working dropped stopping hloop
  obtain ⟨w₁, hdrain, rfl⟩ := Option.map_eq_some_iff.mp h
  have hdone : Turn w.brake w₁.brake := by
    obtain ⟨taken, -, hwf, -⟩ :=
      MPSCQueue.drain_splits hw.queue [] w.opts.maxBatchPerTick
    have hqueue : { w with
        loopPc := .idle
        queue := (w.queue.drain [] w.opts.maxBatchPerTick).1 }.Tidy :=
      hw.other rfl hw.numbered hwf fun _ _ h => by cases h
    rw [drainAndSend_eq] at hdrain
    have hbatched := batched_sendBatch hqueue hdrain (behindDrain_fault hfault)
    exact hbatched.turn
  rw [behindDrain]
  split
  · exact hdone
  · rw [if_neg Bool.false_ne_true, brake_scheduleNextTick]
    exact hdone

/-- The brake behind the functor that a step takes off the queue. -/
def due (w : LogSender ι) : Label ι → Brake
  | .functor _ => w.brake.run
  | _ => w.brake

theorem turn_runFunctor {w : LogSender ι} (hw : w.Tidy) {d : Dial}
    {f : SenderFunctor} {fs : List SenderFunctor}
    (hstop : f ≠ .stopInLoop) :
    Turn { w with pending := fs, paused := f.pauses w.paused }.brake
      ({ w with pending := fs }.runFunctor d f).brake := by
  have hpop : { w with pending := fs }.Tidy :=
    hw.other rfl hw.numbered hw.queue fun _ _ _ => .inl rfl
  cases f with
  | startInLoop => exact turn_startInLoop hpop d
  | stopInLoop => exact absurd rfl hstop
  | wake =>
      rw [runFunctor]
      split
      · exact turn_refl _
      · rw [brake_onTick]
        exact turn_refl _
  | conn fd f =>
      cases f with
      | shutdownInLoop => exact turn_shutdownFunctor hpop fd
      | highWaterMark | writeComplete => exact turn_refl _

theorem turn_fireTimer {w : LogSender ι} (hw : w.Tidy) (d : Dial)
    (k : TimerKind) : Turn w.brake (w.fireTimer d k).brake := by
  cases k with
  | tick =>
      rw [fireTimer, brake_onTick]
      exact turn_refl _
  | retry =>
      obtain ⟨c, hc, -⟩ := hw.client
      rw [fireTimer]
      simp only [hc]
      exact turn_settle hw hc fun hsound => TcpClient.answers_retry hsound d

theorem turn_enqueue (w : LogSender ι) {f : SenderFunctor}
    (hf : ∀ fd g, f ≠ .conn fd g) :
    Turn w.brake { w with pending := w.pending ++ [f] }.brake := by
  refine .moved (.single (.queue [f] ?_ rfl (fun _ _ => rfl) rfl))
  intro fd g hmem
  exact hf fd g (List.mem_singleton.mp hmem).symm

theorem turn_step [DecidableEq ι] {w w' : LogSender ι} {l : Label ι}
    (hw : w.Tidy) (hstopped : w'.stopped = false) (hfault : w'.fault = none)
    (h : w.step l = some w') : Turn (w.due l) w'.brake := by
  cases (step_stepped h).2 with
  | enter | leave => exact turn_refl _
  | wake p => exact turn_enqueue w (f := .wake) (by simp)
  | start | stop => exact turn_enqueue w (by simp)
  | drain scripts dropped stopping _ hloop hfinish =>
      exact turn_finishDrain hw hloop hfault hfinish
  | functor d f fs hidle hq =>
      have hturn : Turn { w with pending := fs, paused := f.pauses w.paused
          }.brake ({ w with pending := fs }.runFunctor d f).brake := by
        refine turn_runFunctor hw fun hf => ?_
        rw [hf, runFunctor, stopInLoop_stopped] at hstopped
        cases hstopped
      rw [due, Brake.run]
      simpa [brake, hq] using hturn
  | timer id d t =>
      exact turn_fireTimer (hw.cancelTimer id) d t.kind
  | handshake err c hidle hc hchan =>
      refine turn_settle hw hc fun hsound => ?_
      have hstate := hsound.dialling hchan
      exact TcpClient.answers_handleConnectWritable err
        (hsound.noConnection (by simp [hstate]))
        (hsound.enabled (by simp [hstate]))
  | event fd revents d c hidle hadded hc =>
      have hfd : w.connection = some fd :=
        Decidable.byContradiction fun hne => hw.others fd hne hadded
      have hlives := Connection.lives_handleEvent (hw.current fd hfd).state
        (hw.quiet fd) hc
      rcases hlives.upOrGone with hup | hgone
      · rw [putConn_open (by simp [hup])]
        exact .event fd revents d c hc hup (put_withConn hfd c)
      · obtain ⟨hopts, hnone⟩ := putConn_gone hw hfd hgone.1
        refine .changed hopts ?_ fun i hi => ?_
        · rw [hnone]
          show none ≠ w.connection
          rw [hfd]
          exact (Option.some_ne_none fd).symm
        · cases hnone.symm.trans hi

end LogSender

end GameFrame
