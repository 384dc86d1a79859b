import GameFrame.Lib.Run
import GameFrame.Net.Connection
import GameFrame.Net.TcpClient
import GameFrame.Util.LengthPrefixedCodec
import GameFrame.Util.MPSCQueue

/-!
# `LogSender`, a queue emptied onto a connection that comes and goes

`log_sender/log_sender.h`, `log_sender/log_sender.cpp`. Producers on any
number of threads push into an `MPSCQueue`. A loop thread takes what is there,
on a timer and when it is woken, and sends it as frames. The connection is
the business of a `TcpClient`, which reports it here when it is up and when it
is gone.

The loop thread does one thing at a time: it runs a functor, fires a timer,
handles an event. Producers run in between, and also in the middle of one of
these things, since `do_drain_and_send` goes to the queue twice. It is two
steps here, one up to `take_dropped` and one from `drain` on (`SenderPc`).
Nothing behind the `drain` looks at what producers touch. A producer is at one
of four places in `push` (`PushPc`).

A closed connection is reported by the call of `close_cb_` that ends `close()`.
What follows of it is done as soon as the function of the connection that
closed it is over (`putConn`); by then it does nothing but return, or look at
its own descriptor, so the order makes no difference.

The socket numbers of `TcpClient` name the connections. Following a pointer
that is null, or whose object is gone, ends the process, and is a state of its
own here (`Fault`).
-/

namespace GameFrame

/-- `LogSender::Options`. -/
structure Options where
  queueCapacity : Nat := 10000
  maxBatchPerTick : Nat := 1000
  tickIntervalMs : Nat := 50
  highWaterMark : Nat := 4 * 1024 * 1024
  deriving DecidableEq, Repr

/-- A string of a batch, by what it is. -/
inductive Payload where
  | msg (bytes : List UInt8)
  | logDropped (n : Nat)
  deriving DecidableEq, Repr

def Payload.bytes : Payload → List UInt8
  | .msg bytes => bytes
  | .logDropped n =>
      ("[LOG_DROPPED] " ++ toString n ++ " messages lost").toList.map
        fun c => UInt8.ofNat c.toNat

inductive TimerKind where
  | tick
  | retry
  deriving DecidableEq, Repr

structure Timer where
  id : Nat
  kind : TimerKind
  delayMs : Nat
  deriving DecidableEq, Repr

/-- What is queued on the sender's loop. -/
inductive SenderFunctor where
  | startInLoop
  | stopInLoop
  /-- of `push` -/
  | wake
  | conn (fd : Nat) (f : ConnFunctor)
  deriving DecidableEq, Repr

/-- Where a producer is: outside of `push`, behind its critical section with
the message stored or refused, or told to wake the loop and about to. -/
inductive PushPc where
  | idle
  | inserted
  | refused
  | waking
  deriving DecidableEq, Repr

/-- Where the loop thread is: between two of the things it does, or inside
`do_drain_and_send` with what `take_dropped` returned, called by `on_tick` or
by `stop_in_loop`. -/
inductive SenderPc where
  | idle
  | draining (dropped : Nat) (stopping : Bool)
  deriving DecidableEq, Repr

/-- Which pointer was followed that should not have been. -/
inductive Fault where
  | connection
  | tcpClient
  deriving DecidableEq, Repr

structure LogSender (ι : Type _) where
  opts : Options
  queue : MPSCQueue (List UInt8)
  tcpClient : Option TcpClient := some {}
  connection : Option Nat := none
  paused : Bool := false
  tickTimerId : Nat := 0
  started : Bool := false
  stopped : Bool := false
  /-- the connection on each socket, once it is built -/
  conns : Nat → Connection := fun _ => { messageCb := false }
  /-- the timers of the loop, and the number of the next -/
  timers : List Timer := []
  nextTimerId : Nat := 1
  pending : List SenderFunctor := []
  loopPc : SenderPc := .idle
  pc : ι → PushPc := fun _ => .idle
  fault : Option Fault := none
  /-- the messages stored, in that order, and how many pushes returned false -/
  accepted : List (List UInt8) := []
  refused : Nat := 0
  /-- the calls of `Connection::send` -/
  passed : List (Nat × Payload) := []

namespace LogSender

variable {ι : Type _}

def new (opts : Options) : LogSender ι where
  opts := opts
  queue := .new opts.queueCapacity

def setConn (w : LogSender ι) (fd : Nat) (c : Connection) : LogSender ι :=
  { w with conns := fun i => if i = fd then c else w.conns i }

def fail (w : LogSender ι) (f : Fault) : LogSender ι :=
  { w with fault := w.fault.or (some f) }

/-- `EventLoop::run_after`. -/
def runAfter (w : LogSender ι) (ms : Nat) (kind : TimerKind) :
    Nat × LogSender ι :=
  (w.nextTimerId,
    { w with
      timers := w.timers ++ [⟨w.nextTimerId, kind, ms⟩]
      nextTimerId := w.nextTimerId + 1 })

def cancelTimer (w : LogSender ι) (id : Nat) : LogSender ι :=
  { w with timers := w.timers.filter fun t => t.id ≠ id }

/-! ## The connection -/

/-- `on_connection(conn)`. -/
def onConnection (w : LogSender ι) (fd : Nat) : LogSender ι :=
  if (w.conns fd).state = .kConnected then
    let w :=
      if w.opts.highWaterMark > 0 then
        w.setConn fd
          { w.conns fd with
            highWaterCb := true
            highWaterMark := w.opts.highWaterMark
            writeCompleteCb := true }
      else w
    { w with connection := some fd, paused := false }
  else { w with connection := none, paused := false }

/-- What a function of the client leaves to be done. -/
def settle (w : LogSender ι) (r : TcpClient × ClientAsk) : LogSender ι :=
  let w := { w with tcpClient := some r.1 }
  match r.2 with
  | .nothing => w
  | .runAfter ms => (w.runAfter ms .retry).2
  | .established fd =>
      let w := (w.setConn fd { messageCb := false }).onConnection fd
      w.setConn fd (w.conns fd).start

/-- The close callback: `TcpClient::on_connection_closed`. -/
def onConnectionClosed (w : LogSender ι) (fd : Nat) : LogSender ι :=
  let w := w.onConnection fd
  match w.tcpClient with
  | none => w.fail .tcpClient
  | some c => w.settle c.onConnectionClosed

/-- A connection behind one of its functions: what it queued goes to the loop,
and if it was closed, its close callback is called. -/
def putConn (w : LogSender ι) (fd : Nat) (c : Connection) : LogSender ι :=
  let closed := (w.conns fd).state ≠ .kDisconnected ∧ c.state = .kDisconnected
  let w := w.setConn fd { c with pending := [] }
  let w := { w with pending := w.pending ++ c.pending.map (.conn fd) }
  if closed then w.onConnectionClosed fd else w

/-! ## Ticks -/

/-- `schedule_next_tick()`. -/
def scheduleNextTick (w : LogSender ι) : LogSender ι :=
  if w.stopped then w
  else
    let (id, w) := w.runAfter w.opts.tickIntervalMs .tick
    { w with tickTimerId := id }

/-- Whether `connection_` is there and connected. -/
def connected (w : LogSender ι) : Bool :=
  match w.connection with
  | none => false
  | some fd => (w.conns fd).state == .kConnected

/-- `do_drain_and_send()`, up to its `drain`. -/
def takeDropped (w : LogSender ι) (stopping : Bool) : LogSender ι :=
  { w with
    queue := w.queue.takeDropped.2
    loopPc := .draining w.queue.takeDropped.1 stopping }

/-- `send_batch(batch)`, with the answers the writes of each call get. -/
def sendBatch : LogSender ι → List Payload → List (List WriteRes) →
    Option (LogSender ι)
  | w, [], scripts => if scripts = [] then some w else none
  | w, p :: ps, scripts =>
      match w.connection with
      | none => if scripts = [] then some (w.fail .connection) else none
      | some fd =>
          match scripts with
          | [] => none
          | ws :: scripts =>
              let data := LengthPrefixedCodec.encode p.bytes
              match (w.conns fd).send data ws with
              | none => none
              | some c =>
                  ({ w with passed := w.passed ++ [(fd, p)] }.putConn fd
                    c).sendBatch ps scripts

/-- The rest of `do_drain_and_send()`. -/
def drainAndSend (w : LogSender ι) (dropped : Nat)
    (scripts : List (List WriteRes)) : Option (LogSender ι) :=
  let head := if dropped > 0 then [Payload.logDropped dropped] else []
  let out := w.queue.drain [] w.opts.maxBatchPerTick
  let w := { w with queue := out.1 }
  if out.2 = [] ∧ dropped = 0 then if scripts = [] then some w else none
  else w.sendBatch (head ++ out.2.map .msg) scripts

/-- `on_tick()`, up to its `drain` if it comes to one. -/
def onTick (w : LogSender ι) : LogSender ι :=
  if w.stopped then w
  else if w.connected && !w.paused then w.takeDropped false
  else w.scheduleNextTick

/-! ## Start and stop -/

/-- `start_in_loop()`. -/
def startInLoop (w : LogSender ι) (d : Dial) : LogSender ι :=
  if w.started then w
  else
    let w := { w with started := true }
    match w.tcpClient with
    | none => w.fail .tcpClient
    | some c => (w.settle (c.connectInLoop d)).scheduleNextTick

/-- The client closes a connection, if it has one to close. -/
def closeConn (w : LogSender ι) : Option Nat → LogSender ι
  | none => w
  | some fd => w.putConn fd (w.conns fd).close

/-- `tcp_client_->disconnect()`. -/
def disconnect (w : LogSender ι) (c : TcpClient) : LogSender ι :=
  { w with tcpClient := some c.disconnectInLoop.1 }.closeConn
    c.disconnectInLoop.2

/-- `~TcpClient()`. -/
def destroyTcpClient (w : LogSender ι) (c : TcpClient) : LogSender ι :=
  let w := { w with tcpClient := some { c with retryEnabled := false } }
  { w.closeConn c.connection with tcpClient := none }

/-- `connection_->shutdown()`, if it is there. -/
def shutdownConn (w : LogSender ι) : LogSender ι :=
  match w.connection with
  | none => w
  | some fd => w.putConn fd (w.conns fd).shutdown

/-- `stop_in_loop()`, from behind its last `do_drain_and_send`. -/
def stopRest (w : LogSender ι) : LogSender ι :=
  let w := w.shutdownConn
  match w.tcpClient with
  | none => w.fail .tcpClient
  | some c =>
      let w := { w.disconnect c with connection := none }
      match w.tcpClient with
      | none => w
      | some c => w.destroyTcpClient c

/-- The timer of the next tick, called off. -/
def cancelTick (w : LogSender ι) : LogSender ι :=
  if w.tickTimerId ≠ 0 then
    { w.cancelTimer w.tickTimerId with tickTimerId := 0 }
  else w

/-- `stop_in_loop()`, up to its `drain` if it comes to one. -/
def stopInLoop (w : LogSender ι) : LogSender ι :=
  if w.stopped then w
  else
    let w := { w with stopped := true }.cancelTick
    if w.connected then w.takeDropped true else w.stopRest

/-! ## Steps -/

def runFunctor (w : LogSender ι) (d : Dial) : SenderFunctor → LogSender ι
  | .startInLoop => w.startInLoop d
  | .stopInLoop => w.stopInLoop
  | .wake => if !w.started || w.stopped then w else w.onTick
  | .conn fd .shutdownInLoop => w.putConn fd (w.conns fd).shutdownInLoop
  | .conn _ .highWaterMark => { w with paused := true }
  | .conn _ .writeComplete => { w with paused := false }

def fireTimer (w : LogSender ι) (d : Dial) : TimerKind → LogSender ι
  | .tick => { w with tickTimerId := 0 }.onTick
  | .retry =>
      match w.tcpClient with
      | none => w.fail .tcpClient
      | some c => w.settle (c.retry d)

/-- What called `do_drain_and_send()` goes on behind it. -/
def behindDrain (stopping : Bool) (w : LogSender ι) : LogSender ι :=
  if w.fault.isSome then w
  else if stopping then w.stopRest
  else w.scheduleNextTick

def finishDrain (w : LogSender ι) (dropped : Nat) (stopping : Bool)
    (scripts : List (List WriteRes)) : Option (LogSender ι) :=
  ({ w with loopPc := .idle }.drainAndSend dropped scripts).map
    (behindDrain stopping)

inductive Label (ι : Type _) where
  /-- `p` runs the critical section of a push -/
  | enter (p : ι) (msg : List UInt8)
  /-- what a push does without the lock -/
  | leave (p : ι)
  | wake (p : ι)
  /-- calls of `start()` and `stop()`, which leave the loop a functor -/
  | start
  | stop
  /-- the loop thread runs its next functor, a dial going as `d` says -/
  | functor (d : Dial)
  | timer (id : Nat) (d : Dial)
  /-- an event on the channel of a handshake -/
  | handshake (err : Bool)
  | event (fd : Nat) (revents : UInt32) (d : Connection.Dispatch)
  /-- the loop thread goes on from `drain` -/
  | drain (scripts : List (List WriteRes))
  deriving Repr

variable [DecidableEq ι]

def setPc (w : LogSender ι) (p : ι) (c : PushPc) : ι → PushPc :=
  fun i => if i = p then c else w.pc i

def enter (w : LogSender ι) (p : ι) (msg : List UInt8) : LogSender ι :=
  let r := w.queue.pushLocked msg
  { w with
    queue := r.2
    pc := w.setPc p (if r.1 then .inserted else .refused)
    accepted := w.accepted ++ if r.1 then [msg] else [] }

def leave (w : LogSender ι) (p : ι) (ok : Bool) : LogSender ι :=
  let r := w.queue.pushUnlocked ok
  { w with
    queue := r.2
    pc := w.setPc p (if r.1.wakeUp then .waking else .idle)
    refused := w.refused + if ok then 0 else 1 }

/-- One thing the loop thread does, being done with the one before. -/
def loopStep (w : LogSender ι) : Label ι → Option (LogSender ι)
  | .functor d =>
      match w.pending with
      | [] => none
      | f :: fs => some ({ w with pending := fs }.runFunctor d f)
  | .timer id d =>
      match w.timers.find? fun t => t.id = id with
      | none => none
      | some t => some ((w.cancelTimer id).fireTimer d t.kind)
  | .handshake err =>
      match w.tcpClient with
      | none => none
      | some c =>
          if c.connectChannel.isSome then
            some (w.settle (c.handleConnectWritable err))
          else none
  | .event fd revents d =>
      if (w.conns fd).channel.state = .kAdded then
        ((w.conns fd).handleEvent revents d).map (w.putConn fd)
      else none
  | _ => none

def live (w : LogSender ι) : Label ι → Option (LogSender ι)
  | .enter p msg =>
      if w.pc p = .idle then some (w.enter p msg) else none
  | .leave p =>
      match w.pc p with
      | .inserted => some (w.leave p true)
      | .refused => some (w.leave p false)
      | _ => none
  | .wake p =>
      if w.pc p = .waking then
        some { w with pending := w.pending ++ [.wake], pc := w.setPc p .idle }
      else none
  | .start => some { w with pending := w.pending ++ [.startInLoop] }
  | .stop => some { w with pending := w.pending ++ [.stopInLoop] }
  | .drain scripts =>
      match w.loopPc with
      | .idle => none
      | .draining dropped stopping => w.finishDrain dropped stopping scripts
  | l => if w.loopPc = .idle then w.loopStep l else none

/-- A process that ended takes no steps. -/
def step (w : LogSender ι) (l : Label ι) : Option (LogSender ι) :=
  if w.fault.isSome then none else w.live l

end LogSender

end GameFrame
