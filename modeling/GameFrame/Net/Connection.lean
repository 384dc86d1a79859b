import GameFrame.Lib.Run
import GameFrame.Net.Channel
import GameFrame.Util.Buffer

/-!
# `Connection`, one socket with its two buffers

`src/connection.h`, `src/connection.cpp`. Everything here runs on the loop
thread, except `shutdown`, which other threads may call: it then leaves a
functor for the loop.

The system calls answer from scripts. A function that reads or writes in a
loop takes the list of answers it gets, one for each call it makes, and is
only defined on a list it uses up: any other list is not what happened. What
the message callback does is a script too, a list of the things it can do to
the connection, each with the answers its own system calls get.

The log is the connection's history: the system calls on its descriptor, what
was handed to its callbacks and what `send` was given. Nothing in the source
corresponds to it, and nothing here looks at it.
-/

namespace GameFrame

/-- `Connection::State`. -/
inductive ConnState where
  | kConnected
  | kDisconnecting
  | kDisconnected
  deriving DecidableEq, Repr

/-- How a loop of reads ends: at end of file, on an error, or because there is
nothing more for now. -/
inductive ReadEnd where
  | eof
  | fatal
  | eagain
  deriving DecidableEq, Repr

/-- An answer of `read(2)`. -/
inductive ReadRes where
  | data (bytes : List UInt8)
  | eintr
  | stop (e : ReadEnd)
  deriving DecidableEq, Repr

inductive WriteEnd where
  | fatal
  | eagain
  deriving DecidableEq, Repr

/-- An answer of `write(2)`. -/
inductive WriteRes where
  | accepted (n : Nat)
  | eintr
  | stop (e : WriteEnd)
  deriving DecidableEq, Repr

/-- What a message callback can do to its connection. -/
inductive UserOp where
  | send (data : List UInt8) (writes : List WriteRes)
  | shutdown
  | close
  | retrieve (len : Nat)
  deriving DecidableEq, Repr

/-- What a connection queues on its own loop. -/
inductive ConnFunctor where
  | shutdownInLoop
  | highWaterMark
  | writeComplete
  deriving DecidableEq, Repr

inductive Ev where
  | read
  /-- `write(2)`, with the bytes it accepted -/
  | write (bytes : List UInt8)
  /-- `shutdown(2)` of the write half -/
  | shutWr
  | closeFd
  /-- the message callback, with the bytes read since the last time -/
  | message (fresh : List UInt8)
  | sendCall (state : ConnState) (data : List UInt8)
  | closeCb
  deriving DecidableEq, Repr

structure Connection where
  state : ConnState := .kConnected
  channel : Channel := {}
  fdOpen : Bool := true
  inputBuffer : Buffer := .new
  outputBuffer : Buffer := .new
  shutdownPending : Bool := false
  /-- which callbacks are set, and the mark of the third -/
  messageCb : Bool := true
  closeCb : Bool := true
  highWaterCb : Bool := false
  writeCompleteCb : Bool := false
  highWaterMark : Nat := 0
  /-- the functors of this connection that its loop has not run yet -/
  pending : List ConnFunctor := []
  log : List Ev := []

namespace Connection

def note (c : Connection) (e : Ev) : Connection :=
  { c with log := c.log ++ [e] }

def queueInLoop (c : Connection) (f : ConnFunctor) : Connection :=
  { c with pending := c.pending ++ [f] }

/-- `close()`. -/
def close (c : Connection) : Connection :=
  if c.state = .kDisconnected then c
  else
    let c :=
      { c with
        state := .kDisconnected
        channel := (c.channel.disableAll c.fdOpen).remove
        fdOpen := false
        log := c.log ++ [Ev.closeFd] }
    if c.closeCb then c.note .closeCb else c

/-- The loop of `send`: what is left of the data, and the answer it stopped
at, or none if nothing is left. -/
def sendLoop : Connection → List UInt8 → List WriteRes →
    Option (Connection × List UInt8 × Option WriteEnd)
  | c, rem, [] => if rem = [] then some (c, rem, none) else none
  | c, rem, w :: ws =>
      if rem = [] then none
      else
        match w with
        | .accepted n =>
            if n ≤ rem.length then
              sendLoop (c.note (.write (rem.take n))) (rem.drop n) ws
            else none
        | .eintr => sendLoop (c.note (.write [])) rem ws
        | .stop e =>
            if ws = [] then some (c.note (.write []), rem, some e) else none

/-- The slow path of `send`: what is left goes into the buffer, with the mark
watched on the way. -/
def sendRest (c : Connection) (rem : List UInt8) : Connection :=
  if rem = [] then c
  else
    let oldLen := c.outputBuffer.readableBytes
    let c := { c with outputBuffer := c.outputBuffer.append rem }
    let newLen := c.outputBuffer.readableBytes
    let c :=
      if c.highWaterMark > 0 && c.highWaterCb && oldLen < c.highWaterMark &&
        newLen ≥ c.highWaterMark then c.queueInLoop .highWaterMark
      else c
    if c.channel.isWriting then c
    else { c with channel := c.channel.enableWriting c.fdOpen }

/-- `send(data)`. -/
def send (c : Connection) (data : List UInt8) (writes : List WriteRes) :
    Option Connection :=
  let c₁ := c.note (.sendCall c.state data)
  if c.state ≠ .kConnected ∨ data = [] then
    if writes = [] then some c₁ else none
  else if c.outputBuffer.empty then
    match c₁.sendLoop data writes with
    | some (c₂, _, some .fatal) => some c₂.close
    | some (c₂, rem, _) => some (c₂.sendRest rem)
    | none => none
  else if writes = [] then some (c₁.sendRest data)
  else none

/-- `shutdown_in_loop()`. -/
def shutdownInLoop (c : Connection) : Connection :=
  if c.state = .kDisconnected then c
  else if c.outputBuffer.empty then c.note .shutWr
  else { c with shutdownPending := true }

/-- `shutdown()`, on the loop thread. -/
def shutdown (c : Connection) : Connection :=
  if c.state = .kConnected then
    { c with state := .kDisconnecting }.shutdownInLoop
  else c

/-- `shutdown()`, on any other. -/
def shutdownElsewhere (c : Connection) : Connection :=
  if c.state = .kConnected then
    { c with state := .kDisconnecting }.queueInLoop .shutdownInLoop
  else c

def userOp (c : Connection) : UserOp → Option Connection
  | .send data writes => c.send data writes
  | .shutdown => some c.shutdown
  | .close => some c.close
  | .retrieve len =>
      some { c with inputBuffer := c.inputBuffer.retrieve len }

def userOps (c : Connection) (ops : List UserOp) : Option Connection :=
  ops.foldlM userOp c

/-- The loop of `handle_read`: the bytes it read, and how it ended. -/
def readLoop : Connection → List UInt8 → List ReadRes →
    Option (Connection × List UInt8 × ReadEnd)
  | _, _, [] => none
  | c, fresh, r :: rs =>
      let room := c.inputBuffer.ensureWritable 4096
      let c := { c.note .read with inputBuffer := room }
      match r with
      | .data bytes =>
          if h : 0 < bytes.length ∧ bytes.length ≤ room.writableBytes then
            readLoop { c with inputBuffer := room.hasWritten bytes h.2 }
              (fresh ++ bytes) rs
          else none
      | .eintr => readLoop c fresh rs
      | .stop e => if rs = [] then some (c, fresh, e) else none

/-- The message callback, if there is one and something for it to see. -/
def deliver (c : Connection) (fresh : List UInt8) (cb : List UserOp) :
    Option Connection :=
  if c.messageCb && c.inputBuffer.readableBytes > 0 then
    (c.note (.message fresh)).userOps cb
  else if cb = [] then some c
  else none

/-- `handle_read()`. -/
def handleRead (c : Connection) (reads : List ReadRes) (cb : List UserOp) :
    Option Connection :=
  match c.readLoop [] reads with
  | none => none
  | some (c, fresh, .eof) => (c.deliver fresh cb).map close
  | some (c, _, .fatal) => if cb = [] then some c.close else none
  | some (c, fresh, .eagain) => c.deliver fresh cb

/-- The loop of `handle_write`: the answer it stopped at, or none if the
buffer ran empty. -/
def drainLoop : Connection → List WriteRes →
    Option (Connection × Option WriteEnd)
  | c, [] => if c.outputBuffer.empty then some (c, none) else none
  | c, w :: ws =>
      if c.outputBuffer.empty then none
      else
        match w with
        | .accepted n =>
            if n ≤ c.outputBuffer.readableBytes then
              drainLoop
                { c.note (.write (c.outputBuffer.readable.take n)) with
                  outputBuffer := c.outputBuffer.retrieve n } ws
            else none
        | .eintr => drainLoop (c.note (.write [])) ws
        | .stop e =>
            if ws = [] then some (c.note (.write []), some e) else none

def stopWriting (c : Connection) : Connection :=
  if c.channel.isWriting then
    { c with channel := c.channel.disableWriting c.fdOpen }
  else c

/-- The half-close that waited for the buffer to run empty. -/
def halfClose (c : Connection) : Connection :=
  if c.shutdownPending then
    { c with shutdownPending := false }.note .shutWr
  else c

def notifyWritten (c : Connection) : Connection :=
  if c.writeCompleteCb then c.queueInLoop .writeComplete else c

/-- `handle_write()`. -/
def handleWrite (c : Connection) (writes : List WriteRes) :
    Option Connection :=
  if c.outputBuffer.empty then
    if writes = [] then some c.stopWriting else none
  else
    match c.drainLoop writes with
    | none => none
    | some (c, some .eagain) => some c
    | some (c, some .fatal) => some c.close
    | some (c, none) => some c.stopWriting.halfClose.notifyWritten

/-- `start()`. -/
def start (c : Connection) : Connection :=
  { c with channel := { c.channel with tied := true }.enableReading c.fdOpen }

/-! ## Runs -/

/-- A connection nothing has happened to yet, whatever its callbacks. -/
structure New (c : Connection) : Prop where
  state : c.state = .kConnected
  log : c.log = []
  outputBuffer : c.outputBuffer.readable = []
  shutdownPending : c.shutdownPending = false
  pending : c.pending = []

/-- What one dispatch is going to get: whether the connection object is still
there, the answers of the reads, what the message callback does, and the
answers of the writes. -/
structure Dispatch where
  alive : Bool := true
  reads : List ReadRes := []
  cb : List UserOp := []
  writes : List WriteRes := []
  deriving DecidableEq, Repr

/-- The channel's `handle_event`, with the callbacks a connection sets. -/
def handleEvent (c : Connection) (revents : UInt32) (d : Dispatch) :
    Option Connection :=
  Channel.handleEvent c.channel.tied d.alive (fun c => some c.close)
    (fun c => some c.close) (fun c => c.handleRead d.reads d.cb)
    (fun c => c.handleWrite d.writes) revents c

inductive Label where
  | start
  | event (revents : UInt32) (d : Dispatch)
  /-- a call from outside of any event: a timer, a functor of someone else,
  the connection callback -/
  | op (o : UserOp)
  | shutdownElsewhere
  /-- the loop runs the connection's next functor, a callback doing `cb` -/
  | functor (cb : List UserOp)
  deriving DecidableEq, Repr

def runFunctor (c : Connection) (cb : List UserOp) : Option Connection :=
  match c.pending with
  | [] => none
  | .shutdownInLoop :: fs =>
      if cb = [] then some { c with pending := fs }.shutdownInLoop else none
  | .highWaterMark :: fs | .writeComplete :: fs =>
      { c with pending := fs }.userOps cb

def step (c : Connection) : Label → Option Connection
  | .start => some c.start
  | .event revents d => c.handleEvent revents d
  | .op o => c.userOp o
  | .shutdownElsewhere => some c.shutdownElsewhere
  | .functor cb => c.runFunctor cb

end Connection

end GameFrame
