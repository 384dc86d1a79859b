import GameFrame.Lib.Interest
import GameFrame.Net.Connection
import GameFrame.Net.TcpClient
import GameFrame.Net.TcpServer

/-!
# Who is registered in which epoll instance

One process with a `TcpServer` and a `TcpClient`: its loops with an epoll
instance each, and the descriptor numbers, which are the same for all. A
connection is a `Connection`, dialled or accepted, with a number and a loop.
The user gets it in the connection callback, before `start()`, and may do with
it what he likes while `start()` is still to come. So may the rest of the
process, which opens and closes descriptors of its own; what others closed, it
may get.

What a connection does to its channel is in `Connection`, which takes the
answer of `epoll_ctl` from `fdOpen`. Here the kernel gives it (`lookUp`). What
reaches the kernel is read off the channel, before and after (`follow`), and
it is one step, for nothing that happens elsewhere in the meantime makes a
difference: as long as the connection is open the number is its own, and
behind the `::close` in `close()` no call of `epoll_ctl` follows, which is a
theorem. The channels that a loop and the listening socket have for themselves
come and go with their owners.

Nobody is asked who has a `ConnectionPtr`: a connection may be destroyed when
neither the server's table, nor the client, nor a call that is going on has
one. What becomes of timers, and of the table when a close has reached it, is
in `TcpClient` and `TcpServer` and has nothing to do with descriptors.
-/

namespace GameFrame

/-- A connection, by its place in the order of accepts or by its socket. -/
inductive ConnRef where
  | accepted (id : Nat)
  | dialled (sock : Nat)
  deriving DecidableEq, Repr

/-- Who has a descriptor open, and whose channel is registered for it. -/
inductive FdOwner where
  /-- code that registers nothing -/
  | other (fd : Nat)
  /-- an eventfd, a timerfd or a listening socket -/
  | own (i : Nat)
  /-- `connecting_fd_` and `connect_channel_` -/
  | connect
  | conn (r : ConnRef)
  deriving DecidableEq, Repr

structure OwnChannel where
  loop : Nat := 0
  fd : Nat := 0
  fdOpen : Bool := false
  channel : Channel := {}
  deriving DecidableEq, Repr

/-- A connection that is not there, any more or yet: its descriptor is closed
and its channel is not registered. -/
def Connection.gone : Connection :=
  { state := .kDisconnected, channel := { state := .kDeleted }, fdOpen := false }

/-- `~Connection`. -/
def Connection.destroy (c : Connection) : Connection :=
  if c.state ≠ .kDisconnected then
    { c with
      channel := (c.channel.disableAll c.fdOpen).remove
      fdOpen := false
      log := c.log ++ [Ev.closeFd] }
  else c

structure Registration where
  server : TcpServer
  client : TcpClient := {}
  clientLoop : Nat
  /-- the numbers of the client's sockets -/
  sockFd : Nat → Nat := fun _ => 0
  kernel : Interest FdOwner := {}
  others : List Nat := []
  own : Nat → OwnChannel := fun _ => {}
  /-- how many of them there have been -/
  made : Nat := 0
  conns : ConnRef → Connection := fun _ => .gone
  /-- by loop, the connections that are in the connection callback with their
  `start()` behind it, the innermost call first -/
  starting : Nat → List ConnRef := fun _ => []
  /-- the client is in `on_connection_closed`, at the connection callback -/
  closing : Bool := false

namespace Registration

/-- The calls of `epoll_ctl` behind a channel that goes from one state to
another. -/
def follow (k : Interest FdOwner) (l fd : Nat) (p : FdOwner) :
    ChannelState → ChannelState → Interest FdOwner
  | .kNew, .kAdded | .kDeleted, .kAdded => k.add l fd p
  | .kAdded, .kDeleted | .kAdded, .kNew => k.del l fd
  | .kNew, .kNew | .kNew, .kDeleted | .kAdded, .kAdded | .kDeleted, .kNew
  | .kDeleted, .kDeleted => k

def loopOf (w : Registration) : ConnRef → Nat
  | .accepted id => (w.server.conns id).loop
  | .dialled _ => w.clientLoop

def fdOf (w : Registration) : ConnRef → Nat
  | .accepted id => (w.server.conns id).fd
  | .dialled sock => w.sockFd sock

/-- What somebody has open and registered. -/
def slot (w : Registration) : FdOwner → Interest.Slot
  | .other fd => { fd := fd, live := w.others.contains fd }
  | .own i =>
      { list := (w.own i).loop
        fd := (w.own i).fd
        live := (w.own i).fdOpen
        added := (w.own i).channel.state == .kAdded }
  | .connect =>
      match w.client.connectingFd with
      | none => {}
      | some sock =>
          { list := w.clientLoop
            fd := w.sockFd sock
            live := true
            added := w.client.connectChannel.any fun ch =>
              ch.state == .kAdded }
  | .conn r =>
      { list := w.loopOf r
        fd := w.fdOf r
        live := (w.conns r).state != .kDisconnected
        added := (w.conns r).channel.state == .kAdded }

def setConn (w : Registration) (r : ConnRef) (c : Connection) :
    Registration :=
  { w with conns := fun i => if i = r then c else w.conns i }

def setStarting (w : Registration) (l : Nat) (rs : List ConnRef) :
    Registration :=
  { w with starting := fun i => if i = l then rs else w.starting i }

/-- The thread of loop `l` is not inside one of these callbacks. -/
def idle (w : Registration) (l : Nat) : Bool :=
  (w.starting l).isEmpty && !(w.closing && l == w.clientLoop)

/-! ## A connection -/

/-- The connection, with what `epoll_ctl` would say about its number. -/
def lookUp (w : Registration) (r : ConnRef) : Connection :=
  { w.conns r with fdOpen := w.kernel.accepts (w.loopOf r) (w.fdOf r) (.conn r) }

/-- `epoll_ctl` and `::close`, in a call that makes `c'` of the connection. -/
def connCalls (w : Registration) (r : ConnRef) (c' : Connection)
    (closes : Bool) : Interest FdOwner :=
  let k := follow w.kernel (w.loopOf r) (w.fdOf r) (.conn r)
    (w.conns r).channel.state c'.channel.state
  if closes then k.closeFd (w.fdOf r) else k

/-- The call closes the connection. -/
def closes (w : Registration) (r : ConnRef) (c' : Connection) : Bool :=
  (w.conns r).state != .kDisconnected && c'.state == .kDisconnected

/-- A call makes `c'` of the connection. -/
def called (w : Registration) (r : ConnRef) (c' : Connection) : Registration :=
  { w with kernel := w.connCalls r c' (w.closes r c') }.setConn r c'

/-- And its owner is told if that has closed it. -/
def commit (w : Registration) (r : ConnRef) (c' : Connection) : Registration :=
  let w' := w.called r c'
  match r with
  | .accepted id =>
      match c'.state with
      | .kConnected => w'
      | .kDisconnecting => { w' with server := w'.server.shutdown id }
      | .kDisconnected => { w' with server := w'.server.close id }
  | .dialled _ => { w' with closing := w'.closing || w.closes r c' }

/-- The connection is destroyed. -/
def destroyed (w : Registration) (r : ConnRef) : Registration :=
  let closes := (w.conns r).state != .kDisconnected
  { w with kernel := w.connCalls r (w.lookUp r).destroy closes }.setConn r
    .gone

/-! ## The client -/

/-- `socket()` will return `fd`. -/
def withSocket (w : Registration) (fd : Nat) : Registration :=
  { w with
    sockFd := fun i => if i = w.client.sockets then fd else w.sockFd i }

/-- `epoll_ctl` for the connect channel, in a call that makes `c'` of the
client. -/
def connectCalls (w : Registration) (c' : TcpClient) (k : Interest FdOwner) :
    Interest FdOwner :=
  match w.client.connectChannel, c'.connectChannel with
  | none, some ch =>
      follow k w.clientLoop (c'.connectingFd.elim 0 w.sockFd) .connect .kNew
        ch.state
  | some ch, none =>
      follow k w.clientLoop (w.client.connectingFd.elim 0 w.sockFd) .connect
        ch.state .kDeleted
  | none, none | some _, some _ => k

/-- `::close` of sockets of the client. -/
def closeSockets (w : Registration) (k : Interest FdOwner)
    (socks : List Nat) : Interest FdOwner :=
  socks.foldl (fun k sock => k.closeFd (w.sockFd sock)) k

/-- And with `socket()` before it and `::close` behind. -/
def clientCalls (w : Registration) (c' : TcpClient) : Interest FdOwner :=
  let k :=
    if w.client.sockets < c'.sockets then
      w.kernel.openFd (w.sockFd w.client.sockets)
    else w.kernel
  w.closeSockets (w.connectCalls c' k)
    (c'.closedFds.drop w.client.closedFds.length)

/-- A call makes `c'` of the client. -/
def clientCalled (w : Registration) (c' : TcpClient) : Registration :=
  { w with kernel := w.clientCalls c', client := c' }

/-- And a new connection is in the connection callback, if there is one. -/
def asked (w : Registration) : ClientAsk → Registration
  | .established sock =>
      (w.setConn (.dialled sock) {}).setStarting w.clientLoop
        (.dialled sock :: w.starting w.clientLoop)
  | .nothing | .runAfter _ => w

def commitClient (w : Registration) (fd : Nat) (c' : TcpClient)
    (ask : ClientAsk) : Registration :=
  ((w.withSocket fd).clientCalled c').asked ask

/-- The kernel can return `fd` if a socket is opened. -/
def dialOk (w : Registration) (fd : Nat) (c' : TcpClient) : Bool :=
  w.client.sockets == c'.sockets || !w.kernel.opened fd

/-- One more descriptor of a loop itself, with its channel. -/
def withOwn (w : Registration) (k : Interest FdOwner) (l fd : Nat)
    (ch : Channel) : Registration :=
  { w with
    kernel := k
    own := fun i =>
      if i = w.made then
        { loop := l, fd := fd, fdOpen := true, channel := ch }
      else w.own i
    made := w.made + 1 }

/-! ## Steps -/

inductive Label where
  /-- descriptors of others -/
  | openOther (fd : Nat)
  | closeOther (fd : Nat)
  /-- the constructor of an `EventLoop`, a `TimerQueue` or a `TcpServer`, and
  the destructor -/
  | enrol (l fd : Nat)
  | retire (i : Nat)
  /-- `handle_accept`, `accept` having returned `fd` -/
  | accept (fd : Nat)
  /-- loop `l` runs the next functor of the server's -/
  | functor (l : Nat)
  /-- the connection callback returns, and `start()` is called -/
  | start (l : Nat)
  | conn (r : ConnRef) (lb : Connection.Label)
  /-- the callbacks of a connection are set -/
  | setCallbacks (r : ConnRef) (message high complete : Bool) (mark : Nat)
  | destroy (r : ConnRef)
  /-- of the client: `connect()`, the retry timer, an event of the connect
  channel, `disconnect()`, and the rest of `on_connection_closed` -/
  | connect (d : Dial) (fd : Nat)
  | retry (d : Dial) (fd : Nat)
  | connectWritable (err : Bool)
  | disconnect
  | onConnectionClosed
  deriving DecidableEq, Repr

/-- The user has been given the connection. -/
def known (w : Registration) : ConnRef → Bool
  | .accepted id => (w.server.conns id).known
  | .dialled sock => decide (sock < w.client.sockets)

/-- It is a call, or comes from the loop when that is free for it. -/
def callable (w : Registration) (r : ConnRef) : Connection.Label → Bool
  | .start => false
  | .event _ _ | .functor _ => w.known r && w.idle (w.loopOf r)
  | .op _ | .shutdownElsewhere => w.known r

/-- The server, the client or a call that is going on has the connection. -/
def holds (w : Registration) (r : ConnRef) : Bool :=
  (w.starting (w.loopOf r)).contains r ||
    match r with
    | .accepted id => w.server.connections (w.fdOf r) == some id
    | .dialled sock => w.client.connection == some sock

def step (w : Registration) : Label → Option Registration
  | .openOther fd =>
      if !w.kernel.opened fd then
        some { w with
          kernel := w.kernel.openFd fd, others := fd :: w.others }
      else none
  | .closeOther fd =>
      if w.others.contains fd then
        some { w with
          kernel := w.kernel.closeFd fd
          others := w.others.filter fun n => n ≠ fd }
      else none
  | .enrol l fd =>
      if !w.kernel.opened fd then
        let k := w.kernel.openFd fd
        let ch := ({} : Channel).enableReading (k.accepts l fd (.own w.made))
        some (w.withOwn (follow k l fd (.own w.made) .kNew ch.state) l fd ch)
      else none
  | .retire i =>
      let o := w.own i
      if o.fdOpen then
        let ch := (o.channel.disableAll
          (w.kernel.accepts o.loop o.fd (.own i))).remove
        let k := follow w.kernel o.loop o.fd (.own i) o.channel.state ch.state
        some { w with
          kernel := k.closeFd o.fd
          own := fun j =>
            if j = i then { o with fdOpen := false, channel := ch }
            else w.own j }
      else none
  | .accept fd =>
      if w.idle 0 && !w.kernel.opened fd then
        let id := w.server.accepted
        let w' :=
          { w with
            kernel := w.kernel.openFd fd
            server := w.server.handleAccept fd }.setConn (.accepted id) {}
        if w'.loopOf (.accepted id) = 0 then
          some (w'.setStarting 0 (.accepted id :: w.starting 0))
        else some w'
      else none
  | .functor l =>
      match w.server.queues l with
      | [] => none
      | f :: fs =>
          if w.idle l then
            let w' :=
              { w with server := (w.server.setQueue l fs).runFunctor f }
            match f with
            | .established id =>
                some (w'.setStarting l (.accepted id :: w.starting l))
            | .remove _ | .destroyed _ => some w'
          else none
  | .start l =>
      match w.starting l with
      | [] => none
      | r :: rs =>
          if w.closing && l == w.clientLoop then none
          else some ((w.setStarting l rs).commit r (w.lookUp r).start)
  | .conn r lb =>
      if w.callable r lb then ((w.lookUp r).step lb).map (w.commit r) else none
  | .setCallbacks r message high complete mark =>
      some (w.setConn r
        { w.conns r with
          messageCb := message
          highWaterCb := high
          highWaterMark := mark
          writeCompleteCb := complete })
  | .destroy r => if w.holds r then none else some (w.destroyed r)
  | .connect d fd =>
      let (c', ask) := w.client.connectInLoop d
      if w.dialOk fd c' then some (w.commitClient fd c' ask) else none
  | .retry d fd =>
      let (c', ask) := w.client.retry d
      if w.idle w.clientLoop && w.dialOk fd c' then
        some (w.commitClient fd c' ask)
      else none
  | .connectWritable err =>
      if w.idle w.clientLoop && w.client.connectChannel.isSome then
        let (c', ask) := w.client.handleConnectWritable err
        some (w.commitClient 0 c' ask)
      else none
  | .disconnect =>
      let (c', close) := w.client.disconnectInLoop
      let w' := w.commitClient 0 c' .nothing
      match close with
      | none => some w'
      | some sock =>
          let r := .dialled sock
          some (w'.commit r (w'.lookUp r).close)
  | .onConnectionClosed =>
      if w.closing then
        let (c', ask) := w.client.onConnectionClosed
        some ({ w with closing := false }.commitClient 0 c' ask)
      else none

end Registration

end GameFrame
