import GameFrame.Net.TcpServer

/-!
# One thread, its batch of events, and who owns the connections in it

`EventLoop::loop()` of `src/event_loop.cpp` over a `TcpServer` without
sub-loops. `epoll_wait` fills an array with pointers to channels, and the loop
follows them one after the other, whatever the callbacks of the first ones do
to the others. A channel belongs to its connection, and a connection lives as
long as somebody has a `ConnectionPtr` to it: the table of the server, the
user (in a container, a timer's callback or a thread of his own), a functor
that is queued or was swapped out for this round, or a call that is going on
and has taken one for its own protection. When the last of these is gone, it
is destroyed there and then (`reap`), and with it its channel.

The loop thread runs the callbacks, and they run each other: what a callback
does are the steps between its call and its return (`Frame`). It may close any
connection, have pointers copied and dropped, and queue functors that hold
some. The server's own part of this, with the table and its functions, is
`TcpServer` with no sub-loops, where a close is off the table and reported
before it returns. Following a pointer to a channel that is gone has no
meaning and is no step.

`~Connection` closes the descriptor of a connection that was never closed.
There is no such connection to destroy, since the table has all of them, and
that branch is left out.
-/

namespace GameFrame

/-- What `data.ptr` of an event refers to: the channel of the listening
socket, of the eventfd, of the timerfd, or of a connection. -/
inductive EventSource where
  | acceptor
  | wakeup
  | timers
  | conn (id : Nat)
  deriving DecidableEq, Repr

/-- A call that is going on on the loop thread. -/
inductive Frame where
  | handleEvent (s : EventSource)
  | functor
  /-- `close()`, with its `guard`, at the close callback -/
  | close (id : Nat)
  /-- `handle_accept`, with its `conn_ref`, at the connection callback -/
  | accept (id : Nat)
  deriving DecidableEq, Repr

/-- The connection the call keeps alive. -/
def Frame.guard : Frame → Option Nat
  | .handleEvent (.conn id) | .close id | .accept id => some id
  | .handleEvent .acceptor | .handleEvent .wakeup | .handleEvent .timers =>
      none
  | .functor => none

/-- Where `loop()` is: in `epoll_wait`, with events of the batch to dispatch,
or with that many functors of the round to run. -/
inductive Phase where
  | wait
  | dispatch (rest : List EventSource)
  | functors (left : Nat)
  deriving DecidableEq, Repr

structure Reactor where
  server : TcpServer := { numThreads := 0 }
  /-- connections whose channel is `kAdded` -/
  added : List Nat := []
  /-- the user's pointers -/
  held : List Nat := []
  /-- what the queued functors hold, and those of this round -/
  pendingFunctors : List (Option Nat) := []
  functors : List (Option Nat) := []
  phase : Phase := .wait
  stack : List Frame := []
  /-- the connections that exist -/
  alive : List Nat := []

namespace Reactor

/-- The connection is in the table. -/
def inTable (w : Reactor) (id : Nat) : Bool :=
  w.server.connections (w.server.conns id).fd == some id

/-- Somebody has a pointer to the connection. -/
def owned (w : Reactor) (id : Nat) : Bool :=
  w.inTable id || w.held.contains id ||
    w.pendingFunctors.contains (some id) || w.functors.contains (some id) ||
    w.stack.any fun f => f.guard == some id

/-- Connections nobody has a pointer to any more are destroyed. -/
def reap (w : Reactor) : Reactor := { w with alive := w.alive.filter w.owned }

inductive Label where
  /-- `epoll_wait` returns these -/
  | poll (events : List EventSource)
  | handleEvent
  | swap
  | runFunctor
  | endRound
  /-- the innermost call returns -/
  | ret
  /-- a turn of `handle_accept`, up to the connection callback -/
  | accept (fd : Nat)
  /-- its `start()`; if the connection has been closed, has the number been
  opened again by somebody else -/
  | start (reopened : Bool)
  /-- a `close()`, up to the connection callback -/
  | close (id : Nat)
  /-- a `ConnectionPtr` is copied by the user, dropped by him, or captured by
  a functor that is queued -/
  | hold (id : Nat)
  | drop (id : Nat)
  | queueInLoop (f : Option Nat)
  deriving DecidableEq, Repr

/-- The channel is registered. -/
def registered (w : Reactor) : EventSource → Bool
  | .conn id => w.added.contains id
  | .acceptor | .wakeup | .timers => true

/-- The channel exists. -/
def standing (w : Reactor) : EventSource → Bool
  | .conn id => w.alive.contains id
  | .acceptor | .wakeup | .timers => true

def closed (w : Reactor) (id : Nat) : Bool :=
  (w.server.conns id).state == .kDisconnected

/-- `handle_accept`, `accept` having returned `fd`. -/
def handleAccept (w : Reactor) (fd : Nat) : Reactor :=
  { w with
    server := w.server.handleAccept fd
    alive := w.server.accepted :: w.alive
    stack := .accept w.server.accepted :: w.stack }

/-- `close()` of a connection that is not closed. -/
def closeConnection (w : Reactor) (id : Nat) : Reactor :=
  { w with
    server := w.server.close id
    added := w.added.filter fun i => i ≠ id
    stack := .close id :: w.stack }

def act (w : Reactor) : Label → Option Reactor
  | .poll events =>
      if w.phase = .wait ∧ w.stack = [] ∧ events.Nodup ∧
        events.all w.registered then
        some { w with phase := .dispatch events }
      else none
  | .handleEvent =>
      match w.phase, w.stack with
      | .dispatch (s :: rest), [] =>
          if w.standing s then
            some { w with
              phase := .dispatch rest, stack := [.handleEvent s] }
          else none
      | _, _ => none
  | .swap =>
      match w.phase, w.stack with
      | .dispatch [], [] =>
          some { w with
            phase := .functors w.pendingFunctors.length
            functors := w.pendingFunctors
            pendingFunctors := [] }
      | _, _ => none
  | .runFunctor =>
      match w.phase, w.stack with
      | .functors (left + 1), [] =>
          some { w with phase := .functors left, stack := [.functor] }
      | _, _ => none
  | .endRound =>
      match w.phase, w.stack with
      | .functors 0, [] => some { w with phase := .wait, functors := [] }
      | _, _ => none
  | .ret =>
      match w.stack with
      | [] | .accept _ :: _ => none
      | _ :: frames => some { w with stack := frames }
  | .accept fd =>
      match w.stack with
      | [.handleEvent .acceptor] =>
          if w.server.fdFree fd then some (w.handleAccept fd) else none
      | _ => none
  | .start reopened =>
      match w.stack with
      | .accept id :: frames =>
          if !w.closed id || reopened then
            some { w with added := id :: w.added, stack := frames }
          else some { w with stack := frames }
      | _ => none
  | .close id =>
      if w.stack ≠ [] ∧ id ∈ w.alive then
        if w.closed id then some w else some (w.closeConnection id)
      else none
  | .hold id =>
      if id ∈ w.alive then some { w with held := id :: w.held } else none
  | .drop id =>
      if id ∈ w.held then some { w with held := w.held.erase id } else none
  | .queueInLoop f =>
      if ∀ id ∈ f, id ∈ w.alive then
        some { w with pendingFunctors := w.pendingFunctors ++ [f] }
      else none

def step (w : Reactor) (l : Label) : Option Reactor := (w.act l).map reap

end Reactor

end GameFrame
