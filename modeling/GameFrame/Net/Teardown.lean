import GameFrame.Net.EventLoop
import GameFrame.Net.TcpServer

/-!
# `~TcpServer`

`src/server.cpp`, with the destructors of `EventLoopThreadPool` and
`EventLoopThread`. The destructor runs on the thread of the main loop, which
is not in `loop()` any more, while the sub-loops go on. It has every connection
of the table closed on its own loop, tells the sub-loops to quit, one after the
other, waits for each, and then clears the table.

A sub-loop is an `EventLoop` here, from its beginning, and what is queued on it
is a close that the destructor asks for or something else. With no sub-loops
the close is on the spot. It takes the connection off the table the destructor
is walking through, and there the walk ends: the iterator has nothing to stand
on.

The table is an `unordered_map`, which is walked in some order.
-/

namespace GameFrame

inductive TeardownFunctor where
  /-- of the destructor: `c->close()` -/
  | close (id : Nat)
  | other
  deriving DecidableEq, Repr

/-- Where the destructor is. -/
inductive TeardownPc where
  | before
  /-- at the head of the range-for, with these still to come -/
  | iterate (todo : List Nat)
  /-- in `queue_in_loop` of loop `l`, behind its `i`-th enqueue -/
  | posting (l i : Nat) (todo : List Nat)
  /-- at the `++` of an iterator whose element has been erased -/
  | dangling
  /-- at `~EventLoopThread` of loop `l`, behind the store of its `quit()`, and
  at the `join` -/
  | quit (l : Nat)
  | quitting (l : Nat)
  | join (l : Nat)
  | done
  deriving DecidableEq, Repr

/-- The range-for has begun and has not ended. -/
def TeardownPc.iterates : TeardownPc → Bool
  | .iterate _ | .posting _ _ _ | .dangling => true
  | .before | .quit _ | .quitting _ | .join _ | .done => false

structure Teardown where
  server : TcpServer
  loops : Nat → EventLoop TeardownFunctor := fun _ => {}
  pc : TeardownPc := .before
  /-- the table at the beginning, and the order it is walked in -/
  first : Nat → Option Nat := fun _ => none
  order : List Nat := []
  /-- the calls of `close()` that the destructor asked for -/
  closeCalls : List Nat := []

namespace Teardown

def setLoop (w : Teardown) (l : Nat) (q : EventLoop TeardownFunctor) :
    Teardown :=
  { w with loops := fun i => if i = l then q else w.loops i }

/-- The connections in the table. -/
def tableIds (s : TcpServer) : List Nat :=
  (List.range s.accepted).filter fun id =>
    s.connections (s.conns id).fd == some id

/-- A functor that a sub-loop is about to run. -/
def runFunctor (w : Teardown) : TeardownFunctor → Teardown
  | .close id =>
      { w with
        server := w.server.close id, closeCalls := w.closeCalls ++ [id] }
  | .other => w

/-- The functor that a step of `loop()` runs, if it runs one. -/
def running (q : EventLoop TeardownFunctor) : EventLoop.LoopStep →
    Option TeardownFunctor
  | .runNext => q.swapped.head?
  | .enter | .test | .poll _ | .pollFull | .interrupted | .handleWakeup
  | .swap | .endRound => none

inductive Label where
  /-- sub-loop `l` takes a step -/
  | loop (l : Nat) (s : EventLoop.LoopStep)
  /-- somebody else queues a functor on it, and returns -/
  | pushBack (l : Nat) (own : Bool)
  | pushReturn (l i : Nat)
  /-- a connection is closed on its loop, for a reason of its own -/
  | closeOwn (id : Nat)
  /-- the destructor begins -/
  | start (order : List Nat)
  /-- a turn of the range-for, its return from `queue_in_loop`, and its end -/
  | next
  | posted
  | endFor
  | quit
  | quitReturn
  | join
  deriving DecidableEq, Repr

/-- The sub-loops of the pool. -/
def isSub (w : Teardown) (l : Nat) : Bool := 0 < l && l ≤ w.server.numThreads

/-- `connections_.clear()`. -/
def finish (w : Teardown) : Teardown :=
  { w with
    pc := .done
    server := { w.server with connections := fun _ => none } }

def step (w : Teardown) : Label → Option Teardown
  | .loop l s =>
      if w.isSub l then
        ((w.loops l).step (.loop s)).map fun q =>
          match running (w.loops l) s with
          | none => w.setLoop l q
          | some f => (w.setLoop l q).runFunctor f
      else none
  | .pushBack l own =>
      if w.isSub l then
        ((w.loops l).step (.pushBack .other own)).map (w.setLoop l)
      else none
  | .pushReturn l i =>
      match w.pc with
      | .posting l' i' _ =>
          if l = l' ∧ i = i' then none
          else ((w.loops l).step (.pushReturn i)).map (w.setLoop l)
      | _ => ((w.loops l).step (.pushReturn i)).map (w.setLoop l)
  | .closeOwn id =>
      if w.isSub (w.server.conns id).loop then
        some { w with server := w.server.close id }
      else none
  | .start order =>
      match w.pc with
      | .before =>
          if order.Perm (tableIds w.server) then
            some { w with
              pc := .iterate order
              first := w.server.connections
              order := order }
          else none
      | _ => none
  | .next =>
      match w.pc with
      | .iterate (id :: todo) =>
          let l := (w.server.conns id).loop
          if l = 0 then
            let closed := (w.server.conns id).state == .kDisconnected
            some { w.runFunctor (.close id) with
              pc := if closed then .iterate todo else .dangling }
          else
            ((w.loops l).step (.pushBack (.close id) false)).map fun q =>
              { w.setLoop l q with
                pc := .posting l (w.loops l).enqueued.length todo }
      | _ => none
  | .posted =>
      match w.pc with
      | .posting l i todo =>
          ((w.loops l).step (.pushReturn i)).map fun q =>
            { w.setLoop l q with pc := .iterate todo }
      | _ => none
  | .endFor =>
      match w.pc with
      | .iterate [] =>
          if w.server.numThreads = 0 then some w.finish
          else some { w with pc := .quit 1 }
      | _ => none
  | .quit =>
      match w.pc with
      | .quit l =>
          ((w.loops l).step (.quit false)).map fun q =>
            { w.setLoop l q with pc := .quitting l }
      | _ => none
  | .quitReturn =>
      match w.pc with
      | .quitting l =>
          ((w.loops l).step .quitReturn).map fun q =>
            { w.setLoop l q with pc := .join l }
      | _ => none
  | .join =>
      match w.pc with
      | .join l =>
          match (w.loops l).pc with
          | .done =>
              if l < w.server.numThreads then
                some { w with pc := .quit (l + 1) }
              else some w.finish
          | _ => none
      | _ => none

end Teardown

end GameFrame
