import GameFrame.LogSender.LogSender

/-!
# The rounds of the sender's loop

`EventLoop::loop` and `do_pending_functors` of `src/event_loop.cpp`, around a
`LogSender`. A round waits in `epoll_wait`, hands out the events of the batch,
and then runs the functors that were queued by the time it swaps them out;
those queued while it runs them are for the next round, and so are behind the
ones it still has to run. A timer fires inside of an event, that of the
`timerfd`, and the elapsed times are what they are.

Producers are not part of the round and go on during all of it.
-/

namespace GameFrame

/-- Where the loop thread is in its round. -/
inductive SenderPhase where
  /-- in `epoll_wait` -/
  | waiting
  | dispatching
  /-- in `do_pending_functors`, with that many functors still to run -/
  | running (left : Nat)
  deriving DecidableEq, Repr

/-- The phase behind a step of the sender, if it can be taken there. -/
def SenderPhase.after {ι : Type _} (ph : SenderPhase) :
    LogSender.Label ι → Option SenderPhase
  | .functor _ =>
      match ph with
      | .running (left + 1) => some (.running left)
      | _ => none
  | .timer _ _ | .handshake _ | .event _ _ _ =>
      if ph = .dispatching then some ph else none
  | _ => some ph

structure SenderLoop (ι : Type _) where
  sender : LogSender ι
  phase : SenderPhase := .waiting

namespace SenderLoop

variable {ι : Type _}

def new (opts : Options) : SenderLoop ι := { sender := .new opts }

inductive Label (ι : Type _) where
  /-- `epoll_wait` returns -/
  | poll
  /-- the swap in `do_pending_functors` -/
  | swap
  | endRound
  | sender (l : LogSender.Label ι)
  deriving Repr

/-- The loop thread is done with what it was doing, and there still is one. -/
def idle (s : SenderLoop ι) : Bool :=
  s.sender.loopPc = .idle && s.sender.fault.isNone

def step [DecidableEq ι] (s : SenderLoop ι) : Label ι → Option (SenderLoop ι)
  | .poll =>
      if s.phase = .waiting && s.idle then some { s with phase := .dispatching }
      else none
  | .swap =>
      if s.phase = .dispatching && s.idle then
        some { s with phase := .running s.sender.pending.length }
      else none
  | .endRound =>
      if s.phase = .running 0 && s.idle then some { s with phase := .waiting }
      else none
  | .sender l =>
      match s.phase.after l with
      | none => none
      | some ph =>
          (s.sender.step l).map fun w => { sender := w, phase := ph }

end SenderLoop

end GameFrame
