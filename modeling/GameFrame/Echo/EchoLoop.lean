import GameFrame.Net.TimerCalls

/-!
# The echo server, and connections that are idle

`src/main.cpp`, on one of the loops of its thread pool. Every connection has an
`IdleCtx` with the id of a timer. The timer is set when the connection is
announced, set anew when data comes, and cancelled when the connection is
reported closed. Its callback closes the connection if that is still connected.

The loop thread takes the events of a batch first and runs the functors it was
sent behind them. `epoll_wait` reports the descriptors of connections that are
not closed. When one is closed in a batch there may still be something of it to
come in the same batch, its message callback with what had been read before,
for instance. The functors are those of the main loop: that a connection is
there, and, some time after it was closed, that it has been taken off.

Of the messages only their coming is kept, and whether sending the echo fails,
which closes the connection. A timer callback does not use the timers, so it is
one step.
-/

namespace GameFrame

/-- `kIdleTimeoutMs`. -/
def kIdleTimeoutMs : Int := 10000

/-- A connection of the loop, with its `IdleCtx`. -/
structure EchoConn where
  /-- what the connection callback has been told of it -/
  announced : Bool := false
  gone : Bool := false
  connected : Bool := false
  timerId : Nat := 0
  /-- what the clock said when it was announced, or in the `arm_idle_timer` that
  its last data led to; when the data came is not seen -/
  last : Int := 0
  deriving DecidableEq, Repr

/-- The warning `idle kick`, and when the timer had last been armed. -/
structure Kick where
  conn : Nat
  now : Int
  last : Int
  deriving DecidableEq, Repr

structure EchoLoop where
  calls : TimerCalls Nat
  conns : Nat → EchoConn := fun _ => {}
  /-- the events of the batch are done -/
  functors : Bool := true
  /-- the connections that were closed in this batch -/
  late : List Nat := []
  kicks : List Kick := []

namespace EchoLoop

def new (t : Uptime) : EchoLoop := { calls := .new t }

def setConn (s : EchoLoop) (k : Nat) (c : EchoConn) : EchoLoop :=
  { s with conns := fun i => if i = k then c else s.conns i }

/-- `close()`. The close callback leaves the rest to the main loop. -/
def close (s : EchoLoop) (k : Nat) : EchoLoop :=
  if (s.conns k).connected then
    { s.setConn k { s.conns k with connected := false } with
      late := k :: s.late }
  else s

/-- `arm_idle_timer(conn)`. -/
def armIdleTimer (s : EchoLoop) (k : Nat) : EchoLoop :=
  let ctx := s.conns k
  let calls := if ctx.timerId ≠ 0 then s.calls.cancel ctx.timerId else s.calls
  { s.setConn k { ctx with timerId := calls.queue.nextId } with
    calls := calls.runAfter kIdleTimeoutMs k }

/-- What the timer calls. -/
def idleTimeout (s : EchoLoop) (k : Nat) : EchoLoop :=
  if (s.conns k).connected then
    { s with
      kicks := ⟨k, s.calls.queue.now, (s.conns k).last⟩ :: s.kicks }.close k
  else s

/-- The connection callback. -/
def connectionCallback (s : EchoLoop) (k : Nat) : EchoLoop :=
  if (s.conns k).connected then
    (s.setConn k { s.conns k with timerId := 0 }).armIdleTimer k
  else if (s.conns k).timerId ≠ 0 then
    { s.setConn k { s.conns k with timerId := 0 } with
      calls := s.calls.cancel (s.conns k).timerId }
  else s

/-- The message callback; `fails` is what becomes of the `send`. The clock may
have gone on since the data came: the ten seconds count from `arm_idle_timer`,
which is the last thing it does. -/
def messageCallback (s : EchoLoop) (k : Nat) (fails : Bool) : EchoLoop :=
  (if fails then s.close k else s).armIdleTimer k

inductive Label where
  | turn (l : TimerCalls.Turn)
  /-- the callback of the next timer of the batch -/
  | fire
  /-- `epoll_wait` returns, and its events are done -/
  | wait
  | dispatched
  | established (k : Nat)
  | message (k : Nat) (fails : Bool)
  | close (k : Nat)
  | destroyed (k : Nat)
  deriving DecidableEq, Repr

/-- The loop thread is not in the callback of the timerfd. -/
def free (s : EchoLoop) : Bool := s.calls.queue.pc == .idle

def setCalls (s : EchoLoop) (calls : TimerCalls Nat) : EchoLoop :=
  { s with calls := calls }

def step (s : EchoLoop) : Label → Option EchoLoop
  | .turn l =>
      if l = .return || l = .read && s.functors then none
      else (s.calls.turn l).map s.setCalls
  | .fire => do
      let (k, calls) ← s.calls.call
      let s := (s.setCalls calls).idleTimeout k
      (s.calls.turn .return).map s.setCalls
  | .wait =>
      if s.free && s.functors then some { s with functors := false } else none
  | .dispatched =>
      if s.free && !s.functors then
        some { s with functors := true, late := [] }
      else none
  | .established k =>
      if s.free && s.functors && !(s.conns k).announced then
        some ((s.setConn k { s.conns k with
          announced := true
          connected := true
          last := s.calls.queue.now }).connectionCallback k)
      else none
  | .message k fails =>
      if s.free && !s.functors &&
          ((s.conns k).connected || s.late.contains k) then
        some ((s.setConn k { s.conns k with
          last := s.calls.queue.now }).messageCallback k fails)
      else none
  | .close k =>
      if s.free && !s.functors && (s.conns k).connected then
        some (s.close k)
      else none
  | .destroyed k =>
      if s.free && s.functors && (s.conns k).announced &&
          !(s.conns k).connected && !(s.conns k).gone then
        some
          ((s.setConn k { s.conns k with gone := true }).connectionCallback k)
      else none

/-! ## What a step can do -/

inductive Stepped (s : EchoLoop) : Label → EchoLoop → Prop where
  | turn (l : TimerCalls.Turn) (calls : TimerCalls Nat) :
      s.calls.turn l = some calls → l ≠ .return →
      (l = .read → s.functors = false) →
      Stepped s (.turn l) (s.setCalls calls)
  | fire (k : Nat) (calls calls' : TimerCalls Nat) :
      s.calls.call = some (k, calls) →
      ((s.setCalls calls).idleTimeout k).calls.turn .return = some calls' →
      Stepped s .fire (((s.setCalls calls).idleTimeout k).setCalls calls')
  | wait : s.calls.queue.pc = .idle → s.functors = true →
      Stepped s .wait { s with functors := false }
  | dispatched : s.calls.queue.pc = .idle → s.functors = false →
      Stepped s .dispatched { s with functors := true, late := [] }
  | established (k : Nat) : s.calls.queue.pc = .idle → s.functors = true →
      (s.conns k).announced = false →
      Stepped s (.established k) ((s.setConn k { s.conns k with
        announced := true
        connected := true
        last := s.calls.queue.now }).connectionCallback k)
  | message (k : Nat) (fails : Bool) : s.calls.queue.pc = .idle →
      s.functors = false → (s.conns k).connected = true ∨ k ∈ s.late →
      Stepped s (.message k fails) ((s.setConn k { s.conns k with
        last := s.calls.queue.now }).messageCallback k fails)
  | close (k : Nat) : s.calls.queue.pc = .idle → s.functors = false →
      (s.conns k).connected = true → Stepped s (.close k) (s.close k)
  | destroyed (k : Nat) : s.calls.queue.pc = .idle → s.functors = true →
      (s.conns k).announced = true → (s.conns k).connected = false →
      (s.conns k).gone = false →
      Stepped s (.destroyed k)
        ((s.setConn k { s.conns k with gone := true }).connectionCallback k)

theorem step_stepped {s s' : EchoLoop} {l : Label} (h : s.step l = some s') :
    Stepped s l s' := by
  cases l with
  | turn l =>
      rw [step] at h
      split at h
      · cases h
      · next hok =>
          simp only [Bool.or_eq_true, Bool.and_eq_true, decide_eq_true_eq,
            not_or, not_and, Bool.not_eq_true] at hok
          obtain ⟨calls, hcalls, rfl⟩ := Option.map_eq_some_iff.mp h
          exact .turn l calls hcalls hok.1 hok.2
  | fire =>
      obtain ⟨⟨k, calls⟩, hcall, h⟩ := Option.bind_eq_some_iff.mp h
      obtain ⟨calls', hturn, rfl⟩ := Option.map_eq_some_iff.mp h
      exact .fire k calls calls' hcall hturn
  | wait =>
      rw [step] at h
      split at h
      · next hok =>
          cases h
          simp only [free, Bool.and_eq_true, beq_iff_eq] at hok
          exact .wait hok.1 hok.2
      · cases h
  | dispatched =>
      rw [step] at h
      split at h
      · next hok =>
          cases h
          simp only [free, Bool.and_eq_true, beq_iff_eq,
            Bool.not_eq_true'] at hok
          exact .dispatched hok.1 hok.2
      · cases h
  | established k =>
      rw [step] at h
      split at h
      · next hok =>
          cases h
          simp only [free, Bool.and_eq_true, beq_iff_eq,
            Bool.not_eq_true'] at hok
          exact .established k hok.1.1 hok.1.2 hok.2
      · cases h
  | message k fails =>
      rw [step] at h
      split at h
      · next hok =>
          cases h
          simp only [free, Bool.and_eq_true, beq_iff_eq, Bool.not_eq_true',
            Bool.or_eq_true, List.contains_eq_mem, decide_eq_true_eq] at hok
          exact .message k fails hok.1.1 hok.1.2 hok.2
      · cases h
  | close k =>
      rw [step] at h
      split at h
      · next hok =>
          cases h
          simp only [free, Bool.and_eq_true, beq_iff_eq,
            Bool.not_eq_true'] at hok
          exact .close k hok.1.1 hok.1.2 hok.2
      · cases h
  | destroyed k =>
      rw [step] at h
      split at h
      · next hok =>
          cases h
          simp only [free, Bool.and_eq_true, beq_iff_eq,
            Bool.not_eq_true'] at hok
          obtain ⟨⟨⟨⟨hidle, hfunctors⟩, hann⟩, hconn⟩, hgone⟩ := hok
          exact .destroyed k hidle hfunctors hann hconn hgone
      · cases h

end EchoLoop

end GameFrame
