import GameFrame.Net.TimerQueue

/-!
# `TimerQueue`, from other threads

`run_at` and `cancel` may be called on any thread, and both go through
`run_in_loop`. On the loop thread that is a call, on any other the task is put
behind the functors that are queued already. `run_at` takes its id before
that, so it is two steps from another thread, and what other threads take and
queue in between is up to them.

Tasks are run in the order they were queued, with the loop thread outside of
`handle_read`. What is said of a `cancel` here is about those that are called
when `run_at` has returned the id and its callback has not been called
(`due`), and, on the loop thread, outside of a timer's callback.
-/

namespace GameFrame

inductive TimerTask where
  | add (e : Entry)
  | cancel (id : Nat) (due : Bool)
  deriving DecidableEq, Repr

/-- The timer a task is going to add. -/
def TimerTask.adds : TimerTask → Option Nat
  | .add e => some e.id
  | .cancel _ _ => none

structure TimerThreads where
  queue : TimerQueue := {}
  /-- calls of `run_at` by other threads, between the two steps -/
  allocated : List Entry := []
  pending : List TimerTask := []
  /-- the timers whose `cancel` has been executed, and those of them whose
  callback had been called by then -/
  settled : List Nat := []
  late : List Nat := []

namespace TimerThreads

/-- `run_at` has returned this id. -/
def returned (w : TimerThreads) (id : Nat) : Bool :=
  w.queue.issued id && w.allocated.all fun e => e.id != id

/-- It has, and the callback has not been called. -/
def due (w : TimerThreads) (id : Nat) : Bool :=
  w.returned id && !w.queue.started.contains id

/-- A `cancel` of this timer has been executed. -/
def settle (w : TimerThreads) (id : Nat) : TimerThreads :=
  { w with
    settled := id :: w.settled
    late := if w.queue.started.contains id then id :: w.late else w.late }

inductive Label where
  /-- the loop thread, by itself -/
  | own (l : TimerQueue.Label)
  /-- another thread, in `run_at` -/
  | allocate (expiration : Int) (cb : Bool)
  | queueAdd (e : Entry)
  /-- another thread, in `cancel` -/
  | cancel (id : Nat)
  /-- the loop thread runs the first task -/
  | runTask
  deriving DecidableEq, Repr

/-- What the loop thread does counts as a `cancel`. -/
def settles (w : TimerThreads) : TimerQueue.Label → Option Nat
  | .cancel id => if w.queue.pc = .idle ∧ w.due id = true then some id else none
  | _ => none

def own (w : TimerThreads) (l : TimerQueue.Label) : Option TimerThreads :=
  (w.queue.step l).map fun q =>
    match w.settles l with
    | none => { w with queue := q }
    | some id => { w with queue := q }.settle id

def runTask (w : TimerThreads) : TimerTask → TimerThreads
  | .add e => { w with queue := w.queue.addTimerInLoop e }
  | .cancel id due =>
      let w := { w with queue := w.queue.cancelInLoop id }
      if due then w.settle id else w

def step (w : TimerThreads) : Label → Option TimerThreads
  | .own l => w.own l
  | .allocate expiration cb =>
      some
        { w with
          queue := { w.queue with nextId := w.queue.nextId + 1 }
          allocated := ⟨expiration, w.queue.nextId, cb⟩ :: w.allocated }
  | .queueAdd e =>
      if e ∈ w.allocated then
        some
          { w with
            allocated := w.allocated.erase e
            pending := w.pending ++ [.add e] }
      else none
  | .cancel id =>
      some { w with pending := w.pending ++ [.cancel id (w.due id)] }
  | .runTask =>
      match w.queue.pc, w.pending with
      | .idle, t :: ts => some ({ w with pending := ts }.runTask t)
      | _, _ => none

end TimerThreads

end GameFrame
