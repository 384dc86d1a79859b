import GameFrame.Lib.Run

/-!
# `EventLoop`, its queue of functors and its way out

`src/event_loop.h`, `src/event_loop.cpp`: one thread runs `loop()`, which tests
`quit_`, waits in `epoll_wait`, hands the batch to its channels and runs the
functors other threads have queued, which it swaps out of the queue under the
lock and runs without it. Everybody else may call `queue_in_loop` and `quit`
at any time, and so may the loop thread itself from a callback or a functor.
`run_in_loop` is `queue_in_loop` from another thread; on the loop thread it
calls the functor on the spot and the queue is not involved.

A step is what happens between two places where another thread can get in.
`queue_in_loop` is two of them, the `push_back` under the lock and the return,
before which the eventfd is written if it has to be. Its read callback runs
like any other during dispatch. The eventfd is registered edge-triggered: a
write puts it on the ready list, and `epoll_wait` takes it off and reports it
if its counter is still not zero, unless the batch is full before it comes to
it. What other descriptors report only matters in that it lets `epoll_wait`
return, and `errno` only when it is `EINTR`; on any other error the process
ends.

Functors are named by an arbitrary type, and running one is a step that
records it. What it does while it runs are further steps, of the loop thread
as much as of the others.
-/

namespace GameFrame

/-- Where the loop thread is. -/
inductive LoopPc (φ : Type _) where
  /-- `loop()` has not been called yet -/
  | idle
  | test
  | wait
  /-- handling a batch, the eventfd's event still being in it or not -/
  | dispatch (woken : Bool)
  /-- in `do_pending_functors`, behind the swap -/
  | running (rest : List φ)
  | done
  deriving DecidableEq, Repr

structure EventLoop (φ : Type _) where
  quit : Bool := false
  pendingFunctors : List φ := []
  callingPendingFunctors : Bool := false
  /-- the eventfd's counter, and whether it is on the ready list -/
  counter : Nat := 0
  edge : Bool := false
  pc : LoopPc φ := .idle
  /-- enqueues whose caller has not returned yet, by their place in the order
  of all of them, and the loop thread's own among them -/
  inside : List Nat := []
  ownPush : Option Nat := none
  quitWake : Bool := false
  /-- what happened: enqueues, executions, and the enqueues that had returned
  when `quit()` was called -/
  enqueued : List φ := []
  executed : List φ := []
  beforeQuit : List Nat := []

namespace EventLoop

variable {φ : Type _}

inductive LoopStep where
  | enter
  | test
  | poll (others : Bool)
  /-- a full batch of others, which leaves the eventfd on the ready list -/
  | pollFull
  | interrupted
  | handleWakeup
  | swap
  | runNext
  | endRound
  deriving DecidableEq, Repr

/-- A step of the loop thread through `loop()`, or of whoever calls
`queue_in_loop` or `quit`; `own` is `in_loop_thread()` there. -/
inductive Label (φ : Type _) where
  | loop (s : LoopStep)
  | pushBack (f : φ) (own : Bool)
  | pushReturn (i : Nat)
  | quit (own : Bool)
  | quitReturn
  deriving Repr

/-- The places where the loop thread runs code that is not its own. -/
def callsOut : LoopPc φ → Bool
  | .idle | .dispatch _ | .running _ | .done => true
  | .test | .wait => false

def wakeup (w : EventLoop φ) : EventLoop φ :=
  { w with counter := w.counter + 1, edge := true }

def handleWakeup (w : EventLoop φ) : EventLoop φ := { w with counter := 0 }

/-- `loop()` and `do_pending_functors()`. -/
def loopStep (w : EventLoop φ) : LoopStep → Option (EventLoop φ)
  | .enter =>
      match w.pc with
      | .idle => some { w with pc := .test }
      | _ => none
  | .test =>
      match w.pc with
      | .test => some { w with pc := if w.quit then .done else .wait }
      | _ => none
  | .poll others =>
      match w.pc with
      | .wait =>
          let woken := w.edge && w.counter != 0
          if woken || others then
            some { w with pc := .dispatch woken, edge := false }
          else none
      | _ => none
  | .pollFull =>
      match w.pc with
      | .wait => some { w with pc := .dispatch false }
      | _ => none
  | .interrupted =>
      match w.pc with
      | .wait => some { w with pc := .test }
      | _ => none
  | .handleWakeup =>
      match w.pc with
      | .dispatch true => some { w.handleWakeup with pc := .dispatch false }
      | _ => none
  | .swap =>
      match w.pc with
      | .dispatch false =>
          some
            { w with
              callingPendingFunctors := true
              pc := .running w.pendingFunctors
              pendingFunctors := [] }
      | _ => none
  | .runNext =>
      match w.pc with
      | .running (f :: rest) =>
          some { w with pc := .running rest, executed := w.executed ++ [f] }
      | _ => none
  | .endRound =>
      match w.pc with
      | .running [] =>
          some { w with callingPendingFunctors := false, pc := .test }
      | _ => none

/-- The critical section of `queue_in_loop`. -/
def pushBack (w : EventLoop φ) (f : φ) (own : Bool) : EventLoop φ :=
  { w with
    pendingFunctors := w.pendingFunctors ++ [f]
    inside := w.enqueued.length :: w.inside
    ownPush := if own then some w.enqueued.length else w.ownPush
    enqueued := w.enqueued ++ [f] }

/-- The rest of `queue_in_loop`: a wake-up, unless the loop thread itself
queued the functor and is not running functors. -/
def pushReturn (w : EventLoop φ) (i : Nat) : EventLoop φ :=
  let own := w.ownPush == some i
  let wakes := !own || w.callingPendingFunctors
  { w with
    inside := w.inside.erase i
    ownPush := if own then none else w.ownPush
    counter := if wakes then w.wakeup.counter else w.counter
    edge := if wakes then w.wakeup.edge else w.edge }

/-- The enqueues that have returned. -/
def returned (w : EventLoop φ) : List Nat :=
  (List.range w.enqueued.length).filter fun i => !w.inside.contains i

/-- The store in `quit()`. -/
def storeQuit (w : EventLoop φ) (own : Bool) : EventLoop φ :=
  { w with quit := true, quitWake := !own, beforeQuit := w.returned }

/-- The loop thread is not inside `queue_in_loop`, and where it can call. -/
def free (w : EventLoop φ) (own : Bool) : Bool :=
  !own || (callsOut w.pc && w.ownPush.isNone)

/-- One step of the program. `quit()` is called once. -/
def step (w : EventLoop φ) : Label φ → Option (EventLoop φ)
  | .loop s => if w.ownPush.isNone then w.loopStep s else none
  | .pushBack f own => if w.free own then some (w.pushBack f own) else none
  | .pushReturn i =>
      if w.inside.contains i then some (w.pushReturn i) else none
  | .quit own =>
      if w.free own && !w.quit then some (w.storeQuit own) else none
  | .quitReturn =>
      if w.quitWake then some { w.wakeup with quitWake := false } else none

/-- What was swapped out and has not been run. -/
def swapped (w : EventLoop φ) : List φ :=
  match w.pc with
  | .running rest => rest
  | _ => []

/-- The loop thread is past its test of `quit_` and has the swap before it. -/
def beforeSwap : LoopPc φ → Bool
  | .wait | .dispatch _ => true
  | _ => false

/-- None of these enqueues is still in the queue: they are all in front of
what is. -/
def Collected (w : EventLoop φ) (is : List Nat) : Prop :=
  ∀ i ∈ is, i + w.pendingFunctors.length < w.enqueued.length

/-! ## What a step can do

The program as a relation, with a case for everything that can happen and the
state behind it written out. -/

inductive Stepped (w : EventLoop φ) : Label φ → EventLoop φ → Prop where
  | enter : w.pc = .idle → Stepped w (.loop .enter) { w with pc := .test }
  | stop : w.pc = .test → w.quit = true →
      Stepped w (.loop .test) { w with pc := .done }
  | goOn : w.pc = .test → w.quit = false →
      Stepped w (.loop .test) { w with pc := .wait }
  | poll (others : Bool) : w.pc = .wait →
      (w.edge && w.counter != 0) = true ∨ others = true →
      Stepped w (.loop (.poll others))
        { w with pc := .dispatch (w.edge && w.counter != 0), edge := false }
  | pollFull : w.pc = .wait →
      Stepped w (.loop .pollFull) { w with pc := .dispatch false }
  | interrupted : w.pc = .wait →
      Stepped w (.loop .interrupted) { w with pc := .test }
  | handleWakeup : w.pc = .dispatch true →
      Stepped w (.loop .handleWakeup)
        { w with counter := 0, pc := .dispatch false }
  | swap : w.pc = .dispatch false →
      Stepped w (.loop .swap)
        { w with
          callingPendingFunctors := true
          pc := .running w.pendingFunctors
          pendingFunctors := [] }
  | runNext (f : φ) (rest : List φ) : w.pc = .running (f :: rest) →
      Stepped w (.loop .runNext)
        { w with pc := .running rest, executed := w.executed ++ [f] }
  | endRound : w.pc = .running [] →
      Stepped w (.loop .endRound)
        { w with callingPendingFunctors := false, pc := .test }
  | pushBack (f : φ) (own : Bool) : w.free own = true →
      Stepped w (.pushBack f own) (w.pushBack f own)
  | pushReturn (i : Nat) : i ∈ w.inside →
      Stepped w (.pushReturn i) (w.pushReturn i)
  | quit (own : Bool) : w.free own = true → w.quit = false →
      Stepped w (.quit own) (w.storeQuit own)
  | quitReturn : w.quitWake = true →
      Stepped w .quitReturn { w.wakeup with quitWake := false }

theorem loopStep_stepped {w w' : EventLoop φ} {s : LoopStep}
    (h : w.loopStep s = some w') : Stepped w (.loop s) w' := by
  cases s with
  | enter =>
      rw [loopStep] at h
      split at h
      · next hpc =>
          cases h
          exact .enter hpc
      · cases h
  | test =>
      rw [loopStep] at h
      split at h
      · next hpc =>
          cases h
          by_cases hquit : w.quit = true
          · rw [if_pos hquit]
            exact .stop hpc hquit
          · rw [if_neg hquit]
            exact .goOn hpc (Bool.not_eq_true _ ▸ hquit)
      · cases h
  | poll others =>
      simp only [loopStep] at h
      split at h
      · next hpc =>
          split at h
          · next hready =>
              cases h
              exact .poll others hpc ((Bool.or_eq_true _ _).mp hready)
          · cases h
      · cases h
  | pollFull =>
      rw [loopStep] at h
      split at h
      · next hpc =>
          cases h
          exact .pollFull hpc
      · cases h
  | interrupted =>
      rw [loopStep] at h
      split at h
      · next hpc =>
          cases h
          exact .interrupted hpc
      · cases h
  | handleWakeup =>
      rw [loopStep] at h
      split at h
      · next hpc =>
          cases h
          exact .handleWakeup hpc
      · cases h
  | swap =>
      rw [loopStep] at h
      split at h
      · next hpc =>
          cases h
          exact .swap hpc
      · cases h
  | runNext =>
      rw [loopStep] at h
      split at h
      · next hpc =>
          cases h
          exact .runNext _ _ hpc
      · cases h
  | endRound =>
      rw [loopStep] at h
      split at h
      · next hpc =>
          cases h
          exact .endRound hpc
      · cases h

/-- `loop()` goes on only when the loop thread is back from `queue_in_loop`. -/
theorem ownPush_of_loop {w w' : EventLoop φ} {s : LoopStep}
    (h : step w (.loop s) = some w') : w.ownPush = none := by
  rw [step] at h
  split at h
  · next hown => exact Option.isNone_iff_eq_none.mp hown
  · cases h

theorem step_stepped {w w' : EventLoop φ} {l : Label φ}
    (h : step w l = some w') : Stepped w l w' := by
  cases l with
  | loop s =>
      rw [step] at h
      split at h
      · exact loopStep_stepped h
      · cases h
  | pushBack f own =>
      rw [step] at h
      split at h
      · next hfree => cases h; exact .pushBack f own hfree
      · cases h
  | pushReturn i =>
      rw [step] at h
      split at h
      · next hi => cases h; exact .pushReturn i (List.contains_iff_mem.mp hi)
      · cases h
  | quit own =>
      rw [step] at h
      split at h
      · next hcan =>
          obtain ⟨hfree, hquit⟩ := (Bool.and_eq_true _ _).mp hcan
          cases h
          exact .quit own hfree (by simpa using hquit)
      · cases h
  | quitReturn =>
      rw [step] at h
      split at h
      · next hwake => cases h; exact .quitReturn hwake
      · cases h

end EventLoop

end GameFrame
