import GameFrame.Net.LoopSignals

/-!
# `EventLoopThread`, a thread with a loop on it

`src/event_loop_thread.h`, `src/event_loop_thread.cpp`. One thread, the owner,
calls `start_loop()` at most once, which starts the other, waits until that one
has constructed its `EventLoop`, and returns a pointer to it. Later the owner
destroys the object. In between everybody who has the pointer may call the
loop, and may end it.

`loop_` is the pointer and says at the same time that the thread runs. The
thread sets it and clears it under the mutex. The destructor reads it without
the mutex, once to test it and once more for the call, so each of the two is a
step. What a read that races with a write means beyond that is left open. Its
`quit()` is two steps, the store and, for the write of the eventfd, the reading
of two members of the loop. A step that uses a loop that is not there is the
last of the owner.

A `std::thread` that is still joinable when it is destroyed ends the process.
-/

namespace GameFrame

inductive OwnerPc where
  | fresh
  /-- in `start_loop`, waiting for `loop_` -/
  | starting
  | started
  /-- in the destructor: at the test of `loop_`, at the load for the call, in
  `quit()` at the store and at the write of the eventfd, and at the `join` -/
  | testing
  | loading
  | storing
  | waking
  | joining
  /-- behind the destructor's body -/
  | returned
  /-- `quit()` was called where there is no `EventLoop` -/
  | crashed
  /-- the `EventLoop` was destroyed while the destructor was in its `quit()` -/
  | dangling
  deriving DecidableEq, Repr

inductive ThreadPc where
  | none
  /-- in `thread_func`, at the line that is named -/
  | constructing
  | publishing
  | looping
  | clearing
  | destroying
  | finished
  deriving DecidableEq, Repr

/-- There is an `EventLoop` on the thread. -/
def ThreadPc.alive : ThreadPc → Bool
  | .publishing | .looping | .clearing | .destroying => true
  | .none | .constructing | .finished => false

structure EventLoopThread (φ : Type _) where
  owner : OwnerPc := .fresh
  thread : ThreadPc := .none
  /-- whether `loop_` points to something -/
  loopPtr : Bool := false
  /-- `thread_.joinable()` -/
  joinable : Bool := false
  loop : SignalLoop φ := {}

namespace EventLoopThread

variable {φ : Type _}

inductive OwnerStep where
  | startLoop
  | startReturn
  | destroy
  | test
  | load
  | store
  | wake
  | join
  deriving DecidableEq, Repr

inductive ThreadStep where
  | construct
  | publish
  | loopReturn
  | clear
  | destroy
  deriving DecidableEq, Repr

inductive Label (φ : Type _) where
  | owner (s : OwnerStep)
  | thread (s : ThreadStep)
  /-- a step of the loop, or of whoever calls it -/
  | inner (l : SignalLoop.Label φ)
  deriving Repr

def ownerStep (s : EventLoopThread φ) :
    OwnerStep → Option (EventLoopThread φ)
  | .startLoop =>
      match s.owner with
      | .fresh =>
          some
            { s with
              owner := .starting, thread := .constructing, joinable := true }
      | _ => none
  | .startReturn =>
      match s.owner with
      | .starting => if s.loopPtr then some { s with owner := .started } else none
      | _ => none
  | .destroy =>
      match s.owner with
      | .fresh | .started => some { s with owner := .testing }
      | _ => none
  | .test =>
      match s.owner with
      | .testing =>
          some { s with owner := if s.loopPtr then .loading else .returned }
      | _ => none
  | .load =>
      match s.owner with
      | .loading =>
          some { s with owner := if s.loopPtr then .storing else .crashed }
      | _ => none
  | .store =>
      match s.owner with
      | .storing =>
          if s.thread.alive then
            some { s with owner := .waking, loop := s.loop.storeQuit }
          else some { s with owner := .crashed }
      | _ => none
  | .wake =>
      match s.owner with
      | .waking =>
          -- It reads `owner_tid_` and `wakeup_fd_`, behind the store.
          if s.thread.alive then
            some
              { s with
                owner := .joining
                loop := { s.loop with loop := s.loop.loop.wakeup } }
          else some { s with owner := .dangling }
      | _ => none
  | .join =>
      match s.owner, s.thread with
      | .joining, .finished =>
          some { s with owner := .returned, joinable := false }
      | _, _ => none

def threadStep (s : EventLoopThread φ) :
    ThreadStep → Option (EventLoopThread φ)
  | .construct =>
      match s.thread with
      | .constructing => some { s with thread := .publishing, loop := {} }
      | _ => none
  | .publish =>
      match s.thread with
      | .publishing => some { s with thread := .looping, loopPtr := true }
      | _ => none
  | .loopReturn =>
      match s.thread, s.loop.loop.pc with
      | .looping, .done => some { s with thread := .clearing }
      | _, _ => none
  | .clear =>
      match s.thread with
      | .clearing => some { s with thread := .destroying, loopPtr := false }
      | _ => none
  | .destroy =>
      match s.thread with
      | .destroying => some { s with thread := .finished }
      | _ => none

/-- Who can take a step of the loop: the thread while it is in `loop()`, with
its callbacks and the signals it gets, and the others once they have the
pointer, as long as there is something behind it. -/
def innerOk (s : EventLoopThread φ) : SignalLoop.Label φ → Bool
  | .loop _ | .enterWait | .signal => s.thread == .looping
  | .pushBack _ true | .quit true =>
      s.thread == .looping && (s.loop.loop.pc matches .dispatch _ | .running _)
  | .pushBack _ false | .quit false =>
      s.thread.alive && s.owner != .starting
  | .pushReturn _ | .quitReturn => s.thread.alive

def step (s : EventLoopThread φ) : Label φ → Option (EventLoopThread φ)
  | .owner o => s.ownerStep o
  | .thread t => s.threadStep t
  | .inner l =>
      if s.innerOk l then
        (s.loop.step l).map fun loop => { s with loop := loop }
      else none

/-! ## What a step can do -/

inductive OwnerStepped (s : EventLoopThread φ) :
    OwnerStep → EventLoopThread φ → Prop where
  | startLoop : s.owner = .fresh →
      OwnerStepped s .startLoop
        { s with owner := .starting, thread := .constructing, joinable := true }
  | startReturn : s.owner = .starting → s.loopPtr = true →
      OwnerStepped s .startReturn { s with owner := .started }
  | destroy : s.owner = .fresh ∨ s.owner = .started →
      OwnerStepped s .destroy { s with owner := .testing }
  | tested : s.owner = .testing → s.loopPtr = true →
      OwnerStepped s .test { s with owner := .loading }
  | testedNull : s.owner = .testing → s.loopPtr = false →
      OwnerStepped s .test { s with owner := .returned }
  | loaded : s.owner = .loading → s.loopPtr = true →
      OwnerStepped s .load { s with owner := .storing }
  | loadedNull : s.owner = .loading → s.loopPtr = false →
      OwnerStepped s .load { s with owner := .crashed }
  | stored : s.owner = .storing → s.thread.alive = true →
      OwnerStepped s .store
        { s with owner := .waking, loop := s.loop.storeQuit }
  | storedGone : s.owner = .storing → s.thread.alive = false →
      OwnerStepped s .store { s with owner := .crashed }
  | woken : s.owner = .waking → s.thread.alive = true →
      OwnerStepped s .wake
        { s with
          owner := .joining
          loop := { s.loop with loop := s.loop.loop.wakeup } }
  | wokenGone : s.owner = .waking → s.thread.alive = false →
      OwnerStepped s .wake { s with owner := .dangling }
  | joined : s.owner = .joining → s.thread = .finished →
      OwnerStepped s .join { s with owner := .returned, joinable := false }

theorem ownerStep_stepped {s s' : EventLoopThread φ} {o : OwnerStep}
    (h : s.ownerStep o = some s') : OwnerStepped s o s' := by
  cases o with
  | startLoop =>
      rw [ownerStep] at h
      split at h
      · next howner => cases h; exact .startLoop howner
      · cases h
  | startReturn =>
      rw [ownerStep] at h
      split at h
      · next howner =>
          split at h
          · next hptr => cases h; exact .startReturn howner hptr
          · cases h
      · cases h
  | destroy =>
      rw [ownerStep] at h
      split at h
      · next howner => cases h; exact .destroy (.inl howner)
      · next howner => cases h; exact .destroy (.inr howner)
      · cases h
  | test =>
      rw [ownerStep] at h
      split at h
      · next howner =>
          cases h
          by_cases hptr : s.loopPtr = true
          · rw [if_pos hptr]
            exact .tested howner hptr
          · rw [if_neg hptr]
            exact .testedNull howner (by simpa using hptr)
      · cases h
  | load =>
      rw [ownerStep] at h
      split at h
      · next howner =>
          cases h
          by_cases hptr : s.loopPtr = true
          · rw [if_pos hptr]
            exact .loaded howner hptr
          · rw [if_neg hptr]
            exact .loadedNull howner (by simpa using hptr)
      · cases h
  | store =>
      rw [ownerStep] at h
      split at h
      · next howner =>
          split at h
          · next halive => cases h; exact .stored howner halive
          · next halive =>
              cases h
              exact .storedGone howner (by simpa using halive)
      · cases h
  | wake =>
      rw [ownerStep] at h
      split at h
      · next howner =>
          split at h
          · next halive => cases h; exact .woken howner halive
          · next halive =>
              cases h
              exact .wokenGone howner (by simpa using halive)
      · cases h
  | join =>
      rw [ownerStep] at h
      split at h
      · next howner hthread => cases h; exact .joined howner hthread
      · cases h

inductive ThreadStepped (s : EventLoopThread φ) :
    ThreadStep → EventLoopThread φ → Prop where
  | construct : s.thread = .constructing →
      ThreadStepped s .construct { s with thread := .publishing, loop := {} }
  | publish : s.thread = .publishing →
      ThreadStepped s .publish { s with thread := .looping, loopPtr := true }
  | loopReturn : s.thread = .looping → s.loop.loop.pc = .done →
      ThreadStepped s .loopReturn { s with thread := .clearing }
  | clear : s.thread = .clearing →
      ThreadStepped s .clear { s with thread := .destroying, loopPtr := false }
  | destroy : s.thread = .destroying →
      ThreadStepped s .destroy { s with thread := .finished }

theorem threadStep_stepped {s s' : EventLoopThread φ} {t : ThreadStep}
    (h : s.threadStep t = some s') : ThreadStepped s t s' := by
  cases t with
  | construct =>
      rw [threadStep] at h
      split at h
      · next hthread => cases h; exact .construct hthread
      · cases h
  | publish =>
      rw [threadStep] at h
      split at h
      · next hthread => cases h; exact .publish hthread
      · cases h
  | loopReturn =>
      rw [threadStep] at h
      split at h
      · next hthread hpc => cases h; exact .loopReturn hthread hpc
      · cases h
  | clear =>
      rw [threadStep] at h
      split at h
      · next hthread => cases h; exact .clear hthread
      · cases h
  | destroy =>
      rw [threadStep] at h
      split at h
      · next hthread => cases h; exact .destroy hthread
      · cases h

theorem inner_step {s s' : EventLoopThread φ} {l : SignalLoop.Label φ}
    (h : step s (.inner l) = some s') :
    s.innerOk l = true ∧
      ∃ loop, s.loop.step l = some loop ∧ s' = { s with loop := loop } := by
  rw [step] at h
  split at h
  · next hok =>
      obtain ⟨loop, hloop, rfl⟩ := Option.map_eq_some_iff.mp h
      exact ⟨hok, loop, hloop, rfl⟩
  · cases h

end EventLoopThread

end GameFrame
