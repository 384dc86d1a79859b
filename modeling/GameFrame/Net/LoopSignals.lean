import GameFrame.Net.EventLoop

/-!
# `EventLoop`, quit by several and by signals

The same loop as in `EventLoop`, with `quit()` called as often and by as many
as there are. Both programs call it from their handlers of `SIGINT` and
`SIGTERM`, in `main.cpp` of each, and there it is the kernel that says where:
the handler runs on the loop thread, between any two of its steps.

So it matters here whether the loop thread is in front of `epoll_wait` or in
it. A handler that is run while the thread is in it makes it return, as the
handlers are installed without `SA_RESTART`; one that is run in front of it
does not.
-/

namespace GameFrame

structure SignalLoop (φ : Type _) where
  loop : EventLoop φ := {}
  /-- the calls of `quit()` on other threads that are to write the eventfd -/
  quitting : Nat := 0
  /-- at `epoll_wait`: whether it has been entered, and whether a signal has
  come since -/
  entered : Bool := false
  interrupted : Bool := false

namespace SignalLoop

variable {φ : Type _}

inductive Label (φ : Type _) where
  | loop (s : EventLoop.LoopStep)
  | enterWait
  | pushBack (f : φ) (own : Bool)
  | pushReturn (i : Nat)
  | quit (own : Bool)
  | quitReturn
  /-- `handle_signal`, on the loop thread -/
  | signal
  deriving Repr

/-- A return from `epoll_wait`. -/
def returns : EventLoop.LoopStep → Bool
  | .poll _ | .pollFull | .interrupted => true
  | .enter | .test | .handleWakeup | .swap | .runNext | .endRound => false

/-- The eventfd is readable, and `epoll_wait` will say so. -/
def readable (w : SignalLoop φ) : Bool := w.loop.edge && w.loop.counter != 0

def storeQuit (w : SignalLoop φ) : SignalLoop φ :=
  { w with loop := { w.loop with quit := true } }

def step (w : SignalLoop φ) : Label φ → Option (SignalLoop φ)
  | .loop s =>
      if w.loop.ownPush.isNone && (w.entered || !returns s) then
        (w.loop.loopStep s).map fun loop =>
          { w with loop := loop, entered := false, interrupted := false }
      else none
  | .enterWait =>
      match w.loop.pc with
      | .wait => if w.entered then none else some { w with entered := true }
      | _ => none
  | .pushBack f own =>
      if w.loop.free own then some { w with loop := w.loop.pushBack f own }
      else none
  | .pushReturn i =>
      if w.loop.inside.contains i then
        some { w with loop := w.loop.pushReturn i }
      else none
  | .quit own =>
      if w.loop.free own then
        some
          { w.storeQuit with
            quitting := if own then w.quitting else w.quitting + 1 }
      else none
  | .quitReturn =>
      if 0 < w.quitting then
        some { w with loop := w.loop.wakeup, quitting := w.quitting - 1 }
      else none
  | .signal =>
      some { w.storeQuit with interrupted := w.interrupted || w.entered }

/-! ## What a step can do -/

inductive Stepped (w : SignalLoop φ) : Label φ → SignalLoop φ → Prop where
  | loop (s : EventLoop.LoopStep) (l : EventLoop φ) : w.loop.ownPush = none →
      (w.entered = true ∨ returns s = false) → w.loop.loopStep s = some l →
      Stepped w (.loop s)
        { w with loop := l, entered := false, interrupted := false }
  | enterWait : w.loop.pc = .wait → w.entered = false →
      Stepped w .enterWait { w with entered := true }
  | pushBack (f : φ) (own : Bool) : w.loop.free own = true →
      Stepped w (.pushBack f own) { w with loop := w.loop.pushBack f own }
  | pushReturn (i : Nat) : i ∈ w.loop.inside →
      Stepped w (.pushReturn i) { w with loop := w.loop.pushReturn i }
  | quitOwn : w.loop.free true = true →
      Stepped w (.quit true) w.storeQuit
  | quitOther : Stepped w (.quit false)
      { w.storeQuit with quitting := w.quitting + 1 }
  | quitReturn : 0 < w.quitting →
      Stepped w .quitReturn
        { w with loop := w.loop.wakeup, quitting := w.quitting - 1 }
  | signal : Stepped w .signal
      { w.storeQuit with interrupted := w.interrupted || w.entered }

theorem step_stepped {w w' : SignalLoop φ} {l : Label φ}
    (h : step w l = some w') : Stepped w l w' := by
  cases l with
  | loop s =>
      rw [step] at h
      split at h
      · next hcan =>
          obtain ⟨l, hl, rfl⟩ := Option.map_eq_some_iff.mp h
          obtain ⟨hown, hwhere⟩ := (Bool.and_eq_true _ _).mp hcan
          refine .loop s l (Option.isNone_iff_eq_none.mp hown) ?_ hl
          simpa using hwhere
      · cases h
  | enterWait =>
      rw [step] at h
      split at h
      · next hpc =>
          split at h
          · cases h
          · next hentered =>
              cases h
              exact .enterWait hpc (by simpa using hentered)
      · cases h
  | pushBack f own =>
      rw [step] at h
      split at h
      · next hfree => cases h; exact .pushBack f own hfree
      · cases h
  | pushReturn i =>
      rw [step] at h
      split at h
      · next hi => cases h; exact .pushReturn i (List.contains_iff_mem.mp hi)
      · cases h
  | quit own =>
      rw [step] at h
      split at h
      · next hfree =>
          cases h
          cases own with
          | true => exact .quitOwn hfree
          | false => exact .quitOther
      · cases h
  | quitReturn =>
      rw [step] at h
      split at h
      · next hsome => cases h; exact .quitReturn hsome
      · cases h
  | signal =>
      cases h
      exact .signal

end SignalLoop

end GameFrame
