import GameFrame.Lib.OrderedSet
import GameFrame.Lib.Run
import GameFrame.Net.TimerSpec
import Mathlib.Data.Prod.Lex

/-!
# `TimerQueue`, timers behind one descriptor

`src/timer_queue.h`, `src/timer_queue.cpp`, as the loop thread uses it. Timers
are kept in the order of their expirations, with an index by id for `cancel`,
and one timerfd is set for the earliest of them. When it is read, everything
that has expired is taken out, and then run, callback by callback.

A callback may add and cancel timers, and on the loop thread `run_in_loop` does
that on the spot. So `handle_read` is not one step but several, with the ones
of its callbacks in between (`TimerPc`). The clock may go on between any two
of them. It is read again by each function that reads it, but does not move
inside one.

Times are nanoseconds, and what is computed of them is kept to 64 bits, as a
machine does it (`wrap64`). Ids are not counted beyond what 64 bits hold. Of a
callback only its calls are recorded, by the id of the timer.
-/

namespace GameFrame

/-- `TimerQueue::Entry`; `cb` is whether there is a callback to call. -/
structure Entry where
  expiration : Int
  id : Nat
  cb : Bool := true
  deriving DecidableEq, Repr

/-- `Entry::operator<` is the order of these. -/
def Entry.key (e : Entry) : Int ×ₗ Nat := toLex (e.expiration, e.id)

/-- Where the loop thread is: outside of `handle_read`, behind its `read(2)`,
between two callbacks, or in one, with what is still to be run. -/
inductive TimerPc where
  | idle
  | reading
  | batch (rest : List Entry)
  | callback (rest : List Entry)
  deriving DecidableEq, Repr

/-- The expired timers whose callbacks have not been started. -/
def TimerPc.rest : TimerPc → List Entry
  | .idle | .reading => []
  | .batch rest | .callback rest => rest

structure TimerQueue where
  timers : OrderedSet Entry.key := .empty
  idToIter : Nat → Option Entry := fun _ => none
  nextId : Nat := 1
  /-- the moment the timerfd is set for, and whether it has expired since and
  not been read -/
  armed : Option Int := none
  unread : Bool := false
  /-- the clock -/
  now : Int := 0
  pc : TimerPc := .idle
  /-- the timers whose callback has been called, and those `cancel` returned
  for before that -/
  started : List Nat := []
  cancelled : List Nat := []

namespace TimerQueue

/-- `reset_timerfd(earliest)`. A timerfd that is set anew has not expired. -/
def resetTimerfd (q : TimerQueue) (earliest : Int) : TimerQueue :=
  let remaining := max (wrap64 (earliest - q.now)) 1
  { q with armed := some (q.now + remaining), unread := false }

/-- The timerfd set for the earliest timer, if there is one. -/
def resetToBegin (q : TimerQueue) : TimerQueue :=
  match q.timers.begin? with
  | none => q
  | some b => q.resetTimerfd b.expiration

/-- `id_to_iter_.emplace(id, it)`. -/
def emplace (q : TimerQueue) (e : Entry) : Nat → Option Entry :=
  fun i => if i = e.id then (q.idToIter i).or (some e) else q.idToIter i

/-- There is no timer in front of the entry. -/
def earliestChanged (q : TimerQueue) (e : Entry) : Bool :=
  match q.timers.begin? with
  | none => true
  | some b => decide (e.key < b.key)

/-- `add_timer_in_loop(entry)`. -/
def addTimerInLoop (q : TimerQueue) (e : Entry) : TimerQueue :=
  let changed := q.earliestChanged e
  let q := { q with timers := q.timers.insert e, idToIter := q.emplace e }
  if changed then q.resetToBegin else q

/-- `cancel_in_loop(id)`. -/
def cancelInLoop (q : TimerQueue) (id : Nat) : TimerQueue :=
  match q.idToIter id with
  | none => q
  | some e =>
      let wasEarliest := q.timers.begin? = some e
      let q := { q with
        timers := q.timers.erase e
        idToIter := fun i => if i = id then none else q.idToIter i }
      if wasEarliest then q.resetToBegin else q

/-- `run_at(expiration, cb)`, on the loop thread. -/
def runAt (q : TimerQueue) (expiration : Int) (cb : Bool) : TimerQueue :=
  { q with nextId := q.nextId + 1 }.addTimerInLoop ⟨expiration, q.nextId, cb⟩

/-- `run_after(delay_ms, cb)`. -/
def runAfter (q : TimerQueue) (delayMs : Int) (cb : Bool) : TimerQueue :=
  q.runAt (wrap64 (q.now + wrap64 (delayMs * 1000000))) cb

/-- The id is one that was given out. -/
def issued (q : TimerQueue) (id : Nat) : Bool :=
  decide (1 ≤ id) && decide (id < q.nextId)

/-- `cancel(id)`, on the loop thread. -/
def cancel (q : TimerQueue) (id : Nat) : TimerQueue :=
  let stopped := q.issued id && !q.started.contains id
  { q.cancelInLoop id with
    cancelled := if stopped then id :: q.cancelled else q.cancelled }

/-- `handle_read()`, from its second reading of the clock to its first
callback: what has expired leaves both containers. -/
def collect (q : TimerQueue) : TimerQueue :=
  let (expired, rest) := q.timers.popWhile fun e => e.expiration ≤ q.now
  { q with
    timers := rest
    idToIter := expired.foldl
      (fun m e i => if i = e.id then none else m i) q.idToIter
    pc := .batch expired }

/-- The clock goes on, and the timerfd with it. -/
def clock (q : TimerQueue) (t : Int) : TimerQueue :=
  let expires := q.armed.any (· ≤ t)
  { q with
    now := t
    armed := if expires then none else q.armed
    unread := q.unread || expires }

inductive Label where
  | clock (t : Int)
  | runAt (expiration : Int) (cb : Bool)
  | runAfter (delayMs : Int) (cb : Bool)
  | cancel (id : Nat)
  /-- the steps of `handle_read` -/
  | read
  | collect
  | call
  | return
  | finish
  deriving DecidableEq, Repr

/-- Where code runs that can add and cancel timers. -/
def callsOut : TimerPc → Bool
  | .idle | .callback _ => true
  | .reading | .batch _ => false

def step (q : TimerQueue) : Label → Option TimerQueue
  | .clock t => if q.now ≤ t then some (q.clock t) else none
  | .runAt expiration cb =>
      if callsOut q.pc then some (q.runAt expiration cb) else none
  | .runAfter delayMs cb =>
      if callsOut q.pc then some (q.runAfter delayMs cb) else none
  | .cancel id => if callsOut q.pc then some (q.cancel id) else none
  | .read =>
      match q.pc with
      | .idle => some { q with unread := false, pc := .reading }
      | _ => none
  | .collect =>
      match q.pc with
      | .reading => some q.collect
      | _ => none
  | .call =>
      match q.pc with
      | .batch (e :: rest) =>
          if e.cb then
            some { q with pc := .callback rest, started := q.started ++ [e.id] }
          else some { q with pc := .batch rest }
      | _ => none
  | .return =>
      match q.pc with
      | .callback rest => some { q with pc := .batch rest }
      | _ => none
  | .finish =>
      match q.pc with
      | .batch [] => some { q with pc := .idle }.resetToBegin
      | _ => none

/-! ## What a step can do -/

inductive Stepped (q : TimerQueue) : Label → TimerQueue → Prop where
  | clock (t : Int) : q.now ≤ t → Stepped q (.clock t) (q.clock t)
  | runAt (expiration : Int) (cb : Bool) : callsOut q.pc = true →
      Stepped q (.runAt expiration cb) (q.runAt expiration cb)
  | runAfter (delayMs : Int) (cb : Bool) : callsOut q.pc = true →
      Stepped q (.runAfter delayMs cb) (q.runAfter delayMs cb)
  | cancel (id : Nat) : callsOut q.pc = true →
      Stepped q (.cancel id) (q.cancel id)
  | read : q.pc = .idle →
      Stepped q .read { q with unread := false, pc := .reading }
  | collect : q.pc = .reading → Stepped q .collect q.collect
  | call (e : Entry) (rest : List Entry) : q.pc = .batch (e :: rest) →
      e.cb = true →
      Stepped q .call
        { q with pc := .callback rest, started := q.started ++ [e.id] }
  | callNothing (e : Entry) (rest : List Entry) :
      q.pc = .batch (e :: rest) → e.cb = false →
      Stepped q .call { q with pc := .batch rest }
  | returned (rest : List Entry) : q.pc = .callback rest →
      Stepped q .return { q with pc := .batch rest }
  | finish : q.pc = .batch [] →
      Stepped q .finish { q with pc := .idle }.resetToBegin

theorem step_stepped {q q' : TimerQueue} {l : Label}
    (h : q.step l = some q') : Stepped q l q' := by
  cases l with
  | clock t =>
      rw [step] at h
      split at h
      · next hle =>
          cases h
          exact .clock t hle
      · cases h
  | runAt expiration cb =>
      rw [step] at h
      split at h
      · next hcalls =>
          cases h
          exact .runAt expiration cb hcalls
      · cases h
  | runAfter delayMs cb =>
      rw [step] at h
      split at h
      · next hcalls =>
          cases h
          exact .runAfter delayMs cb hcalls
      · cases h
  | cancel id =>
      rw [step] at h
      split at h
      · next hcalls =>
          cases h
          exact .cancel id hcalls
      · cases h
  | read =>
      rw [step] at h
      split at h
      · next hpc =>
          cases h
          exact .read hpc
      · cases h
  | collect =>
      rw [step] at h
      split at h
      · next hpc =>
          cases h
          exact .collect hpc
      · cases h
  | call =>
      rw [step] at h
      split at h
      · next e rest hpc =>
          split at h
          · next hcb =>
              cases h
              exact .call e rest hpc hcb
          · next hcb =>
              cases h
              exact .callNothing e rest hpc (by simpa using hcb)
      · cases h
  | «return» =>
      rw [step] at h
      split at h
      · next rest hpc =>
          cases h
          exact .returned rest hpc
      · cases h
  | finish =>
      rw [step] at h
      split at h
      · next hpc =>
          cases h
          exact .finish hpc
      · cases h

end TimerQueue

end GameFrame
