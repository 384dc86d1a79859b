import GameFrame.Net.TimerCalls
import GameFrame.Proofs.LogKept

/-!
# The process of `log_server`, and its flushes

`log_server/main.cpp`. One thread does everything: between two passes of the
timers the message callbacks write to the `LogFile`, and a timer flushes it.
Its callback sets the next one when it is done, so the moment of the next flush
is counted from when the one before was over (`schedule_flush`).

The `LogFile` is held by `main` while the loop runs, so the weak pointer of the
callback is never found expired.
-/

namespace GameFrame

/-- `kFlushIntervalMs`. -/
def kFlushIntervalMs : Int := 1000

structure LogProcess where
  calls : TimerCalls Unit
  store : LogDir
  /-- when `flush` was called, the last first -/
  flushes : List Int := []

namespace LogProcess

open LogFile (Call)

def setCalls (p : LogProcess) (calls : TimerCalls Unit) : LogProcess :=
  { p with calls := calls }

/-- `schedule_flush`. -/
def scheduleFlush (p : LogProcess) : LogProcess :=
  p.setCalls (p.calls.runAfter kFlushIntervalMs ())

/-- `main()`, up to the loop. -/
def start (s : LogDir) (c : Call) (t : Uptime) : Option LogProcess :=
  (s.act (.construct c)).map fun store =>
    ({ calls := .new t, store := store } : LogProcess).scheduleFlush

inductive Label where
  | turn (l : TimerCalls.Turn)
  /-- the timer is called, which flushes the file -/
  | flush (res : FlushRes := .ok)
  /-- and sets the next -/
  | reschedule
  /-- a piece of a record, in a message callback -/
  | append (data : List UInt8) (c : Call)
  deriving Repr

def step (p : LogProcess) : Label → Option LogProcess
  | .turn l =>
      if l = .return then none else (p.calls.turn l).map p.setCalls
  | .flush res => do
      let (_, calls) ← p.calls.call
      let store ← p.store.act (.flush res)
      some { calls, store, flushes := p.calls.queue.now :: p.flushes }
  | .reschedule =>
      match p.calls.queue.pc with
      | .callback _ =>
          (p.scheduleFlush.calls.turn .return).map p.scheduleFlush.setCalls
      | _ => none
  | .append data c =>
      if p.calls.queue.pc = .idle then
        (p.store.act (.append data c)).map fun store =>
          { p with store := store }
      else none

/-! ## What a step can do -/

inductive Stepped (p : LogProcess) : Label → LogProcess → Prop where
  | turn (l : TimerCalls.Turn) (calls : TimerCalls Unit) :
      p.calls.turn l = some calls → l ≠ .return →
      Stepped p (.turn l) (p.setCalls calls)
  | flush (res : FlushRes) (calls : TimerCalls Unit) (store : LogDir) :
      p.calls.call = some ((), calls) →
      p.store.act (.flush res) = some store →
      Stepped p (.flush res)
        { calls, store, flushes := p.calls.queue.now :: p.flushes }
  | reschedule (rest : List Entry) (calls : TimerCalls Unit) :
      p.calls.queue.pc = .callback rest →
      (p.calls.runAfter kFlushIntervalMs ()).turn .return = some calls →
      Stepped p .reschedule (p.setCalls calls)
  | append (data : List UInt8) (c : Call) (store : LogDir) :
      p.calls.queue.pc = .idle → p.store.act (.append data c) = some store →
      Stepped p (.append data c) { p with store := store }

theorem step_stepped {p q : LogProcess} {l : Label} (h : p.step l = some q) :
    Stepped p l q := by
  cases l with
  | turn l =>
      rw [step] at h
      split at h
      · cases h
      · next hne =>
          obtain ⟨calls, hcalls, rfl⟩ := Option.map_eq_some_iff.mp h
          exact .turn l calls hcalls hne
  | flush res =>
      obtain ⟨⟨⟨⟩, calls⟩, hcall, h⟩ := Option.bind_eq_some_iff.mp h
      obtain ⟨store, hstore, h⟩ := Option.bind_eq_some_iff.mp h
      cases h
      exact .flush res calls store hcall hstore
  | reschedule =>
      rw [step] at h
      split at h
      · next rest hpc =>
          obtain ⟨calls, hcalls, rfl⟩ := Option.map_eq_some_iff.mp h
          exact .reschedule rest calls hpc hcalls
      · cases h
  | append data c =>
      rw [step] at h
      split at h
      · next hidle =>
          obtain ⟨store, hstore, rfl⟩ := Option.map_eq_some_iff.mp h
          exact .append data c store hidle hstore
      · cases h

end LogProcess

end GameFrame
