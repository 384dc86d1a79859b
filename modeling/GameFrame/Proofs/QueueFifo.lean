import GameFrame.Util.QueueThreads

/-!
# Nothing is lost in the queue, nothing is counted twice

The ring with its two indices and its count is a queue of bounded size, and
the counters add up, whatever the producers and the consumer do in between
each other. `Conserved` is all of it: the shape of the ring, that what was
taken and what is there are what was put in, and that every push that came
back is accounted for. Each atomic section preserves it. For the ring that is
what `contents_pushLocked` and `drain_takes` say, and for the counters there
is nothing to see but that they are added to in the same step.

That a refused push leaves the slots alone needs no invariant. Its critical
section returns the queue it was given, and what follows touches a counter.
-/

namespace GameFrame.QueueThreads

open MPSCQueue

variable {α ι : Type _} [Inhabited α]

structure Conserved (capacity : Nat) (w : QueueThreads α ι) : Prop where
  wf : w.queue.Wf
  cap : w.queue.cap = if capacity = 0 then 1 else capacity
  fifo : w.drained ++ w.queue.contents = w.inserted
  counted : w.completed = w.okPushes + w.taken + w.queue.dropped

theorem conserved_init (capacity : Nat) :
    Conserved capacity (init capacity : QueueThreads α ι) where
  wf := wf_new capacity
  cap := rfl
  fifo := rfl
  counted := rfl

theorem Conserved.drain {capacity : Nat} {w : QueueThreads α ι}
    (hw : Conserved capacity w) (maxBatch : Nat) :
    Conserved capacity (w.drain maxBatch) := by
  obtain ⟨taken, hout, hwf, hcap, hdropped, hsplit, -⟩ :=
    drain_splits hw.wf w.drained maxBatch
  refine ⟨hwf, hcap.trans hw.cap, ?_, ?_⟩
  · show (w.queue.drain w.drained maxBatch).2 ++ _ = w.inserted
    rw [hout, List.append_assoc]
    exact (congrArg (w.drained ++ ·) hsplit).trans hw.fifo
  · show w.completed = w.okPushes + w.taken +
      (w.queue.drain w.drained maxBatch).1.dropped
    rw [hdropped, hw.counted]

theorem Conserved.takeDropped {capacity : Nat} {w : QueueThreads α ι}
    (hw : Conserved capacity w) :
    Conserved capacity
      { w with
        queue := w.queue.takeDropped.2
        taken := w.taken + w.queue.takeDropped.1 } := by
  refine ⟨hw.wf.takeDropped, hw.cap, hw.fifo, ?_⟩
  have h := hw.counted
  show w.completed = w.okPushes + (w.taken + w.queue.dropped) + 0
  omega

variable [DecidableEq ι]

theorem Conserved.enter {capacity : Nat} {w : QueueThreads α ι}
    (hw : Conserved capacity w) (p : ι) (v : α) :
    Conserved capacity (w.enter p v) where
  wf := hw.wf.pushLocked v
  cap := (pushLocked_cap _ v).trans hw.cap
  fifo := by
    show w.drained ++ (w.queue.pushLocked v).2.contents = w.inserted ++ _
    rw [contents_pushLocked hw.wf, ← List.append_assoc, hw.fifo]
  counted := by
    show w.completed = w.okPushes + w.taken + (w.queue.pushLocked v).2.dropped
    rw [pushLocked_dropped, hw.counted]

theorem Conserved.finish {capacity : Nat} {w : QueueThreads α ι}
    (hw : Conserved capacity w) (p : ι) (ok : Bool) :
    Conserved capacity (w.finish p ok) where
  wf := hw.wf.pushUnlocked ok
  cap := (pushUnlocked_cap _ ok).trans hw.cap
  fifo := by
    show w.drained ++ (w.queue.pushUnlocked ok).2.contents = w.inserted
    rw [contents_pushUnlocked, hw.fifo]
  counted := by
    have h := hw.counted
    show w.completed + 1 = w.okPushes + _ + w.taken + _
    cases ok with
    | true => show _ = w.okPushes + 1 + w.taken + w.queue.dropped; omega
    | false => show _ = w.okPushes + 0 + w.taken + (w.queue.dropped + 1); omega

theorem conserved_step {capacity : Nat} {w w' : QueueThreads α ι}
    {l : Label α ι} (hw : Conserved capacity w) (h : step w l = some w') :
    Conserved capacity w' := by
  cases l with
  | enter p v =>
      rw [step] at h
      split at h
      · cases h; exact hw.enter p v
      · cases h
  | finish p =>
      rw [step] at h
      split at h
      · cases h
      · cases h; exact hw.finish p true
      · cases h; exact hw.finish p false
  | drain maxBatch => cases h; exact hw.drain maxBatch
  | takeDropped => cases h; exact hw.takeDropped
  | answer =>
      rw [step] at h
      split at h
      · cases h; exact ⟨hw.wf, hw.cap, hw.fifo, hw.counted⟩
      · cases h

/-! ## A push that was refused -/

theorem step_enter {w w' : QueueThreads α ι} {p : ι} {v : α}
    (h : step w (.enter p v) = some w') :
    w.pc p = .idle ∧ w' = w.enter p v := by
  rw [step] at h
  split at h
  · next hidle => cases h; exact ⟨hidle, rfl⟩
  · cases h

omit [Inhabited α] in
theorem setPc_self (w : QueueThreads α ι) (p : ι) (c : Pc) :
    w.setPc p c p = c := if_pos rfl

/-- A producer finds itself refused only if the queue was full, and then the
critical section changed nothing. -/
theorem queue_eq_of_refused {w w' : QueueThreads α ι} {p : ι} {v : α}
    (h : step w (.enter p v) = some w') (hpc : w'.pc p = .refused) :
    w'.queue = w.queue := by
  obtain ⟨-, rfl⟩ := step_enter h
  have hpc' : (if (w.queue.pushLocked v).1 then Pc.inserted else Pc.refused) =
      .refused := (setPc_self w p _).symm.trans hpc
  by_cases hfull : w.queue.count = w.queue.cap
  · show (w.queue.pushLocked v).2 = w.queue
    rw [pushLocked_full v hfull]
  · rw [pushLocked, if_neg hfull] at hpc'
    cases hpc'

theorem finish_of_refused {w w' : QueueThreads α ι} {p : ι}
    (hpc : w.pc p = .refused) (h : step w (.finish p) = some w') :
    w'.queue = { w.queue with dropped := w.queue.dropped + 1 } := by
  rw [step, hpc] at h
  cases h
  rfl

/-- Whatever the schedule: the queue is first in first out, it keeps to its
size, a refused push leaves it as it was, and every push is counted once. -/
theorem queue_accounts (capacity : Nat) {ls : List (Label α ι)}
    {w : QueueThreads α ι} (hrun : Machine.run step (init capacity) ls = some w) :
    w.drained ++ w.queue.contents = w.inserted ∧
      w.queue.cap = (if capacity = 0 then 1 else capacity) ∧
      w.queue.count ≤ w.queue.cap ∧
      w.queue.tail = (w.queue.head + w.queue.count) % w.queue.cap ∧
      (∀ p v w', step w (.enter p v) = some w' → w'.pc p = .refused →
        w'.queue = w.queue) ∧
      (∀ p w', w.pc p = .refused → step w (.finish p) = some w' →
        w'.queue = { w.queue with dropped := w.queue.dropped + 1 }) ∧
      w.completed = w.okPushes + w.taken + w.queue.dropped := by
  have hw : Conserved capacity w :=
    Machine.run_preserves (fun hw h => conserved_step hw h)
      (conserved_init capacity) hrun
  exact ⟨hw.fifo, hw.cap, hw.wf.count_le, hw.wf.tail_eq,
    fun _ _ _ h hpc => queue_eq_of_refused h hpc,
    fun _ _ hpc h => finish_of_refused hpc h, hw.counted⟩

/-- Two producers and a ring of two: the third push is refused between the
halves of the others, and the ring wraps around. -/
theorem queue_accounts_wrap :
    ∃ w : QueueThreads Nat Bool,
      Machine.run step (init 2)
        [.enter false 1, .enter true 2, .finish false, .enter false 3,
          .drain 1, .finish true, .enter true 4, .finish false, .takeDropped,
          .drain 5] = some w ∧
      w.drained = [1, 2, 4] ∧ w.taken = 1 ∧
      w.drained ++ w.queue.contents = w.inserted := by
  have hrun : Machine.run step (init 2 : QueueThreads Nat Bool)
      [.enter false 1, .enter true 2, .finish false, .enter false 3,
        .drain 1, .finish true, .enter true 4, .finish false, .takeDropped,
        .drain 5] = some _ := rfl
  exact ⟨_, hrun, rfl, rfl, (queue_accounts 2 hrun).1⟩

end GameFrame.QueueThreads
