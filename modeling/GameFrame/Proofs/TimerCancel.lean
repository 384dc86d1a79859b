import GameFrame.Proofs.TimerWakeup

/-!
# What `cancel` stops

`cancel` looks an id up in the index, and `handle_read` takes everything that
has expired out of the index before it runs the first callback. So a callback
that cancels a timer which expired in the same pass finds nothing, returns,
and has it run behind it (`cancel_late`). The comment in `handle_read` has it
that such a cancel is queued and comes later, which on the loop thread it is
not, and later would be too late as well.

In any other place the timer is in the set if it has not been run, and is
taken out. Then it is `Gone`: a timer gets into the set once, from there into
a batch, and from there to its callback (`Moves`), so once it is in neither
its callback is never called. `CancelOk` is the other place: no timer with
this id is waiting in the batch.
-/

namespace GameFrame.TimerQueue

/-- The timers that were cancelled in time are not run. -/
def Final (q : TimerQueue) : Prop := ∀ id ∈ q.cancelled, id ∉ q.started

/-- The timer to be cancelled does not have its callback still to come in the
batch that is being run. -/
def CancelOk (q : TimerQueue) : Label → Prop
  | .cancel id => ∀ e ∈ q.pc.rest, e.id = id → e.cb = false
  | _ => True

instance (q : TimerQueue) : ∀ l, Decidable (CancelOk q l)
  | .cancel _ => inferInstanceAs (Decidable (∀ e ∈ q.pc.rest, _ → _))
  | .clock _ | .runAt _ _ | .runAfter _ _ | .read | .collect | .call
  | .return | .finish => .isTrue trivial

/-- Two timers for the same moment, and the first cancels the second. -/
theorem cancel_late :
    ¬ ∀ (t : Int) (ls : List Label) (q : TimerQueue),
      Machine.run step { now := t } ls = some q → Final q := by
  intro hall
  have hany : (Machine.run step { now := 0 } [.runAt 5 true, .runAt 5 true,
      .clock 5, .read, .collect, .call, .cancel 2, .return, .call]).any
      (fun q => q.cancelled == [2] && q.started == [1, 2]) = true := by
    decide +kernel
  obtain ⟨q, hrun, hq⟩ := (Option.any_eq_true _ _).mp hany
  obtain ⟨hcancelled, hstarted⟩ := Bool.and_eq_true_iff.mp hq
  refine hall 0 _ q hrun 2 ?_ ?_
  · rw [eq_of_beq hcancelled]
    exact List.mem_singleton_self 2
  · rw [eq_of_beq hstarted]
    exact List.mem_cons_of_mem 1 (List.mem_singleton_self 2)

/-! ## The way of a timer -/

/-- Where timers come from and where they go to: into the set under a new id,
from the set into a batch, from a batch to their callback. -/
structure Moves (q q' : TimerQueue) : Prop where
  nextId : q.nextId ≤ q'.nextId
  timers : ∀ e ∈ q'.timers, e ∈ q.timers ∨
    e.id = q.nextId ∧ q.nextId < q'.nextId
  rest : ∀ e ∈ q'.pc.rest, e ∈ q.pc.rest ∨ e ∈ q.timers
  started : ∀ id ∈ q'.started, id ∈ q.started ∨
    ∃ e ∈ q.pc.rest, e.id = id ∧ e.cb = true

/-- Nothing but the descriptor, the clock, the pass or the ghosts changes, and
what is in the batch was there. -/
theorem Moves.of_eq {q q' : TimerQueue}
    (h : (q'.nextId, q'.timers, q'.started) = (q.nextId, q.timers, q.started))
    (hrest : ∀ e ∈ q'.pc.rest, e ∈ q.pc.rest) : Moves q q' := by
  simp only [Prod.mk.injEq] at h
  obtain ⟨hnext, htimers, hstarted⟩ := h
  exact ⟨Nat.le_of_eq hnext.symm, fun _ he => .inl (htimers ▸ he),
    fun e he => .inl (hrest e he), fun _ hid => .inl (hstarted ▸ hid)⟩

theorem moves_runAt (q : TimerQueue) (expiration : Int) (cb : Bool) :
    Moves q (q.runAt expiration cb) := by
  obtain ⟨armed, unread, heq⟩ := addTimerInLoop_eq
    { q with nextId := q.nextId + 1 } ⟨expiration, q.nextId, cb⟩
  rw [runAt, heq]
  refine ⟨Nat.le_succ _, fun e he => ?_, fun e he => .inl he,
    fun id hid => .inl hid⟩
  rcases OrderedSet.mem_of_mem_insertElems he with rfl | he
  · exact .inr ⟨rfl, Nat.lt_succ_self _⟩
  · exact .inl he

theorem moves_cancelInLoop {q : TimerQueue} (hq : q.Indexed) (id : Nat) :
    Moves q (q.cancelInLoop id) := by
  have hsub : ∀ e ∈ (q.cancelInLoop id).timers, e ∈ q.timers := fun e he =>
    (hq.mem_cancelInLoop.mp he).1
  obtain ⟨timers, armed, unread, heq⟩ := cancelInLoop_eq q id
  rw [heq] at hsub ⊢
  exact ⟨Nat.le_refl _, fun e he => .inl (hsub e he), fun e he => .inl he,
    fun id hid => .inl hid⟩

theorem moves_step {q q' : TimerQueue} {l : Label} (hq : q.Indexed)
    (h : q.step l = some q') : Moves q q' := by
  have hpop : ∀ {e rest}, q.pc = .batch (e :: rest) →
      e ∈ q.pc.rest ∧ ∀ x ∈ rest, x ∈ q.pc.rest := by
    intro e rest hpc
    rw [hpc]
    exact ⟨List.mem_cons_self, fun x hx => List.mem_cons_of_mem e hx⟩
  cases step_stepped h with
  | clock t => exact .of_eq rfl fun e he => he
  | runAt expiration cb => exact moves_runAt q expiration cb
  | runAfter delayMs cb => exact moves_runAt q _ cb
  | cancel id =>
      have hmoves := moves_cancelInLoop hq id
      exact ⟨hmoves.nextId, hmoves.timers, hmoves.rest, hmoves.started⟩
  | read => exact .of_eq rfl (by simp [TimerPc.rest])
  | collect =>
      refine ⟨Nat.le_refl _, fun e he => .inl ?_, fun e he => .inr ?_,
        fun id hid => .inl hid⟩
      · exact OrderedSet.mem_popWhile.mp (.inr he)
      · exact OrderedSet.mem_popWhile.mp (.inl he)
  | call e rest hpc hcb =>
      obtain ⟨hhead, hrest⟩ := hpop hpc
      refine ⟨Nat.le_refl _, fun x hx => .inl hx,
        fun x hx => .inl (hrest x hx), fun id hid => ?_⟩
      rcases List.mem_append.mp hid with hid | hid
      · exact .inl hid
      · exact .inr ⟨e, hhead, (List.mem_singleton.mp hid).symm, hcb⟩
  | callNothing e rest hpc => exact .of_eq rfl (hpop hpc).2
  | returned rest hpc =>
      refine .of_eq rfl fun e he => ?_
      rw [hpc]
      exact he
  | finish =>
      obtain ⟨armed, unread, heq⟩ := resetToBegin_eq { q with pc := .idle }
      rw [heq]
      exact .of_eq rfl (by simp [TimerPc.rest])

/-- The id is used, and no callback is to come of it any more. -/
structure Gone (q : TimerQueue) (id : Nat) : Prop where
  lt : id < q.nextId
  timers : ∀ e ∈ q.timers, e.id ≠ id
  rest : ∀ e ∈ q.pc.rest, e.id = id → e.cb = false

/-- What is gone stays gone, and is not run. -/
theorem Moves.gone {q q' : TimerQueue} (h : Moves q q') {id : Nat}
    (hid : q.Gone id) :
    q'.Gone id ∧ (id ∈ q'.started → id ∈ q.started) := by
  refine ⟨⟨Nat.lt_of_lt_of_le hid.lt h.nextId, fun e he => ?_, fun e he => ?_⟩,
    fun hstarted => ?_⟩
  · rcases h.timers e he with he | ⟨heq, -⟩
    · exact hid.timers e he
    · have := hid.lt
      omega
  · rcases h.rest e he with he | he
    · exact hid.rest e he
    · exact fun heq => absurd heq (hid.timers e he)
  · rcases h.started id hstarted with hold | ⟨e, he, heq, hcb⟩
    · exact hold
    · rw [hid.rest e he heq] at hcb
      cases hcb

/-! ## The run -/

structure Stopped (q : TimerQueue) : Prop where
  inv : q.Inv
  gone : ∀ id ∈ q.cancelled, q.Gone id ∧ id ∉ q.started

theorem gone_cancel {q : TimerQueue} (hq : q.Indexed) {id : Nat}
    (hlt : id < q.nextId) (hok : ∀ e ∈ q.pc.rest, e.id = id → e.cb = false) :
    (q.cancelInLoop id).Gone id := by
  have hout : ∀ e ∈ (q.cancelInLoop id).timers, e.id ≠ id := fun e he =>
    (hq.mem_cancelInLoop.mp he).2
  obtain ⟨timers, armed, unread, heq⟩ := cancelInLoop_eq q id
  rw [heq] at hout ⊢
  exact ⟨hlt, hout, hok⟩

/-- Only `cancel` cancels. -/
theorem cancelled_step {q q' : TimerQueue} {l : Label}
    (h : q.step l = some q') :
    q'.cancelled = q.cancelled ∨ ∃ id, l = .cancel id ∧ q' = q.cancel id := by
  have hrunAt : ∀ expiration cb,
      (q.runAt expiration cb).cancelled = q.cancelled := by
    intro expiration cb
    obtain ⟨armed, unread, heq⟩ := addTimerInLoop_eq
      { q with nextId := q.nextId + 1 } ⟨expiration, q.nextId, cb⟩
    rw [runAt, heq]
  cases l with
  | clock t =>
      rw [step] at h
      split at h
      · cases h; exact .inl rfl
      · cases h
  | runAt expiration cb =>
      rw [step] at h
      split at h
      · cases h; exact .inl (hrunAt expiration cb)
      · cases h
  | runAfter delayMs cb =>
      rw [step] at h
      split at h
      · cases h; exact .inl (hrunAt _ cb)
      · cases h
  | cancel id =>
      rw [step] at h
      split at h
      · cases h; exact .inr ⟨id, rfl, rfl⟩
      · cases h
  | read | collect | «return» =>
      rw [step] at h
      split at h
      · cases h; exact .inl rfl
      · cases h
  | call =>
      rw [step] at h
      split at h
      · split at h
        · cases h; exact .inl rfl
        · cases h; exact .inl rfl
      · cases h
  | finish =>
      rw [step] at h
      split at h
      · cases h
        obtain ⟨armed, unread, heq⟩ := resetToBegin_eq { q with pc := .idle }
        exact .inl (by rw [heq])
      · cases h

theorem stopped_step {q q' : TimerQueue} {l : Label} (hq : q.Stopped)
    (hok : q.CancelOk l) (h : q.step l = some q') : q'.Stopped := by
  have hmoves := moves_step hq.inv.indexed h
  have hkept : ∀ id ∈ q.cancelled, q'.Gone id ∧ id ∉ q'.started := by
    intro id hid
    obtain ⟨hgone, hnot⟩ := hq.gone id hid
    obtain ⟨hgone', hstarted⟩ := hmoves.gone hgone
    exact ⟨hgone', fun hin => hnot (hstarted hin)⟩
  refine ⟨inv_step hq.inv h, fun id hid => ?_⟩
  rcases cancelled_step h with hsame | ⟨id', rfl, rfl⟩
  · exact hkept id (hsame ▸ hid)
  · replace hid : id ∈ (if q.issued id' && !q.started.contains id' then
        id' :: q.cancelled else q.cancelled) := hid
    split at hid
    · next hstops =>
        rcases List.mem_cons.mp hid with rfl | hid
        · -- It has just been cancelled.
          simp only [issued, Bool.and_eq_true, decide_eq_true_eq,
            Bool.not_eq_true', List.contains_eq_mem,
            decide_eq_false_iff_not] at hstops
          have hgone := gone_cancel hq.inv.indexed hstops.1.2 hok
          refine ⟨⟨hgone.lt, hgone.timers, hgone.rest⟩, ?_⟩
          obtain ⟨timers, armed, unread, heq⟩ := cancelInLoop_eq q id
          show id ∉ (q.cancelInLoop id).started
          rw [heq]
          exact hstops.2
        · exact hkept id hid
    · exact hkept id hid

/-- In a run where no callback cancels a timer of its own batch that is still
to come, what was cancelled in time is never run. -/
theorem cancel_final {t : Int} {ls : List Label} {q : TimerQueue}
    (hok : Machine.Meets step CancelOk { now := t } ls)
    (hrun : Machine.run step { now := t } ls = some q) : Final q := by
  have hinit : Stopped { now := t } :=
    ⟨inv_init t, fun id hid => absurd hid List.not_mem_nil⟩
  have hq := Machine.run_preserves_of_meets stopped_step hinit hok hrun
  exact fun id hid => (hq.gone id hid).2

/-- One timer is cancelled from outside, and one, not expired yet, from a
callback, which then cancels itself. -/
theorem cancel_final_nested :
    ∃ q : TimerQueue, Machine.run step { now := 0 }
        [.runAt 5 true, .runAt 6 true, .runAt 7 true, .cancel 1, .clock 6,
          .read, .collect, .call, .cancel 3, .cancel 2, .return, .finish,
          .clock 9, .read, .collect, .finish] = some q ∧
      q.cancelled = [3, 1] ∧ q.started = [2] ∧ Final q := by
  have hany : (Machine.run step { now := 0 } [.runAt 5 true, .runAt 6 true,
      .runAt 7 true, .cancel 1, .clock 6, .read, .collect, .call, .cancel 3,
      .cancel 2, .return, .finish, .clock 9, .read, .collect, .finish]).any
      (fun q => q.cancelled == [3, 1] && q.started == [2]) = true := by
    decide +kernel
  obtain ⟨q, hrun, hq⟩ := (Option.any_eq_true _ _).mp hany
  obtain ⟨hcancelled, hstarted⟩ := Bool.and_eq_true_iff.mp hq
  exact ⟨q, hrun, eq_of_beq hcancelled, eq_of_beq hstarted,
    cancel_final (by decide +kernel) hrun⟩

end GameFrame.TimerQueue
