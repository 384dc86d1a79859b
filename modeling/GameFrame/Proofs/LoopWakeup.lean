import GameFrame.Net.EventLoop

/-!
# Nobody waits for a functor that waits for him

The loop thread must not block in `epoll_wait` on a queue that is not empty.
Other threads see to that by writing the eventfd behind their `push_back`. The
loop thread itself saves the write, which is right as long as it is handling
events, for then the swap is still ahead, and it does not save it while it
runs functors, when the swap is behind. That leaves the time before `loop()`
is entered, and there it is wrong: nothing is written, no swap is ahead, and
the first `epoll_wait` blocks on the functor (`wait_blocks`).

So a functor that is queued is taken care of in one of three ways: the swap is
ahead of the loop thread, the eventfd has been written, or its caller is still
inside `queue_in_loop` and will write it (`owed`). `EntryOk` is what keeps the
loop thread's own calls among these: before `loop()` it queues nothing, unless
somebody has written the eventfd already, which nobody reads there.
-/

namespace GameFrame.EventLoop

variable {φ : Type _}

/-- At `epoll_wait`, with functors queued and no call still to decide whether
it wakes the loop, the eventfd is readable and will be reported. -/
def Awake (w : EventLoop φ) : Prop :=
  w.pc = .wait → w.pendingFunctors ≠ [] → w.inside = [] →
    w.counter ≠ 0 ∧ w.edge = true

/-- The loop thread queues nothing before `loop()`, or when it need not be
woken any more. -/
def EntryOk (w : EventLoop φ) : Label φ → Prop
  | .pushBack _ true => w.pc ≠ .idle ∨ w.counter ≠ 0
  | _ => True

instance [DecidableEq φ] (w : EventLoop φ) : ∀ l, Decidable (EntryOk w l)
  | .pushBack _ true => inferInstanceAs (Decidable (_ ∨ _))
  | .pushBack _ false | .loop _ | .pushReturn _ | .quit _ | .quitReturn =>
      .isTrue trivial

/-- One functor, queued by the loop thread before it enters the loop. -/
theorem wait_blocks :
    ¬ ∀ (ls : List (Label Nat)) (w : EventLoop Nat),
      Machine.run step {} ls = some w → Awake w := by
  intro h
  have hrun : Machine.run step ({} : EventLoop Nat)
      [.pushBack 1 true, .pushReturn 0, .loop .enter, .loop .test] =
        some _ := rfl
  exact absurd (h _ _ hrun rfl nofun rfl).1 (by decide)

/-! ## The invariant -/

/-- The loop thread may come to `epoll_wait` before it comes to the swap. -/
def beforeWait : LoopPc φ → Bool
  | .idle | .test | .wait | .running _ => true
  | .dispatch _ | .done => false

/-- A call of `queue_in_loop` that has not returned and will write the
eventfd. -/
def Wakes (w : EventLoop φ) (i : Nat) : Prop :=
  i ∈ w.inside ∧ (w.ownPush ≠ some i ∨ w.callingPendingFunctors = true)

structure Woken (w : EventLoop φ) : Prop where
  calling : w.callingPendingFunctors = true ↔ ∃ rest, w.pc = .running rest
  ownLt : ∀ i, w.ownPush = some i → i < w.enqueued.length
  listed : w.counter ≠ 0 → w.edge = true ∨ w.pc = .dispatch true
  owed : beforeWait w.pc = true → w.pendingFunctors ≠ [] →
    w.counter ≠ 0 ∨ ∃ i, w.Wakes i

theorem woken_init : Woken ({} : EventLoop φ) where
  calling := by simp
  ownLt := nofun
  listed := fun h => absurd rfl h
  owed := fun _ h => absurd rfl h

theorem Woken.awake {w : EventLoop φ} (hw : Woken w) : Awake w := by
  intro hpc hpending hinside
  have hcounter : w.counter ≠ 0 := by
    rcases hw.owed (by rw [hpc]; rfl) hpending with h | ⟨i, hi, -⟩
    · exact h
    · rw [hinside] at hi
      cases hi
  refine ⟨hcounter, (hw.listed hcounter).resolve_right ?_⟩
  rw [hpc]
  nofun

/-- The eventfd is written. -/
theorem Woken.wakeup {w : EventLoop φ} (hw : Woken w) : Woken w.wakeup where
  calling := hw.calling
  ownLt := hw.ownLt
  listed := fun _ => .inl rfl
  owed := fun _ _ => .inl (Nat.succ_ne_zero _)

/-- The loop thread moves on, from a place before `epoll_wait` to another or to
one with the swap ahead, and takes its hands off the flag. -/
theorem Woken.move {w : EventLoop φ} (hw : Woken w) (hown : w.ownPush = none)
    {pc : LoopPc φ} {calling edge : Bool}
    (hcalling : calling = true ↔ ∃ rest, pc = .running rest)
    (hlisted : w.counter ≠ 0 → edge = true ∨ pc = .dispatch true)
    (hbefore : beforeWait pc = true → beforeWait w.pc = true) :
    Woken { w with
      pc := pc, callingPendingFunctors := calling, edge := edge } where
  calling := hcalling
  ownLt := hw.ownLt
  listed := hlisted
  owed := by
    intro hpc hpending
    rcases hw.owed (hbefore hpc) hpending with h | ⟨i, hi, -⟩
    · exact .inl h
    · refine .inr ⟨i, hi, .inl ?_⟩
      show w.ownPush ≠ some i
      rw [hown]
      nofun

theorem Woken.pushBack {w : EventLoop φ} (hw : Woken w) {f : φ} {own : Bool}
    (hfree : w.free own = true) (hok : EntryOk w (.pushBack f own)) :
    Woken (w.pushBack f own) := by
  have hlast : (w.pushBack f own).enqueued.length = w.enqueued.length + 1 := by
    rw [EventLoop.pushBack, List.length_append]
    rfl
  refine ⟨hw.calling, ?_, hw.listed, ?_⟩
  · intro i hi
    rw [hlast]
    rw [EventLoop.pushBack] at hi
    cases own with
    | true =>
        obtain rfl : w.enqueued.length = i := by simpa using hi
        exact Nat.lt_succ_self _
    | false => exact Nat.lt_succ_of_lt (hw.ownLt i hi)
  · intro hbefore _
    cases own with
    | false =>
        -- The caller is another thread, and will write.
        refine .inr ⟨w.enqueued.length, List.mem_cons_self, .inl fun h => ?_⟩
        exact Nat.lt_irrefl _ (hw.ownLt _ h)
    | true =>
        -- The loop thread calls out: from a round, or from before the loop.
        have hout : callsOut w.pc = true ∧ w.ownPush = none := by
          simpa [free] using hfree
        replace hbefore : beforeWait w.pc = true := hbefore
        cases hpc : w.pc with
        | idle => exact .inl (hok.resolve_left fun h => h hpc)
        | running rest =>
            exact .inr ⟨w.enqueued.length, List.mem_cons_self,
              .inr (hw.calling.mpr ⟨rest, hpc⟩)⟩
        | test | wait => simp [hpc, callsOut] at hout
        | dispatch _ | done => simp [hpc, beforeWait] at hbefore

theorem Woken.pushReturn {w : EventLoop φ} (hw : Woken w) {i : Nat} :
    Woken (w.pushReturn i) := by
  have hownLt : ∀ j, (w.pushReturn i).ownPush = some j →
      j < w.enqueued.length := by
    intro j hj
    rw [EventLoop.pushReturn] at hj
    dsimp only at hj
    split at hj
    · cases hj
    · exact hw.ownLt j hj
  by_cases hwakes : (!(w.ownPush == some i) || w.callingPendingFunctors) = true
  · have hcounter : (w.pushReturn i).counter = w.counter + 1 := by
      rw [EventLoop.pushReturn]
      exact if_pos hwakes
    have hedge : (w.pushReturn i).edge = true := by
      rw [EventLoop.pushReturn]
      exact if_pos hwakes
    exact ⟨hw.calling, hownLt, fun _ => .inl hedge,
      fun _ _ => .inl (by rw [hcounter]; exact Nat.succ_ne_zero _)⟩
  · -- The loop thread's own call, and no functors are running.
    have hown : w.ownPush = some i ∧ w.callingPendingFunctors = false := by
      simpa using hwakes
    have hcounter : (w.pushReturn i).counter = w.counter := by
      rw [EventLoop.pushReturn]
      exact if_neg hwakes
    have hedge : (w.pushReturn i).edge = w.edge := by
      rw [EventLoop.pushReturn]
      exact if_neg hwakes
    refine ⟨hw.calling, hownLt, ?_, ?_⟩
    · rw [hcounter, hedge]
      exact hw.listed
    · rw [hcounter]
      intro hbefore hpending
      rcases hw.owed hbefore hpending with h | ⟨j, hj, hwill⟩
      · exact .inl h
      · have hne : j ≠ i := by
          rintro rfl
          rcases hwill with h | h
          · exact h hown.1
          · rw [hown.2] at h
            cases h
        refine .inr ⟨j, (List.mem_erase_of_ne hne).mpr hj, .inl fun h => ?_⟩
        rw [EventLoop.pushReturn, hown.1] at h
        simp at h

theorem woken_step {w w' : EventLoop φ} {l : Label φ} (hw : Woken w)
    (hok : EntryOk w l) (h : step w l = some w') : Woken w' := by
  cases step_stepped h with
  | enter hpc =>
      exact hw.move (ownPush_of_loop h) (by simp [hw.calling, hpc])
        (by simpa [hpc] using hw.listed) (by simp [hpc, beforeWait])
  | stop hpc hquit =>
      exact hw.move (ownPush_of_loop h) (by simp [hw.calling, hpc])
        (by simpa [hpc] using hw.listed) (by simp [hpc, beforeWait])
  | goOn hpc hquit =>
      exact hw.move (ownPush_of_loop h) (by simp [hw.calling, hpc])
        (by simpa [hpc] using hw.listed) (by simp [hpc, beforeWait])
  | poll others hpc hready =>
      refine hw.move (ownPush_of_loop h) (by simp [hw.calling, hpc]) ?_
        (by simp [beforeWait])
      intro hcounter
      have hedge : w.edge = true := by simpa [hpc] using hw.listed hcounter
      simp [hedge, hcounter]
  | pollFull hpc =>
      exact hw.move (ownPush_of_loop h) (by simp [hw.calling, hpc])
        (by simpa [hpc] using hw.listed) (by simp [beforeWait])
  | interrupted hpc =>
      exact hw.move (ownPush_of_loop h) (by simp [hw.calling, hpc])
        (by simpa [hpc] using hw.listed) (by simp [hpc, beforeWait])
  | handleWakeup hpc =>
      exact ⟨by simp [hw.calling, hpc], hw.ownLt, fun h => absurd rfl h,
        by simp [beforeWait]⟩
  | swap hpc =>
      exact ⟨by simp, hw.ownLt, by simpa [hpc] using hw.listed,
        fun _ h => absurd rfl h⟩
  | runNext f rest hpc =>
      refine ⟨by simp [hw.calling, hpc], hw.ownLt,
        by simpa [hpc] using hw.listed, ?_⟩
      have howed := hw.owed
      rw [hpc] at howed
      exact howed
  | endRound hpc =>
      exact hw.move (ownPush_of_loop h) (by simp)
        (by simpa [hpc] using hw.listed) (by simp [hpc, beforeWait])
  | pushBack f own hfree => exact hw.pushBack hfree hok
  | pushReturn i hi => exact hw.pushReturn
  | quit own hfree hquit =>
      exact ⟨hw.calling, hw.ownLt, hw.listed, hw.owed⟩
  | quitReturn hwake =>
      have hwritten := hw.wakeup
      exact ⟨hwritten.calling, hwritten.ownLt, hwritten.listed, hwritten.owed⟩

/-- Where the loop thread queues nothing of its own before it enters the loop,
it never blocks on a functor. -/
theorem loop_wakes {ls : List (Label φ)} {w : EventLoop φ}
    (hok : Machine.Meets step EntryOk {} ls)
    (hrun : Machine.run step {} ls = some w) : Awake w :=
  Woken.awake (Machine.run_preserves_of_meets woken_step woken_init hok hrun)

/-- A functor queued from outside before the loop and one of the loop thread's
own behind it, one queued by an event callback, and one by a functor. -/
theorem loop_wakes_nested :
    ∃ w : EventLoop Nat,
      Machine.run step {} [.pushBack 1 false, .pushReturn 0, .pushBack 2 true,
        .pushReturn 1, .loop .enter, .loop .test, .loop (.poll true),
        .loop .handleWakeup, .pushBack 3 true, .pushReturn 2, .loop .swap,
        .loop .runNext, .pushBack 4 true, .pushReturn 3, .loop .runNext,
        .loop .runNext, .loop .endRound, .loop .test] = some w ∧
      w.pc = .wait ∧ w.pendingFunctors = [4] ∧ Awake w := by
  have hrun : Machine.run step ({} : EventLoop Nat) [.pushBack 1 false,
      .pushReturn 0, .pushBack 2 true, .pushReturn 1, .loop .enter,
      .loop .test, .loop (.poll true), .loop .handleWakeup, .pushBack 3 true,
      .pushReturn 2, .loop .swap, .loop .runNext, .pushBack 4 true,
      .pushReturn 3, .loop .runNext, .loop .runNext, .loop .endRound,
      .loop .test] = some _ := rfl
  exact ⟨_, hrun, rfl, rfl, loop_wakes (by decide +kernel) hrun⟩

end GameFrame.EventLoop
