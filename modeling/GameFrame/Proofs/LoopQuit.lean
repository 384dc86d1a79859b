import GameFrame.Net.EventLoop

/-!
# What `quit()` leaves behind

Functors run in the order they were queued, and each at most once, in every
run (`Ordered`): what was run, what is swapped out and what is queued are
always the enqueues, one behind the other.

That they all run before `loop()` returns is another matter. `loop()` tests
`quit_` between the functors of one round and the `epoll_wait` of the next, so
what is queued while a round runs its functors waits for a round that does not
come if `quit_` is set first. The destructor of `TcpServer` counts on the
opposite, having queued the close of every connection just before its loops
are told to quit. The same happens when `epoll_wait` is interrupted, since the
`continue` there skips the functors, and when `quit_` is set before the loop
is entered.

`QuitOk` is the way out: at `quit()` either nothing whose enqueue has returned
is still queued, or the loop thread is past its test and will swap. Then what
was queued before is swapped out before the next test, and it all runs
(`loop_keeps`).
-/

namespace GameFrame.EventLoop

variable {φ : Type _}

/-- In order, each at most once, and, when `loop()` has returned, everything
whose enqueue had returned when `quit()` was called. -/
def Kept (w : EventLoop φ) : Prop :=
  w.executed <+: w.enqueued ∧
    (w.pc = .done → ∀ i ∈ w.beforeQuit, i < w.executed.length)

/-- When `quit()` is called, or `epoll_wait` is interrupted behind it: nothing
that has to be run is still queued, unless the swap is next. -/
def QuitOk (w : EventLoop φ) : Label φ → Prop
  | .quit _ => beforeSwap w.pc = true ∨ w.Collected w.returned
  | .loop .interrupted => w.Collected w.beforeQuit
  | _ => True

instance (w : EventLoop φ) (is : List Nat) : Decidable (w.Collected is) :=
  inferInstanceAs (Decidable (∀ i ∈ is, _))

instance (w : EventLoop φ) : ∀ l, Decidable (QuitOk w l)
  | .quit _ => inferInstanceAs (Decidable (_ ∨ _))
  | .loop .interrupted => inferInstanceAs (Decidable (w.Collected _))
  | .loop .enter | .loop .test | .loop (.poll _) | .loop .pollFull
  | .loop .handleWakeup
  | .loop .swap | .loop .runNext | .loop .endRound | .pushBack _ _
  | .pushReturn _ | .quitReturn => .isTrue trivial

/-- An enqueue in the middle of a round, and `quit()` behind it. -/
theorem quit_drops :
    ¬ ∀ (ls : List (Label Nat)) (w : EventLoop Nat),
      Machine.run step {} ls = some w → Kept w := by
  intro h
  have hrun : Machine.run step ({} : EventLoop Nat)
      [.loop .enter, .loop .test, .pushBack 1 false, .pushReturn 0,
        .loop (.poll false), .loop .handleWakeup, .loop .swap,
        .pushBack 2 false, .pushReturn 1, .quit false, .quitReturn,
        .loop .runNext, .loop .endRound, .loop .test] = some _ := rfl
  exact absurd ((h _ _ hrun).2 rfl 1 (by decide)) (by decide)

/-! ## The invariant -/

structure Inv (w : EventLoop φ) : Prop where
  /-- the enqueues in order: run, swapped out, queued -/
  ordered : w.enqueued = w.executed ++ w.swapped ++ w.pendingFunctors
  early : w.quit = false → w.beforeQuit = []
  before : ∀ i ∈ w.beforeQuit, i < w.enqueued.length
  collected : beforeSwap w.pc = true ∨ w.Collected w.beforeQuit

theorem inv_init : Inv ({} : EventLoop φ) where
  ordered := rfl
  early := fun _ => rfl
  before := fun _ hi => absurd hi List.not_mem_nil
  collected := .inr fun _ hi => absurd hi List.not_mem_nil

theorem Inv.collected_of {w : EventLoop φ} (hw : Inv w)
    (h : beforeSwap w.pc = false) : w.Collected w.beforeQuit :=
  hw.collected.resolve_left (by rw [h]; exact Bool.false_ne_true)

/-- A step that only moves the loop thread, with nothing swapped out on either
side, keeps the order. -/
theorem Inv.ordered_of {w : EventLoop φ} (hw : Inv w) (h : w.swapped = []) :
    w.enqueued = w.executed ++ [] ++ w.pendingFunctors := by
  rw [← h]
  exact hw.ordered

theorem lt_of_mem_returned {w : EventLoop φ} {i : Nat}
    (h : i ∈ w.returned) : i < w.enqueued.length :=
  List.mem_range.mp (List.mem_filter.mp h).1

theorem Inv.step {w w' : EventLoop φ} {l : Label φ} (hw : Inv w)
    (hok : QuitOk w l) (h : Stepped w l w') : Inv w' := by
  cases h with
  | enter hpc =>
      have hswap : w.swapped = [] := by rw [swapped, hpc]
      exact ⟨hw.ordered_of hswap, hw.early, hw.before,
        .inr (hw.collected_of (by rw [hpc]; rfl))⟩
  | stop hpc hquit =>
      have hswap : w.swapped = [] := by rw [swapped, hpc]
      exact ⟨hw.ordered_of hswap, hw.early, hw.before,
        .inr (hw.collected_of (by rw [hpc]; rfl))⟩
  | goOn hpc hquit =>
      have hswap : w.swapped = [] := by rw [swapped, hpc]
      exact ⟨hw.ordered_of hswap, hw.early, hw.before, .inl rfl⟩
  | poll others hpc hready =>
      have hswap : w.swapped = [] := by rw [swapped, hpc]
      exact ⟨hw.ordered_of hswap, hw.early, hw.before, .inl rfl⟩
  | pollFull hpc =>
      have hswap : w.swapped = [] := by rw [swapped, hpc]
      exact ⟨hw.ordered_of hswap, hw.early, hw.before, .inl rfl⟩
  | interrupted hpc =>
      have hswap : w.swapped = [] := by rw [swapped, hpc]
      exact ⟨hw.ordered_of hswap, hw.early, hw.before, .inr hok⟩
  | handleWakeup hpc =>
      have hswap : w.swapped = [] := by rw [swapped, hpc]
      exact ⟨hw.ordered_of hswap, hw.early, hw.before, .inl rfl⟩
  | swap hpc =>
      have hswap : w.swapped = [] := by rw [swapped, hpc]
      refine ⟨?_, hw.early, hw.before, .inr hw.before⟩
      rw [hw.ordered_of hswap, List.append_nil]
      exact (List.append_nil _).symm
  | runNext f rest hpc =>
      have hswap : w.swapped = f :: rest := by rw [swapped, hpc]
      refine ⟨?_, hw.early, hw.before,
        .inr (hw.collected_of (by rw [hpc]; rfl))⟩
      show w.enqueued = w.executed ++ [f] ++ rest ++ w.pendingFunctors
      rw [hw.ordered, hswap, List.append_assoc w.executed [f]]
      rfl
  | endRound hpc =>
      have hswap : w.swapped = [] := by rw [swapped, hpc]
      exact ⟨hw.ordered_of hswap, hw.early, hw.before,
        .inr (hw.collected_of (by rw [hpc]; rfl))⟩
  | pushBack f own hfree =>
      refine ⟨?_, hw.early, fun i hi => ?_, hw.collected.imp_right ?_⟩
      · show w.enqueued ++ [f] =
          w.executed ++ w.swapped ++ (w.pendingFunctors ++ [f])
        rw [hw.ordered, List.append_assoc _ w.pendingFunctors]
      · show i < (w.enqueued ++ [f]).length
        have := hw.before i hi
        rw [List.length_append]
        omega
      · intro hcollected i hi
        have := hcollected i hi
        show i + (w.pendingFunctors ++ [f]).length < (w.enqueued ++ [f]).length
        rw [List.length_append, List.length_append]
        omega
  | pushReturn i hi =>
      exact ⟨hw.ordered, hw.early, hw.before, hw.collected⟩
  | quit own hfree hquit =>
      exact ⟨hw.ordered, nofun, fun i hi => lt_of_mem_returned hi, hok⟩
  | quitReturn hwake =>
      exact ⟨hw.ordered, hw.early, hw.before, hw.collected⟩

theorem Inv.kept {w : EventLoop φ} (hw : Inv w) : Kept w := by
  refine ⟨⟨w.swapped ++ w.pendingFunctors, ?_⟩, fun hpc i hi => ?_⟩
  · rw [hw.ordered, List.append_assoc]
  · have hswap : w.swapped = [] := by rw [swapped, hpc]
    have hlt := hw.collected_of (by rw [hpc]; rfl) i hi
    rw [hw.ordered, hswap, List.append_nil, List.length_append] at hlt
    omega

/-- In a run whose `quit()` and whose interruptions come at a good moment,
nothing is left behind. -/
theorem loop_keeps {ls : List (Label φ)} {w : EventLoop φ}
    (hok : Machine.Meets step QuitOk {} ls)
    (hrun : Machine.run step {} ls = some w) : Kept w :=
  Inv.kept (Machine.run_preserves_of_meets
    (fun hw hok h => Inv.step hw hok (step_stepped h)) inv_init hok hrun)

/-- The same functor, queued while the loop waits, and `quit()` behind it. -/
theorem loop_keeps_waiting :
    ∃ w : EventLoop Nat,
      Machine.run step {} [.loop .enter, .loop .test, .pushBack 1 false,
        .pushReturn 0, .quit false, .loop (.poll false), .loop .handleWakeup,
        .loop .swap, .loop .runNext, .quitReturn, .loop .endRound,
        .loop .test] = some w ∧
      w.pc = .done ∧ w.executed = [1] ∧ Kept w := by
  have hrun : Machine.run step ({} : EventLoop Nat) [.loop .enter, .loop .test,
      .pushBack 1 false, .pushReturn 0, .quit false, .loop (.poll false),
      .loop .handleWakeup, .loop .swap, .loop .runNext, .quitReturn,
      .loop .endRound, .loop .test] = some _ := rfl
  exact ⟨_, hrun, rfl, rfl, loop_keeps (by decide +kernel) hrun⟩

end GameFrame.EventLoop
