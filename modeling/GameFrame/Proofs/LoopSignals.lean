import GameFrame.Net.LoopSignals

/-!
# Quitting wakes the loop, or finds it awake

`quit()` saves the write of the eventfd on the loop thread, since a callback
that calls it is followed by the test of `quit_`. A signal handler is on the
loop thread too, but between any two of its steps, and there are two with no
test behind the first: the test itself, and `epoll_wait`. A signal that comes
between them sets `quit_` for nobody to see, and the loop blocks on a program
that was told to end (`signal_lost`).

The handlers are installed without `SA_RESTART`, so that `epoll_wait` is
interrupted and `quit_` seen at once, as it says there. This is what happens
everywhere else (`SignalOk`), and then whoever quits is heard (`Heard`).
-/

namespace GameFrame.SignalLoop

variable {φ : Type _}

/-- The loop thread does not block in `epoll_wait`: it is interrupted, or finds
the eventfd readable, now or when the `quit()` that is under way has written
it. If it is not there, it does not come there. -/
structure Leaves (w : SignalLoop φ) : Prop where
  returns : w.loop.pc = .wait →
    w.interrupted = true ∨ w.readable = true ∨ 0 < w.quitting
  stays : ∀ l w', step w l = some w' →
    w'.loop.quit = true ∧ (w'.loop.pc = .wait → w.loop.pc = .wait)

/-- No signal comes between the test of `quit_` and `epoll_wait`, if nothing
else is going to wake the loop. -/
def SignalOk (w : SignalLoop φ) : Label φ → Prop
  | .signal => w.loop.pc = .wait →
      w.entered = true ∨ w.readable = true ∨ 0 < w.quitting
  | _ => True

instance [DecidableEq φ] (w : SignalLoop φ) : ∀ l, Decidable (SignalOk w l)
  | .signal => inferInstanceAs (Decidable (_ → _))
  | .loop _ | .enterWait | .pushBack .. | .pushReturn _ | .quit _
  | .quitReturn => .isTrue trivial

/-- A signal behind the test of `quit_`. -/
theorem signal_lost :
    ¬ ∀ (ls : List (Label Nat)) (w : SignalLoop Nat),
      Machine.run step {} ls = some w → w.loop.quit = true → Leaves w := by
  intro hall
  have hrun : Machine.run step ({} : SignalLoop Nat)
      [.loop .enter, .loop .test, .signal] = some _ := rfl
  have hleaves := hall _ _ hrun rfl
  exact absurd (hleaves.returns rfl) (by decide)

/-- A step of the loop thread does not bring it to `epoll_wait` once `quit_` is
set. -/
theorem loopStep_stays {w w' : EventLoop φ} {s : EventLoop.LoopStep}
    (hquit : w.quit = true) (h : w.loopStep s = some w') :
    w'.quit = true ∧ w'.pc ≠ .wait := by
  cases EventLoop.loopStep_stepped h with
  | goOn _ hnot =>
      rw [hquit] at hnot
      cases hnot
  | enter | stop | poll | pollFull | interrupted | handleWakeup | swap
  | runNext | endRound => exact ⟨hquit, nofun⟩

theorem stays_step {w w' : SignalLoop φ} {l : Label φ}
    (hquit : w.loop.quit = true) (h : step w l = some w') :
    w'.loop.quit = true ∧ (w'.loop.pc = .wait → w.loop.pc = .wait) := by
  cases step_stepped h with
  | loop s l _ _ hl =>
      obtain ⟨hquit', hpc⟩ := loopStep_stays hquit hl
      exact ⟨hquit', fun hwait => absurd hwait hpc⟩
  | quitOwn | quitOther | signal => exact ⟨rfl, id⟩
  | enterWait | pushBack | pushReturn | quitReturn => exact ⟨hquit, id⟩

/-- Once `quit_` is set, something is there to make `epoll_wait` return. -/
structure Heard (w : SignalLoop φ) : Prop where
  inside : w.interrupted = true → w.entered = true
  heard : w.loop.quit = true → w.loop.pc = .wait →
    w.interrupted = true ∨ w.readable = true ∨ 0 < w.quitting

theorem heard_init : Heard ({} : SignalLoop φ) := ⟨nofun, nofun⟩

/-- What the other threads do to the eventfd makes it readable. -/
theorem readable_pushReturn {w : SignalLoop φ} (i : Nat)
    (h : w.readable = true) :
    readable { w with loop := w.loop.pushReturn i } = true := by
  simp only [readable, EventLoop.pushReturn, EventLoop.wakeup,
    Bool.and_eq_true, bne_iff_ne] at h ⊢
  split
  · exact ⟨rfl, Nat.succ_ne_zero _⟩
  · exact h

theorem heard_step {w w' : SignalLoop φ} {l : Label φ} (hw : Heard w)
    (hok : SignalOk w l) (h : step w l = some w') : Heard w' := by
  cases step_stepped h with
  | loop s l _ _ hl =>
      refine ⟨nofun, fun hquit hpc => ?_⟩
      cases EventLoop.loopStep_stepped hl with
      | goOn _ hnot => exact absurd (hnot.symm.trans hquit) (by simp)
      | enter | stop | poll | pollFull | interrupted | handleWakeup | swap
      | runNext | endRound => cases hpc
  | enterWait => exact ⟨fun _ => rfl, hw.heard⟩
  | pushBack => exact ⟨hw.inside, hw.heard⟩
  | pushReturn i =>
      refine ⟨hw.inside, fun hquit hpc => ?_⟩
      rcases hw.heard hquit hpc with hint | hread | hquitting
      · exact .inl hint
      · exact .inr (.inl (readable_pushReturn i hread))
      · exact .inr (.inr hquitting)
  | quitOwn hfree =>
      -- It was called from a callback, and not from `epoll_wait`.
      refine ⟨hw.inside, fun _ hpc => ?_⟩
      have hpc : w.loop.pc = .wait := hpc
      simp [EventLoop.free, EventLoop.callsOut, hpc] at hfree
  | quitOther =>
      exact ⟨hw.inside, fun _ _ => .inr (.inr (Nat.succ_pos _))⟩
  | quitReturn =>
      refine ⟨hw.inside, fun _ _ => .inr (.inl ?_)⟩
      simp [readable, EventLoop.wakeup]
  | signal =>
      refine ⟨fun hint => ?_, fun _ hpc => ?_⟩
      · rcases (Bool.or_eq_true _ _).mp hint with hint | hentered
        · exact hw.inside hint
        · exact hentered
      · rcases hok hpc with hentered | hread | hquitting
        · left
          simp [hentered]
        · exact .inr (.inl hread)
        · exact .inr (.inr hquitting)

theorem Heard.leaves {w : SignalLoop φ} (hw : Heard w)
    (hquit : w.loop.quit = true) : Leaves w :=
  ⟨hw.heard hquit, fun _ _ h => stays_step hquit h⟩

/-- A signal that leaves the loop thread a way out has not come at the wrong
moment. -/
theorem signalOk_of_leaves {w w' : SignalLoop φ} {l : Label φ} (hw : Heard w)
    (h : step w l = some w') (hleaves : w'.loop.quit = true → Leaves w') :
    SignalOk w l := by
  cases step_stepped h with
  | signal =>
      intro hpc
      rcases (hleaves rfl).returns hpc with hint | hlater
      · left
        rcases (Bool.or_eq_true _ _).mp hint with hint | hentered
        · exact hw.inside hint
        · exact hentered
      · exact .inr hlater
  | loop | enterWait | pushBack | pushReturn | quitOwn | quitOther
  | quitReturn => trivial

/-- The loop thread does not block once `quit_` is set, at any time of a run, if
and only if no signal comes at the wrong moment. -/
theorem quit_heard_iff {ls : List (Label φ)} {w : SignalLoop φ}
    (hrun : Machine.run step {} ls = some w) :
    (∀ k u, Machine.run step {} (ls.take k) = some u →
      u.loop.quit = true → Leaves u) ↔ Machine.Meets step SignalOk {} ls :=
  (Machine.meets_iff heard_step Heard.leaves signalOk_of_leaves heard_init
    hrun).symm

/-- A signal in `epoll_wait`, which is interrupted. -/
theorem quit_heard_iff_signal :
    ∃ w : SignalLoop Nat, Machine.run step ({} : SignalLoop Nat)
        [.loop .enter, .loop .test, .enterWait, .signal] = some w ∧
      w.loop.quit = true ∧ Leaves w := by
  have hrun : Machine.run step ({} : SignalLoop Nat)
      [.loop .enter, .loop .test, .enterWait, .signal] = some _ := rfl
  exact ⟨_, hrun, rfl,
    (quit_heard_iff hrun).mpr (by decide +kernel) 4 _ hrun rfl⟩

end GameFrame.SignalLoop
