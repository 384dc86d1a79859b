import GameFrame.Net.EventLoopThread

/-!
# The thread is joined, if nobody else has ended it

`~EventLoopThread` takes a null `loop_` to mean that there is no thread. That
is so before `start_loop()`, but `thread_func` sets it to null again when the
loop has been told to quit by somebody else, and then the destructor leaves a
thread behind that nobody has joined (`thread_left`). As `thread_` is joinable
then, its own destructor ends the process. When the loop ends while the
destructor is between its test and its call, the call goes to a loop that is
not there. And the destructor's own `quit()` ends the loop with its store, so
if the loop is awake it may be gone before `quit()` has come to its end.

Everything goes by when the loop notices that it has been quit. Until the
destructor's `quit()` has returned it must not, whoever has quit it (`QuitOk`).
Then the two threads are never in each other's way (`dtor_joins`), and from
where it does, there is a way to what must not happen. It does not if nobody
else quits the loop, and the loop is not at its test while the destructor does
(`alone_sound`).
-/

namespace GameFrame.EventLoopThread

variable {φ : Type _}

/-- Behind the destructor there is no thread to be joined, and its `quit()` was
called where there is a loop, which was there until it returned. -/
structure Sound (s : EventLoopThread φ) : Prop where
  joined : s.owner = .returned → s.joinable = false
  aimed : s.owner ≠ .crashed
  held : s.owner ≠ .dangling

/-- When the loop tests `quit_` and finds it set, by whomever, the destructor's
`quit()` has returned. -/
def QuitOk (s : EventLoopThread φ) : Label φ → Prop
  | .inner (.loop .test) => s.loop.loop.quit = true → s.owner = .joining
  | _ => True

instance (s : EventLoopThread φ) : ∀ l, Decidable (QuitOk s l)
  | .inner (.loop .test) => inferInstanceAs (Decidable (_ → _))
  | .owner _ | .thread _ | .inner (.loop .enter) | .inner (.loop (.poll _))
  | .inner (.loop .pollFull) | .inner (.loop .interrupted)
  | .inner (.loop .handleWakeup) | .inner (.loop .swap)
  | .inner (.loop .runNext) | .inner (.loop .endRound) | .inner .enterWait
  | .inner (.pushBack _ _) | .inner (.pushReturn _) | .inner (.quit _)
  | .inner .quitReturn | .inner .signal => .isTrue trivial

/-- A loop that has been quit before its owner is destroyed. -/
def quitBefore : List (Label Nat) :=
  [.owner .startLoop, .thread .construct, .thread .publish,
    .owner .startReturn, .inner (.quit false), .inner .quitReturn,
    .inner (.loop .enter), .inner (.loop .test), .thread .loopReturn,
    .thread .clear, .thread .destroy, .owner .destroy, .owner .test]

theorem thread_left :
    ¬ ∀ (ls : List (Label Nat)) (s : EventLoopThread Nat),
      Machine.run step {} ls = some s → Sound s := by
  intro hall
  have hrun : Machine.run step ({} : EventLoopThread Nat) quitBefore =
      some _ := rfl
  exact absurd ((hall _ _ hrun).joined rfl) (by decide)

/-! ## Where the two threads are -/

/-- The owner has begun to start the thread and has not joined it. -/
def holds : OwnerPc → Bool
  | .starting | .started | .testing | .loading | .storing | .waking
  | .joining => true
  | .fresh | .returned | .crashed | .dangling => false

/-- The owner and the thread can be there at once, with `thread_` joinable or
not. The thread is in `loop()` until the owner is at the `join`. -/
inductive Placed : OwnerPc → ThreadPc → Bool → Prop where
  | fresh : Placed .fresh .none false
  | unstarted : Placed .testing .none false
  | nothing : Placed .returned .none false
  | constructing : Placed .starting .constructing true
  | publishing : Placed .starting .publishing true
  | looping {o : OwnerPc} : holds o = true → Placed o .looping true
  | clearing : Placed .joining .clearing true
  | destroying : Placed .joining .destroying true
  | finished : Placed .joining .finished true
  | joined : Placed .returned .finished false

/-- Whether `loop_` is set. -/
def published : ThreadPc → Bool
  | .looping | .clearing => true
  | .none | .constructing | .publishing | .destroying | .finished => false

/-- The loop ends behind the destructor's `quit()`. -/
structure Good (s : EventLoopThread φ) : Prop where
  placed : Placed s.owner s.thread s.joinable
  ptr : s.loopPtr = published s.thread
  ended : s.loop.loop.pc = .done → s.owner = .joining ∨ s.owner = .returned

theorem good_init : Good ({} : EventLoopThread φ) where
  placed := .fresh
  ptr := rfl
  ended := nofun

theorem Placed.sound {o : OwnerPc} {t : ThreadPc} {j : Bool}
    (h : Placed o t j) :
    (o = .returned → j = false) ∧ o ≠ .crashed ∧ o ≠ .dangling := by
  cases h with
  | looping hholds =>
      refine ⟨?_, ?_, ?_⟩
      · rintro rfl
        cases hholds
      · rintro rfl
        cases hholds
      · rintro rfl
        cases hholds
  | fresh | unstarted | nothing | constructing | publishing | clearing
  | destroying | finished | joined => simp

theorem Good.sound {s : EventLoopThread φ} (hs : s.Good) : s.Sound := by
  obtain ⟨hjoined, haimed, hheld⟩ := hs.placed.sound
  exact ⟨hjoined, haimed, hheld⟩

/-! ## The steps -/

/-- With the owner here, the thread is in `loop()`. -/
theorem Placed.inLoop {o : OwnerPc} {t : ThreadPc} {j : Bool}
    (h : Placed o t j) (ho : o = .started ∨ o = .loading ∨ o = .storing ∨
      o = .waking) : t = .looping ∧ j = true := by
  cases h with
  | looping => exact ⟨rfl, rfl⟩
  | fresh | unstarted | nothing | constructing | publishing | clearing
  | destroying | finished | joined => simp at ho

theorem Good.move {s : EventLoopThread φ} (hs : s.Good) {o : OwnerPc}
    (hplaced : Placed o s.thread s.joinable) (hbefore : s.owner ≠ .joining)
    (hnot : s.owner ≠ .returned) : Good { s with owner := o } where
  placed := hplaced
  ptr := hs.ptr
  ended := fun hpc => ((hs.ended hpc).elim hbefore hnot).elim

theorem Good.ownerStep {s s' : EventLoopThread φ} {o : OwnerStep} (hs : s.Good)
    (h : s.ownerStep o = some s') : s'.Good := by
  have hplaced := hs.placed
  cases ownerStep_stepped h with
  | startLoop howner =>
      rw [howner] at hplaced
      refine ⟨.constructing, ?_, fun hpc => ?_⟩
      · show s.loopPtr = false
        rw [hs.ptr]
        generalize s.thread = t, s.joinable = j at hplaced ⊢
        cases hplaced with
        | fresh => rfl
        | looping hholds => cases hholds
      · have hlate := hs.ended hpc
        rw [howner] at hlate
        simp at hlate
  | startReturn howner hset =>
      refine hs.move ?_ (by simp [howner]) (by simp [howner])
      rw [howner] at hplaced
      rw [hs.ptr] at hset
      generalize s.thread = t, s.joinable = j at hplaced hset ⊢
      cases hplaced with
      | looping => exact .looping rfl
      | constructing | publishing => cases hset
  | destroy howner =>
      rcases howner with howner | howner
      · refine hs.move ?_ (by simp [howner]) (by simp [howner])
        rw [howner] at hplaced
        generalize s.thread = t, s.joinable = j at hplaced ⊢
        cases hplaced with
        | fresh => exact .unstarted
        | looping hholds => cases hholds
      · refine hs.move ?_ (by simp [howner]) (by simp [howner])
        obtain ⟨hthread, hjoin⟩ := hplaced.inLoop (.inl howner)
        rw [hthread, hjoin]
        exact .looping rfl
  | tested howner hset =>
      refine hs.move ?_ (by simp [howner]) (by simp [howner])
      rw [howner] at hplaced
      rw [hs.ptr] at hset
      generalize s.thread = t, s.joinable = j at hplaced hset ⊢
      cases hplaced with
      | looping => exact .looping rfl
      | unstarted => cases hset
  | testedNull howner hnull =>
      refine hs.move ?_ (by simp [howner]) (by simp [howner])
      rw [howner] at hplaced
      rw [hs.ptr] at hnull
      generalize s.thread = t, s.joinable = j at hplaced hnull ⊢
      cases hplaced with
      | looping => cases hnull
      | unstarted => exact .nothing
  | loaded howner =>
      refine hs.move ?_ (by simp [howner]) (by simp [howner])
      obtain ⟨hthread, hjoin⟩ := hplaced.inLoop (by simp [howner])
      rw [hthread, hjoin]
      exact .looping rfl
  | loadedNull howner hnull =>
      rw [hs.ptr, (hplaced.inLoop (by simp [howner])).1] at hnull
      cases hnull
  | stored howner =>
      obtain ⟨hthread, hjoin⟩ := hplaced.inLoop (by simp [howner])
      refine ⟨?_, hs.ptr, fun hpc => ?_⟩
      · show Placed .waking s.thread s.joinable
        rw [hthread, hjoin]
        exact .looping rfl
      · have hlate := hs.ended hpc
        rw [howner] at hlate
        simp at hlate
  | storedGone howner hgone | wokenGone howner hgone =>
      rw [(hplaced.inLoop (by simp [howner])).1] at hgone
      cases hgone
  | woken howner =>
      obtain ⟨hthread, hjoin⟩ := hplaced.inLoop (by simp [howner])
      refine ⟨?_, hs.ptr, fun _ => .inl rfl⟩
      show Placed .joining s.thread s.joinable
      rw [hthread, hjoin]
      exact .looping rfl
  | joined howner hthread =>
      refine ⟨?_, hs.ptr, fun _ => .inr rfl⟩
      show Placed .returned s.thread false
      rw [hthread]
      exact .joined

theorem Good.threadStep {s s' : EventLoopThread φ} {t : ThreadStep}
    (hs : s.Good) (h : s.threadStep t = some s') : s'.Good := by
  have hplaced := hs.placed
  cases threadStep_stepped h with
  | construct hthread =>
      refine ⟨?_, ?_, nofun⟩
      · show Placed s.owner .publishing s.joinable
        rw [hthread] at hplaced
        generalize s.owner = o, s.joinable = j at hplaced ⊢
        cases hplaced
        exact .publishing
      · show s.loopPtr = false
        rw [hs.ptr, hthread]
        rfl
  | publish hthread =>
      refine ⟨?_, rfl, hs.ended⟩
      show Placed s.owner .looping s.joinable
      rw [hthread] at hplaced
      generalize s.owner = o, s.joinable = j at hplaced ⊢
      cases hplaced
      exact .looping rfl
  | loopReturn hthread hpc =>
      -- The loop has ended, so the destructor's `quit()` has returned.
      have hlate := hs.ended hpc
      refine ⟨?_, ?_, hs.ended⟩
      · show Placed s.owner .clearing s.joinable
        rw [hthread] at hplaced
        generalize s.owner = o, s.joinable = j at hplaced hlate ⊢
        cases hplaced with
        | looping hholds =>
            rcases hlate with rfl | rfl
            · exact .clearing
            · cases hholds
      · show s.loopPtr = true
        rw [hs.ptr, hthread]
        rfl
  | clear hthread =>
      refine ⟨?_, rfl, hs.ended⟩
      show Placed s.owner .destroying s.joinable
      rw [hthread] at hplaced
      generalize s.owner = o, s.joinable = j at hplaced ⊢
      cases hplaced
      exact .destroying
  | destroy hthread =>
      refine ⟨?_, ?_, hs.ended⟩
      · show Placed s.owner .finished s.joinable
        rw [hthread] at hplaced
        generalize s.owner = o, s.joinable = j at hplaced ⊢
        cases hplaced
        exact .finished
      · show s.loopPtr = false
        rw [hs.ptr, hthread]
        rfl

/-- The loop ends where it finds that it has been quit. -/
theorem done_step {w w' : SignalLoop φ} {l : SignalLoop.Label φ}
    (h : w.step l = some w') (hdone : w'.loop.pc = .done) :
    w.loop.pc = .done ∨ l = .loop .test ∧ w.loop.quit = true := by
  cases SignalLoop.step_stepped h with
  | loop s l _ _ hloop =>
      cases EventLoop.loopStep_stepped hloop with
      | stop _ hquit => exact .inr ⟨rfl, hquit⟩
      | enter | goOn | poll | pollFull | interrupted | handleWakeup | swap
      | runNext | endRound => cases hdone
  | enterWait | pushBack | pushReturn | quitOwn | quitOther | quitReturn
  | signal => exact .inl hdone

theorem good_step {s s' : EventLoopThread φ} {l : Label φ} (hs : s.Good)
    (hok : s.QuitOk l) (h : s.step l = some s') : s'.Good := by
  cases l with
  | owner o => exact hs.ownerStep h
  | thread t => exact hs.threadStep h
  | inner l =>
      obtain ⟨-, loop, hloop, rfl⟩ := inner_step h
      refine ⟨hs.placed, hs.ptr, fun hpc => ?_⟩
      rcases done_step hloop hpc with hdone | ⟨rfl, hquit⟩
      · exact hs.ended hdone
      · exact .inl (hok hquit)

/-! ## A loop that ends too early -/

/-- The thread comes back from `loop()` and clears `loop_`. -/
theorem leave_run {s : EventLoopThread φ} (hthread : s.thread = .looping)
    (hpc : s.loop.loop.pc = .done) :
    Machine.run step s [.thread .loopReturn, .thread .clear] =
      some { s with thread := .destroying, loopPtr := false } := by
  simp [Machine.run_cons, step, threadStep, hthread, hpc]

/-- From anywhere in front of the `join` it comes to what must not happen. -/
theorem unsound_run {s : EventLoopThread φ} (hs : s.Good)
    (hthread : s.thread = .looping) (howner : s.owner ≠ .joining)
    {loop : SignalLoop φ} (hpc : loop.loop.pc = .done) :
    ∃ ms t, Machine.run step { s with loop := loop } ms = some t ∧
      ¬ t.Sound := by
  obtain ⟨owner, thread, ptr, joinable, loop₀⟩ := s
  cases hthread
  obtain ⟨hplaced, hptr, -⟩ := hs
  obtain rfl : ptr = true := hptr
  cases hplaced with
  | looping hholds =>
      have hleave := fun o => leave_run (s := ({
        owner := o, thread := .looping, loopPtr := true, joinable := true,
        loop := loop } : EventLoopThread φ)) rfl hpc
      cases owner with
      | joining => exact absurd rfl howner
      | fresh | returned | crashed | dangling => cases hholds
      | starting =>
          refine ⟨[.owner .startReturn, .owner .destroy] ++
            ([.thread .loopReturn, .thread .clear] ++ [.owner .test]), _,
            Machine.run_append_some.mpr ⟨_, rfl,
              Machine.run_append_some.mpr ⟨_, hleave .testing, rfl⟩⟩, ?_⟩
          exact fun ht => nomatch ht.joined rfl
      | started =>
          refine ⟨[.owner .destroy] ++
            ([.thread .loopReturn, .thread .clear] ++ [.owner .test]), _,
            Machine.run_append_some.mpr ⟨_, rfl,
              Machine.run_append_some.mpr ⟨_, hleave .testing, rfl⟩⟩, ?_⟩
          exact fun ht => nomatch ht.joined rfl
      | testing =>
          refine ⟨[.thread .loopReturn, .thread .clear] ++ [.owner .test], _,
            Machine.run_append_some.mpr ⟨_, hleave .testing, rfl⟩, ?_⟩
          exact fun ht => nomatch ht.joined rfl
      | loading =>
          refine ⟨[.thread .loopReturn, .thread .clear] ++ [.owner .load], _,
            Machine.run_append_some.mpr ⟨_, hleave .loading, rfl⟩, ?_⟩
          exact fun ht => ht.aimed rfl
      | storing =>
          refine ⟨[.thread .loopReturn, .thread .clear] ++
            [.thread .destroy, .owner .store], _,
            Machine.run_append_some.mpr ⟨_, hleave .storing, rfl⟩, ?_⟩
          exact fun ht => ht.aimed rfl
      | waking =>
          refine ⟨[.thread .loopReturn, .thread .clear] ++
            [.thread .destroy, .owner .wake], _,
            Machine.run_append_some.mpr ⟨_, hleave .waking, rfl⟩, ?_⟩
          exact fun ht => ht.held rfl

/-- A loop that notices too early that it has been quit. -/
theorem quitOk_needed {s s' : EventLoopThread φ} {l : Label φ} (hs : s.Good)
    (h : step s l = some s') (hbad : ¬ s.QuitOk l) :
    ∃ ms t, Machine.run step s' ms = some t ∧ ¬ t.Sound := by
  obtain ⟨rfl, hquit, howner⟩ : l = .inner (.loop .test) ∧
      s.loop.loop.quit = true ∧ s.owner ≠ .joining := by
    unfold QuitOk at hbad
    split at hbad
    · exact ⟨rfl, Classical.not_imp.mp hbad⟩
    · exact absurd trivial hbad
  obtain ⟨hin, loop, hloop, rfl⟩ := inner_step h
  refine unsound_run hs (beq_iff_eq.mp hin) howner ?_
  cases SignalLoop.step_stepped hloop with
  | loop s l _ _ hstep =>
      cases EventLoop.loopStep_stepped hstep with
      | stop => rfl
      | goOn _ hnot => cases hnot.symm.trans hquit

/-- In a run in which the loop does not notice before the destructor's `quit()`
has returned, the thread is joined and no loop is used that is not there. From
where it does notice, the run can be led to the one or the other. -/
theorem dtor_joins {ls : List (Label φ)} {s : EventLoopThread φ}
    (hok : Machine.Meets step QuitOk {} ls)
    (hrun : Machine.run step {} ls = some s) :
    s.Sound ∧ ∀ l s', step s l = some s' → ¬ s.QuitOk l →
      ∃ ms t, Machine.run step s' ms = some t ∧ ¬ t.Sound := by
  have hs : s.Good :=
    Machine.run_preserves_of_meets good_step good_init hok hrun
  exact ⟨hs.sound, fun l s' h hbad => quitOk_needed hs h hbad⟩

/-- One that is started and destroyed. -/
theorem dtor_joins_alone :
    ∃ s, Machine.run step ({} : EventLoopThread Nat)
        [.owner .startLoop, .thread .construct, .thread .publish,
          .owner .startReturn, .inner (.loop .enter), .inner (.loop .test),
          .inner .enterWait, .owner .destroy, .owner .test, .owner .load,
          .owner .store, .owner .wake, .inner (.loop (.poll false)),
          .inner (.loop .handleWakeup), .inner (.loop .swap),
          .inner (.loop .endRound), .inner (.loop .test), .thread .loopReturn,
          .thread .clear, .thread .destroy, .owner .join] = some s ∧
      s.owner = .returned ∧ Sound s := by
  have hrun : Machine.run step ({} : EventLoopThread Nat)
      [.owner .startLoop, .thread .construct, .thread .publish,
        .owner .startReturn, .inner (.loop .enter), .inner (.loop .test),
        .inner .enterWait, .owner .destroy, .owner .test, .owner .load,
        .owner .store, .owner .wake, .inner (.loop (.poll false)),
        .inner (.loop .handleWakeup), .inner (.loop .swap),
        .inner (.loop .endRound), .inner (.loop .test), .thread .loopReturn,
        .thread .clear, .thread .destroy, .owner .join] = some _ := rfl
  exact ⟨_, hrun, rfl, (dtor_joins (by decide +kernel) hrun).1⟩

/-! ## The only one who quits -/

/-- Nobody else quits the loop before the destructor's `quit()` has returned,
and from its store to its wake-up the loop does not come to its test. -/
def Alone (s : EventLoopThread φ) : Label φ → Prop
  | .inner (.quit _) | .inner .signal => s.owner = .joining
  | .inner (.loop .test) => s.owner ≠ .waking
  | _ => True

/-- It was the destructor who has quit the loop. -/
structure Sole (s : EventLoopThread φ) : Prop where
  good : s.Good
  quit : s.loop.loop.quit = true →
    s.owner = .waking ∨ s.owner = .joining ∨ s.owner = .returned

theorem Sole.quitOk {s s' : EventLoopThread φ} {l : Label φ} (hs : s.Sole)
    (hl : s.Alone l) (h : step s l = some s') : s.QuitOk l := by
  unfold QuitOk
  split
  · intro hquit
    have hin : s.thread = .looping := beq_iff_eq.mp (inner_step h).1
    rcases hs.quit hquit with howner | howner | howner
    · exact absurd howner hl
    · exact howner
    · have hplaced := hs.good.placed
      rw [hin, howner] at hplaced
      generalize s.joinable = j at hplaced
      cases hplaced with
      | looping hholds => cases hholds
  · trivial

/-- A step of the loop that is not a quit. -/
theorem quit_inner {s : EventLoopThread φ} {w w' : SignalLoop φ}
    {l : SignalLoop.Label φ} (h : w.step l = some w')
    (hl : s.Alone (.inner l)) :
    w'.loop.quit = w.loop.quit ∨ s.owner = .joining := by
  cases SignalLoop.step_stepped h with
  | loop s l _ _ hloop =>
      cases EventLoop.loopStep_stepped hloop with
      | enter | stop | goOn | poll | pollFull | interrupted | handleWakeup
      | swap | runNext | endRound => exact .inl rfl
  | enterWait | pushBack | pushReturn | quitReturn => exact .inl rfl
  | quitOwn | quitOther | signal => exact .inr hl

theorem Sole.step {s s' : EventLoopThread φ} {l : Label φ} (hs : s.Sole)
    (hl : s.Alone l) (h : step s l = some s') : s'.Sole := by
  refine ⟨good_step hs.good (hs.quitOk hl h) h, ?_⟩
  cases l with
  | owner o =>
      cases ownerStep_stepped h with
      | stored => exact fun _ => .inl rfl
      | woken => exact fun _ => .inr (.inl rfl)
      | joined => exact fun _ => .inr (.inr rfl)
      | startLoop howner | startReturn howner | tested howner
      | testedNull howner | loaded howner | loadedNull howner
      | storedGone howner =>
          intro hquit
          have hlate := hs.quit hquit
          rw [howner] at hlate
          simp at hlate
      | destroy howner =>
          intro hquit
          have hlate := hs.quit hquit
          rcases howner with howner | howner <;> rw [howner] at hlate <;>
            simp at hlate
      | wokenGone howner hgone =>
          have hin := (hs.good.placed.inLoop (by simp [howner])).1
          rw [hin] at hgone
          cases hgone
  | thread t =>
      cases threadStep_stepped h with
      | construct => exact nofun
      | publish | loopReturn | clear | destroy => exact hs.quit
  | inner l =>
      obtain ⟨-, loop, hloop, rfl⟩ := inner_step h
      intro hquit
      rcases quit_inner hloop hl with hsame | howner
      · exact hs.quit (hsame ▸ hquit)
      · exact .inr (.inl howner)

/-- So the thread is joined when nobody else quits the loop, and the loop waits
while the destructor does. -/
theorem alone_sound {ls : List (Label φ)} {s : EventLoopThread φ}
    (hok : Machine.Meets step Alone {} ls)
    (hrun : Machine.run step {} ls = some s) : s.Sound := by
  have hsole : Sole ({} : EventLoopThread φ) := ⟨good_init, nofun⟩
  exact (Machine.run_preserves_of_meets Sole.step hsole hok hrun).good.sound

end GameFrame.EventLoopThread
