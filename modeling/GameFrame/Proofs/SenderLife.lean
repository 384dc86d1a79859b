import GameFrame.LogSender.SenderLife
import GameFrame.Proofs.SenderCalls

/-!
# Calls in any order, and the destructor

`~LogSender` stops a sender that is started and not stopped, and takes every
other for one that is done. It is wrong about three kinds: one that was never
started, whose client is then destroyed on the owner's thread; one whose
`start()` is still in the loop's queue, of which it does not know; and one that
was stopped first and started then, whose `start_in_loop` follows the client
that `stop_in_loop` destroyed.

`LifeOk` leaves out these calls and no others: whoever makes one of them can be
led to what must not happen, and a run without them never is
(`life_orderly`). The loop may be as late as it likes with its functors.
-/

namespace GameFrame.SenderLife

open LogSender (CallStep Held)

variable {ι : Type _}

/-- Nothing that must not happen has happened. -/
def Orderly (s : SenderLife ι) : Prop :=
  s.nullClient = false ∧ s.wrongThread = false ∧ s.late = false

instance (s : SenderLife ι) : Decidable s.Orderly :=
  inferInstanceAs (Decidable (_ ∧ _ ∧ _))

/-- `start()` is not called on a sender that was stopped before it was ever
started. The destructor finds a sender that is started and not stopped, or one
that is stopped and has no `start()` to be run. -/
def LifeOk (s : SenderLife ι) : Label ι → Prop
  | .start => s.sender.stopped = true → s.sender.started = true
  | .destroy =>
      s.sender.started = true ∧ s.sender.stopped = false ∨
      s.sender.stopped = true ∧ .startInLoop ∉ s.sender.pending
  | _ => True

instance (s : SenderLife ι) : ∀ l, Decidable (s.LifeOk l)
  | .start => inferInstanceAs (Decidable (_ → _))
  | .destroy => inferInstanceAs (Decidable (_ ∨ _))
  | .stop | .stopReturn | .release | .sender _ | .late => .isTrue trivial

/-- A sender that is built and destroyed. -/
theorem life_disorderly :
    ¬ ∀ (opts : Options) (ls : List (Label Unit)) (s : SenderLife Unit),
      Machine.run step (new opts) ls = some s → s.Orderly := by
  intro hall
  exact Machine.not_forall_of_run (P := Orderly) (s := new {})
    ([.destroy, .release] : List (Label Unit)) (by decide +kernel) (hall {})

/-! ## The owner and the loop's queue -/

/-- The owner waits for a functor of `stop()`. -/
def Waiting (s : SenderLife ι) : Prop :=
  s.caller = .stopping ∨ s.caller = .dtorStopping

/-- The owner is in the destructor, behind its `stop()`, or past it. -/
def Leaving (s : SenderLife ι) : Prop :=
  s.caller = .destroying ∨ s.caller = .destroyed

/-- What the owner knows of the functors that it left. -/
structure Kept (s : SenderLife ι) : Prop where
  order : s.sender.calls.Pairwise fun f g =>
    f = .stopInLoop → g ≠ .startInLoop
  waits : .stopInLoop ∈ s.sender.calls ∨ s.sender.atLast → s.Waiting
  asked : s.Waiting → .stopInLoop ∈ s.sender.calls ∨ s.sender.stopped = true
  behind : s.Waiting → .startInLoop ∈ s.sender.calls →
    .stopInLoop ∈ s.sender.calls
  begun : s.sender.stopped = true → .startInLoop ∈ s.sender.calls →
    s.sender.started = true
  gone : s.Leaving → s.sender.stopped = true ∧
    .startInLoop ∉ s.sender.calls

theorem kept_new (opts : Options) : (new opts : SenderLife ι).Kept where
  order := .nil
  waits := by
    rintro (h | ⟨_, h⟩)
    · cases h
    · cases h
  asked := by
    rintro (h | h)
    · cases h
    · cases h
  behind := fun _ h => by cases h
  begun := fun _ h => by cases h
  gone := by
    rintro (h | h)
    · cases h
    · cases h

/-- A step of the loop, or of a producer. -/
theorem Kept.sender {s s' : SenderLife ι} (hs : s.Kept)
    (hcaller : s'.caller = s.caller) (h : CallStep s.sender s'.sender) :
    s'.Kept := by
  have hwaiting : s'.Waiting ↔ s.Waiting := by
    rw [Waiting, Waiting, hcaller]
  have hleaving : s'.Leaving ↔ s.Leaving := by
    rw [Leaving, Leaving, hcaller]
  cases h with
  | none hquiet hstopped hlast =>
      obtain ⟨hstarted, hcalls⟩ := hquiet
      refine ⟨?_, ?_, ?_, ?_, ?_, ?_⟩
      · rw [hcalls]
        exact hs.order
      · rw [hcalls, hwaiting]
        exact fun h => hs.waits (h.imp_right hlast)
      · rw [hcalls, hstopped, hwaiting]
        exact hs.asked
      · rw [hcalls, hwaiting]
        exact hs.behind
      · rw [hcalls, hstopped, hstarted]
        exact hs.begun
      · rw [hcalls, hstopped, hleaving]
        exact hs.gone
  | start hcalls hstarted hstopped hlast =>
      have hmem : ∀ {f}, f ∈ s'.sender.calls → f ∈ s.sender.calls := by
        intro f hf
        rw [hcalls]
        exact List.mem_cons_of_mem _ hf
      have hstop : .stopInLoop ∈ s.sender.calls →
          .stopInLoop ∈ s'.sender.calls := by
        intro h
        rw [hcalls] at h
        rcases List.mem_cons.mp h with heq | h
        · cases heq
        · exact h
      refine ⟨?_, ?_, ?_, ?_, ?_, ?_⟩
      · have horder := hs.order
        rw [hcalls] at horder
        exact horder.tail
      · rw [hwaiting]
        exact fun h => hs.waits (h.imp hmem hlast)
      · rw [hstopped, hwaiting]
        exact fun h => (hs.asked h).imp_left hstop
      · rw [hwaiting]
        exact fun h hf => hstop (hs.behind h (hmem hf))
      · exact fun _ _ => hstarted
      · intro h
        refine absurd ?_ (hs.gone (hleaving.mp h)).2
        rw [hcalls]
        exact List.mem_cons_self
  | stop hcalls hstarted hstopped =>
      have hwaits : s.Waiting := by
        refine hs.waits (.inl ?_)
        rw [hcalls]
        exact List.mem_cons_self
      -- No call of `start()` is behind one of `stop()`.
      have hnone : .startInLoop ∉ s'.sender.calls := by
        intro h
        have horder := hs.order
        rw [hcalls] at horder
        exact (List.pairwise_cons.mp horder).1 _ h rfl rfl
      refine ⟨?_, ?_, ?_, ?_, ?_, ?_⟩
      · have horder := hs.order
        rw [hcalls] at horder
        exact horder.tail
      · exact fun _ => hwaiting.mpr hwaits
      · exact fun _ => .inr hstopped
      · exact fun _ h => absurd h hnone
      · exact fun _ h => absurd h hnone
      · exact fun _ => ⟨hstopped, hnone⟩

/-- A call leaves its functor behind those of the calls before. -/
theorem calls_snoc (w : LogSender ι) {f : SenderFunctor}
    (hf : f.ofCall = true) :
    LogSender.calls { w with pending := w.pending ++ [f] } = w.calls ++ [f] := by
  show (w.pending ++ [f]).filter _ = _
  rw [List.filter_append, List.filter_cons_of_pos hf]
  rfl

theorem Kept.start {s : SenderLife ι} (hs : s.Kept) (hidle : s.caller = .idle)
    (hok : s.sender.stopped = true → s.sender.started = true) :
    Kept { s with
      sender :=
        { s.sender with pending := s.sender.pending ++ [.startInLoop] } } := by
  have hwaits : ¬ s.Waiting := by simp [Waiting, hidle]
  have hleaves : ¬ s.Leaving := by simp [Leaving, hidle]
  have hcalls := calls_snoc s.sender (f := .startInLoop) rfl
  refine ⟨?_, ?_, fun h => absurd h hwaits, fun h => absurd h hwaits, ?_,
    fun h => absurd h hleaves⟩
  · simp only [hcalls]
    refine List.pairwise_append.mpr ⟨hs.order, by simp, ?_⟩
    intro f hf g _ heq
    exact absurd (hs.waits (.inl (heq ▸ hf))) hwaits
  · simp only [hcalls]
    rintro (h | h)
    · refine absurd (hs.waits (.inl ?_)) hwaits
      simpa using h
    · exact absurd (hs.waits (.inr h)) hwaits
  · exact fun h _ => hok h

theorem Kept.stop {s : SenderLife ι} (hs : s.Kept) {pc : CallerPc}
    (hpc : pc = .stopping ∨ pc = .dtorStopping) :
    Kept { s with
      sender := { s.sender with pending := s.sender.pending ++ [.stopInLoop] }
      caller := pc } := by
  have hcalls := calls_snoc s.sender (f := .stopInLoop) rfl
  refine ⟨?_, fun _ => hpc, fun _ => .inl ?_, fun _ _ => ?_, ?_, ?_⟩
  · simp only [hcalls]
    refine List.pairwise_append.mpr ⟨hs.order, by simp, ?_⟩
    intro f _ g hg _
    simp [List.mem_singleton.mp hg]
  · simp only [hcalls]
    exact List.mem_append_right _ List.mem_cons_self
  · simp only [hcalls]
    exact List.mem_append_right _ List.mem_cons_self
  · simp only [hcalls]
    intro hstopped h
    exact hs.begun hstopped (by simpa using h)
  · rintro (h | h)
    · rcases hpc with rfl | rfl <;> cases h
    · rcases hpc with rfl | rfl <;> cases h

/-- What `stopDone` says of a sender. -/
theorem stopDone_iff {w : LogSender ι} :
    stopDone w = true ↔ .stopInLoop ∉ w.calls ∧ ¬ w.atLast := by
  have hmem : SenderFunctor.stopInLoop ∈ w.calls ↔
      SenderFunctor.stopInLoop ∈ w.pending :=
    LogSender.mem_calls.trans (and_iff_left rfl)
  rw [stopDone, LogSender.atLast, hmem]
  rcases w.loopPc with _ | ⟨dropped, _ | _⟩ <;> simp

/-- The owner goes on behind its call of `stop()`, and may leave if it is the
destructor's. -/
theorem Kept.returns {s : SenderLife ι} (hs : s.Kept) (hwaits : s.Waiting)
    (hdone : stopDone s.sender = true) {pc : CallerPc}
    (hpc : pc = .idle ∨ pc = .destroying) : Kept { s with caller := pc } := by
  obtain ⟨hnone, hlast⟩ := stopDone_iff.mp hdone
  have hstopped : s.sender.stopped = true := by
    rcases hs.asked hwaits with h | h
    · exact absurd h hnone
    · exact h
  have hover : ¬ Waiting { s with caller := pc } := by
    rcases hpc with rfl | rfl <;> simp [Waiting]
  refine ⟨hs.order, ?_, fun h => absurd h hover, fun h => absurd h hover,
    hs.begun, fun _ => ⟨hstopped, fun h => hnone (hs.behind hwaits h)⟩⟩
  rintro (h | h)
  · exact absurd h hnone
  · exact absurd h hlast

/-- An owner that waits for nothing leaves behind a sender that is stopped and
has no `start()` to be run. -/
theorem Kept.leaves {s : SenderLife ι} (hs : s.Kept) (hwaits : ¬ s.Waiting)
    (hstopped : s.sender.stopped = true)
    (hnone : .startInLoop ∉ s.sender.calls) {pc : CallerPc}
    (hpc : pc = .destroying ∨ pc = .destroyed) (wrongThread : Bool) :
    Kept { s with caller := pc, wrongThread := wrongThread } := by
  have hover : ¬ Waiting
      { s with caller := pc, wrongThread := wrongThread } := by
    rcases hpc with rfl | rfl <;> simp [Waiting]
  exact ⟨hs.order, fun h => absurd (hs.waits h) hwaits,
    fun h => absurd h hover, fun h => absurd h hover, hs.begun,
    fun _ => ⟨hstopped, hnone⟩⟩

/-- A functor that is run behind the destructor. -/
theorem Kept.late {s : SenderLife ι} (hs : s.Kept)
    (hcaller : s.caller = .destroyed) {f : SenderFunctor}
    {fs : List SenderFunctor} (hq : s.sender.pending = f :: fs) (late : Bool) :
    Kept { s with sender := { s.sender with pending := fs }, late := late } := by
  have hsub : (LogSender.calls { s.sender with pending := fs }).Sublist
      s.sender.calls := by
    show (fs.filter _).Sublist (s.sender.pending.filter _)
    rw [hq]
    exact (List.sublist_cons_self f fs).filter _
  have hover : ¬ s.Waiting := by simp [Waiting, hcaller]
  exact ⟨hs.order.sublist hsub,
    fun h => hs.waits (h.imp_left fun h => hsub.subset h),
    fun h => absurd h hover, fun h => absurd h hover,
    fun hstopped h => hs.begun hstopped (hsub.subset h),
    fun h => ⟨(hs.gone h).1, fun hmem => (hs.gone h).2 (hsub.subset hmem)⟩⟩

/-! ## The client is there for whoever follows it -/

/-- What is so all along. -/
structure Good (s : SenderLife ι) : Prop where
  orderly : s.Orderly
  kept : s.Kept
  held : s.sender.fault = none → s.sender.Held

theorem good_new (opts : Options) : (new opts : SenderLife ι).Good where
  orderly := ⟨rfl, rfl, rfl⟩
  kept := kept_new opts
  held := fun _ => LogSender.held_new opts

theorem Held.requeue {w : LogSender ι} (hw : w.Held)
    (fs : List SenderFunctor) : Held { w with pending := fs } where
  behind := hw.behind.other rfl
  tidy := fun h => (hw.tidy h).other rfl (hw.tidy h).numbered (hw.tidy h).queue
    fun _ _ _ => .inl rfl
  last := fun h => (hw.last h).other rfl (hw.last h).numbered (hw.last h).queue
    fun _ _ h => by cases h

/-- Behind `stop_in_loop` there is no client. -/
theorem Good.client_gone {s : SenderLife ι} (hs : s.Good)
    (hwaits : ¬ s.Waiting) (hfault : s.sender.fault = none)
    (hstopped : s.sender.stopped = true) : s.sender.tcpClient = none := by
  have hheld := hs.held hfault
  refine (hheld.behind.nothing hstopped ?_).2
  cases hloop : s.sender.loopPc with
  | idle => rfl
  | draining dropped stopping =>
      have hlast := hheld.behind.last dropped stopping hloop
      refine absurd (hs.kept.waits (.inr ⟨dropped, ?_⟩)) hwaits
      rw [hloop, hlast, hstopped]

variable [DecidableEq ι]

theorem client_kept {w w' : LogSender ι} {l : LogSender.Label ι}
    (hw : w.Held) (hbegun : w.stopped = true → .startInLoop ∈ w.calls →
      w.started = true)
    (hfollows : followsClient w l = true) (h : w.step l = some w') :
    w'.fault ≠ some .tcpClient := by
  have hfault := LogSender.step_fault h
  have hsame : ∀ {w' : LogSender ι}, w'.fault = w.fault →
      w'.fault ≠ some .tcpClient := by
    intro w' heq
    rw [heq, hfault]
    simp
  cases (LogSender.step_stepped h).2 with
  | drain scripts dropped stopping _ hloop hfinish =>
      have hidle : LogSender.Tidy { w with loopPc := .idle } := by
        cases hs : stopping with
        | true => exact hw.last ⟨dropped, hs ▸ hloop⟩
        | false =>
            have hrun := hw.behind.last dropped stopping hloop
            have htidy := hw.tidy (hrun.symm.trans hs)
            exact htidy.other rfl htidy.numbered htidy.queue
              fun _ _ h => by cases h
      exact LogSender.Tidy.finishDrain_fault hidle hfault hfinish
  | functor d f fs hidle hq =>
      have hpop : w.stopped = false →
          LogSender.Tidy { w with pending := fs } := by
        intro hrun
        have htidy := hw.tidy hrun
        exact htidy.other rfl htidy.numbered htidy.queue fun _ _ _ => .inl rfl
      simp only [followsClient, hq, List.head?_cons, Option.some.injEq,
        Bool.or_eq_true, decide_eq_true_eq] at hfollows
      rcases hfollows with rfl | rfl
      · have hmem : .startInLoop ∈ w.calls :=
          LogSender.mem_calls.mpr ⟨by simp [hq], rfl⟩
        by_cases hs : w.stopped = true
        · have hstarted := hbegun hs hmem
          rw [LogSender.runFunctor, LogSender.startInLoop, if_pos hstarted]
          exact hsame rfl
        · exact hsame ((hpop (by simpa using hs)).startInLoop_fault d)
      · by_cases hs : w.stopped = true
        · rw [LogSender.runFunctor, LogSender.stopInLoop, if_pos hs]
          exact hsame rfl
        · exact hsame ((hpop (by simpa using hs)).stopInLoop hidle).1
  | enter | leave | wake | start | stop | timer | handshake | event =>
      cases hfollows

theorem good_step {s s' : SenderLife ι} {l : Label ι} (hs : s.Good)
    (hok : s.LifeOk l) (h : s.step l = some s') : s'.Good := by
  have hidle : s.caller = .idle → ¬ s.Waiting := by
    intro h
    simp [Waiting, h]
  cases step_stepped h with
  | start hpc hfault =>
      exact ⟨hs.orderly, hs.kept.start hpc hok,
        fun h => Held.requeue (hs.held h) _⟩
  | stop hpc hfault =>
      exact ⟨hs.orderly, hs.kept.stop (.inl rfl),
        fun h => Held.requeue (hs.held h) _⟩
  | stopReturn hpc hdone hfault =>
      exact ⟨hs.orderly, hs.kept.returns (.inl hpc) hdone (.inl rfl), hs.held⟩
  | dtorReturn hpc hdone hfault =>
      exact ⟨hs.orderly, hs.kept.returns (.inr hpc) hdone (.inr rfl), hs.held⟩
  | destroyStop hpc hstarted hrun hfault =>
      exact ⟨hs.orderly, hs.kept.stop (.inr rfl),
        fun h => Held.requeue (hs.held h) _⟩
  | destroy hpc hover hfault =>
      have hgone : s.sender.stopped = true ∧
          .startInLoop ∉ s.sender.pending := by
        rcases hok with ⟨hstarted, hrun⟩ | hgone
        · rcases hover with h | h
          · rw [hstarted] at h
            cases h
          · rw [hrun] at h
            cases h
        · exact hgone
      have hnone : .startInLoop ∉ s.sender.calls :=
        fun h => hgone.2 (LogSender.mem_calls.mp h).1
      exact ⟨hs.orderly, hs.kept.leaves (hidle hpc) hgone.1 hnone (.inl rfl) _,
        hs.held⟩
  | release hpc hfault =>
      have hwaits : ¬ s.Waiting := by simp [Waiting, hpc]
      obtain ⟨hstopped, hnone⟩ := hs.kept.gone (.inl hpc)
      have hclient := hs.client_gone hwaits hfault hstopped
      refine ⟨⟨hs.orderly.1, ?_, hs.orderly.2.2⟩,
        hs.kept.leaves hwaits hstopped hnone (.inr rfl) _, hs.held⟩
      rw [hclient]
      rfl
  | sender l w hpc hl hw =>
      have hcalls := LogSender.step_calls (l := l)
        (by rintro rfl; cases hl) (by rintro rfl; cases hl) hw
      have hheld := hs.held (LogSender.step_fault hw)
      refine ⟨⟨?_, hs.orderly.2⟩, hs.kept.sender rfl hcalls,
        fun hfault => LogSender.held_step hheld hfault hw⟩
      rw [hs.orderly.1, Bool.false_or, Bool.and_eq_false_iff]
      by_cases hf : followsClient s.sender l = true
      · have hkept := client_kept hheld hs.kept.begun hf hw
        exact .inr (by simpa using hkept)
      · exact .inl (by simpa using hf)
  | late f fs hpc hright hq =>
      have hne : f ≠ .startInLoop := by
        rintro rfl
        refine (hs.kept.gone (.inr hpc)).2 ?_
        exact LogSender.mem_calls.mpr ⟨by simp [hq], rfl⟩
      refine ⟨⟨hs.orderly.1, hs.orderly.2.1, ?_⟩, hs.kept.late hpc hq _,
        fun h => Held.requeue (hs.held h) _⟩
      rw [hs.orderly.2.2]
      simp [hne]

/-! ## Every other call goes wrong -/

/-- Behind the destructor the loop comes to every functor. -/
theorem late_run {fs : List SenderFunctor} : ∀ {s : SenderLife ι},
    s.sender.pending = fs → s.caller = .destroyed → s.wrongThread = false →
    .startInLoop ∈ fs →
    ∃ ms t, Machine.run step s ms = some t ∧ t.late = true := by
  induction fs with
  | nil =>
      intro s _ _ _ hmem
      cases hmem
  | cons f fs ih =>
      intro s hq hpc hright hmem
      have hstep : s.step .late = some
          { s with
            sender := { s.sender with pending := fs }
            late := s.late || f = .startInLoop } := by
        simp [step, hpc, hright, hq]
      by_cases hf : f = .startInLoop
      · refine ⟨[.late], _, Machine.run_cons_some.mpr ⟨_, hstep, rfl⟩, ?_⟩
        simp [hf]
      · have hmem' : .startInLoop ∈ fs := by
          rcases List.mem_cons.mp hmem with h | h
          · exact absurd h.symm hf
          · exact h
        obtain ⟨ms, t, hrun, ht⟩ := ih (s := { s with
          sender := { s.sender with pending := fs }
          late := s.late || f = .startInLoop }) rfl hpc hright hmem'
        exact ⟨.late :: ms, t, Machine.run_cons_some.mpr ⟨_, hstep, hrun⟩, ht⟩

theorem release_run {s : SenderLife ι} (hpc : s.caller = .destroying)
    (hfault : s.sender.fault = none)
    (hbad : s.sender.tcpClient.isSome = true ∨
      .startInLoop ∈ s.sender.pending) :
    ∃ ms t, Machine.run step s ms = some t ∧ ¬ t.Orderly := by
  have hstep : s.step .release = some
      { s with
        caller := .destroyed, wrongThread := s.sender.tcpClient.isSome } := by
    simp [step, hpc, hfault]
  by_cases hclient : s.sender.tcpClient.isSome = true
  · refine ⟨[.release], _, Machine.run_cons_some.mpr ⟨_, hstep, rfl⟩, ?_⟩
    rintro ⟨-, h, -⟩
    rw [hclient] at h
    cases h
  · have hright : s.sender.tcpClient.isSome = false := by simpa using hclient
    obtain ⟨ms, t, hrun, ht⟩ := late_run (s := { s with
      caller := .destroyed, wrongThread := s.sender.tcpClient.isSome }) rfl rfl
      hright (hbad.resolve_left hclient)
    refine ⟨.release :: ms, t, Machine.run_cons_some.mpr ⟨_, hstep, hrun⟩, ?_⟩
    rintro ⟨-, -, h⟩
    rw [ht] at h
    cases h

theorem lifeOk_needed {s s' : SenderLife ι} {l : Label ι} (hs : s.Good)
    (h : s.step l = some s') (hbad : ¬ s.LifeOk l) :
    ∃ ms t, Machine.run step s' ms = some t ∧ ¬ t.Orderly := by
  cases step_stepped h with
  | start hpc hfault =>
      obtain ⟨hstopped, hstarted⟩ := Classical.not_imp.mp hbad
      have hstep : step { s with
          sender :=
            { s.sender with pending := s.sender.pending ++ [.startInLoop] } }
          .destroy = some { s with
            sender :=
              { s.sender with pending := s.sender.pending ++ [.startInLoop] }
            caller := .destroying } := by
        simp [step, hpc, hfault, hstopped]
      obtain ⟨ms, t, hrun, ht⟩ := release_run (s := { s with
        sender :=
          { s.sender with pending := s.sender.pending ++ [.startInLoop] }
        caller := .destroying }) rfl hfault (.inr (by simp))
      exact ⟨.destroy :: ms, t, Machine.run_cons_some.mpr ⟨_, hstep, hrun⟩, ht⟩
  | destroyStop hpc hstarted hrun => exact absurd (.inl ⟨hstarted, hrun⟩) hbad
  | destroy hpc hdone hfault =>
      refine release_run rfl hfault ?_
      by_cases hstopped : s.sender.stopped = true
      · refine .inr (Decidable.byContradiction fun hnone => hbad ?_)
        exact .inr ⟨hstopped, hnone⟩
      · obtain ⟨c, hc, -⟩ :=
          ((hs.held hfault).tidy (by simpa using hstopped)).client
        refine .inl ?_
        rw [hc]
        rfl
  | stop | stopReturn | dtorReturn | release | sender | late =>
      exact absurd trivial hbad

/-- A run whose calls all meet the condition is orderly however late the loop
is. From where it is, a call that does not meet it can be led to disorder. -/
theorem life_orderly {opts : Options} {ls : List (Label ι)} {s : SenderLife ι}
    (hok : Machine.Meets step LifeOk (new opts) ls)
    (hrun : Machine.run step (new opts) ls = some s) :
    s.Orderly ∧ ∀ l s', s.step l = some s' → ¬ s.LifeOk l →
      ∃ ms t, Machine.run step s' ms = some t ∧ ¬ t.Orderly := by
  have hs : s.Good :=
    Machine.run_preserves_of_meets good_step (good_new opts) hok hrun
  exact ⟨hs.orderly, fun l s' h hbad => lifeOk_needed hs h hbad⟩

/-- Started twice and destroyed, with the second call still in the queue. -/
def startedTwice : List (Label Unit) :=
  [.start, .sender (.functor .refused), .start, .destroy,
    .sender (.functor .refused), .sender (.functor .refused), .stopReturn,
    .release]

theorem life_orderly_twice :
    ∃ s, Machine.run step (new {}) startedTwice = some s ∧
      s.caller = .destroyed ∧ s.Orderly := by
  have hany : (Machine.run step (new {}) startedTwice).any
      (fun s => s.caller == .destroyed) = true := by decide +kernel
  obtain ⟨s, hrun, hs⟩ := (Option.any_eq_true _ _).mp hany
  exact ⟨s, hrun, beq_iff_eq.mp hs, (life_orderly (by decide +kernel) hrun).1⟩

end GameFrame.SenderLife
