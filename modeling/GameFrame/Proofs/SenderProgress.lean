import GameFrame.Proofs.LogPipeline
import GameFrame.Proofs.TickTimer

/-!
# The sender goes on

That nothing goes wrong is not yet that something happens. Two things make a
message leave the queue: there is a next tick, and a tick that comes to its
`drain` gets somewhere.

There may be more than one chain of ticks, but there is no way to none. Timers
are taken off the loop when they fire, and by `stop()`; a timer that is not a
tick has another id (`Fresh`); and a tick, whoever called it, ends by setting
the next one, which `tick_timer_id_` then names (`tick_ahead`). Only in between,
while it is at its `drain`, there may be none, and then the loop thread is at
work.

A `drain` takes `max_batch_per_tick` messages or the whole queue, from the
front. All of them are passed to a connection, or the process follows a null
pointer and has come to its end. So the number of a message in the order of the
pushes says how many more of these it waits for, whatever the producers do
meanwhile (`backlog_passed`).
-/

namespace GameFrame.LogSender

variable {ι : Type _}

/-! ## What leaves the ticks and their timers alone -/

/-- An id is that of one timer, and the next one is that of none. -/
structure Fresh (w : LogSender ι) : Prop where
  unique : ∀ s ∈ w.timers, ∀ t ∈ w.timers, s.id = t.id → s = t
  below : ∀ t ∈ w.timers, t.id < w.nextTimerId

/-- `tick_timer_id_` names a tick that is outstanding, and one interval long. -/
def TickSet (w : LogSender ι) : Prop :=
  ∃ t ∈ w.ticks, t.id = w.tickTimerId ∧ t.delayMs = w.opts.tickIntervalMs

theorem Fresh.runAfter {w : LogSender ι} (hw : w.Fresh) (ms : Nat)
    (kind : TimerKind) : (w.runAfter ms kind).2.Fresh := by
  have hnew : ∀ t ∈ (w.runAfter ms kind).2.timers,
      t ∈ w.timers ∨ t = ⟨w.nextTimerId, kind, ms⟩ := by
    intro t ht
    rcases List.mem_append.mp ht with ht | ht
    · exact .inl ht
    · exact .inr (List.mem_singleton.mp ht)
  refine ⟨fun s hs t ht hid => ?_, fun t ht => ?_⟩
  · rcases hnew s hs with hs | rfl
    · rcases hnew t ht with ht | rfl
      · exact hw.unique s hs t ht hid
      · exact absurd hid (Nat.ne_of_lt (hw.below s hs))
    · rcases hnew t ht with ht | rfl
      · exact absurd hid.symm (Nat.ne_of_lt (hw.below t ht))
      · rfl
  · rcases hnew t ht with ht | rfl
    · exact Nat.lt_succ_of_lt (hw.below t ht)
    · exact Nat.lt_succ_self _

/-- Some of the timers are gone. -/
theorem Fresh.fewer {w w' : LogSender ι} (hw : w.Fresh)
    (htimers : w'.timers ⊆ w.timers)
    (hnext : w'.nextTimerId = w.nextTimerId) : w'.Fresh where
  unique := fun s hs t ht => hw.unique s (htimers hs) t (htimers ht)
  below := fun t ht => hnext ▸ hw.below t (htimers ht)

/-- From `w` to `w'` timers were set for retries only, and got ids of their
own. -/
structure Beside (w w' : LogSender ι) : Prop where
  aside : Aside w w'
  opts : w'.opts = w.opts
  fresh : w.Fresh → w'.Fresh

theorem Beside.trans {w₁ w₂ w₃ : LogSender ι} (h : Beside w₁ w₂)
    (h' : Beside w₂ w₃) : Beside w₁ w₃ where
  aside := h.aside.trans h'.aside
  opts := h'.opts.trans h.opts
  fresh := fun hw => h'.fresh (h.fresh hw)

theorem Beside.of_eq {w w' : LogSender ι}
    (h : (w'.timers, w'.nextTimerId, w'.tickTimerId, w'.started, w'.stopped,
      w'.loopPc) = (w.timers, w.nextTimerId, w.tickTimerId, w.started,
      w.stopped, w.loopPc)) (hopts : w'.opts = w.opts) : Beside w w' := by
  refine ⟨.of_eq h, hopts, fun hw => hw.fewer ?_ ?_⟩
  · rw [(Prod.mk.inj h).1]
    exact List.Subset.refl _
  · exact (Prod.mk.inj (Prod.mk.inj h).2).1

theorem frame_beside : Frame (Beside (ι := ι)) where
  refl := fun _ => .of_eq rfl rfl
  trans := .trans
  fields := fun _ _ _ _ _ => .of_eq rfl rfl
  retry := fun w ms => ⟨aside_retry w ms, rfl, fun hw => hw.runAfter ms .retry⟩
  queue := fun _ _ _ => .of_eq rfl rfl
  fail := fun _ _ => .of_eq rfl rfl

theorem beside_drainAndSend {w w' : LogSender ι} {dropped : Nat}
    {scripts : List (List WriteRes)}
    (h : w.drainAndSend dropped scripts = some w') : Beside w w' := by
  rw [drainAndSend_eq] at h
  have hqueue : Beside w
      { w with queue := (w.queue.drain [] w.opts.maxBatchPerTick).1 } :=
    .of_eq rfl rfl
  exact hqueue.trans (frame_beside.sendBatch (fun _ _ => .of_eq rfl rfl) h)

/-! ## There is a next tick -/

structure Ticking (w : LogSender ι) : Prop where
  fresh : w.Fresh
  ahead : w.fault = none → w.started = true → w.stopped = false →
    w.loopPc = .idle → w.TickSet
  stopping : ∀ dropped, w.loopPc = .draining dropped true → w.stopped = true

theorem ticking_new (opts : Options) : (new opts : LogSender ι).Ticking where
  fresh := ⟨fun _ h => absurd h List.not_mem_nil,
    fun _ h => absurd h List.not_mem_nil⟩
  ahead := fun _ h => by cases h
  stopping := fun _ h => by cases h

theorem Ticking.beside {w w' : LogSender ι} (hw : w.Ticking)
    (hlive : w.fault = none) (h : Beside w w') : w'.Ticking := by
  refine ⟨h.fresh hw.fresh, fun _ => ?_, fun dropped => ?_⟩
  · rw [h.aside.started, h.aside.stopped, h.aside.loopPc, TickSet,
      h.aside.ticks, h.aside.tickTimerId, h.opts]
    exact hw.ahead hlive
  · rw [h.aside.loopPc, h.aside.stopped]
    exact hw.stopping dropped

/-- Whatever there was before, the next tick is set. -/
theorem Fresh.scheduleNextTick {w : LogSender ι} (hw : w.Fresh)
    (hidle : w.loopPc = .idle) : w.scheduleNextTick.Ticking := by
  rw [LogSender.scheduleNextTick]
  split
  · next hstopped =>
      refine ⟨hw, fun _ _ h => ?_, fun _ _ => hstopped⟩
      cases hstopped.symm.trans h
  · have hset := hw.runAfter w.opts.tickIntervalMs .tick
    refine ⟨hset.fewer (List.Subset.refl _) rfl, fun _ _ _ _ => ?_,
      fun _ h => ?_⟩
    · have hticks := ticks_runAfter w w.opts.tickIntervalMs .tick
      rw [if_pos rfl] at hticks
      have hmem : ⟨w.nextTimerId, .tick, w.opts.tickIntervalMs⟩ ∈
          (w.runAfter w.opts.tickIntervalMs .tick).2.ticks := by
        rw [hticks]
        exact List.mem_append_right _ (List.mem_singleton_self _)
      exact ⟨_, hmem, rfl, rfl⟩
    · cases hidle.symm.trans h

theorem Fresh.onTick {w : LogSender ι} (hw : w.Fresh)
    (hidle : w.loopPc = .idle) : w.onTick.Ticking := by
  rw [LogSender.onTick]
  split
  · next hstopped =>
      refine ⟨hw, fun _ _ h => ?_, fun _ _ => hstopped⟩
      cases hstopped.symm.trans h
  · split
    · refine ⟨hw.fewer (List.Subset.refl _) rfl, ?_, ?_⟩
      · intro _ _ _ h
        cases h
      · intro _ h
        cases h
    · exact hw.scheduleNextTick hidle

theorem Ticking.startInLoop {w : LogSender ι} (hw : w.Ticking)
    (hidle : w.loopPc = .idle) (d : Dial) : (w.startInLoop d).Ticking := by
  have hstart : { w with started := true }.Fresh :=
    hw.fresh.fewer (List.Subset.refl _) rfl
  rw [LogSender.startInLoop]
  split
  · exact hw
  · dsimp only
    split
    · refine ⟨hstart.fewer (List.Subset.refl _) rfl, fun h => ?_, hw.stopping⟩
      exact absurd h (fail_fault _ _)
    · next c _ =>
        have hdial := frame_beside.settle { w with started := true }
          (c.connectInLoop d)
        exact (hdial.fresh hstart).scheduleNextTick
          (hdial.aside.loopPc.trans hidle)

theorem fresh_cancelTick {w : LogSender ι} (hw : w.Fresh) :
    w.cancelTick.Fresh := by
  rw [cancelTick]
  split
  · exact hw.fewer (List.filter_sublist.subset) rfl
  · exact hw

/-- Behind `stop_in_loop` nothing is asked of the ticks. -/
theorem Fresh.stopInLoop {w : LogSender ι} (hw : w.Fresh) :
    w.stopInLoop.Ticking := by
  have hstopped := stopInLoop_stopped w
  refine ⟨?_, fun _ _ h => ?_, fun _ _ => hstopped⟩
  · have hcancel : { w with stopped := true }.cancelTick.Fresh :=
      fresh_cancelTick (hw.fewer (List.Subset.refl _) rfl)
    rw [LogSender.stopInLoop]
    split
    · exact hw
    · dsimp only
      split
      · exact hcancel.fewer (List.Subset.refl _) rfl
      · exact (frame_beside.stopRest _).fresh hcancel
  · cases hstopped.symm.trans h

theorem Ticking.runFunctor {w : LogSender ι} (hw : w.Ticking)
    (hlive : w.fault = none) (hidle : w.loopPc = .idle) (d : Dial)
    (f : SenderFunctor) : (w.runFunctor d f).Ticking := by
  cases f with
  | startInLoop => exact hw.startInLoop hidle d
  | stopInLoop => exact hw.fresh.stopInLoop
  | wake =>
      rw [LogSender.runFunctor]
      split
      · exact hw
      · exact hw.fresh.onTick hidle
  | conn fd f =>
      cases f with
      | shutdownInLoop => exact hw.beside hlive (frame_beside.putConn w fd _)
      | highWaterMark | writeComplete => exact hw.beside hlive (.of_eq rfl rfl)

/-- A retry that fires is no tick, and the tick that is set stays. -/
theorem Ticking.cancelRetry {w : LogSender ι} (hw : w.Ticking) {t : Timer}
    (ht : t ∈ w.timers) (hkind : t.kind = .retry) :
    (w.cancelTimer t.id).Ticking := by
  refine ⟨hw.fresh.fewer (List.filter_sublist.subset) rfl, ?_, hw.stopping⟩
  intro hlive hstarted hstopped hidle
  obtain ⟨s, hs, hid, hdelay⟩ := hw.ahead hlive hstarted hstopped hidle
  obtain ⟨hmem, htick⟩ := List.mem_filter.mp hs
  have hne : s.id ≠ t.id := by
    intro heq
    rw [hw.fresh.unique s hmem t ht heq, hkind] at htick
    cases htick
  refine ⟨s, List.mem_filter.mpr ⟨List.mem_filter.mpr ⟨hmem, ?_⟩, htick⟩, hid,
    hdelay⟩
  simpa using hne

theorem Ticking.fireTimer {w : LogSender ι} (hw : w.Ticking)
    (hlive : w.fault = none) (hidle : w.loopPc = .idle) (d : Dial) {t : Timer}
    (ht : t ∈ w.timers) :
    ((w.cancelTimer t.id).fireTimer d t.kind).Ticking := by
  cases hkind : t.kind with
  | tick =>
      have hfired : { w.cancelTimer t.id with tickTimerId := 0 }.Fresh :=
        hw.fresh.fewer (List.filter_sublist.subset) rfl
      exact hfired.onTick hidle
  | retry =>
      have hrest := hw.cancelRetry ht hkind
      rw [LogSender.fireTimer]
      split
      · exact hrest.beside hlive (.of_eq rfl rfl)
      · exact hrest.beside hlive (frame_beside.settle _ _)

theorem Ticking.finishDrain {w w' : LogSender ι} (hw : w.Ticking)
    {dropped : Nat} {stopping : Bool}
    (hloop : w.loopPc = .draining dropped stopping)
    {scripts : List (List WriteRes)}
    (h : w.finishDrain dropped stopping scripts = some w') : w'.Ticking := by
  obtain ⟨w₁, hdrain, rfl⟩ := Option.map_eq_some_iff.mp h
  have hbatch := beside_drainAndSend hdrain
  have hfresh : w₁.Fresh :=
    hbatch.fresh (hw.fresh.fewer (List.Subset.refl _) rfl)
  have hidle : w₁.loopPc = .idle := hbatch.aside.loopPc
  rw [behindDrain]
  split
  · next hfault =>
      refine ⟨hfresh, fun hlive => ?_, fun _ h => ?_⟩
      · rw [hlive] at hfault
        cases hfault
      · cases hidle.symm.trans h
  · split
    · next hstopping =>
        rw [hstopping] at hloop
        have hrest := frame_beside.stopRest w₁
        have hstopped : w₁.stopRest.stopped = true :=
          hrest.aside.stopped.trans
            (hbatch.aside.stopped.trans (hw.stopping dropped hloop))
        refine ⟨hrest.fresh hfresh, fun _ _ h => ?_, fun _ _ => hstopped⟩
        cases hstopped.symm.trans h
    · exact hfresh.scheduleNextTick hidle

section

variable [DecidableEq ι]

theorem ticking_step {w w' : LogSender ι} {l : Label ι} (hw : w.Ticking)
    (h : w.step l = some w') : w'.Ticking := by
  have hlive := (step_stepped h).1
  cases (step_stepped h).2 with
  | enter | leave | wake | start | stop =>
      exact hw.beside hlive (.of_eq rfl rfl)
  | drain scripts dropped stopping _ hloop hfinish =>
      exact hw.finishDrain hloop hfinish
  | functor d f fs hidle =>
      have hpop : { w with pending := fs }.Ticking :=
        hw.beside hlive (.of_eq rfl rfl)
      exact hpop.runFunctor hlive hidle d f
  | timer id d t hidle ht =>
      have hid : t.id = id := by simpa using List.find?_some ht
      rw [← hid]
      exact hw.fireTimer hlive hidle d (List.mem_of_find?_eq_some ht)
  | handshake => exact hw.beside hlive (frame_beside.settle w _)
  | event fd revents d c => exact hw.beside hlive (frame_beside.putConn w fd c)

/-- In every run, from the start of a sender to its stop and whatever was
pushed, lost and dialled in between, `tick_timer_id_` names a tick that is
outstanding, unless the loop thread is at the `drain` of one. -/
theorem tick_ahead {opts : Options} {ls : List (Label ι)} {w : LogSender ι}
    (hrun : Machine.run step (new opts) ls = some w) (hlive : w.fault = none)
    (hstarted : w.started = true) (hstopped : w.stopped = false) :
    w.TickSet ∨ ∃ dropped, w.loopPc = .draining dropped false := by
  have hw : w.Ticking :=
    Machine.run_preserves (fun hw h => ticking_step hw h) (ticking_new opts)
      hrun
  cases hpc : w.loopPc with
  | idle => exact .inl (hw.ahead hlive hstarted hstopped hpc)
  | draining dropped stopping =>
      cases stopping with
      | false => exact .inr ⟨dropped, rfl⟩
      | true => cases hstopped.symm.trans (hw.stopping dropped hpc)

end

/-- Two chains of ticks, and the connection is lost to the write of one. -/
def twoChains : List (Label Unit) :=
  [.start, .functor .inProgress, .enter () [1], .leave (), .wake (),
    .functor .inProgress, .handshake false, .timer 1 .inProgress,
    .drain [[.stop .fatal]]]

theorem tick_ahead_lost :
    ∃ w, Machine.run step (new {}) twoChains = some w ∧
      w.ticks.length = 2 ∧ w.connection = none ∧
      (w.TickSet ∨ ∃ dropped, w.loopPc = .draining dropped false) := by
  have hany : (Machine.run step (new {}) twoChains).any (fun w =>
      w.ticks.length == 2 && w.connection == none && w.fault == none &&
        w.started && !w.stopped) = true := by decide +kernel
  obtain ⟨w, hrun, hw⟩ := (Option.any_eq_true _ _).mp hany
  simp only [Bool.and_eq_true, beq_iff_eq, Bool.not_eq_true'] at hw
  obtain ⟨⟨⟨⟨hticks, hlost⟩, hlive⟩, hstarted⟩, hstopped⟩ := hw
  exact ⟨w, hrun, hticks, hlost, tick_ahead hrun hlive hstarted hstopped⟩

/-! ## The queue gets shorter -/

/-- The messages passed on so far. -/
def messages (w : LogSender ι) : List (List UInt8) :=
  w.passed.filterMap (·.2.message?)

/-- How often a schedule comes to a `drain`. -/
def drains (ls : List (Label ι)) : Nat :=
  ls.countP Label.isDrain

/-- From `w` to `w'` messages were queued and passed on, all in their order,
and `n` of those that were queued in `w` at least, if there are as many. -/
structure Moved (w : LogSender ι) (n : Nat) (w' : LogSender ι) : Prop where
  opts : w'.opts = w.opts
  wf : w'.queue.Wf
  books : ∃ new, w'.accepted = w.accepted ++ new ∧
    w'.messages ++ w'.queue.contents = w.messages ++ w.queue.contents ++ new
  count : w.messages.length + min n w.queue.contents.length ≤
    w'.messages.length

theorem Moved.refl {w : LogSender ι} (hw : w.queue.Wf) : Moved w 0 w :=
  ⟨rfl, hw, ⟨[], by simp⟩, by simp⟩

theorem Moved.trans {w₁ w₂ w₃ : LogSender ι} {m n : Nat} (h : Moved w₁ m w₂)
    (h' : Moved w₂ n w₃) : Moved w₁ (m + n) w₃ := by
  obtain ⟨new, haccepted, hbooks⟩ := h.books
  obtain ⟨new', haccepted', hbooks'⟩ := h'.books
  refine ⟨h'.opts.trans h.opts, h'.wf, ⟨new ++ new', ?_, ?_⟩, ?_⟩
  · rw [haccepted', haccepted, List.append_assoc]
  · rw [hbooks', hbooks, List.append_assoc]
  · have hlength := congrArg List.length hbooks
    simp only [List.length_append] at hlength
    have hcount := h.count
    have hcount' := h'.count
    omega

theorem Kept.moved {w w' : LogSender ι} (h : Kept w w') (hw : w.queue.Wf) :
    Moved w 0 w' := by
  have hmessages : w'.messages = w.messages := by
    rw [messages, h.passed, messages]
  refine ⟨h.opts, h.wf hw, ⟨[], ?_, ?_⟩, ?_⟩
  · rw [h.accepted, List.append_nil]
  · rw [hmessages, h.contents, List.append_nil]
  · rw [hmessages, Nat.zero_min]
    exact Nat.le_refl _

/-- A `drain` takes what it may, and the process ends if not all of it is passed
on. -/
theorem moved_finishDrain {w w' : LogSender ι} (hw : w.queue.Wf) {dropped : Nat}
    {stopping : Bool} {scripts : List (List WriteRes)}
    (h : w.finishDrain dropped stopping scripts = some w')
    (hlive : w'.fault = none) : Moved w w.opts.maxBatchPerTick w' := by
  obtain ⟨w₁, hdrain, rfl⟩ := Option.map_eq_some_iff.mp h
  obtain ⟨taken, htaken, hwf, -, -, hcontents, hlength⟩ :=
    MPSCQueue.drain_splits hw [] w.opts.maxBatchPerTick
  rw [List.nil_append] at htaken
  rw [drainAndSend_eq] at hdrain
  obtain ⟨sent, hsteady, -, hall⟩ := sendBatch_sends hdrain
  have hsent : sent.filterMap (·.2.message?) = taken := by
    have hbatch : sent.map (·.2) = batch dropped taken := by
      rw [← htaken]
      exact hall (behindDrain_fault hlive)
    have hmsgs := messages_batch 0 dropped taken
    rw [List.filterMap_map] at hmsgs
    rw [← hmsgs, ← hbatch, List.filterMap_map]
    rfl
  have hmessages : w₁.messages = w.messages ++ taken := by
    rw [messages, hsteady.passed, List.filterMap_append, hsent]
    rfl
  have hdone : Moved w w.opts.maxBatchPerTick w₁ := by
    refine ⟨hsteady.opts, hsteady.queue ▸ hwf, ⟨[], ?_, ?_⟩, ?_⟩
    · rw [hsteady.accepted, List.append_nil]
    · rw [hmessages, hsteady.queue, List.append_nil, List.append_assoc,
        ← hcontents]
    · rw [hmessages, List.length_append, hlength]
      exact Nat.le_of_eq (by rw [MPSCQueue.contents_length])
  exact hdone.trans ((kept_behindDrain stopping w₁).moved hdone.wf)

variable [DecidableEq ι]

theorem moved_enter {w : LogSender ι} (hw : w.queue.Wf) (p : ι)
    (msg : List UInt8) : Moved w 0 (w.enter p msg) := by
  refine ⟨rfl, hw.pushLocked msg, ⟨_, rfl, ?_⟩, ?_⟩
  · show w.messages ++ (w.queue.pushLocked msg).2.contents = _
    rw [MPSCQueue.contents_pushLocked hw, ← List.append_assoc]
  · rw [Nat.zero_min]
    exact Nat.le_refl _

theorem live_before {ls : List (Label ι)} {w w' : LogSender ι}
    (hrun : Machine.run step w ls = some w') (hlive : w'.fault = none) :
    w.fault = none := by
  cases ls with
  | nil =>
      obtain rfl : w = w' := by simpa using hrun
      exact hlive
  | cons l ls =>
      obtain ⟨w₁, hstep, -⟩ := Machine.run_cons_some.mp hrun
      exact step_fault hstep

theorem moved_step {w w' : LogSender ι} {l : Label ι} (hw : w.queue.Wf)
    (h : w.step l = some w') (hlive : w'.fault = none) :
    Moved w (if l.isDrain then w.opts.maxBatchPerTick else 0) w' := by
  cases step_touched h with
  | enter p msg => exact moved_enter hw p msg
  | drain scripts dropped stopping _ hfinish =>
      exact moved_finishDrain hw hfinish hlive
  | kept l w' hl hkept =>
      rw [hl, if_neg Bool.false_ne_true]
      exact hkept.moved hw

theorem moved_run {ms : List (Label ι)} : ∀ {w w' : LogSender ι},
    w.queue.Wf → Machine.run step w ms = some w' → w'.fault = none →
    Moved w (drains ms * w.opts.maxBatchPerTick) w' := by
  induction ms with
  | nil =>
      intro w w' hw hrun _
      obtain rfl : w = w' := by simpa using hrun
      rw [drains, List.countP_nil, Nat.zero_mul]
      exact .refl hw
  | cons l ms ih =>
      intro w w' hw hrun hlive
      obtain ⟨w₁, hstep, hrest⟩ := Machine.run_cons_some.mp hrun
      have hone := moved_step hw hstep (live_before hrest hlive)
      have hall := hone.trans (ih hone.wf hrest hlive)
      rw [hone.opts] at hall
      have hfirst : (if l.isDrain then 1 else 0) * w.opts.maxBatchPerTick =
          if l.isDrain then w.opts.maxBatchPerTick else 0 := by
        split
        · exact Nat.one_mul _
        · exact Nat.zero_mul _
      rw [drains, List.countP_cons, Nat.add_mul, Nat.add_comm, hfirst]
      exact hall

/-- In every run of a process that lives, each of its drains has passed on
`max_batch_per_tick` messages of those that were accepted before, the oldest
first, or there were no more of them, whatever was pushed meanwhile and whatever
became of the connections. -/
theorem backlog_passed {opts : Options} {ls ms : List (Label ι)}
    {w w' : LogSender ι} (hrun : Machine.run step (new opts) ls = some w)
    (hmore : Machine.run step w ms = some w') (hlive : w'.fault = none) :
    w.accepted.take (w.messages.length + drains ms * opts.maxBatchPerTick) <+:
      w'.messages := by
  have hfirst := moved_run (MPSCQueue.wf_new _) hrun (live_before hmore hlive)
  have hlater := moved_run hfirst.wf hmore hlive
  obtain ⟨old, haccepted, hold⟩ := hfirst.books
  obtain ⟨new, haccepted', hbooks⟩ := hlater.books
  have hqueued : w.messages ++ w.queue.contents = w.accepted := by
    rw [hold, haccepted]
    rfl
  rw [hqueued, ← haccepted'] at hbooks
  have hpassed : w'.messages <+: w'.accepted := ⟨_, hbooks⟩
  have hdue : w.accepted.take (w.messages.length +
      drains ms * opts.maxBatchPerTick) <+: w'.accepted :=
    (List.take_prefix _ _).trans ⟨new, haccepted'.symm⟩
  refine List.prefix_of_prefix_length_le hdue hpassed ?_
  have hcount := hlater.count
  rw [show w.opts = opts from hfirst.opts] at hcount
  rw [← hqueued, List.length_take, List.length_append]
  omega

/-- Five messages, and a connection that is up. -/
def fiveQueued : List (Label Unit) :=
  up ++ ([.enter () [1], .leave (), .wake (), .enter () [2], .leave (),
    .enter () [3], .leave (), .enter () [4], .leave (), .enter () [5],
    .leave ()] : List (Label Unit))

/-- Two ticks for two messages each, and one more message in between. -/
def twoDrains : List (Label Unit) :=
  [.functor .inProgress, .drain [[.accepted 5], [.accepted 5]],
    .enter () [6], .leave (), .timer 1 .inProgress,
    .drain [[.accepted 5], [.stop .eagain]]]

theorem backlog_passed_twoDrains :
    ∃ w w', Machine.run step (new { maxBatchPerTick := 2 }) fiveQueued =
        some w ∧ Machine.run step w twoDrains = some w' ∧
      w.accepted.take 4 = [[1], [2], [3], [4]] ∧
      w.accepted.take (w.messages.length + drains twoDrains * 2) <+:
        w'.messages := by
  have hany : (Machine.run step (new { maxBatchPerTick := 2 }) fiveQueued).any
      (fun w => w.accepted.take 4 == [[1], [2], [3], [4]] &&
        (Machine.run step w twoDrains).any fun w' => w'.fault == none) =
      true := by decide +kernel
  obtain ⟨w, hrun, hw⟩ := (Option.any_eq_true _ _).mp hany
  obtain ⟨htake, hw⟩ := Bool.and_eq_true_iff.mp hw
  obtain ⟨w', hmore, hlive⟩ := (Option.any_eq_true _ _).mp hw
  exact ⟨w, w', hrun, hmore, eq_of_beq htake,
    backlog_passed hrun hmore (by simpa using hlive)⟩

end GameFrame.LogSender
