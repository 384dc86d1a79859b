import GameFrame.Proofs.SenderThread

/-!
# One tick, and who sets the next

A tick sets the timer of the next one when it is done, so there is one chain
of ticks, and `tick_timer_id_` names its timer. But the functor that a push
leaves for the loop calls `on_tick` as well, while the timer is set, and the
second timer that comes of it starts a second chain, which never ends
(`tick_doubled`). `tick_timer_id_` names one of them.

All other functions of the loop thread leave the ticks alone, and set timers
only for the client's retries (`Aside`). So as long as no such functor runs
between start and stop (`WakeOk`), there is one chain.
-/

namespace GameFrame.LogSender

variable {ι : Type _}

/-- The outstanding timers of ticks. -/
def ticks (w : LogSender ι) : List Timer :=
  w.timers.filter fun t => t.kind = .tick

/-- At most one tick is outstanding, and `tick_timer_id_` names it. -/
def OneTick (w : LogSender ι) : Prop :=
  w.ticks.length ≤ 1 ∧ ∀ t ∈ w.ticks, t.id = w.tickTimerId ∧ w.tickTimerId ≠ 0

/-- No wake-up functor of a push runs between start and stop. -/
def WakeOk (w : LogSender ι) : Label ι → Prop
  | .functor _ => w.pending.head? = some .wake →
      w.started = false ∨ w.stopped = true
  | _ => True

instance (w : LogSender ι) : ∀ l, Decidable (WakeOk w l)
  | .functor _ => inferInstanceAs (Decidable (_ → _))
  | .enter _ _ | .leave _ | .wake _ | .start | .stop | .timer _ _
  | .handshake _ | .event _ _ _ | .drain _ => .isTrue trivial

/-- A push before the connection is up: its wake-up sets a second timer. -/
theorem tick_doubled :
    ¬ ∀ (opts : Options) (ls : List (Label Unit)) (w : LogSender Unit),
      Machine.run step (new opts) ls = some w → w.stopped = false →
      w.OneTick := by
  intro hall
  have hany : (Machine.run step (new { queueCapacity := 4 }) [.start,
      .functor .inProgress, .enter () [1], .leave (), .wake (),
      .functor .inProgress]).any (fun w =>
        !w.stopped && w.ticks.length == 2) = true := by decide +kernel
  obtain ⟨w, hrun, hw⟩ := (Option.any_eq_true _ _).mp hany
  obtain ⟨hstopped, htwo⟩ := Bool.and_eq_true_iff.mp hw
  have hone := (hall _ _ w hrun (by simpa using hstopped)).1
  rw [eq_of_beq htwo] at hone
  exact absurd hone (by decide)

/-! ## What leaves the ticks alone -/

/-- Timer ids are positive, zero being no timer. -/
def Numbered (w : LogSender ι) : Prop :=
  0 < w.nextTimerId ∧ ∀ t ∈ w.timers, 0 < t.id

/-- From `w` to `w'` timers were set for retries only. -/
structure Aside (w w' : LogSender ι) : Prop where
  ticks : w'.ticks = w.ticks
  tickTimerId : w'.tickTimerId = w.tickTimerId
  numbered : w.Numbered → w'.Numbered
  started : w'.started = w.started
  stopped : w'.stopped = w.stopped
  loopPc : w'.loopPc = w.loopPc

theorem Aside.trans {w₁ w₂ w₃ : LogSender ι} (h : Aside w₁ w₂)
    (h' : Aside w₂ w₃) : Aside w₁ w₃ where
  ticks := h'.ticks.trans h.ticks
  tickTimerId := h'.tickTimerId.trans h.tickTimerId
  numbered := fun hw => h'.numbered (h.numbered hw)
  started := h'.started.trans h.started
  stopped := h'.stopped.trans h.stopped
  loopPc := h'.loopPc.trans h.loopPc

/-- No timer was set at all. -/
theorem Aside.of_eq {w w' : LogSender ι}
    (h : (w'.timers, w'.nextTimerId, w'.tickTimerId, w'.started, w'.stopped,
      w'.loopPc) = (w.timers, w.nextTimerId, w.tickTimerId, w.started,
      w.stopped, w.loopPc)) : Aside w w' := by
  simp only [Prod.mk.injEq] at h
  obtain ⟨htimers, hnext, htick, hstarted, hstopped, hloop⟩ := h
  refine ⟨?_, htick, fun h => ?_, hstarted, hstopped, hloop⟩
  · rw [LogSender.ticks, LogSender.ticks, htimers]
  · rwa [Numbered, htimers, hnext]

theorem Aside.refl (w : LogSender ι) : Aside w w := .of_eq rfl

theorem numbered_runAfter {w : LogSender ι} (hw : w.Numbered) (ms : Nat)
    (kind : TimerKind) : (w.runAfter ms kind).2.Numbered := by
  refine ⟨Nat.succ_pos _, fun t ht => ?_⟩
  rcases List.mem_append.mp ht with ht | ht
  · exact hw.2 t ht
  · rw [List.mem_singleton.mp ht]
    exact hw.1

theorem ticks_runAfter (w : LogSender ι) (ms : Nat) (kind : TimerKind) :
    (w.runAfter ms kind).2.ticks =
      w.ticks ++ if kind = .tick then [⟨w.nextTimerId, kind, ms⟩] else [] := by
  rw [ticks, runAfter, List.filter_append, List.filter_cons, List.filter_nil]
  simp [ticks]

theorem aside_retry (w : LogSender ι) (ms : Nat) :
    Aside w (w.runAfter ms .retry).2 where
  ticks := by simp [ticks_runAfter]
  tickTimerId := rfl
  numbered := fun hw => numbered_runAfter hw ms .retry
  started := rfl
  stopped := rfl
  loopPc := rfl

theorem frame_aside : Frame (Aside (ι := ι)) where
  refl := .refl
  trans := .trans
  fields := fun _ _ _ _ _ => .of_eq rfl
  retry := aside_retry
  queue := fun _ _ _ => .of_eq rfl
  fail := fun _ _ => .of_eq rfl

theorem aside_settle (w : LogSender ι) (r : TcpClient × ClientAsk) :
    Aside w (w.settle r) := frame_aside.settle w r

theorem aside_putConn (w : LogSender ι) (fd : Nat) (c : Connection) :
    Aside w (w.putConn fd c) := frame_aside.putConn w fd c

theorem aside_sendBatch {batch : List Payload} {w w' : LogSender ι}
    {scripts : List (List WriteRes)} (h : w.sendBatch batch scripts = some w') :
    Aside w w' := frame_aside.sendBatch (fun _ _ => .of_eq rfl) h

theorem aside_drainAndSend {w w' : LogSender ι} {dropped : Nat}
    {scripts : List (List WriteRes)}
    (h : w.drainAndSend dropped scripts = some w') : Aside w w' := by
  have hqueue : Aside w
      { w with queue := (w.queue.drain [] w.opts.maxBatchPerTick).1 } :=
    .of_eq rfl
  rw [drainAndSend] at h
  split at h
  · split at h
    · cases h
      exact hqueue
    · cases h
  · exact hqueue.trans (aside_sendBatch h)

/-! ## The chain -/

/-- The chain of ticks of a sender that is not stopped: none before the start,
none while a tick is at work, and one otherwise. -/
structure Chain (w : LogSender ι) : Prop where
  numbered : w.Numbered
  one : w.ticks = [] ∨ ∃ t, w.ticks = [t] ∧ t.id = w.tickTimerId
  early : w.started = false → w.ticks = []
  working : ∀ dropped stopping, w.loopPc = .draining dropped stopping →
    w.ticks = [] ∧ w.started = true ∧ stopping = false

theorem chain_new (opts : Options) : (new opts : LogSender ι).Chain where
  numbered := ⟨Nat.one_pos, fun _ h => absurd h List.not_mem_nil⟩
  one := .inl rfl
  early := fun _ => rfl
  working := fun _ _ h => by cases h

theorem Chain.oneTick {w : LogSender ι} (hw : w.Chain) : w.OneTick := by
  rcases hw.one with hnil | ⟨t, ht, hid⟩
  · rw [OneTick, hnil]
    exact ⟨Nat.zero_le 1, fun _ h => absurd h List.not_mem_nil⟩
  · refine ⟨by rw [ht]; exact Nat.le_refl 1, fun s hs => ?_⟩
    rw [ht] at hs
    rw [List.mem_singleton.mp hs]
    have hmem : t ∈ w.timers :=
      (List.mem_filter.mp (ht ▸ List.mem_singleton_self t)).1
    have hpos := hw.numbered.2 t hmem
    exact ⟨hid, by omega⟩

theorem Chain.aside {w w' : LogSender ι} (hw : w.Chain) (h : Aside w w') :
    w'.Chain := by
  refine ⟨h.numbered hw.numbered, ?_, ?_, ?_⟩
  · rw [h.ticks, h.tickTimerId]
    exact hw.one
  · rw [h.started, h.ticks]
    exact hw.early
  · rw [h.loopPc, h.ticks, h.started]
    exact hw.working

/-- The next tick is set when there is none. -/
theorem Chain.scheduleNextTick {w : LogSender ι} (hw : w.Chain)
    (hnone : w.ticks = []) (hidle : w.loopPc = .idle)
    (hstarted : w.started = true) : w.scheduleNextTick.Chain := by
  rw [LogSender.scheduleNextTick]
  split
  · exact hw
  · have hticks := ticks_runAfter w w.opts.tickIntervalMs .tick
    rw [hnone, if_pos rfl, List.nil_append] at hticks
    refine ⟨numbered_runAfter hw.numbered _ _, .inr ⟨_, hticks, rfl⟩, ?_, ?_⟩
    · intro h
      cases hstarted.symm.trans h
    · intro dropped stopping h
      cases hidle.symm.trans h

theorem Chain.onTick {w : LogSender ι} (hw : w.Chain) (hnone : w.ticks = [])
    (hidle : w.loopPc = .idle) (hstarted : w.started = true) :
    w.onTick.Chain := by
  rw [LogSender.onTick]
  split
  · exact hw
  · split
    · refine ⟨hw.numbered, .inl hnone, fun _ => hnone, fun _ stopping h => ?_⟩
      cases h
      exact ⟨hnone, hstarted, rfl⟩
    · exact hw.scheduleNextTick hnone hidle hstarted

theorem Chain.startInLoop {w : LogSender ι} (hw : w.Chain)
    (hidle : w.loopPc = .idle) (d : Dial) : (w.startInLoop d).Chain := by
  rw [LogSender.startInLoop]
  split
  · exact hw
  · next hstarted =>
      have hnone : w.ticks = [] := hw.early (by simpa using hstarted)
      have hstart : { w with started := true }.Chain :=
        ⟨hw.numbered, hw.one, fun _ => hnone, fun _ _ h => by
          cases hidle.symm.trans h⟩
      dsimp only
      split
      · exact hstart.aside (.of_eq rfl)
      · next c _ =>
          have hdial := aside_settle { w with started := true }
            (c.connectInLoop d)
          refine (hstart.aside hdial).scheduleNextTick ?_ ?_ hdial.started
          · rw [hdial.ticks]
            exact hnone
          · rw [hdial.loopPc]
            exact hidle

theorem Chain.runFunctor {w : LogSender ι} (hw : w.Chain)
    (hidle : w.loopPc = .idle) {d : Dial} {f : SenderFunctor}
    (hwake : f = .wake → w.started = false ∨ w.stopped = true)
    (hstopped : (w.runFunctor d f).stopped = false) :
    (w.runFunctor d f).Chain := by
  cases f with
  | startInLoop => exact hw.startInLoop hidle d
  | stopInLoop =>
      rw [LogSender.runFunctor, stopInLoop_stopped] at hstopped
      cases hstopped
  | wake =>
      rw [LogSender.runFunctor, if_pos (by simpa using hwake rfl)]
      exact hw
  | conn fd f =>
      cases f with
      | shutdownInLoop => exact hw.aside (aside_putConn w fd _)
      | highWaterMark | writeComplete => exact hw.aside (.of_eq rfl)

/-- A timer that fires is not outstanding any more. -/
theorem Chain.cancelTimer {w : LogSender ι} (hw : w.Chain) (id : Nat) :
    (w.cancelTimer id).Chain := by
  have hticks : (w.cancelTimer id).ticks =
      w.ticks.filter fun t => t.id ≠ id := by
    rw [ticks, ticks, LogSender.cancelTimer, List.filter_filter,
      List.filter_filter]
    exact List.filter_congr fun t _ => Bool.and_comm _ _
  have hnil : w.ticks = [] → (w.cancelTimer id).ticks = [] := by
    intro h
    rw [hticks, h]
    rfl
  refine ⟨⟨hw.numbered.1, fun t ht => hw.numbered.2 t (List.mem_filter.mp ht).1⟩,
    ?_, fun h => hnil (hw.early h), fun dropped stopping h => ?_⟩
  · rcases hw.one with h | ⟨t, ht, hid⟩
    · exact .inl (hnil h)
    · rw [hticks, ht, List.filter_cons, List.filter_nil]
      split
      · exact .inr ⟨t, rfl, hid⟩
      · exact .inl rfl
  · obtain ⟨hnone, hrest⟩ := hw.working dropped stopping h
    exact ⟨hnil hnone, hrest⟩

theorem Chain.fireTimer {w : LogSender ι} (hw : w.Chain)
    (hidle : w.loopPc = .idle) (d : Dial) {t : Timer} (ht : t ∈ w.timers) :
    ((w.cancelTimer t.id).fireTimer d t.kind).Chain := by
  have hrest := hw.cancelTimer t.id
  cases hkind : t.kind with
  | tick =>
      -- It was the one.
      have hmem : t ∈ w.ticks := List.mem_filter.mpr ⟨ht, by simp [hkind]⟩
      have hstarted : w.started = true := by
        cases hs : w.started with
        | true => rfl
        | false =>
            rw [hw.early hs] at hmem
            cases hmem
      have hnone : (w.cancelTimer t.id).ticks = [] := by
        refine List.filter_eq_nil_iff.mpr fun s hs => ?_
        obtain ⟨hs, hid⟩ := List.mem_filter.mp hs
        intro hstick
        have hsmem : s ∈ w.ticks := List.mem_filter.mpr ⟨hs, hstick⟩
        rcases hw.one with h | ⟨u, hu, -⟩
        · rw [h] at hmem
          cases hmem
        · rw [hu] at hmem hsmem
          rw [List.mem_singleton.mp hsmem, ← List.mem_singleton.mp hmem] at hid
          simp at hid
      have hfired : { w.cancelTimer t.id with tickTimerId := 0 }.Chain :=
        ⟨hrest.numbered, .inl hnone, hrest.early, hrest.working⟩
      exact hfired.onTick hnone hidle hstarted
  | retry =>
      rw [LogSender.fireTimer]
      split
      · exact hrest.aside (.of_eq rfl)
      · exact hrest.aside (aside_settle _ _)

theorem Chain.finishDrain {w w' : LogSender ι} (hw : w.Chain) {dropped : Nat}
    {stopping : Bool} (hloop : w.loopPc = .draining dropped stopping)
    {scripts : List (List WriteRes)}
    (h : w.finishDrain dropped stopping scripts = some w') : w'.Chain := by
  obtain ⟨hnone, hstarted, rfl⟩ := hw.working dropped stopping hloop
  obtain ⟨w₁, hdrain, rfl⟩ := Option.map_eq_some_iff.mp h
  have hidle : { w with loopPc := .idle }.Chain :=
    ⟨hw.numbered, hw.one, hw.early, fun _ _ h => by cases h⟩
  have haside := aside_drainAndSend hdrain
  rw [behindDrain]
  split
  · exact hidle.aside haside
  · rw [if_neg Bool.false_ne_true]
    refine (hidle.aside haside).scheduleNextTick ?_ haside.loopPc ?_
    · rw [haside.ticks]
      exact hnone
    · rw [haside.started]
      exact hstarted

variable [DecidableEq ι]

theorem chain_step {w w' : LogSender ι} {l : Label ι} (hw : w.Chain)
    (hok : w.WakeOk l) (hstopped : w'.stopped = false)
    (h : w.step l = some w') : w'.Chain := by
  cases (step_stepped h).2 with
  | enter | leave | wake | start | stop => exact hw.aside (.of_eq rfl)
  | drain scripts dropped stopping _ hloop hfinish =>
      exact hw.finishDrain hloop hfinish
  | functor d f fs hidle hq =>
      have hpop : { w with pending := fs }.Chain := hw.aside (.of_eq rfl)
      refine hpop.runFunctor hidle (fun hf => ?_) hstopped
      exact hok (by rw [hq, hf]; rfl)
  | timer id d t hidle ht =>
      have hid : t.id = id := by simpa using List.find?_some ht
      rw [← hid]
      exact hw.fireTimer hidle d (List.mem_of_find?_eq_some ht)
  | handshake => exact hw.aside (aside_settle w _)
  | event fd revents d c => exact hw.aside (aside_putConn w fd c)

/-- In a run where no wake-up functor calls `on_tick`, there is one tick at a
time. -/
theorem tick_once {opts : Options} {ls : List (Label ι)} {w : LogSender ι}
    (hok : Machine.Meets step WakeOk (new opts) ls)
    (hrun : Machine.run step (new opts) ls = some w)
    (hstopped : w.stopped = false) : w.OneTick := by
  have hstep : ∀ {w : LogSender ι} {l : Label ι} {w' : LogSender ι},
      (w.stopped = false → w.Chain) → w.WakeOk l →
      w.step l = some w' → w'.stopped = false → w'.Chain := by
    intro w l w' hw hok h hstopped
    have hbefore : w.stopped = false := by
      cases hs : w.stopped with
      | false => rfl
      | true => exact absurd (step_stopped h hs) (by simp [hstopped])
    exact chain_step (hw hbefore) hok hstopped h
  exact (Machine.run_preserves_of_meets
    (P := fun w : LogSender ι => w.stopped = false → w.Chain) hstep
    (fun _ => chain_new opts) hok hrun hstopped).oneTick

/-- A push before the start, two ticks, a connection that is lost, and one more
tick. -/
theorem tick_once_lost :
    ∃ w : LogSender Unit, Machine.run step (new { queueCapacity := 4 })
        [.enter () [1], .leave (), .wake (), .functor .inProgress, .start,
          .functor .inProgress, .timer 1 .inProgress, .handshake false,
          .timer 2 .inProgress, .drain [[.accepted 5]],
          .event 0 EPOLLHUP {}, .timer 3 .inProgress] = some w ∧
      w.tickTimerId = 5 ∧ w.timers.map (·.kind) = [.retry, .tick] ∧
      w.OneTick := by
  have hany : (Machine.run step (new { queueCapacity := 4 }) [.enter () [1],
      .leave (), .wake (), .functor .inProgress, .start, .functor .inProgress,
      .timer 1 .inProgress, .handshake false, .timer 2 .inProgress,
      .drain [[.accepted 5]], .event 0 EPOLLHUP {}, .timer 3 .inProgress]).any
      (fun w => !w.stopped && w.tickTimerId == 5 &&
        w.timers.map (·.kind) == [.retry, .tick]) = true := by decide +kernel
  obtain ⟨w, hrun, hw⟩ := (Option.any_eq_true _ _).mp hany
  simp only [Bool.and_eq_true, beq_iff_eq, Bool.not_eq_true'] at hw
  obtain ⟨⟨hstopped, hid⟩, hkinds⟩ := hw
  exact ⟨w, hrun, hid, hkinds, tick_once (by decide +kernel) hrun hstopped⟩

end GameFrame.LogSender
