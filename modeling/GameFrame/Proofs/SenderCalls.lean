import GameFrame.Proofs.SenderStop
import GameFrame.Proofs.SenderPaused

/-!
# The calls a sender's loop has still to see

`start()` and `stop()` each leave the loop a functor, and of all it does the
loop runs these two in the order they came and queues none itself. What a step
makes of them is one of three things (`CallStep`): nothing, or the first of
them is run, which is that of a `start()` or that of a `stop()`.

Until the client is destroyed `tcp_client_` is there for whoever follows it:
for `start_in_loop`, for `stop_in_loop`, and behind the last batch
(`Held.client_kept`).
-/

namespace GameFrame

def SenderFunctor.ofCall : SenderFunctor → Bool
  | .startInLoop | .stopInLoop => true
  | .wake | .conn _ _ => false

namespace LogSender

variable {ι : Type _}

def calls (w : LogSender ι) : List SenderFunctor :=
  w.pending.filter SenderFunctor.ofCall

theorem mem_calls {w : LogSender ι} {f : SenderFunctor} :
    f ∈ w.calls ↔ f ∈ w.pending ∧ f.ofCall = true := List.mem_filter

/-- From `w` to `w'` no call is queued and none is run. -/
def Quiet (w w' : LogSender ι) : Prop :=
  w'.started = w.started ∧ w'.calls = w.calls

theorem Quiet.trans {w₁ w₂ w₃ : LogSender ι} (h : Quiet w₁ w₂)
    (h' : Quiet w₂ w₃) : Quiet w₁ w₃ :=
  ⟨h'.1.trans h.1, h'.2.trans h.2⟩

theorem Quiet.refl (w : LogSender ι) : Quiet w w := ⟨rfl, rfl⟩

/-- What a connection queues is its own. -/
theorem frame_quiet : Frame (Quiet (ι := ι)) where
  refl := .refl
  trans := .trans
  fields := fun _ _ _ _ _ => ⟨rfl, rfl⟩
  retry := fun _ _ => ⟨rfl, rfl⟩
  queue := by
    intro w fd fs
    refine ⟨rfl, ?_⟩
    have hown : (fs.map (SenderFunctor.conn fd)).filter
        SenderFunctor.ofCall = [] := by
      simp [SenderFunctor.ofCall]
    show (w.pending ++ _).filter _ = _
    rw [List.filter_append, hown, List.append_nil]
    rfl
  fail := fun _ _ => ⟨rfl, rfl⟩

theorem quiet_scheduleNextTick (w : LogSender ι) :
    Quiet w w.scheduleNextTick := by
  rw [scheduleNextTick]
  split
  · exact .refl w
  · exact ⟨rfl, rfl⟩

theorem quiet_cancelTick (w : LogSender ι) : Quiet w w.cancelTick := by
  rw [cancelTick]
  split
  · exact ⟨rfl, rfl⟩
  · exact .refl w

theorem quiet_finishDrain {w w' : LogSender ι} {dropped : Nat}
    {stopping : Bool} {scripts : List (List WriteRes)}
    (h : w.finishDrain dropped stopping scripts = some w') : Quiet w w' := by
  obtain ⟨w₁, hdrain, rfl⟩ := Option.map_eq_some_iff.mp h
  rw [drainAndSend_eq] at hdrain
  have hsend : Quiet w w₁ := by
    have hqueue : Quiet w { w with
        loopPc := .idle
        queue := (w.queue.drain [] w.opts.maxBatchPerTick).1 } := ⟨rfl, rfl⟩
    exact hqueue.trans (frame_quiet.sendBatch (fun _ _ => ⟨rfl, rfl⟩) hdrain)
  refine hsend.trans ?_
  rw [behindDrain]
  split
  · exact .refl w₁
  · split
    · exact frame_quiet.stopRest w₁
    · exact quiet_scheduleNextTick w₁

/-- Behind the batch the loop thread goes on. -/
theorem finishDrain_idle {w w' : LogSender ι} {dropped : Nat}
    {stopping : Bool} {scripts : List (List WriteRes)}
    (h : w.finishDrain dropped stopping scripts = some w') :
    w'.loopPc = .idle := by
  obtain ⟨w₁, hdrain, rfl⟩ := Option.map_eq_some_iff.mp h
  rw [behindDrain_loopPc]
  exact (aside_drainAndSend hdrain).loopPc

theorem quiet_onTick (w : LogSender ι) : Quiet w w.onTick := by
  rw [onTick]
  split
  · exact .refl w
  · split
    · exact ⟨rfl, rfl⟩
    · exact quiet_scheduleNextTick w

/-! ## What a step makes of them -/

/-- The loop thread is in the last batch. -/
def atLast (w : LogSender ι) : Prop := ∃ dropped, w.loopPc = .draining dropped true

theorem not_atLast {w : LogSender ι} (h : w.loopPc = .idle) : ¬ w.atLast := by
  rintro ⟨dropped, hlast⟩
  cases h.symm.trans hlast

inductive CallStep (w w' : LogSender ι) : Prop where
  | none : Quiet w w' → w'.stopped = w.stopped → (w'.atLast → w.atLast) →
      CallStep w w'
  | start : w.calls = .startInLoop :: w'.calls → w'.started = true →
      w'.stopped = w.stopped → (w'.atLast → w.atLast) → CallStep w w'
  | stop : w.calls = .stopInLoop :: w'.calls → w'.started = w.started →
      w'.stopped = true → CallStep w w'

theorem onTick_last {w : LogSender ι} (h : w.onTick.atLast) : w.atLast := by
  obtain ⟨dropped, h⟩ := h
  rw [onTick] at h
  split at h
  · exact ⟨dropped, h⟩
  · split at h
    · cases h
    · exact ⟨dropped, (steady_scheduleNextTick w).loopPc ▸ h⟩

theorem onTick_kept (w : LogSender ι) : w.onTick.stopped = w.stopped := by
  rw [onTick]
  split
  · rfl
  · split
    · rfl
    · exact (steady_scheduleNextTick w).stopped

theorem callStep_steady {w w' : LogSender ι} {sent : List (Nat × Payload)}
    (hquiet : Quiet w w') (h : Steady w w' sent) : CallStep w w' :=
  .none hquiet h.stopped fun ⟨dropped, hlast⟩ => ⟨dropped, h.loopPc ▸ hlast⟩

theorem startInLoop_called (w : LogSender ι) (d : Dial) :
    (w.startInLoop d).started = true ∧ (w.startInLoop d).calls = w.calls ∧
      (w.startInLoop d).stopped = w.stopped ∧
      (w.startInLoop d).loopPc = w.loopPc := by
  rw [startInLoop]
  split
  · next h => exact ⟨h, rfl, rfl, rfl⟩
  · dsimp only
    split
    · exact ⟨rfl, rfl, rfl, rfl⟩
    · next c _ =>
        have hq := (frame_quiet.settle { w with started := true }
          (c.connectInLoop d)).trans (quiet_scheduleNextTick _)
        have hs := (steady_settle { w with started := true }
          (c.connectInLoop d)).trans (steady_scheduleNextTick _)
        exact ⟨hq.1, hq.2, hs.stopped, hs.loopPc⟩

theorem quiet_stopInLoop (w : LogSender ι) : Quiet w w.stopInLoop := by
  rw [stopInLoop]
  split
  · exact .refl w
  · have hcancel : Quiet w { w with stopped := true }.cancelTick :=
      quiet_cancelTick { w with stopped := true }
    dsimp only
    split
    · exact hcancel.trans ⟨rfl, rfl⟩
    · exact hcancel.trans (frame_quiet.stopRest _)

/-- Only `stop_in_loop` begins a last batch. -/
theorem runFunctor_last {w : LogSender ι} {d : Dial} {f : SenderFunctor}
    (hf : f ≠ .stopInLoop) (h : (w.runFunctor d f).atLast) : w.atLast := by
  cases f with
  | startInLoop =>
      obtain ⟨dropped, h⟩ := h
      exact ⟨dropped, (startInLoop_called w d).2.2.2 ▸ h⟩
  | stopInLoop => exact absurd rfl hf
  | wake =>
      rw [runFunctor] at h
      split at h
      · exact h
      · exact onTick_last h
  | conn fd f =>
      cases f with
      | shutdownInLoop =>
          obtain ⟨dropped, h⟩ := h
          exact ⟨dropped, (steady_putConn w fd _).loopPc ▸ h⟩
      | highWaterMark | writeComplete => exact h

theorem callStep_functor {w : LogSender ι} {f : SenderFunctor}
    {fs : List SenderFunctor} (d : Dial) (hq : w.pending = f :: fs) :
    CallStep w ({ w with pending := fs }.runFunctor d f) := by
  -- A functor that is no call leaves the calls as they are.
  have hpop : f.ofCall = false → Quiet w { w with pending := fs } := by
    intro hf
    refine ⟨rfl, ?_⟩
    rw [calls, calls, hq, List.filter_cons_of_neg (by simp [hf])]
  have hcall : f.ofCall = true →
      w.calls = f :: LogSender.calls { w with pending := fs } := by
    intro hf
    rw [calls, calls, hq, List.filter_cons_of_pos hf]
  have hlast : f ≠ .stopInLoop →
      ({ w with pending := fs }.runFunctor d f).atLast → w.atLast :=
    fun hf h => runFunctor_last (w := { w with pending := fs }) hf h
  cases f with
  | startInLoop =>
      obtain ⟨hstarted, hcalls, hstopped, -⟩ :=
        startInLoop_called { w with pending := fs } d
      refine .start ?_ hstarted hstopped (hlast (by simp))
      rw [hcall rfl]
      exact congrArg _ hcalls.symm
  | stopInLoop =>
      have hquiet := quiet_stopInLoop { w with pending := fs }
      refine .stop ?_ hquiet.1 (stopInLoop_stopped _)
      rw [hcall rfl]
      exact congrArg _ hquiet.2.symm
  | wake =>
      refine .none ?_ ?_ (hlast (by simp))
      · rw [runFunctor]
        split
        · exact hpop rfl
        · exact (hpop rfl).trans (quiet_onTick _)
      · rw [runFunctor]
        split
        · rfl
        · exact onTick_kept _
  | conn fd f =>
      cases f with
      | shutdownInLoop =>
          exact .none ((hpop rfl).trans (frame_quiet.putConn _ _ _))
            (steady_putConn { w with pending := fs } fd _).stopped
            (hlast (by simp))
      | highWaterMark | writeComplete =>
          exact .none (hpop rfl) rfl (hlast (by simp))

theorem fireTimer_last {w : LogSender ι} {d : Dial} {k : TimerKind}
    (h : (w.fireTimer d k).atLast) : w.atLast := by
  cases k with
  | tick => exact onTick_last (w := { w with tickTimerId := 0 }) h
  | retry =>
      obtain ⟨dropped, h⟩ := h
      rw [fireTimer] at h
      split at h
      · exact ⟨dropped, h⟩
      · exact ⟨dropped, (steady_settle w _).loopPc ▸ h⟩

theorem callStep_timer (w : LogSender ι) (id : Nat) (d : Dial)
    (k : TimerKind) : CallStep w ((w.cancelTimer id).fireTimer d k) := by
  have hcancel : Quiet w (w.cancelTimer id) := ⟨rfl, rfl⟩
  have hkept : Quiet w ((w.cancelTimer id).fireTimer d k) ∧
      ((w.cancelTimer id).fireTimer d k).stopped = w.stopped := by
    cases k with
    | tick => exact ⟨hcancel.trans (quiet_onTick _), onTick_kept _⟩
    | retry =>
        rw [fireTimer]
        split
        · exact ⟨hcancel, rfl⟩
        · exact ⟨hcancel.trans (frame_quiet.settle _ _), (steady_settle _ _).stopped⟩
  exact .none hkept.1 hkept.2 fun h => fireTimer_last (w := w.cancelTimer id) h

variable [DecidableEq ι]

theorem step_calls {w w' : LogSender ι} {l : Label ι}
    (hstart : l ≠ .start) (hstop : l ≠ .stop) (h : w.step l = some w') :
    CallStep w w' := by
  cases (step_stepped h).2 with
  | enter | leave => exact .none ⟨rfl, rfl⟩ rfl id
  | wake p =>
      refine .none ⟨rfl, ?_⟩ rfl id
      show (w.pending ++ [SenderFunctor.wake]).filter _ = _
      rw [List.filter_append]
      exact List.append_nil _
  | start => exact absurd rfl hstart
  | stop => exact absurd rfl hstop
  | drain scripts dropped stopping _ hloop hfinish =>
      refine .none (quiet_finishDrain hfinish) (finishDrain_stopped hfinish) ?_
      exact fun hlast => absurd hlast (not_atLast (finishDrain_idle hfinish))
  | functor d f fs hidle hq => exact callStep_functor d hq
  | timer id d t => exact callStep_timer w id d t.kind
  | handshake err c =>
      exact callStep_steady (frame_quiet.settle w _) (steady_settle w _)
  | event fd revents d c =>
      exact callStep_steady (frame_quiet.putConn w fd c) (steady_putConn w fd c)

end LogSender

namespace LogSender

variable {ι : Type _}

/-! ## While the client is there -/

theorem settle_fault (w : LogSender ι) (r : TcpClient × ClientAsk) :
    (w.settle r).fault = w.fault := by
  have hon : ∀ (w : LogSender ι) (fd : Nat),
      (w.onConnection fd).fault = w.fault := by
    intro w fd
    rw [onConnection]
    split
    · dsimp only
      split
      · rfl
      · rfl
    · rfl
  rw [settle]
  split
  · rfl
  · rfl
  · exact hon _ _

theorem putConn_fault {w : LogSender ι} {k : TcpClient}
    (hclient : w.tcpClient = some k) (fd : Nat) (c : Connection) :
    (w.putConn fd c).fault = w.fault := by
  by_cases hclosed : (w.conns fd).state ≠ .kDisconnected ∧
      c.state = .kDisconnected
  · rw [putConn_closed hclosed.1 hclosed.2]
    obtain ⟨timers, next, heq⟩ := onConnectionClosed_eq
      (w := w.withConn fd c) (by rw [withConn_self]; exact hclosed.2) hclient
    rw [heq]
    rfl
  · rw [putConn_open hclosed]
    rfl

theorem scheduleNextTick_fault (w : LogSender ι) :
    w.scheduleNextTick.fault = w.fault := by
  rw [scheduleNextTick]
  split
  · rfl
  · rfl

theorem Tidy.startInLoop_fault {w : LogSender ι} (hw : w.Tidy) (d : Dial) :
    (w.startInLoop d).fault = w.fault := by
  obtain ⟨c, hc, -⟩ := hw.client
  rw [LogSender.startInLoop]
  split
  · rfl
  · simp only [hc]
    rw [scheduleNextTick_fault, settle_fault]

theorem Tidy.stopRest_fault {w : LogSender ι} (hw : w.Tidy) :
    w.stopRest.fault = w.fault := by
  obtain ⟨c, hc, hsound, hsame⟩ := hw.client
  cases hconn : w.connection with
  | none => rw [stopRest_none hconn hc (hsame.trans hconn)]
  | some fd =>
      have hkconn : c.connection = some fd := hsame.trans hconn
      rw [stopRest_some hconn hc (hw.current fd hconn).state (hw.swept fd)
        (hsound.connection.mp (by rw [hkconn]; rfl)) hkconn]
      rfl

/-- A batch ends the process at a null `connection_` only. -/
theorem Tidy.sendBatch_fault {batch : List Payload} {w w' : LogSender ι}
    {scripts : List (List WriteRes)} (hw : w.Tidy) (hfault : w.fault = none)
    (h : w.sendBatch batch scripts = some w') : w'.fault ≠ some .tcpClient := by
  refine sendBatch_rule (P := fun w => w.Tidy ∧ w.fault = none)
    (Q := fun w => w.fault ≠ some .tcpClient) ?_ ?_ ?_ ⟨hw, hfault⟩ h
  · rintro w fd p ws c ⟨hw, hfault⟩ hconn hsend
    obtain ⟨k, hk, -⟩ := hw.client
    refine ⟨hw.pass hconn hsend, ?_⟩
    rw [putConn_fault (w := { w with passed := w.passed ++ [(fd, p)] }) hk]
    exact hfault
  · rintro w ⟨-, hfault⟩
    simp [hfault]
  · rintro w ⟨-, hfault⟩
    simp [fail, hfault]

theorem Tidy.finishDrain_fault {w w' : LogSender ι} {dropped : Nat}
    {stopping : Bool} {scripts : List (List WriteRes)}
    (hw : { w with loopPc := .idle }.Tidy) (hfault : w.fault = none)
    (h : w.finishDrain dropped stopping scripts = some w') :
    w'.fault ≠ some .tcpClient := by
  obtain ⟨w₁, hdrain, rfl⟩ := Option.map_eq_some_iff.mp h
  have hsent : w₁.fault ≠ some .tcpClient := by
    obtain ⟨taken, -, hwf, -⟩ :=
      MPSCQueue.drain_splits hw.queue [] w.opts.maxBatchPerTick
    rw [drainAndSend_eq] at hdrain
    have hqueue : { w with
        loopPc := .idle
        queue := (w.queue.drain [] w.opts.maxBatchPerTick).1 }.Tidy :=
      hw.other rfl hw.numbered hwf fun _ _ h => by cases h
    exact hqueue.sendBatch_fault hfault hdrain
  rw [behindDrain]
  split
  · exact hsent
  · next hnone =>
      have hnone : w₁.fault = none := by simpa using hnone
      have hdone := hw.drainAndSend hdrain hnone
      split
      · rw [hdone.stopRest_fault]
        exact hsent
      · rw [scheduleNextTick_fault]
        exact hsent

/-- Up to where `stop_in_loop` either is done or has a batch in hand. -/
theorem Tidy.stopInLoop {w : LogSender ι} (hw : w.Tidy)
    (hidle : w.loopPc = .idle) :
    w.stopInLoop.fault = w.fault ∧
      (w.stopInLoop.atLast → { w.stopInLoop with loopPc := .idle }.Tidy) := by
  rw [LogSender.stopInLoop]
  split
  · exact ⟨rfl, fun h => absurd h (not_atLast hidle)⟩
  · obtain ⟨timers, hcancel, hsub, -⟩ :=
      cancelTick_eq (w := { w with stopped := true }) hw.numbered
    have hquiet : ({ w with
        stopped := true, timers := timers, tickTimerId := 0 } :
          LogSender ι).Tidy :=
      hw.other rfl ⟨hw.numbered.1, fun t ht => hw.numbered.2 t (hsub t ht)⟩
        hw.queue fun _ _ _ => .inl rfl
    dsimp only
    rw [hcancel]
    split
    · refine ⟨rfl, fun _ => ?_⟩
      exact hquiet.other rfl hquiet.numbered hquiet.queue.takeDropped
        fun _ _ h => by cases h
    · refine ⟨hquiet.stopRest_fault, fun h => absurd h (not_atLast ?_)⟩
      exact (steady_stopRest _).loopPc.trans hidle

/-- How far things are as they should be: all the way to the last batch, and
behind it the client is gone. -/
structure Held (w : LogSender ι) : Prop where
  behind : w.Over
  tidy : w.stopped = false → w.Tidy
  last : w.atLast → { w with loopPc := .idle }.Tidy

theorem held_new (opts : Options) : (new opts : LogSender ι).Held where
  behind := over_new opts
  tidy := fun _ => tidy_new opts
  last := fun ⟨_, h⟩ => by cases h

variable [DecidableEq ι]

theorem held_step {w w' : LogSender ι} {l : Label ι} (hw : w.Held)
    (hfault : w'.fault = none) (h : w.step l = some w') : w'.Held := by
  refine ⟨over_step hw.behind hfault h, fun hrun => ?_, fun hlast => ?_⟩
  · have hbefore : w.stopped = false := by
      cases hs : w.stopped with
      | false => rfl
      | true => exact absurd (step_stopped h hs) (by simp [hrun])
    exact tidy_step (hw.tidy hbefore) hrun hfault h
  · cases (step_stepped h).2 with
    | enter p msg =>
        have hw := hw.last hlast
        exact hw.other rfl hw.numbered (hw.queue.pushLocked msg)
          fun _ _ h => by cases h
    | leave p ok =>
        have hw := hw.last hlast
        exact hw.other rfl hw.numbered (hw.queue.pushUnlocked ok)
          fun _ _ h => by cases h
    | wake | start | stop =>
        have hw := hw.last hlast
        exact hw.other rfl hw.numbered hw.queue fun _ _ h => by cases h
    | drain scripts dropped stopping _ hloop hfinish =>
        exact absurd hlast (not_atLast (finishDrain_idle hfinish))
    | functor d f fs hidle hq =>
        by_cases hf : f = .stopInLoop
        · subst hf
          by_cases hs : w.stopped = true
          · rw [runFunctor, LogSender.stopInLoop, if_pos hs] at hlast
            exact absurd hlast (not_atLast hidle)
          · have htidy := hw.tidy (by simpa using hs)
            have hpop : { w with pending := fs }.Tidy :=
              htidy.other rfl htidy.numbered htidy.queue fun _ _ _ => .inl rfl
            exact (hpop.stopInLoop hidle).2 hlast
        · exact absurd (runFunctor_last (w := { w with pending := fs }) hf
            hlast) (not_atLast hidle)
    | timer id d t hidle =>
        exact absurd (fireTimer_last (w := w.cancelTimer id) hlast)
          (not_atLast hidle)
    | handshake err c hidle =>
        obtain ⟨dropped, h⟩ := hlast
        exact absurd ⟨dropped, (steady_settle w _).loopPc ▸ h⟩ (not_atLast hidle)
    | event fd revents d c hidle =>
        obtain ⟨dropped, h⟩ := hlast
        exact absurd ⟨dropped, (steady_putConn w fd c).loopPc ▸ h⟩ (not_atLast hidle)

end LogSender

end GameFrame
