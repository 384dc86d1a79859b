import GameFrame.LogSender.SenderLoop
import GameFrame.Proofs.SenderPacing

/-!
# A pause that nothing ends

A functor of the high-water mark that is queued in one round and run in the
next may find that the connection it is about is closed and another one is up:
the sender is then paused because of a buffer that is gone, and nothing is
buffered whose end would resume it (`paused_stale`).

Nothing else goes wrong: in a run in which no such functor runs over a
connection with nothing to resume it, a sender that is paused over a connection
while its loop waits is going to be resumed (`paused_resumed`). Before `stop()`
this is what `Paced` says, and behind it there is no connection (`Over`).
-/

namespace GameFrame

namespace SenderLoop

/-- No functor of an earlier connection's mark runs over one that is up and
has nothing to resume it. -/
def MarkOk {ι : Type _} (s : SenderLoop ι) : Label ι → Prop
  | .sender (.functor _) => s.sender.StaleOk
  | _ => True

instance {ι : Type _} (s : SenderLoop ι) : ∀ l, Decidable (s.MarkOk l)
  | .sender (.functor _) => inferInstanceAs (Decidable s.sender.StaleOk)
  | .poll | .swap | .endRound | .sender (.enter _ _) | .sender (.leave _)
  | .sender (.wake _) | .sender .start | .sender .stop | .sender (.timer _ _)
  | .sender (.handshake _) | .sender (.event _ _ _) | .sender (.drain _) =>
      .isTrue trivial

/-- A round with nothing in it but functors. -/
def functors (ds : List Dial) : List (Label Unit) :=
  ([.poll, .swap] : List (Label Unit)) ++
    ds.map (fun d => Label.sender (.functor d)) ++ [Label.endRound]

/-- `start()`, with a dial that succeeds at once, and a push that wakes the
loop. The batch passes the mark. -/
def overMark : List (Label Unit) :=
  Label.sender .start :: functors [.immediate false] ++
    ([.sender (.enter () [1]), .sender (.leave ()), .sender (.wake ()), .poll,
      .swap, .sender (.functor .inProgress), .sender (.drain [[.stop .eagain]]),
      .endRound] : List (Label Unit))

/-- The peer hangs up, the client dials again and succeeds at once, all before
the functor of the mark is due. -/
def staleMark : List (Label Unit) :=
  overMark ++
    ([.poll, .sender (.event 0 EPOLLHUP {}), .sender (.timer 1 .inProgress),
      .sender (.timer 2 .inProgress), .sender (.timer 3 (.immediate false)),
      .swap, .sender (.functor .inProgress), .endRound] : List (Label Unit))

theorem paused_stale :
    ¬ ∀ (opts : Options) (ls : List (Label Unit)) (s : SenderLoop Unit),
      0 < opts.highWaterMark → Machine.run step (new opts) ls = some s →
      s.phase = .waiting → s.sender.Resumable := by
  intro hall
  have hany : (Machine.run step (new { highWaterMark := 4 }) staleMark).any
      (fun s => s.phase == .waiting && s.sender.paused &&
        s.sender.connection == some 1 && s.sender.pending == [] &&
        (s.sender.conns 1).state == .kConnected &&
        (s.sender.conns 1).outputBuffer.readable == []) = true := by
    decide +kernel
  obtain ⟨s, hrun, hs⟩ := (Option.any_eq_true _ _).mp hany
  simp only [Bool.and_eq_true, beq_iff_eq] at hs
  obtain ⟨⟨⟨⟨⟨hphase, hpaused⟩, hconn⟩, hnil⟩, hstate⟩, hempty⟩ := hs
  rcases hall _ _ s (by decide) hrun hphase hpaused 1 hconn hstate with h | h
  · exact h hempty
  · rw [hnil] at h
    cases h

end SenderLoop

namespace LogSender

variable {ι : Type _}

/-! ## Behind `stop()` -/

/-- A sender that is stopped has no connection, unless it is in its last
batch. -/
structure Over (w : LogSender ι) : Prop where
  nothing : w.stopped = true → w.loopPc = .idle →
    w.connection = none ∧ w.tcpClient = none
  last : ∀ dropped stopping, w.loopPc = .draining dropped stopping →
    stopping = w.stopped

theorem over_new (opts : Options) : (new opts : LogSender ι).Over where
  nothing := fun h => by cases h
  last := fun _ _ h => by cases h

/-- What neither stops nor drains, and does not bring back what is gone. -/
theorem Over.same {w w' : LogSender ι} (hw : w.Over)
    (hstopped : w'.stopped = w.stopped) (hloop : w'.loopPc = w.loopPc)
    (hnone : w.connection = none → w.tcpClient = none →
      w'.connection = none ∧ w'.tcpClient = none) : w'.Over := by
  refine ⟨fun h hidle => ?_, fun dropped stopping h => ?_⟩
  · obtain ⟨hconn, hclient⟩ := hw.nothing (hstopped ▸ h) (hloop ▸ hidle)
    exact hnone hconn hclient
  · rw [hstopped]
    exact hw.last dropped stopping (hloop ▸ h)

theorem Over.other {w w' : LogSender ι} (hw : w.Over)
    (h : (w'.stopped, w'.loopPc, w'.connection, w'.tcpClient) =
      (w.stopped, w.loopPc, w.connection, w.tcpClient)) : w'.Over := by
  simp only [Prod.mk.injEq] at h
  obtain ⟨hstopped, hloop, hconnection, hclient⟩ := h
  refine hw.same hstopped hloop fun hconn hnone => ?_
  exact ⟨hconnection.trans hconn, hclient.trans hnone⟩

theorem putConn_none {w : LogSender ι} (h : w.connection = none) (fd : Nat)
    (c : Connection) : (w.putConn fd c).connection = none ∧
      (w.tcpClient = none → (w.putConn fd c).tcpClient = none) := by
  by_cases hboth : (w.conns fd).state ≠ .kDisconnected ∧
      c.state = .kDisconnected
  · have hclosed : ((w.withConn fd c).conns fd).state = .kDisconnected := by
      rw [withConn_self]
      exact hboth.2
    rw [putConn_closed hboth.1 hboth.2]
    cases hclient : (w.withConn fd c).tcpClient with
    | none =>
        rw [onConnectionClosed, onConnection, if_neg (by simp [hclosed])]
        simp only [hclient]
        exact ⟨rfl, fun _ => rfl⟩
    | some k =>
        obtain ⟨timers, next, heq⟩ := onConnectionClosed_eq hclosed hclient
        rw [heq]
        refine ⟨rfl, fun hnone => ?_⟩
        cases hnone.symm.trans hclient
  · rw [putConn_open hboth]
    exact ⟨h, id⟩

theorem stopRest_nothing {w : LogSender ι} (hfault : w.stopRest.fault = none) :
    w.stopRest.connection = none ∧ w.stopRest.tcpClient = none := by
  rw [stopRest] at hfault ⊢
  split at hfault
  · next hnone =>
      simp only [fail] at hfault
      cases hf : w.shutdownConn.fault with
      | none => simp [hf] at hfault
      | some f => simp [hf] at hfault
  · next c hc =>
      dsimp only
      split
      · next hnone => exact ⟨rfl, hnone⟩
      · next k hk =>
          refine ⟨?_, rfl⟩
          show (LogSender.closeConn _ k.connection).connection = none
          cases k.connection with
          | none => rfl
          | some fd => exact (putConn_none rfl _ _).1

theorem Over.scheduleNextTick {w : LogSender ι} (hw : w.Over) :
    w.scheduleNextTick.Over := by
  rw [LogSender.scheduleNextTick]
  split
  · exact hw
  · exact hw.other rfl

theorem Over.onTick {w : LogSender ι} (hw : w.Over) : w.onTick.Over := by
  rw [LogSender.onTick]
  split
  · exact hw
  · next hrun =>
      split
      · refine ⟨fun h => absurd h hrun, fun dropped stopping h => ?_⟩
        cases h
        simpa [LogSender.takeDropped] using hrun
      · exact hw.scheduleNextTick

/-- A client that is there is there before the end. -/
theorem Over.settle {w w' : LogSender ι} (hw : w.Over) {c : TcpClient}
    (hc : w.tcpClient = some c) (h : Steady w w' []) : w'.Over :=
  hw.same h.stopped h.loopPc fun _ hnone => by cases hnone.symm.trans hc

theorem Over.stopInLoop {w : LogSender ι} (hw : w.Over)
    (hidle : w.loopPc = .idle) (hfault : w.stopInLoop.fault = none) :
    w.stopInLoop.Over := by
  have hcancel := steady_cancelTick { w with stopped := true }
  rw [LogSender.stopInLoop] at hfault ⊢
  split
  · exact hw
  · next hrun =>
      rw [if_neg hrun] at hfault
      dsimp only at hfault ⊢
      split
      · refine ⟨fun _ hidle => ?_, fun dropped stopping h => ?_⟩
        · cases hidle
        · cases h
          exact hcancel.stopped.symm
      · next hon =>
          rw [if_neg hon] at hfault
          have hrest := steady_stopRest { w with stopped := true }.cancelTick
          refine ⟨fun _ _ => stopRest_nothing hfault,
            fun dropped stopping h => ?_⟩
          rw [hrest.loopPc, hcancel.loopPc] at h
          cases hidle.symm.trans h

theorem Over.runFunctor {w : LogSender ι} (hw : w.Over)
    (hidle : w.loopPc = .idle) {d : Dial} {f : SenderFunctor}
    (hfault : (w.runFunctor d f).fault = none) :
    (w.runFunctor d f).Over := by
  cases f with
  | startInLoop =>
      rw [LogSender.runFunctor, LogSender.startInLoop]
      split
      · exact hw
      · dsimp only
        split
        · exact hw.other rfl
        · next c hc =>
            have hstart : { w with started := true }.Over :=
              hw.other rfl
            exact (hstart.settle hc (steady_settle _ _)).scheduleNextTick
  | stopInLoop => exact hw.stopInLoop hidle hfault
  | wake =>
      rw [LogSender.runFunctor]
      split
      · exact hw
      · exact hw.onTick
  | conn fd f =>
      cases f with
      | shutdownInLoop =>
          have h := steady_putConn w fd (w.conns fd).shutdownInLoop
          exact hw.same h.stopped h.loopPc fun hconn hclient =>
            ⟨(putConn_none hconn _ _).1, (putConn_none hconn _ _).2 hclient⟩
      | highWaterMark | writeComplete =>
          exact hw.other rfl

theorem Over.fireTimer {w : LogSender ι} (hw : w.Over) (d : Dial)
    (k : TimerKind) : (w.fireTimer d k).Over := by
  cases k with
  | tick =>
      have hfired : { w with tickTimerId := 0 }.Over :=
        hw.other rfl
      exact hfired.onTick
  | retry =>
      rw [LogSender.fireTimer]
      split
      · exact hw.other rfl
      · next c hc => exact hw.settle hc (steady_settle w _)

theorem behindDrain_loopPc (stopping : Bool) (w : LogSender ι) :
    (behindDrain stopping w).loopPc = w.loopPc := by
  rw [behindDrain]
  split
  · rfl
  · split
    · exact (steady_stopRest w).loopPc
    · exact (steady_scheduleNextTick w).loopPc

theorem Over.finishDrain {w w' : LogSender ι} (hw : w.Over) {dropped : Nat}
    {stopping : Bool} (hloop : w.loopPc = .draining dropped stopping)
    {scripts : List (List WriteRes)} (hfault : w'.fault = none)
    (h : w.finishDrain dropped stopping scripts = some w') : w'.Over := by
  have hlast := hw.last dropped stopping hloop
  have hstopped := finishDrain_stopped h
  obtain ⟨w₁, hdrain, rfl⟩ := Option.map_eq_some_iff.mp h
  have hidle : (behindDrain stopping w₁).loopPc = .idle :=
    (behindDrain_loopPc stopping w₁).trans (aside_drainAndSend hdrain).loopPc
  refine ⟨fun hend _ => ?_, fun _ _ h => by cases hidle.symm.trans h⟩
  obtain rfl : stopping = true := by rw [hlast, ← hstopped, hend]
  have hnone := behindDrain_fault hfault
  rw [behindDrain, if_neg (by simp [hnone]), if_pos rfl] at hfault ⊢
  exact stopRest_nothing hfault

theorem over_step [DecidableEq ι] {w w' : LogSender ι} {l : Label ι}
    (hw : w.Over) (hfault : w'.fault = none) (h : w.step l = some w') :
    w'.Over := by
  cases (step_stepped h).2 with
  | enter | leave | wake | start | stop => exact hw.other rfl
  | drain scripts dropped stopping _ hloop hfinish =>
      exact hw.finishDrain hloop hfault hfinish
  | functor d f fs hidle =>
      have hpop : { w with pending := fs }.Over := hw.other rfl
      exact hpop.runFunctor hidle hfault
  | timer id d t =>
      have hcancel : (w.cancelTimer id).Over := hw.other rfl
      exact hcancel.fireTimer d t.kind
  | handshake err c hidle hc => exact hw.settle hc (steady_settle w _)
  | event fd revents d c =>
      have hput := steady_putConn w fd c
      exact hw.same hput.stopped hput.loopPc fun hconn hclient =>
        ⟨(putConn_none hconn fd c).1, (putConn_none hconn fd c).2 hclient⟩

end LogSender

namespace SenderLoop

variable {ι : Type _}

/-- While the loop waits its thread is done with everything. -/
structure Sound (s : SenderLoop ι) : Prop where
  waiting : s.phase = .waiting → s.idle = true
  noneOver : s.sender.fault = none → s.sender.Over
  up : s.sender.stopped = false → s.sender.fault = none →
    s.sender.Tidy ∧ s.sender.Paced

theorem sound_new {opts : Options} (h : 0 < opts.highWaterMark) :
    (new opts : SenderLoop ι).Sound where
  waiting := fun _ => rfl
  noneOver := fun _ => LogSender.over_new opts
  up := fun _ _ => ⟨LogSender.tidy_new opts, LogSender.paced_new h⟩

/-- A waiting sender that is paused over a connection is going to be resumed. -/
theorem Sound.resumable {s : SenderLoop ι} (hs : s.Sound)
    (hwait : s.phase = .waiting) : s.sender.Resumable := by
  have hidle := hs.waiting hwait
  rw [idle, Bool.and_eq_true, decide_eq_true_eq, Option.isNone_iff_eq_none]
    at hidle
  cases hstopped : s.sender.stopped with
  | false =>
      obtain ⟨htidy, hpaced⟩ := hs.up hstopped hidle.2
      exact hpaced.resumable htidy.swept
  | true =>
      obtain ⟨hnone, -⟩ := (hs.noneOver hidle.2).nothing hstopped hidle.1
      intro _ fd hfd
      cases hnone.symm.trans hfd

theorem after_waiting {ph : SenderPhase} {l : LogSender.Label ι}
    (h : ph.after l = some .waiting) : ph = .waiting := by
  cases l with
  | functor d =>
      cases ph with
      | waiting | dispatching => cases h
      | running left =>
          cases left with
          | zero => cases h
          | succ n => cases h
  | timer id d | handshake err | event fd revents d =>
      rw [SenderPhase.after] at h
      split at h
      · next hph =>
          rw [hph] at h
          cases h
      · cases h
  | enter p msg | leave p | wake p | start | stop | drain scripts =>
      exact Option.some.inj h

variable [DecidableEq ι]

/-- What can happen while the loop waits leaves its thread alone. -/
theorem step_waiting {w w' : LogSender ι} {l : LogSender.Label ι}
    {ph : SenderPhase} (hafter : SenderPhase.waiting.after l = some ph)
    (hidle : w.loopPc = .idle) (h : w.step l = some w') :
    w'.loopPc = .idle ∧ w'.fault = none := by
  have hfault := LogSender.step_fault h
  rw [LogSender.step, if_neg (by simp [hfault])] at h
  cases l with
  | enter p msg =>
      rw [LogSender.live] at h
      split at h
      · cases h
        exact ⟨hidle, hfault⟩
      · cases h
  | leave p =>
      rw [LogSender.live] at h
      split at h
      · cases h
        exact ⟨hidle, hfault⟩
      · cases h
        exact ⟨hidle, hfault⟩
      · cases h
  | wake p =>
      rw [LogSender.live] at h
      split at h
      · cases h
        exact ⟨hidle, hfault⟩
      · cases h
  | start | stop =>
      cases h
      exact ⟨hidle, hfault⟩
  | drain scripts =>
      rw [LogSender.live, hidle] at h
      cases h
  | functor d => cases hafter
  | timer id d => cases hafter
  | handshake err => cases hafter
  | event fd revents d => cases hafter

theorem sound_step {s s' : SenderLoop ι} {l : Label ι} (hs : s.Sound)
    (hok : s.MarkOk l) (h : s.step l = some s') : s'.Sound := by
  cases l with
  | poll =>
      rw [step] at h
      split at h
      · cases h
        exact ⟨by simp, hs.noneOver, hs.up⟩
      · cases h
  | swap =>
      rw [step] at h
      split at h
      · cases h
        exact ⟨by simp, hs.noneOver, hs.up⟩
      · cases h
  | endRound =>
      rw [step] at h
      split at h
      · next hidle =>
          cases h
          exact ⟨fun _ => (Bool.and_eq_true_iff.mp hidle).2, hs.noneOver, hs.up⟩
      · cases h
  | sender l =>
      rw [step] at h
      split at h
      · cases h
      · next ph hph =>
          obtain ⟨w, hw, rfl⟩ := Option.map_eq_some_iff.mp h
          have hbefore := LogSender.step_fault hw
          refine ⟨fun hwait => ?_, fun hfault => ?_, fun hstopped hfault => ?_⟩
          · have hph' : s.phase.after l = some .waiting := by rw [hph, ← hwait]
            have hphase := after_waiting hph'
            have hidle := hs.waiting hphase
            rw [idle, Bool.and_eq_true, decide_eq_true_eq] at hidle
            rw [hphase] at hph'
            obtain ⟨hloop, hnone⟩ := step_waiting hph' hidle.1 hw
            simp [idle, hloop, hnone]
          · exact LogSender.over_step (hs.noneOver hbefore) hfault hw
          · have hrun : s.sender.stopped = false := by
              cases hend : s.sender.stopped with
              | false => rfl
              | true =>
                  exact absurd (LogSender.step_stopped hw hend)
                    (by simpa using hstopped)
            obtain ⟨htidy, hpaced⟩ := hs.up hrun hbefore
            refine ⟨LogSender.tidy_step htidy hstopped hfault hw,
              LogSender.paced_step hpaced htidy (fun d hl => ?_) hstopped
                hfault hw⟩
            subst hl
            exact hok

/-- In a run in which no stale mark does harm, a sender that is paused over a
connection when the loop waits is going to be resumed. -/
theorem paused_resumed {opts : Options} (hmark : 0 < opts.highWaterMark)
    {ls : List (Label ι)} {s : SenderLoop ι}
    (hok : Machine.Meets step MarkOk (new opts) ls)
    (hrun : Machine.run step (new opts) ls = some s)
    (hwait : s.phase = .waiting) : s.sender.Resumable := by
  have hs : s.Sound :=
    Machine.run_preserves_of_meets sound_step (sound_new hmark) hok hrun
  exact hs.resumable hwait

/-- As before, but with a wake-up in front of the mark. It finds the connection
that is new, a message for it, and a socket that is full. -/
def staleFull : List (Label Unit) :=
  Label.sender .start :: functors [.immediate false] ++
    ([.sender (.enter () [1]), .sender (.leave ()), .poll,
      .sender (.timer 1 .inProgress), .sender (.drain [[.accepted 5]]), .swap,
      .endRound, .sender (.wake ()), .poll, .swap, .sender (.enter () [2]),
      .sender (.leave ()), .sender (.wake ()), .sender (.functor .inProgress),
      .sender (.drain [[.stop .eagain]]), .endRound, .sender (.enter () [3]),
      .sender (.leave ()), .poll, .sender (.event 0 EPOLLHUP {}),
      .sender (.timer 2 .inProgress), .sender (.timer 3 .inProgress),
      .sender (.timer 4 (.immediate false)), .swap,
      .sender (.functor .inProgress), .sender (.drain [[.stop .eagain]]),
      .sender (.functor .inProgress), .endRound] : List (Label Unit))

theorem paused_resumed_full :
    ∃ s, Machine.run step (new { highWaterMark := 4 }) staleFull = some s ∧
      s.sender.paused = true ∧ s.sender.connection = some 1 ∧
      s.sender.Resumable := by
  have hany : (Machine.run step (new { highWaterMark := 4 }) staleFull).any
      (fun s => s.phase == .waiting && s.sender.paused &&
        s.sender.connection == some 1) = true := by decide +kernel
  obtain ⟨s, hrun, hs⟩ := (Option.any_eq_true _ _).mp hany
  simp only [Bool.and_eq_true, beq_iff_eq] at hs
  obtain ⟨⟨hphase, hpaused⟩, hconn⟩ := hs
  exact ⟨s, hrun, hpaused, hconn,
    paused_resumed (by decide) (by decide +kernel) hrun hphase⟩

end SenderLoop

end GameFrame
