import GameFrame.LogSender.LogSender

/-!
# The life of a `LogSender`

`~LogSender` in `log_sender/log_sender.cpp`, and the one thread that owns the
object, calls `start()` and `stop()`, and destroys it. `start()` leaves the
loop a functor and returns. `stop()` waits for its own. The destructor reads
`started_` and `stopped_`, stops if the one is set and the other is not, and
then the members go, `tcp_client_` among them, if it is still there.

The loop goes on behind that, with what is in its queue. A functor that runs
then runs on an object that is gone; nothing is said of what it does.
`~TcpClient` ends the process if it is not on the loop thread.
-/

namespace GameFrame

/-- Where the owner is: between two calls, waiting in `stop()`, in the
destructor's own `stop()` or behind it, or behind the destructor. -/
inductive CallerPc where
  | idle
  | stopping
  | dtorStopping
  | destroying
  | destroyed
  deriving DecidableEq, Repr

structure SenderLife (ι : Type _) where
  sender : LogSender ι
  caller : CallerPc := .idle
  /-- what must not happen: `tcp_client_` was followed when it was null,
  `~TcpClient` was run by the owner, a functor of `start()` was run behind the
  destructor -/
  nullClient : Bool := false
  wrongThread : Bool := false
  late : Bool := false

namespace SenderLife

variable {ι : Type _}

def new (opts : Options) : SenderLife ι := { sender := .new opts }

inductive Label (ι : Type _) where
  | start
  | stop
  | stopReturn
  /-- the destructor, and the end of its members -/
  | destroy
  | release
  /-- a producer, or the loop thread -/
  | sender (l : LogSender.Label ι)
  /-- the loop thread runs a functor behind the destructor -/
  | late
  deriving Repr

/-- `stop_in_loop` has been run for the owner's call. -/
def stopDone (w : LogSender ι) : Bool :=
  !w.pending.contains .stopInLoop && !(w.loopPc matches .draining _ true)

/-- The loop thread is in a function that follows `tcp_client_`. -/
def followsClient (w : LogSender ι) : LogSender.Label ι → Bool
  | .functor _ =>
      w.pending.head? = some .startInLoop || w.pending.head? = some .stopInLoop
  | .drain _ => true
  | _ => false

def ofCaller : LogSender.Label ι → Bool
  | .start | .stop => true
  | _ => false

variable [DecidableEq ι]

def step (s : SenderLife ι) : Label ι → Option (SenderLife ι)
  | .start =>
      if s.caller = .idle then
        (s.sender.step .start).map fun w => { s with sender := w }
      else none
  | .stop =>
      if s.caller = .idle then
        (s.sender.step .stop).map fun w =>
          { s with sender := w, caller := .stopping }
      else none
  | .stopReturn =>
      if stopDone s.sender && s.sender.fault.isNone then
        match s.caller with
        | .stopping => some { s with caller := .idle }
        | .dtorStopping => some { s with caller := .destroying }
        | _ => none
      else none
  | .destroy =>
      if s.caller = .idle then
        if s.sender.started && !s.sender.stopped then
          (s.sender.step .stop).map fun w =>
            { s with sender := w, caller := .dtorStopping }
        else if s.sender.fault.isNone then
          some { s with caller := .destroying }
        else none
      else none
  | .release =>
      if s.caller = .destroying && s.sender.fault.isNone then
        some
          { s with
            caller := .destroyed, wrongThread := s.sender.tcpClient.isSome }
      else none
  | .sender l =>
      if s.caller ≠ .destroyed && !ofCaller l then
        (s.sender.step l).map fun w =>
          { s with
            sender := w
            nullClient := s.nullClient ||
              followsClient s.sender l && w.fault = some .tcpClient }
      else none
  | .late =>
      if s.caller = .destroyed && !s.wrongThread then
        match s.sender.pending with
        | [] => none
        | f :: fs =>
            some
              { s with
                sender := { s.sender with pending := fs }
                late := s.late || f = .startInLoop }
      else none

/-! ## What a step can do -/

inductive Stepped (s : SenderLife ι) : Label ι → SenderLife ι → Prop where
  | start : s.caller = .idle → s.sender.fault = none →
      Stepped s .start
        { s with
          sender :=
            { s.sender with pending := s.sender.pending ++ [.startInLoop] } }
  | stop : s.caller = .idle → s.sender.fault = none →
      Stepped s .stop
        { s with
          sender :=
            { s.sender with pending := s.sender.pending ++ [.stopInLoop] }
          caller := .stopping }
  | stopReturn : s.caller = .stopping → stopDone s.sender = true →
      s.sender.fault = none →
      Stepped s .stopReturn { s with caller := .idle }
  | dtorReturn : s.caller = .dtorStopping → stopDone s.sender = true →
      s.sender.fault = none →
      Stepped s .stopReturn { s with caller := .destroying }
  | destroyStop : s.caller = .idle → s.sender.started = true →
      s.sender.stopped = false → s.sender.fault = none →
      Stepped s .destroy
        { s with
          sender :=
            { s.sender with pending := s.sender.pending ++ [.stopInLoop] }
          caller := .dtorStopping }
  | destroy : s.caller = .idle →
      (s.sender.started = false ∨ s.sender.stopped = true) →
      s.sender.fault = none →
      Stepped s .destroy { s with caller := .destroying }
  | release : s.caller = .destroying → s.sender.fault = none →
      Stepped s .release
        { s with
          caller := .destroyed, wrongThread := s.sender.tcpClient.isSome }
  | sender (l : LogSender.Label ι) (w : LogSender ι) :
      s.caller ≠ .destroyed → ofCaller l = false →
      s.sender.step l = some w →
      Stepped s (.sender l)
        { s with
          sender := w
          nullClient := s.nullClient ||
            followsClient s.sender l && w.fault = some .tcpClient }
  | late (f : SenderFunctor) (fs : List SenderFunctor) :
      s.caller = .destroyed → s.wrongThread = false →
      s.sender.pending = f :: fs →
      Stepped s .late
        { s with
          sender := { s.sender with pending := fs }
          late := s.late || f = .startInLoop }

theorem step_start {w w' : LogSender ι} :
    w.step .start = some w' ↔ w.fault = none ∧
      w' = { w with pending := w.pending ++ [.startInLoop] } := by
  by_cases hfault : w.fault = none
  · simp [LogSender.step, LogSender.live, hfault, eq_comm]
  · simp [LogSender.step, hfault, Option.isSome_iff_ne_none]

theorem step_stop {w w' : LogSender ι} :
    w.step .stop = some w' ↔ w.fault = none ∧
      w' = { w with pending := w.pending ++ [.stopInLoop] } := by
  by_cases hfault : w.fault = none
  · simp [LogSender.step, LogSender.live, hfault, eq_comm]
  · simp [LogSender.step, hfault, Option.isSome_iff_ne_none]

theorem step_stepped {s s' : SenderLife ι} {l : Label ι}
    (h : s.step l = some s') : Stepped s l s' := by
  rw [step.eq_def] at h
  split at h
  · split at h
    · next hidle =>
        obtain ⟨w, hw, rfl⟩ := Option.map_eq_some_iff.mp h
        obtain ⟨hfault, rfl⟩ := step_start.mp hw
        exact .start hidle hfault
    · cases h
  · split at h
    · next hidle =>
        obtain ⟨w, hw, rfl⟩ := Option.map_eq_some_iff.mp h
        obtain ⟨hfault, rfl⟩ := step_stop.mp hw
        exact .stop hidle hfault
    · cases h
  · split at h
    · next hdone =>
        simp only [Bool.and_eq_true, Option.isNone_iff_eq_none] at hdone
        split at h
        · next hpc =>
            cases h
            exact .stopReturn hpc hdone.1 hdone.2
        · next hpc =>
            cases h
            exact .dtorReturn hpc hdone.1 hdone.2
        · cases h
    · cases h
  · split at h
    · next hidle =>
        split at h
        · next hstop =>
            simp only [Bool.and_eq_true, Bool.not_eq_true'] at hstop
            obtain ⟨w, hw, rfl⟩ := Option.map_eq_some_iff.mp h
            obtain ⟨hfault, rfl⟩ := step_stop.mp hw
            exact .destroyStop hidle hstop.1 hstop.2 hfault
        · next hstop =>
            split at h
            · next hfault =>
                cases h
                refine .destroy hidle ?_ (Option.isNone_iff_eq_none.mp hfault)
                simp only [Bool.and_eq_true, Bool.not_eq_true',
                  not_and, Bool.not_eq_false] at hstop
                cases hstarted : s.sender.started with
                | false => exact .inl rfl
                | true => exact .inr (hstop hstarted)
            · cases h
    · cases h
  · split at h
    · next hgone =>
        simp only [Bool.and_eq_true, decide_eq_true_eq,
          Option.isNone_iff_eq_none] at hgone
        cases h
        exact .release hgone.1 hgone.2
    · cases h
  · next l =>
      split at h
      · next hl =>
          simp only [Bool.and_eq_true, decide_eq_true_eq,
            Bool.not_eq_true'] at hl
          obtain ⟨w, hw, rfl⟩ := Option.map_eq_some_iff.mp h
          exact .sender l w hl.1 hl.2 hw
      · cases h
  · split at h
    · next hgone =>
        simp only [Bool.and_eq_true, decide_eq_true_eq,
          Bool.not_eq_true'] at hgone
        split at h
        · cases h
        · next f fs hq =>
            cases h
            exact .late f fs hgone.1 hgone.2 hq
    · cases h

end SenderLife

end GameFrame
