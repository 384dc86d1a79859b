import GameFrame.Proofs.SendBatch

/-!
# What the loop thread of a sender leaves alone

The loop thread does many things, and nearly all of them to the connection,
the client and the timers. What these functions leave alone is shown for all of
them at once (`Frame`).

The queue is the producers' but for the two visits of `do_drain_and_send`, the
options are nobody's, and `stopped_` is raised once. `Steady` says so of each
function, and of a batch that it is what it sends on top. From there a sender
that is stopped stays stopped (`step_stopped`).
-/

namespace GameFrame.LogSender

variable {ι : Type _}

/-! ## Functions of the connection and of the client -/

/-- A relation that holds from before to behind what is done to connections
and to the client: their fields are changed, a retry is set, a functor of a
connection is queued, a null pointer is followed. -/
structure Frame (R : LogSender ι → LogSender ι → Prop) : Prop where
  refl : ∀ w, R w w
  trans : ∀ {w₁ w₂ w₃}, R w₁ w₂ → R w₂ w₃ → R w₁ w₃
  fields : ∀ w conns client connection paused,
    R w { w with
      conns := conns, tcpClient := client
      connection := connection, paused := paused }
  retry : ∀ w ms, R w (w.runAfter ms .retry).2
  queue : ∀ w fd (fs : List ConnFunctor),
    R w { w with pending := w.pending ++ fs.map (.conn fd) }
  fail : ∀ w f, R w (w.fail f)

section

variable {R : LogSender ι → LogSender ι → Prop}

theorem Frame.onConnection (h : Frame R) (w : LogSender ι) (fd : Nat) :
    R w (w.onConnection fd) := by
  rw [LogSender.onConnection]
  split
  · dsimp only
    split
    · exact h.fields w _ _ _ _
    · exact h.fields w _ _ _ _
  · exact h.fields w _ _ _ _

theorem Frame.settle (h : Frame R) (w : LogSender ι)
    (r : TcpClient × ClientAsk) : R w (w.settle r) := by
  have hclient : R w { w with tcpClient := some r.1 } := h.fields w _ _ _ _
  rw [LogSender.settle]
  split
  · exact hclient
  · exact h.trans hclient (h.retry _ _)
  · next fd _ =>
      have hbuilt : R w ({ w with tcpClient := some r.1 }.setConn fd
          { messageCb := false }) := h.fields w _ _ _ _
      have hon := h.trans hbuilt (h.onConnection _ fd)
      exact h.trans hon (h.fields _ _ _ _ _)

theorem Frame.onConnectionClosed (h : Frame R) (w : LogSender ι) (fd : Nat) :
    R w (w.onConnectionClosed fd) := by
  rw [LogSender.onConnectionClosed]
  split
  · exact h.trans (h.onConnection w fd) (h.fail _ _)
  · exact h.trans (h.onConnection w fd) (h.settle _ _)

theorem Frame.withConn (h : Frame R) (w : LogSender ι) (fd : Nat)
    (c : Connection) : R w (w.withConn fd c) := by
  have hset : R w (w.setConn fd { c with pending := [] }) :=
    h.fields w _ _ _ _
  exact h.trans hset (h.queue _ fd c.pending)

theorem Frame.putConn (h : Frame R) (w : LogSender ι) (fd : Nat)
    (c : Connection) : R w (w.putConn fd c) := by
  by_cases hclosed : (w.conns fd).state ≠ .kDisconnected ∧
      c.state = .kDisconnected
  · rw [putConn_closed hclosed.1 hclosed.2]
    exact h.trans (h.withConn w fd c) (h.onConnectionClosed _ fd)
  · rw [putConn_open hclosed]
    exact h.withConn w fd c

theorem Frame.closeConn (h : Frame R) (w : LogSender ι) (fd : Option Nat) :
    R w (w.closeConn fd) := by
  cases fd with
  | none => exact h.refl w
  | some fd => exact h.putConn w fd _

theorem Frame.destroyTcpClient (h : Frame R) (w : LogSender ι)
    (c : TcpClient) : R w (w.destroyTcpClient c) := by
  have hset : R w
      { w with tcpClient := some { c with retryEnabled := false } } :=
    h.fields w _ _ _ _
  have hclose := h.trans hset (h.closeConn _ c.connection)
  exact h.trans hclose (h.fields _ _ _ _ _)

theorem Frame.shutdownConn (h : Frame R) (w : LogSender ι) :
    R w w.shutdownConn := by
  rw [LogSender.shutdownConn]
  split
  · exact h.refl w
  · exact h.putConn w _ _

theorem Frame.disconnect (h : Frame R) (w : LogSender ι) (c : TcpClient) :
    R w { w.disconnect c with connection := none } := by
  have hset : R w { w with tcpClient := some c.disconnectInLoop.1 } :=
    h.fields w _ _ _ _
  have hclose := h.trans hset (h.closeConn _ c.disconnectInLoop.2)
  exact h.trans hclose (h.fields _ _ _ _ _)

theorem Frame.stopRest (h : Frame R) (w : LogSender ι) : R w w.stopRest := by
  rw [LogSender.stopRest]
  refine h.trans (h.shutdownConn w) ?_
  generalize w.shutdownConn = w₁
  dsimp only
  split
  · exact h.fail w₁ _
  · next c _ =>
      split
      · exact h.disconnect w₁ c
      · exact h.trans (h.disconnect w₁ c) (h.destroyTcpClient _ _)

/-- A batch, if the relation does not look at what is passed. -/
theorem Frame.sendBatch (h : Frame R)
    (hpass : ∀ w passed, R w { w with passed := passed })
    {batch : List Payload} {w w' : LogSender ι} {scripts : List (List WriteRes)}
    (hsend : w.sendBatch batch scripts = some w') : R w w' := by
  refine sendBatch_rule (P := R w) (fun hw _ _ => ?_) (fun hw => hw)
    (fun hw => h.trans hw (h.fail _ _)) (h.refl w) hsend
  exact h.trans (h.trans hw (hpass _ _)) (h.putConn _ _ _)

end

/-! ## What they leave alone -/

/-- From `w` to `w'` the loop thread has passed `sent` to connections, and
left alone all that is not the connection's. -/
structure Steady (w w' : LogSender ι) (sent : List (Nat × Payload)) :
    Prop where
  opts : w'.opts = w.opts
  queue : w'.queue = w.queue
  stopped : w'.stopped = w.stopped
  loopPc : w'.loopPc = w.loopPc
  accepted : w'.accepted = w.accepted
  refused : w'.refused = w.refused
  passed : w'.passed = w.passed ++ sent

theorem Steady.trans {w₁ w₂ w₃ : LogSender ι} {s t : List (Nat × Payload)}
    (h : Steady w₁ w₂ s) (h' : Steady w₂ w₃ t) : Steady w₁ w₃ (s ++ t) where
  opts := h'.opts.trans h.opts
  queue := h'.queue.trans h.queue
  stopped := h'.stopped.trans h.stopped
  loopPc := h'.loopPc.trans h.loopPc
  accepted := h'.accepted.trans h.accepted
  refused := h'.refused.trans h.refused
  passed := by rw [h'.passed, h.passed, List.append_assoc]

/-- A change of anything else, which shows in its fields. -/
theorem Steady.of_eq {w w' : LogSender ι}
    (h : (w'.opts, w'.queue, w'.stopped, w'.loopPc, w'.accepted, w'.refused,
      w'.passed) = (w.opts, w.queue, w.stopped, w.loopPc, w.accepted,
      w.refused, w.passed)) : Steady w w' [] := by
  simp only [Prod.mk.injEq] at h
  obtain ⟨hopts, hqueue, hstopped, hloop, haccepted, hrefused, hpassed⟩ := h
  exact ⟨hopts, hqueue, hstopped, hloop, haccepted, hrefused,
    by rw [hpassed, List.append_nil]⟩

theorem Steady.refl (w : LogSender ι) : Steady w w [] := .of_eq rfl

theorem frame_steady : Frame fun w w' : LogSender ι => Steady w w' [] where
  refl := .refl
  trans := fun h h' => h.trans h'
  fields := fun _ _ _ _ _ => .of_eq rfl
  retry := fun _ _ => .of_eq rfl
  queue := fun _ _ _ => .of_eq rfl
  fail := fun _ _ => .of_eq rfl

theorem steady_settle (w : LogSender ι) (r : TcpClient × ClientAsk) :
    Steady w (w.settle r) [] := frame_steady.settle w r

theorem steady_putConn (w : LogSender ι) (fd : Nat) (c : Connection) :
    Steady w (w.putConn fd c) [] := frame_steady.putConn w fd c

theorem steady_stopRest (w : LogSender ι) : Steady w w.stopRest [] :=
  frame_steady.stopRest w

theorem steady_scheduleNextTick (w : LogSender ι) :
    Steady w w.scheduleNextTick [] := by
  rw [scheduleNextTick]
  split
  · exact .refl w
  · exact .of_eq rfl

theorem steady_cancelTick (w : LogSender ι) : Steady w w.cancelTick [] := by
  rw [cancelTick]
  split
  · exact .of_eq rfl
  · exact .refl w

/-- Whatever comes of a batch, it only sends. -/
theorem steady_sendBatch {batch : List Payload} {w w' : LogSender ι}
    {scripts : List (List WriteRes)} (h : w.sendBatch batch scripts = some w') :
    ∃ sent, Steady w w' sent := by
  refine sendBatch_rule (P := fun w₁ => ∃ sent, Steady w w₁ sent) ?_
    (fun h => h) ?_ ⟨[], .refl w⟩ h
  · rintro w₁ fd p ws c ⟨sent, hsent⟩ - -
    have hpass : Steady w₁ { w₁ with passed := w₁.passed ++ [(fd, p)] }
        [(fd, p)] := ⟨rfl, rfl, rfl, rfl, rfl, rfl, rfl⟩
    exact ⟨_, hsent.trans (hpass.trans (steady_putConn _ fd c))⟩
  · rintro w₁ ⟨sent, hsent⟩
    exact ⟨_, hsent.trans (frame_steady.fail w₁ _)⟩

/-! ## What a step can do

A producer goes one step further; a functor is queued; or the loop thread goes
on, either from `drain` or, when it is idle, with something new. -/

section

variable [DecidableEq ι]

inductive Stepped (w : LogSender ι) : Label ι → LogSender ι → Prop where
  | enter (p : ι) (msg : List UInt8) : w.pc p = .idle →
      Stepped w (.enter p msg) (w.enter p msg)
  | leave (p : ι) (ok : Bool) :
      w.pc p = (if ok then .inserted else .refused) →
      Stepped w (.leave p) (w.leave p ok)
  | wake (p : ι) : w.pc p = .waking →
      Stepped w (.wake p)
        { w with pending := w.pending ++ [.wake], pc := w.setPc p .idle }
  | start : Stepped w .start { w with pending := w.pending ++ [.startInLoop] }
  | stop : Stepped w .stop { w with pending := w.pending ++ [.stopInLoop] }
  | drain (scripts : List (List WriteRes)) (dropped : Nat) (stopping : Bool)
      (w' : LogSender ι) : w.loopPc = .draining dropped stopping →
      w.finishDrain dropped stopping scripts = some w' →
      Stepped w (.drain scripts) w'
  | functor (d : Dial) (f : SenderFunctor) (fs : List SenderFunctor) :
      w.loopPc = .idle → w.pending = f :: fs →
      Stepped w (.functor d) ({ w with pending := fs }.runFunctor d f)
  | timer (id : Nat) (d : Dial) (t : Timer) : w.loopPc = .idle →
      w.timers.find? (fun t => t.id = id) = some t →
      Stepped w (.timer id d) ((w.cancelTimer id).fireTimer d t.kind)
  | handshake (err : Bool) (c : TcpClient) : w.loopPc = .idle →
      w.tcpClient = some c → c.connectChannel.isSome = true →
      Stepped w (.handshake err) (w.settle (c.handleConnectWritable err))
  | event (fd : Nat) (revents : UInt32) (d : Connection.Dispatch)
      (c : Connection) : w.loopPc = .idle →
      (w.conns fd).channel.state = .kAdded →
      (w.conns fd).handleEvent revents d = some c →
      Stepped w (.event fd revents d) (w.putConn fd c)

theorem loopStep_stepped {w w' : LogSender ι} {l : Label ι}
    (hidle : w.loopPc = .idle) (h : w.loopStep l = some w') :
    Stepped w l w' := by
  rw [loopStep.eq_def] at h
  split at h
  · next d =>
      split at h
      · cases h
      · next hq =>
          cases h
          exact .functor d _ _ hidle hq
  · next id d =>
      split at h
      · cases h
      · next ht =>
          cases h
          exact .timer id d _ hidle ht
  · next err =>
      split at h
      · cases h
      · next hc =>
          split at h
          · next hchan =>
              cases h
              exact .handshake err _ hidle hc hchan
          · cases h
  · next fd revents d =>
      split at h
      · next hadded =>
          obtain ⟨c, hc, rfl⟩ := Option.map_eq_some_iff.mp h
          exact .event fd revents d c hidle hadded hc
      · cases h
  · cases h

/-- A process that goes on has not followed a wrong pointer. -/
theorem step_stepped {w w' : LogSender ι} {l : Label ι}
    (h : w.step l = some w') : w.fault = none ∧ Stepped w l w' := by
  rw [step] at h
  split at h
  · cases h
  · next hfault =>
      refine ⟨by simpa using hfault, ?_⟩
      rw [live.eq_def] at h
      split at h
      · next p msg =>
          split at h
          · next hpc =>
              cases h
              exact .enter p msg hpc
          · cases h
      · next p =>
          split at h
          · next hpc =>
              cases h
              exact .leave p true hpc
          · next hpc =>
              cases h
              exact .leave p false hpc
          · cases h
      · next p =>
          split at h
          · next hpc =>
              cases h
              exact .wake p hpc
          · cases h
      · cases h
        exact .start
      · cases h
        exact .stop
      · next scripts =>
          split at h
          · cases h
          · next hloop => exact .drain scripts _ _ w' hloop h
      · split at h
        · next hidle => exact loopStep_stepped hidle h
        · cases h

end

/-! ## Once stopped, always stopped -/

theorem onTick_stopped {w : LogSender ι} (h : w.stopped = true) :
    w.onTick = w := if_pos h

theorem stopInLoop_stopped (w : LogSender ι) :
    w.stopInLoop.stopped = true := by
  rw [stopInLoop]
  split
  · next h => exact h
  · have hcancel := (steady_cancelTick { w with stopped := true }).stopped
    dsimp only
    split
    · exact hcancel
    · exact (steady_stopRest _).stopped.trans hcancel

theorem runFunctor_stopped {w : LogSender ι} (h : w.stopped = true) (d : Dial)
    (f : SenderFunctor) : (w.runFunctor d f).stopped = true := by
  cases f with
  | startInLoop =>
      rw [runFunctor, startInLoop]
      split
      · exact h
      · dsimp only
        split
        · exact h
        · rw [(steady_scheduleNextTick _).stopped, (steady_settle _ _).stopped]
          exact h
  | stopInLoop => exact stopInLoop_stopped w
  | wake =>
      rw [runFunctor, h, Bool.or_true, if_pos rfl]
      exact h
  | conn fd f =>
      cases f with
      | shutdownInLoop => exact (steady_putConn w fd _).stopped.trans h
      | highWaterMark => exact h
      | writeComplete => exact h

theorem fireTimer_stopped {w : LogSender ι} (h : w.stopped = true) (d : Dial)
    (k : TimerKind) : (w.fireTimer d k).stopped = true := by
  cases k with
  | tick =>
      rw [fireTimer, onTick_stopped (by exact h)]
      exact h
  | retry =>
      rw [fireTimer]
      split
      · exact h
      · exact (steady_settle w _).stopped.trans h

theorem behindDrain_stopped (w : LogSender ι) (stopping : Bool) :
    (behindDrain stopping w).stopped = w.stopped := by
  rw [behindDrain]
  split
  · rfl
  · split
    · exact (steady_stopRest w).stopped
    · exact (steady_scheduleNextTick w).stopped

theorem finishDrain_stopped {w w' : LogSender ι} {dropped : Nat}
    {stopping : Bool} {scripts : List (List WriteRes)}
    (h : w.finishDrain dropped stopping scripts = some w') :
    w'.stopped = w.stopped := by
  obtain ⟨w₁, hdrain, rfl⟩ := Option.map_eq_some_iff.mp h
  rw [behindDrain_stopped]
  rw [drainAndSend] at hdrain
  dsimp only at hdrain
  split at hdrain
  · split at hdrain
    · cases hdrain
      rfl
    · cases hdrain
  · obtain ⟨sent, hsent⟩ := steady_sendBatch hdrain
    exact hsent.stopped

variable [DecidableEq ι]

theorem step_stopped {w w' : LogSender ι} {l : Label ι}
    (h : w.step l = some w') (hstopped : w.stopped = true) :
    w'.stopped = true := by
  cases (step_stepped h).2 with
  | enter | leave | wake | start | stop => exact hstopped
  | drain scripts dropped stopping _ hloop hfinish =>
      exact (finishDrain_stopped hfinish).trans hstopped
  | functor d f fs => exact runFunctor_stopped (by exact hstopped) d f
  | timer id d t => exact fireTimer_stopped (by exact hstopped) d t.kind
  | handshake => exact (steady_settle w _).stopped.trans hstopped
  | event fd revents d c => exact (steady_putConn w fd c).stopped.trans hstopped

end GameFrame.LogSender
