import GameFrame.Proofs.SendRow

/-!
# What `stop()` leaves behind

`stop_in_loop` calls off the next tick, sends what is in the queue, asks for a
graceful half-close and then has the client close the connection at once. Two
things can be wrong afterwards.

Something may still refer to the sender. It knows one timer by its number, so
any other is left: a second tick, or the client's retry, which nobody can call
off. It does not look at the functors behind its own. And the last batch can
add to both, for a write that fails has the client set a retry, and a buffer
that is filled past its mark queues the callback (`stop_leaves`). `StopClear`
is that none of this is the case, and is exact (`stop_clear_iff`).

And bytes may be lost. `shutdown()` leaves what is buffered for
`handle_write`, as it should, but the `close()` of `disconnect()` comes right
behind it and does not look at the buffer (`stop_discards`). What was handed
to the connection is on the socket if and only if nothing had to be buffered
(`stop_writes_iff`).
-/

namespace GameFrame

namespace LogSender

variable {ι : Type _}

/-! ## The last batch -/

/-- What the last `do_drain_and_send` sends. -/
def lastBatch (w : LogSender ι) : List Payload :=
  batch w.queue.dropped (w.queue.contents.take w.opts.maxBatchPerTick)

def lastFrames (w : LogSender ι) : List UInt8 :=
  w.lastBatch.flatMap fun p => LengthPrefixedCodec.encode p.bytes

/-- The output buffer of the connection, if there is one. -/
def buffered (w : LogSender ι) : List UInt8 :=
  match w.connection with
  | none => []
  | some fd => (w.conns fd).outputBuffer.readable

theorem setConn_self (w : LogSender ι) (fd : Nat) :
    w.setConn fd (w.conns fd) = w := by
  have hconns : (fun i => if i = fd then w.conns fd else w.conns i) =
      w.conns := by
    funext i
    split
    · next h => rw [h]
    · rfl
  simp only [setConn, hconns]

/-- A batch whose writes do not fail changes one connection, and queues its
functors. -/
theorem sendBatch_passed {fd : Nat} {batch : List Payload} :
    ∀ {w w' : LogSender ι} {scripts : List (List WriteRes)},
    w.connection = some fd → (w.conns fd).state = .kConnected →
    (w.conns fd).pending = [] →
    (∀ ws ∈ scripts, writeStop ws ≠ some .fatal) →
    w.sendBatch batch scripts = some w' →
    ∃ c fs passed, c.pending = [] ∧
      Connection.Passed (w.conns fd)
        (batch.flatMap fun p => LengthPrefixedCodec.encode p.bytes) scripts c
        fs ∧
      w' = { w.setConn fd c with
        pending := w.pending ++ fs.map (.conn fd)
        passed := passed } := by
  induction batch with
  | nil =>
      intro w w' scripts _ _ hpending _ h
      rw [sendBatch] at h
      split at h
      · next hnil =>
          cases h
          refine ⟨w.conns fd, [], w.passed, hpending, ?_, ?_⟩
          · rw [hnil]
            exact .refl _
          · rw [setConn_self, List.map_nil, List.append_nil]
      · cases h
  | cons p ps ih =>
      intro w w' scripts hconn hstate hpending hgood h
      obtain ⟨ws, rest, c, rfl, hsend, hrest⟩ := sendBatch_cons hconn h
      have hone := Connection.send_passed hstate
        (LengthPrefixedCodec.encode_ne_nil _) hpending
        (hgood ws List.mem_cons_self) hsend
      have hup : c.state = .kConnected := hone.state.trans hstate
      have heq : { w with passed := w.passed ++ [(fd, p)] }.putConn fd c =
          { w with passed := w.passed ++ [(fd, p)] }.withConn fd c :=
        putConn_open (by simp [hup])
      have hat : ({ w with passed := w.passed ++ [(fd, p)] }.withConn fd
          c).conns fd = { c with pending := [] } := withConn_self _ fd c
      rw [heq] at hrest
      obtain ⟨c', fs, passed, hpending', hpassed, rfl⟩ := ih (by exact hconn)
        (by rw [hat]; exact hup) (by rw [hat])
        (fun ws' hws' => hgood ws' (List.mem_cons_of_mem _ hws')) hrest
      rw [hat] at hpassed
      refine ⟨c', c.pending ++ fs, passed, hpending', ?_, ?_⟩
      · have hall := hone.trans hpassed
        exact hall
      · rw [List.map_append, ← List.append_assoc]
        simp only [withConn, setConn]
        congr 1
        funext i
        split
        · rfl
        · rfl

/-- Behind a closed connection whose client goes on there is a retry. -/
theorem onConnectionClosed_timers {w : LogSender ι} {fd : Nat} {c : TcpClient}
    (hclosed : (w.conns fd).state = .kDisconnected)
    (hclient : w.tcpClient = some c) (henabled : c.retryEnabled = true) :
    (w.onConnectionClosed fd).timers ≠ [] := by
  rw [onConnectionClosed, onConnection_closed hclosed]
  simp only [hclient]
  rw [settle, TcpClient.onConnectionClosed, TcpClient.scheduleRetry,
    if_neg (by simp [henabled])]
  simp [runAfter]

/-- A batch that ends with a write that fails. -/
theorem sendBatch_failed {batch : List Payload} :
    ∀ {w w' : LogSender ι} {scripts : List (List WriteRes)}, w.Tidy →
    (∃ ws ∈ scripts, writeStop ws = some .fatal) →
    w.sendBatch batch scripts = some w' → w'.fault = none →
    w'.connection = none ∧ w'.timers ≠ [] := by
  induction batch with
  | nil =>
      rintro w w' scripts _ ⟨ws, hws, -⟩ h _
      rw [sendBatch] at h
      split at h
      · next hnil =>
          rw [hnil] at hws
          cases hws
      · cases h
  | cons p ps ih =>
      rintro w w' scripts hw ⟨ws', hws', hfatal⟩ h hfault
      cases hconn : w.connection with
      | none =>
          obtain ⟨hnil, -⟩ := sendBatch_reset hconn h
          rw [hnil] at hws'
          cases hws'
      | some fd =>
          obtain ⟨ws, rest, c, rfl, hsend, hrest⟩ := sendBatch_cons hconn h
          have hstate := (hw.current fd hconn).state
          have hput := hw.pass hconn hsend
          rcases Connection.send_outcome hsend hstate
            (LengthPrefixedCodec.encode_ne_nil _) with ⟨-, hclosed⟩ |
              ⟨hstop, -⟩
          · obtain ⟨k, hk, hsound, hkconn⟩ := hw.client
            have henabled : k.retryEnabled = true := by
              have hstate := hsound.connection.mp (by rw [hkconn, hconn]; rfl)
              exact hsound.enabled (by simp [hstate])
            have hclosed' : (({ w with passed := w.passed ++ [(fd, p)]
                }.withConn fd c).conns fd).state = .kDisconnected := by
              rw [withConn_self]
              exact hclosed
            rw [putConn_closed (by simp [hstate]) hclosed] at hrest
            have htimers := onConnectionClosed_timers hclosed' hk henabled
            obtain ⟨timers, next, heq⟩ := onConnectionClosed_eq hclosed' hk
            rw [heq] at hrest htimers
            -- What is left of the batch would end the process.
            obtain ⟨-, rfl⟩ := sendBatch_reset rfl hrest
            cases ps with
            | nil => exact ⟨rfl, htimers⟩
            | cons q qs =>
                rw [if_neg (List.cons_ne_nil q qs)] at hfault
                cases hwf : w.fault <;>
                  simp [fail, withConn, setConn, hwf] at hfault
          · refine ih hput ?_ hrest hfault
            rcases List.mem_cons.mp hws' with rfl | hmem
            · exact absurd hfatal hstop
            · exact ⟨ws', hmem, hfatal⟩

/-- What is taken for the last batch is what the queue begins with. -/
theorem drain_taken {q : MPSCQueue (List UInt8)} (hq : q.Wf) (n : Nat) :
    (q.drain [] n).2 = q.contents.take n := by
  by_cases hn : n = 0
  · rw [hn]
    rfl
  · obtain ⟨taken, hout, htakes, -⟩ := MPSCQueue.drain_takes hq [] hn
    rw [hout, htakes.taken, List.nil_append]

/-- An empty batch is a batch like any other. -/
theorem drainAndSend_eq (w : LogSender ι) (dropped : Nat)
    (scripts : List (List WriteRes)) :
    w.drainAndSend dropped scripts =
      { w with
        queue := (w.queue.drain [] w.opts.maxBatchPerTick).1 }.sendBatch
        (batch dropped (w.queue.drain [] w.opts.maxBatchPerTick).2) scripts := by
  rw [drainAndSend]
  split
  · next hnone =>
      rw [hnone.1, hnone.2, batch, if_neg (Nat.lt_irrefl 0), List.map_nil,
        List.append_nil, sendBatch]
  · rfl

/-! ## The rest of `stop_in_loop` -/

/-- Without a connection only the client goes. -/
theorem stopRest_none {w : LogSender ι} {c : TcpClient}
    (hconn : w.connection = none) (hclient : w.tcpClient = some c)
    (hnone : c.connection = none) :
    w.stopRest = { w with tcpClient := none } := by
  have hask : c.disconnectInLoop.2 = none ∧
      c.disconnectInLoop.1.connection = none := by
    rw [TcpClient.disconnectInLoop]
    dsimp only
    repeat' split
    · exact ⟨hnone, hnone⟩
    · refine ⟨rfl, ?_⟩
      rw [TcpClient.abandonDial]
      split
      · exact hnone
      · exact hnone
    · exact ⟨rfl, hnone⟩
    · exact ⟨rfl, hnone⟩
  have hshut : w.shutdownConn = w := by rw [shutdownConn, hconn]
  rw [stopRest, hshut]
  simp only [hclient, disconnect, hask.1, closeConn, destroyTcpClient, hask.2]
  rw [← hconn]

/-- A client that does not go on asks for nothing when its connection is
closed. -/
theorem onConnectionClosed_quiet {w : LogSender ι} {fd : Nat} {c : TcpClient}
    (hclosed : (w.conns fd).state = .kDisconnected)
    (hclient : w.tcpClient = some c) (hquiet : c.retryEnabled = false) :
    w.onConnectionClosed fd =
      { w with
        connection := none
        paused := false
        tcpClient := some
          { c with connection := none, state := .kDisconnected } } := by
  rw [onConnectionClosed, onConnection_closed hclosed]
  simp only [hclient]
  rw [settle, TcpClient.onConnectionClosed, TcpClient.scheduleRetry,
    if_pos (by simp [hquiet])]

theorem setConn_at (w : LogSender ι) (fd : Nat) (c : Connection) :
    (w.setConn fd c).conns fd = c := if_pos rfl

/-- A function of a connection that queues nothing. -/
theorem withConn_quiet {w : LogSender ι} {fd : Nat} {c : Connection}
    (h : c.pending = []) : w.withConn fd c = w.setConn fd c := by
  have hsame : { c with pending := [] } = c := by rw [← h]
  rw [withConn, hsame, h, List.map_nil, List.append_nil]
  rfl

/-- The half-close, and the close right behind it. -/
theorem stopRest_some {w : LogSender ι} {fd : Nat} {c : TcpClient}
    (hconn : w.connection = some fd) (hclient : w.tcpClient = some c)
    (hstate : (w.conns fd).state = .kConnected)
    (hpending : (w.conns fd).pending = [])
    (hconnected : c.state = .kConnected) (hsame : c.connection = some fd) :
    w.stopRest =
      { w.setConn fd (w.conns fd).shutdown.close with
        connection := none
        paused := false
        tcpClient := none } := by
  have hshutdown : (w.conns fd).shutdown.state = .kDisconnecting ∧
      (w.conns fd).shutdown.pending = [] := by
    rw [Connection.shutdown, if_pos hstate, Connection.shutdownInLoop,
      if_neg (by simp)]
    split
    · exact ⟨rfl, hpending⟩
    · exact ⟨rfl, hpending⟩
  have hshut : w.shutdownConn = w.setConn fd (w.conns fd).shutdown := by
    rw [shutdownConn, hconn]
    dsimp only
    rw [putConn_open (by simp [hshutdown.1]), withConn_quiet hshutdown.2]
  have hask : c.disconnectInLoop =
      ({ c with retryEnabled := false }, some fd) := by
    rw [TcpClient.disconnectInLoop]
    simp only [hconnected, hsame, Option.isSome_some, and_self, if_true]
  rw [stopRest, hshut]
  generalize (w.conns fd).shutdown = sh at hshutdown ⊢
  have hquiet : sh.close.pending = [] := by
    rw [Connection.close_pending, hshutdown.2]
  have hclose : ({ w.setConn fd sh with
      tcpClient := some { c with retryEnabled := false } }.putConn fd
        sh.close) =
      { w.setConn fd sh.close with
        connection := none
        paused := false
        tcpClient := some { c with
          retryEnabled := false
          connection := none
          state := .kDisconnected } } := by
    rw [putConn_closed (by simp [setConn_at, hshutdown.1])
      (Connection.close_state sh), withConn_quiet hquiet,
      onConnectionClosed_quiet (by simp [setConn_at]) rfl rfl]
    simp only [setConn]
    congr 1
    funext i
    split
    · rfl
    · rfl
  have hat : (w.setConn fd sh).tcpClient = some c := hclient
  simp only [hat, disconnect, hask, closeConn, setConn_at, hclose,
    destroyTcpClient]

/-! ## `stop_in_loop` from its beginning -/

/-- The only timer called off is the one it knows of. -/
theorem cancelTick_eq {w : LogSender ι} (hw : w.Numbered) :
    ∃ timers, w.cancelTick = { w with timers := timers, tickTimerId := 0 } ∧
      (∀ t ∈ timers, t ∈ w.timers) ∧
      (timers = [] ↔ ∀ t ∈ w.timers, t.id = w.tickTimerId) := by
  rw [cancelTick]
  split
  · refine ⟨_, rfl, fun t ht => (List.mem_filter.mp ht).1, ?_⟩
    show w.timers.filter _ = [] ↔ _
    rw [List.filter_eq_nil_iff]
    simp
  · next hzero =>
      have hzero : w.tickTimerId = 0 := by simpa using hzero
      refine ⟨w.timers, by rw [← hzero], fun _ ht => ht, ?_⟩
      rw [hzero]
      constructor
      · intro hnil t ht
        rw [hnil] at ht
        cases ht
      · intro hall
        refine List.eq_nil_iff_forall_not_mem.mpr fun t ht => ?_
        have hpos := hw.2 t ht
        rw [hall t ht] at hpos
        exact Nat.lt_irrefl 0 hpos

/-- The sender when the last batch is out of the queue. -/
def lastDrained (w : LogSender ι) (fs : List SenderFunctor)
    (timers : List Timer) : LogSender ι :=
  { w with
    pending := fs
    stopped := true
    timers := timers
    tickTimerId := 0
    loopPc := .idle
    queue := (w.queue.takeDropped.2.drain [] w.opts.maxBatchPerTick).1 }

theorem Tidy.lastDrained {w : LogSender ι} (hw : w.Tidy)
    (fs : List SenderFunctor) {timers : List Timer}
    (htimers : ∀ t ∈ timers, t ∈ w.timers) : (w.lastDrained fs timers).Tidy := by
  obtain ⟨taken, -, hwf, -⟩ := MPSCQueue.drain_splits hw.queue.takeDropped []
    w.opts.maxBatchPerTick
  exact hw.other rfl
    ⟨hw.numbered.1, fun t ht => hw.numbered.2 t (htimers t ht)⟩ hwf
    fun _ _ h => by cases h

theorem Tidy.connected_iff {w : LogSender ι} (hw : w.Tidy) :
    w.connected = true ↔ w.connection ≠ none := by
  rw [LogSender.connected]
  split
  · next hnone => simp [hnone]
  · next fd hfd => simp [hfd, (hw.current fd hfd).state]

variable [DecidableEq ι]

/-- The loop thread runs `stop_in_loop` to its end, and nobody else does
anything. -/
def stopLabels (w : LogSender ι) (d : Dial) (scripts : List (List WriteRes)) :
    List (Label ι) :=
  .functor d :: if w.connected then [.drain scripts] else []

section

variable {w w' : LogSender ι} {fs : List SenderFunctor} {d : Dial}
  {scripts : List (List WriteRes)}

/-- The functor, as far as it goes in one step. -/
theorem stop_functor (hstopped : w.stopped = false)
    (hq : w.pending = .stopInLoop :: fs) (h : w.step (.functor d) = some w') :
    w.fault = none ∧
      w' = { w with pending := fs, stopped := false }.stopInLoop := by
  have hfault := step_fault h
  rw [step, hfault, Option.isSome_none, if_neg Bool.false_ne_true, live] at h
  · split at h
    · rw [loopStep, hq] at h
      cases h
      exact ⟨hfault, by rw [← hstopped]; rfl⟩
    · cases h
  all_goals simp

/-- Without a connection. -/
theorem stop_alone (hw : w.Tidy) (hstopped : w.stopped = false)
    (hq : w.pending = .stopInLoop :: fs) (hconn : w.connection = none)
    (h : Machine.run step w (w.stopLabels d scripts) = some w') :
    ∃ timers, (timers = [] ↔ ∀ t ∈ w.timers, t.id = w.tickTimerId) ∧
      w'.timers = timers ∧ w'.pending = fs := by
  have hoff : w.connected = false := by
    cases hc : w.connected with
    | false => rfl
    | true => exact absurd hconn (hw.connected_iff.mp hc)
  rw [stopLabels, hoff, if_neg Bool.false_ne_true] at h
  obtain ⟨v, hv, hend⟩ := Machine.run_cons_some.mp h
  obtain rfl : v = w' := by simpa using hend
  obtain ⟨-, rfl⟩ := stop_functor hstopped hq hv
  obtain ⟨timers, hcancel, -, hnil⟩ :=
    cancelTick_eq (w := { w with pending := fs, stopped := true }) hw.numbered
  obtain ⟨c, hc, -, hsame⟩ := hw.client
  refine ⟨timers, hnil, ?_⟩
  rw [stopInLoop, if_neg Bool.false_ne_true]
  dsimp only
  rw [hcancel, if_neg (by
    show ¬ w.connected = true
    simp [hoff])]
  have hrest := stopRest_none (w := { w with
    pending := fs, stopped := true, timers := timers, tickTimerId := 0 })
    hconn hc (hsame.trans hconn)
  exact ⟨congrArg LogSender.timers hrest, congrArg LogSender.pending hrest⟩

/-- With one, up to where the batch has been sent. -/
theorem stop_drains (hw : w.Tidy) (hstopped : w.stopped = false)
    (hq : w.pending = .stopInLoop :: fs) (hconn : w.connected = true)
    (h : Machine.run step w (w.stopLabels d scripts) = some w') :
    ∃ timers v, (timers = [] ↔ ∀ t ∈ w.timers, t.id = w.tickTimerId) ∧
      w.fault = none ∧ (w.lastDrained fs timers).Tidy ∧
      (w.lastDrained fs timers).sendBatch w.lastBatch scripts = some v ∧
      w' = behindDrain true v := by
  rw [stopLabels, hconn, if_pos rfl] at h
  obtain ⟨u, hu, hrest⟩ := Machine.run_cons_some.mp h
  obtain ⟨v, hv, hend⟩ := Machine.run_cons_some.mp hrest
  obtain rfl : v = w' := by simpa using hend
  obtain ⟨hfault, rfl⟩ := stop_functor hstopped hq hu
  obtain ⟨timers, hcancel, hsub, hnil⟩ :=
    cancelTick_eq (w := { w with pending := fs, stopped := true }) hw.numbered
  have hstop : { w with pending := fs, stopped := false }.stopInLoop =
      { { w with pending := fs, stopped := true } with
        timers := timers, tickTimerId := 0 }.takeDropped true := by
    rw [stopInLoop, if_neg Bool.false_ne_true]
    dsimp only
    rw [hcancel]
    exact if_pos hconn
  rw [hstop, step, if_neg (by simp [takeDropped, hfault]), live] at hv
  obtain ⟨x, hx, rfl⟩ := Option.map_eq_some_iff.mp hv
  refine ⟨timers, x, hnil, hfault, hw.lastDrained fs hsub, ?_, rfl⟩
  have htaken : (w.queue.takeDropped.2.drain [] w.opts.maxBatchPerTick).2 =
      w.queue.contents.take w.opts.maxBatchPerTick :=
    drain_taken hw.queue.takeDropped _
  rw [drainAndSend_eq] at hx
  rw [lastBatch, ← htaken]
  exact hx

/-- The batch goes through, and the connection is closed behind it. -/
theorem stop_passed {fd : Nat} (hw : w.Tidy) (hstopped : w.stopped = false)
    (hq : w.pending = .stopInLoop :: fs) (hconn : w.connection = some fd)
    (hgood : ∀ ws ∈ scripts, writeStop ws ≠ some .fatal)
    (h : Machine.run step w (w.stopLabels d scripts) = some w') :
    ∃ timers c fs', (timers = [] ↔ ∀ t ∈ w.timers, t.id = w.tickTimerId) ∧
      Connection.Passed (w.conns fd) w.lastFrames scripts c fs' ∧
      w'.timers = timers ∧ w'.pending = fs ++ fs'.map (.conn fd) ∧
      w'.conns fd = c.shutdown.close := by
  obtain ⟨timers, v, hnil, hfault, htidy, hsend, rfl⟩ := stop_drains hw hstopped
    hq (hw.connected_iff.mpr (by simp [hconn])) h
  have hstate := (hw.current fd hconn).state
  obtain ⟨c, fs', passed, hpending, hpassed, hv⟩ := sendBatch_passed
    (w := w.lastDrained fs timers) hconn hstate (hw.swept fd) hgood hsend
  obtain ⟨k, hk, hsound, hsame⟩ := hw.client
  have hkconn : k.connection = some fd := hsame.trans hconn
  have hat : v.conns fd = c := by rw [hv]; exact setConn_at _ fd c
  have hvfault : v.fault = none := by rw [hv]; exact hfault
  have hrest := stopRest_some (w := v) (by rw [hv]; exact hconn)
    (by rw [hv]; exact hk) (by rw [hat]; exact hpassed.state.trans hstate)
    (by rw [hat]; exact hpending)
    (hsound.connection.mp (by rw [hkconn]; rfl)) hkconn
  refine ⟨timers, c, fs', hnil, hpassed, ?_⟩
  rw [behindDrain, if_neg (by simp [hvfault]), if_pos rfl, hrest, hat]
  refine ⟨by rw [hv]; rfl, by rw [hv]; rfl, ?_⟩
  exact setConn_at v fd _

/-- Its last write fails, and the client sets a timer. -/
theorem stop_failed (hw : w.Tidy) (hstopped : w.stopped = false)
    (hq : w.pending = .stopInLoop :: fs) (hconn : w.connected = true)
    (hbad : ∃ ws ∈ scripts, writeStop ws = some .fatal)
    (hfault : w'.fault = none)
    (h : Machine.run step w (w.stopLabels d scripts) = some w') :
    w'.timers ≠ [] := by
  obtain ⟨timers, v, -, -, htidy, hsend, rfl⟩ := stop_drains hw hstopped hq
    hconn h
  have hnone := behindDrain_fault hfault
  obtain ⟨hreset, htimers⟩ := sendBatch_failed htidy hbad hsend hnone
  obtain ⟨c, hc, -, hsame⟩ := (htidy.sendBatch hsend hnone).client
  rw [behindDrain, if_neg (by simp [hnone]), if_pos rfl,
    stopRest_none hreset hc (hsame.trans hreset)]
  exact htimers

end

end LogSender

/-! ## What still refers to the sender -/

/-- The functor's callback goes to the sender. -/
def SenderFunctor.refers : SenderFunctor → Bool
  | .startInLoop | .stopInLoop | .wake => true
  | .conn _ .highWaterMark | .conn _ .writeComplete => true
  | .conn _ .shutdownInLoop => false

namespace LogSender

variable {ι : Type _}

/-- No timer is left, and no functor goes to the sender or its client. -/
def Clear (w : LogSender ι) : Prop :=
  w.timers = [] ∧ ∀ f ∈ w.pending, f.refers = false

/-- There is no timer but the tick that `tick_timer_id_` names, and no functor
behind that of the stop goes to the sender. And if there is a last batch to
send, no write fails, and it does not fill the buffer past its mark. -/
def StopClear (w : LogSender ι) (scripts : List (List WriteRes)) : Prop :=
  (∀ t ∈ w.timers, t.id = w.tickTimerId) ∧
  (∀ f ∈ w.pending.tail, f.refers = false) ∧
  (w.connected = true →
    (∀ ws ∈ scripts, writeStop ws ≠ some .fatal) ∧
    ¬ (w.buffered.length < w.opts.highWaterMark ∧
      w.opts.highWaterMark + acceptedBytes scripts.flatten ≤
        w.buffered.length + w.lastFrames.length))

instance (w : LogSender ι) (scripts : List (List WriteRes)) :
    Decidable (w.StopClear scripts) :=
  inferInstanceAs (Decidable (_ ∧ _ ∧ (_ → _ ∧ ¬ _)))

/-- The dial is refused, and the client waits for its retry. -/
theorem stop_leaves :
    ¬ ∀ (opts : Options) (ls : List (Label Unit)) (w w' : LogSender Unit)
      (fs : List SenderFunctor) (d : Dial) (scripts : List (List WriteRes)),
      Machine.run step (new opts) ls = some w → w.stopped = false →
      w.pending = .stopInLoop :: fs →
      Machine.run step w (w.stopLabels d scripts) = some w' →
      w'.fault = none → w'.Clear := by
  intro hall
  have hany : (Machine.run step (new { queueCapacity := 4 })
      [.start, .functor .refused, .stop]).any (fun w : LogSender Unit =>
        !w.stopped && w.pending == [.stopInLoop] &&
        (Machine.run step w (w.stopLabels .refused [])).any fun w' =>
          w'.fault == none && w'.timers != []) = true := by decide +kernel
  obtain ⟨w, hrun, hw⟩ := (Option.any_eq_true _ _).mp hany
  simp only [Bool.and_eq_true, Bool.not_eq_true', beq_iff_eq] at hw
  obtain ⟨⟨hstopped, hq⟩, hstop⟩ := hw
  obtain ⟨w', hend, hw'⟩ := (Option.any_eq_true _ _).mp hstop
  simp only [Bool.and_eq_true, beq_iff_eq, bne_iff_ne] at hw'
  exact hw'.2 (hall _ _ w w' _ _ _ hrun hstopped hq hend hw'.1).1

variable [DecidableEq ι]

/-- Behind `stop()` nothing refers to the sender, if and only if there was
nothing that `stop_in_loop` does not look at. -/
theorem stop_clear_iff {opts : Options} {ls : List (Label ι)}
    {w w' : LogSender ι} {fs : List SenderFunctor} {d : Dial}
    {scripts : List (List WriteRes)}
    (hrun : Machine.run step (new opts) ls = some w)
    (hstopped : w.stopped = false) (hq : w.pending = .stopInLoop :: fs)
    (hstop : Machine.run step w (w.stopLabels d scripts) = some w')
    (hfault : w'.fault = none) : w'.Clear ↔ w.StopClear scripts := by
  have hwfault : w.fault = none := by
    obtain ⟨v, hv, -⟩ := Machine.run_cons_some.mp hstop
    exact step_fault hv
  have hw := tidy_reachable hrun hstopped hwfault
  rw [StopClear, hq, List.tail_cons]
  cases hconn : w.connection with
  | none =>
      obtain ⟨timers, hnil, htimers, hpending⟩ :=
        stop_alone hw hstopped hq hconn hstop
      have hoff : ¬ w.connected = true := fun h =>
        hw.connected_iff.mp h hconn
      rw [Clear, htimers, hpending, hnil]
      simp [hoff]
  | some fd =>
      have hon : w.connected = true := hw.connected_iff.mpr (by simp [hconn])
      by_cases hgood : ∀ ws ∈ scripts, writeStop ws ≠ some .fatal
      · obtain ⟨timers, c, fs', hnil, hpassed, htimers, hpending, -⟩ :=
          stop_passed hw hstopped hq hconn hgood hstop
        have hsize := hpassed.size
        have hcb := (hw.current fd hconn).highWaterCb
        have hmark := (hw.current fd hconn).highWaterMark
        have hbuffered : w.buffered = (w.conns fd).outputBuffer.readable := by
          rw [buffered, hconn]
        have hfs : (∀ f ∈ fs'.map (SenderFunctor.conn fd), f.refers = false) ↔
            ¬ (w.buffered.length < w.opts.highWaterMark ∧
              w.opts.highWaterMark + acceptedBytes scripts.flatten ≤
                w.buffered.length + w.lastFrames.length) := by
          rw [hpassed.functors, hcb, hmark, hbuffered]
          split
          · next h =>
              obtain ⟨-, hlt, hle⟩ := h
              refine ⟨fun hall => ?_, fun hnot => (hnot ⟨hlt, by omega⟩).elim⟩
              cases hall _ (List.mem_singleton_self _)
          · next h =>
              refine ⟨fun _ hpast => h ⟨?_, hpast.1, by omega⟩, fun _ f hf => ?_⟩
              · rw [decide_eq_true_eq]
                omega
              · cases hf
        rw [Clear, htimers, hpending, hnil, ← hfs, List.forall_mem_append]
        refine and_congr_right fun _ => and_congr_right fun _ => ?_
        exact ⟨fun h _ => ⟨hgood, h⟩, fun h => (h hon).2⟩
      · have hbad : ∃ ws ∈ scripts, writeStop ws = some .fatal := by
          simpa using hgood
        refine ⟨fun h => ?_, fun h => absurd (h.2.2 hon).1 hgood⟩
        exact absurd h.1 (stop_failed hw hstopped hq hon hbad hfault hstop)

/-- Two messages from before the start, of which a tick takes one. The last
batch is the other, a part of it is buffered, and the mark is not reached. -/
def twoEarly : List (Label Unit) :=
  ([.enter () [1], .leave (), .wake (), .enter () [2], .leave (),
    .functor .inProgress] : List (Label Unit)) ++ up ++
    ([.timer 1 .inProgress, .drain [[.accepted 5]], .stop] : List (Label Unit))

def early : Options :=
  { queueCapacity := 4, maxBatchPerTick := 1, highWaterMark := 6 }

theorem stop_clear_mark :
    ∃ w w', Machine.run step (new early)
        twoEarly = some w ∧
      Machine.run step w (w.stopLabels .inProgress
        [[.accepted 2, .eintr, .stop .eagain]]) = some w' ∧
      w'.passed.length = 2 ∧ w'.Clear := by
  have hany : (Machine.run step (new early)
      twoEarly).any (fun w => !w.stopped && w.pending == [.stopInLoop] &&
        decide (w.StopClear [[.accepted 2, .eintr, .stop .eagain]]) &&
        (Machine.run step w (w.stopLabels .inProgress
          [[.accepted 2, .eintr, .stop .eagain]])).any fun w' =>
            w'.fault == none && w'.passed.length == 2) = true := by
    decide +kernel
  obtain ⟨w, hrun, hw⟩ := (Option.any_eq_true _ _).mp hany
  simp only [Bool.and_eq_true, Bool.not_eq_true', beq_iff_eq,
    decide_eq_true_eq] at hw
  obtain ⟨⟨⟨hstopped, hq⟩, hok⟩, hstop⟩ := hw
  obtain ⟨w', hend, hw'⟩ := (Option.any_eq_true _ _).mp hstop
  simp only [Bool.and_eq_true, beq_iff_eq] at hw'
  exact ⟨w, w', hrun, hend, hw'.2,
    (stop_clear_iff hrun hstopped hq hend hw'.1).mpr hok⟩

/-! ## What is not written -/

/-- What reaches the socket on `fd` behind the log it had. -/
def writtenSince (w w' : LogSender ι) (fd : Nat) : List UInt8 :=
  writtenBytes ((w'.conns fd).log.drop (w.conns fd).log.length)

/-- The socket takes two bytes of a frame, and then comes the stop. -/
theorem stop_discards :
    ¬ ∀ (opts : Options) (ls : List (Label Unit)) (w w' : LogSender Unit)
      (fs : List SenderFunctor) (d : Dial) (scripts : List (List WriteRes))
      (fd : Nat),
      Machine.run step (new opts) ls = some w → w.stopped = false →
      w.pending = .stopInLoop :: fs → w.connection = some fd →
      (∀ ws ∈ scripts, writeStop ws ≠ some .fatal) →
      Machine.run step w (w.stopLabels d scripts) = some w' →
      w.writtenSince w' fd = w.buffered ++ w.lastFrames := by
  intro hall
  have hany : (Machine.run step (new { queueCapacity := 4 })
      (up ++ ([.enter () [1], .leave (), .wake (), .functor .inProgress,
        .drain [[.accepted 2, .stop .eagain]], .stop] : List (Label Unit)))).any
        (fun w : LogSender Unit =>
          !w.stopped && w.pending == [.stopInLoop] &&
          w.connection == some 0 &&
          (Machine.run step w (w.stopLabels .inProgress [])).any fun w' =>
            w.writtenSince w' 0 != w.buffered ++ w.lastFrames) = true := by
    decide +kernel
  obtain ⟨w, hrun, hw⟩ := (Option.any_eq_true _ _).mp hany
  simp only [Bool.and_eq_true, Bool.not_eq_true', beq_iff_eq] at hw
  obtain ⟨⟨⟨hstopped, hq⟩, hconn⟩, hstop⟩ := hw
  obtain ⟨w', hend, hw'⟩ := (Option.any_eq_true _ _).mp hstop
  rw [hall _ _ w w' _ _ _ 0 hrun hstopped hq hconn (by simp) hend] at hw'
  simp at hw'

/-- Behind the batch the connection is closed, and nothing more is written. -/
theorem shutdown_close_log {c : Connection} (hstate : c.state = .kConnected) :
    ∃ (e : Ev) (rest : List Ev), c.shutdown.close.log = c.log ++ e :: rest ∧
      e.endsWriting = true := by
  rw [Connection.shutdown, if_pos hstate, Connection.shutdownInLoop,
    if_neg (by simp)]
  split
  · rw [Connection.close_log (by simp [Connection.note]),
      Connection.note_log, List.append_assoc]
    exact ⟨_, _, rfl, rfl⟩
  · rw [Connection.close_log (by simp)]
    exact ⟨_, _, rfl, rfl⟩

theorem writtenBytes_append {new rest : List Ev} {e : Ev}
    (hnew : ∀ e ∈ new, e.endsWriting = false) (he : e.endsWriting = true) :
    writtenBytes (new ++ e :: rest) = new.flatMap Ev.written := by
  rw [writtenBytes, List.takeWhile_append_of_pos (by simpa using hnew),
    List.takeWhile_cons_of_neg (by simp [he]), List.append_nil]

/-- All of the buffer and of the last batch is written before the connection
is closed, if and only if the buffer was empty and the socket took every write
to its end. -/
theorem stop_writes_iff {opts : Options} {ls : List (Label ι)}
    {w w' : LogSender ι} {fs : List SenderFunctor} {d : Dial}
    {scripts : List (List WriteRes)} {fd : Nat}
    (hrun : Machine.run step (new opts) ls = some w)
    (hstopped : w.stopped = false) (hq : w.pending = .stopInLoop :: fs)
    (hconn : w.connection = some fd)
    (hgood : ∀ ws ∈ scripts, writeStop ws ≠ some .fatal)
    (hstop : Machine.run step w (w.stopLabels d scripts) = some w') :
    w.writtenSince w' fd = w.buffered ++ w.lastFrames ↔
      w.buffered = [] ∧ ∀ ws ∈ scripts, writeStop ws = none := by
  have hwfault : w.fault = none := by
    obtain ⟨v, hv, -⟩ := Machine.run_cons_some.mp hstop
    exact step_fault hv
  have hw := tidy_reachable hrun hstopped hwfault
  obtain ⟨timers, c, fs', -, hpassed, -, -, hclosed⟩ :=
    stop_passed hw hstopped hq hconn hgood hstop
  obtain ⟨new, hlog, hopen, hbytes⟩ := hpassed.bytes
  have hbuffered : w.buffered = (w.conns fd).outputBuffer.readable := by
    rw [buffered, hconn]
  have hup : c.state = .kConnected :=
    hpassed.state.trans (hw.current fd hconn).state
  obtain ⟨e, rest, hend, he⟩ := shutdown_close_log hup
  have hsince : w.writtenSince w' fd = new.flatMap Ev.written := by
    rw [writtenSince, hclosed, hend, hlog, List.append_assoc, List.drop_left,
      writtenBytes_append hopen he]
  rw [hsince, hbuffered, ← hbytes, ← hpassed.empty]
  constructor
  · intro h
    have hlen := congrArg List.length h
    rw [List.length_append] at hlen
    exact List.eq_nil_of_length_eq_zero (by omega)
  · intro h
    rw [h, List.append_nil]

/-- Of two messages from before the start one found no room. -/
def oneRefused : List (Label Unit) :=
  ([.enter () [1], .leave (), .wake (), .enter () [2], .leave (),
    .functor .inProgress] : List (Label Unit)) ++ up ++ [Label.stop]

/-- The report and the message are each taken whole. -/
theorem stop_writes_whole :
    ∃ w w', Machine.run step (new { queueCapacity := 1 }) oneRefused = some w ∧
      Machine.run step w (w.stopLabels .inProgress
        [[.accepted 33], [.eintr, .accepted 1, .accepted 4]]) = some w' ∧
      w.lastFrames.length = 38 ∧
      w.writtenSince w' 0 = w.buffered ++ w.lastFrames := by
  have hany : (Machine.run step (new { queueCapacity := 1 }) oneRefused).any
      (fun w => !w.stopped && w.pending == [.stopInLoop] &&
        w.connection == some 0 && w.buffered == [] &&
        w.lastFrames.length == 38 &&
        (Machine.run step w (w.stopLabels .inProgress
          [[.accepted 33], [.eintr, .accepted 1, .accepted 4]])).isSome) =
      true := by decide +kernel
  obtain ⟨w, hrun, hw⟩ := (Option.any_eq_true _ _).mp hany
  simp only [Bool.and_eq_true, Bool.not_eq_true', beq_iff_eq] at hw
  obtain ⟨⟨⟨⟨⟨hstopped, hq⟩, hconn⟩, hempty⟩, hlen⟩, hstop⟩ := hw
  obtain ⟨w', hend⟩ := Option.isSome_iff_exists.mp hstop
  exact ⟨w, w', hrun, hend, hlen,
    (stop_writes_iff hrun hstopped hq hconn (by decide) hend).mpr
      ⟨hempty, by decide⟩⟩

end LogSender

end GameFrame
