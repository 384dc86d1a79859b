import GameFrame.Proofs.ClientRetry

/-!
# Whose wish it is whether a client is connected

`connect()` and `disconnect()` may be called in any state and from inside the
connection callback, and when the loop is waiting again the client should be
where the last of them has sent it. What they leave behind is
`retry_enabled_`, and the state follows it (`Inv.enabled`, `Inv.disabled`).

There is one exception. While the user is being told that a connection is
closed the client is still `kConnected`, and a `connect()` in there is taken
for a repetition and does nothing. As long as the client would have dialled
again anyway that is as well. But if it was a `disconnect()` that has closed
the connection, the client stops, and the call is lost. `CallOk` says that
this does not happen.
-/

namespace GameFrame.ClientLoop

open TcpClient (connectInLoop disconnectInLoop)

def lastCall (log : List ClientEv) : Option ClientCall :=
  log.foldl (fun r e => match e with
    | .call c => some c
    | .dial _ _ | .success | .retry _ _ => r) none

/-- `connect()` is not called by the user who is being told of a close, of a
client that is not to dial again. -/
def CallOk (w : ClientLoop) : Label → Prop
  | .connect _ =>
      w.closing.isSome = true → w.client.retryEnabled = true
  | .elapse _ | .disconnect | .handshake _ | .closeConn _ | .shutdownConn _
  | .ret | .fire _ _ => True

instance (w : ClientLoop) : ∀ l, Decidable (CallOk w l)
  | .connect _ => inferInstanceAs (Decidable (_ → _))
  | .elapse _ | .disconnect | .handshake _ | .closeConn _ | .shutdownConn _
  | .ret | .fire _ _ => .isTrue trivial

/-- A client that is disconnected, and connected again by the callback that is
told. -/
theorem connect_swallowed :
    ¬ ∀ (ls : List Label) (w : ClientLoop),
      Machine.run ClientLoop.step {} ls = some w → w.frames = [] →
      lastCall w.log = some .connect → w.client.state ≠ .kDisconnected :=
  Machine.not_forall_of_run [.connect (.immediate false), .ret, .disconnect,
    .connect (.immediate false), .ret] (by decide +kernel)

/-! ## What is left of a call -/

theorem lastCall_call (log : List ClientEv) (c : ClientCall) :
    lastCall (log ++ [ClientEv.call c]) = some c := by
  rw [lastCall, List.foldl_append]
  rfl

theorem lastCall_other (log : List ClientEv) {e : ClientEv}
    (he : ∀ c, e ≠ .call c) : lastCall (log ++ [e]) = lastCall log := by
  rw [lastCall, List.foldl_append]
  cases e with
  | call c => exact absurd rfl (he c)
  | dial direct time => rfl
  | success => rfl
  | retry time wait => rfl

variable {w w' : ClientLoop}

theorem lastCall_answer (w : ClientLoop) (r : TcpClient × ClientAsk) :
    lastCall (w.answer r).log = lastCall w.log := by
  obtain ⟨c, ask⟩ := r
  cases ask with
  | nothing => rfl
  | runAfter ms => exact lastCall_other w.log (by simp)
  | established fd => exact lastCall_other w.log (by simp)

theorem answer_client (w : ClientLoop) (r : TcpClient × ClientAsk) :
    (w.answer r).client = r.1 := by
  obtain ⟨c, ask⟩ := r
  cases ask with
  | nothing => rfl
  | runAfter ms => rfl
  | established fd => rfl

/-- The client tries again if the last call was a `connect()`. -/
structure Called (w : ClientLoop) : Prop where
  connect : lastCall w.log = some .connect → w.client.retryEnabled = true
  disconnect : lastCall w.log = some .disconnect →
    w.client.retryEnabled = false

theorem called_init : Called {} where
  connect := by simp [lastCall]
  disconnect := by simp [lastCall]

/-- A step that is not a call. -/
theorem Called.same (h : w.Called) (hlog : lastCall w'.log = lastCall w.log)
    (hkept : w'.client.retryEnabled = w.client.retryEnabled) : w'.Called := by
  refine ⟨fun hc => ?_, fun hc => ?_⟩
  · rw [hkept]
    exact h.connect (hlog ▸ hc)
  · rw [hkept]
    exact h.disconnect (hlog ▸ hc)

/-- Behind an answer that changes nothing about trying again. -/
theorem Called.answer (h : w.Called) {r : TcpClient × ClientAsk}
    (hkept : r.1.retryEnabled = w.client.retryEnabled) :
    (w.answer r).Called :=
  h.same (lastCall_answer w r) (by rw [answer_client, hkept])

theorem Called.connected (hw : w.Inv) (d : Dial)
    (hok : CallOk w (.connect d)) : (w.connect d).Called := by
  have henabled : (w.connect d).client.retryEnabled = true := by
    rw [ClientLoop.connect, answer_client]
    split
    · next hdials =>
        have hfree : ¬ (w.client.state = .kConnecting ∨
            w.client.state = .kConnected) := by
          simpa [note] using hdials
        show (w.client.connectInLoop d).1.retryEnabled = true
        rw [connectInLoop, if_neg hfree, TcpClient.startConnect_retryEnabled]
    · next hdials =>
        have hbusy : w.client.state = .kConnecting ∨
            w.client.state = .kConnected := by
          refine Decidable.of_not_not fun h => hdials ?_
          simpa [note] using h
        show (w.client.connectInLoop d).1.retryEnabled = true
        rw [connectInLoop, if_pos hbusy]
        by_cases hclosing : w.closing.isSome = true
        · exact hok hclosing
        · refine hw.enabled_of (by simpa using hclosing) ?_
          rcases hbusy with h | h
          · simp [h]
          · simp [h]
  have hlast : lastCall (w.connect d).log = some .connect := by
    rw [ClientLoop.connect, lastCall_answer]
    split
    · exact (lastCall_other _ (by simp)).trans (lastCall_call _ _)
    · exact lastCall_call _ _
  refine ⟨fun _ => henabled, fun h => ?_⟩
  rw [hlast] at h
  cases h

theorem called_disconnect (w : ClientLoop) : w.disconnect.Called := by
  obtain ⟨-, hoff, hlog⟩ := disconnect_off w
  refine ⟨fun h => ?_, fun _ => hoff⟩
  rw [hlog, lastCall_call] at h
  cases h

theorem Called.retry (h : w.Called) (d : Dial) : (w.retry d).Called := by
  have hkept : ∀ c : TcpClient, (c.retry d).1.retryEnabled =
      c.retryEnabled := by
    intro c
    rw [TcpClient.retry]
    split
    · rfl
    · exact TcpClient.startConnect_retryEnabled c d
  rw [ClientLoop.retry]
  split
  · have hnoted : (w.note (.dial false w.now)).Called :=
      h.same (lastCall_other _ (by simp)) rfl
    exact hnoted.answer (hkept _)
  · exact h.answer (hkept _)

theorem Called.step {l : Label} (hw : w.Called) (hinv : w.Inv)
    (hok : CallOk w l) (h : w.step l = some w') : w'.Called := by
  cases step_stepped h with
  | elapse | shutdownConn | established => exact hw.same rfl rfl
  | connect d => exact .connected hinv d hok
  | disconnect => exact called_disconnect w
  | handshake err => exact hw.answer (by simp)
  | closeConn fd _ hup =>
      rw [closeConn, if_neg hup]
      exact hw.same rfl rfl
  | closedAlready => exact hw
  | closed fd fs =>
      have hpopped : Called { w with frames := fs } := hw.same rfl rfl
      exact hpopped.answer (TcpClient.scheduleRetry_retryEnabled _)
  | fire due d =>
      have hfired : Called { w with timers := w.timers.erase due } :=
        hw.same rfl rfl
      exact hfired.retry d

/-! ## A client that is off stays off -/

/-- At the loop, disconnected. -/
structure Off (w : ClientLoop) : Prop where
  inv : w.Inv
  back : w.frames = []
  state : w.client.state = .kDisconnected

/-- Nothing that is not a `connect()` makes it dial. -/
theorem Off.step {l : Label} (hw : w.Off) (hl : ∀ d, l ≠ .connect d)
    (h : w.step l = some w') :
    w'.Off ∧
      (w'.log = w.log ∨ w'.log = w.log ++ [ClientEv.call .disconnect]) := by
  have hinv := hw.inv.step h
  obtain ⟨hconn, hdown⟩ := hw.inv.unconnected (by simp [hw.state])
  cases step_stepped h with
  | elapse ms => exact ⟨⟨hinv, hw.back, hw.state⟩, .inl rfl⟩
  | connect d => exact absurd rfl (hl d)
  | disconnect =>
      have heq : w.client.disconnectInLoop =
          ({ w.client with retryEnabled := false }, none) := by
        simp [disconnectInLoop, hw.state]
      rw [disconnect_none heq] at hinv ⊢
      exact ⟨⟨hinv, hw.back, hw.state⟩, .inr rfl⟩
  | handshake err _ hch =>
      have := hw.inv.channel hch
      rw [hw.state] at this
      cases this
  | closeConn fd _ hup => exact absurd (hdown fd) hup
  | closedAlready => exact ⟨hw, .inl rfl⟩
  | shutdownConn fd hup =>
      rw [hdown] at hup
      cases hup
  | established fd fs hframes =>
      rw [hw.back] at hframes
      cases hframes
  | closed fd fs hframes =>
      rw [hw.back] at hframes
      cases hframes
  | fire due d =>
      have hnot : ¬ (w.client.state == .kRetrying &&
          w.client.retryEnabled) = true := by simp [hw.state]
      rw [ClientLoop.retry, if_neg hnot, TcpClient.retry,
        if_pos (by simp [hw.state])]
      exact ⟨⟨hw.inv.times w.now _, hw.back, hw.state⟩, .inl rfl⟩

theorem Off.run {ls : List Label} : ∀ {w w' : ClientLoop}, w.Off →
    (∀ d, .connect d ∉ ls) → Machine.run ClientLoop.step w ls = some w' →
    ∃ new, w'.log = w.log ++ new ∧ ∀ direct time, .dial direct time ∉ new := by
  induction ls with
  | nil =>
      intro w w' _ _ hrun
      obtain rfl : w = w' := by simpa using hrun
      exact ⟨[], by simp, by simp⟩
  | cons l ls ih =>
      intro w w' hw hls hrun
      obtain ⟨w₁, hstep, hrest⟩ := Machine.run_cons_some.mp hrun
      have hl : ∀ d, l ≠ .connect d := fun d heq =>
        hls d (heq ▸ List.mem_cons_self)
      obtain ⟨hoff, hlog⟩ := hw.step hl hstep
      obtain ⟨new, hnew, hnone⟩ := ih hoff
        (fun d hin => hls d (List.mem_cons_of_mem l hin)) hrest
      rcases hlog with hlog | hlog
      · exact ⟨new, by rw [hnew, hlog], hnone⟩
      · refine ⟨.call .disconnect :: new, by rw [hnew, hlog]; simp, ?_⟩
        intro direct time hin
        rcases List.mem_cons.mp hin with heq | hin
        · cases heq
        · exact hnone direct time hin

/-- If no `connect()` is swallowed, the last call wins: at the loop the client
is on its way or connected if it was `connect()`, and if it was `disconnect()`
it is off, and nothing makes it dial before the next `connect()`. -/
theorem last_call_wins {ls : List Label}
    (hok : Machine.Meets ClientLoop.step CallOk {} ls)
    (hrun : Machine.run ClientLoop.step {} ls = some w)
    (hback : w.frames = []) :
    (lastCall w.log = some .connect → w.client.state ≠ .kDisconnected) ∧
    (lastCall w.log = some .disconnect →
      w.client.state = .kDisconnected ∧ w.client.connection = none ∧
      ∀ (ls' : List Label) (w' : ClientLoop), (∀ d, .connect d ∉ ls') →
        Machine.run ClientLoop.step w ls' = some w' →
        ∃ new, w'.log = w.log ++ new ∧
          ∀ direct time, .dial direct time ∉ new) := by
  have hw : w.Inv ∧ w.Called :=
    Machine.run_preserves_of_meets (P := fun w => w.Inv ∧ w.Called)
      (fun hs hok h => ⟨hs.1.step h, hs.2.step hs.1 hok h⟩)
      ⟨inv_init, called_init⟩ hok hrun
  refine ⟨fun h => hw.1.enabled (hw.2.connect h), fun h => ?_⟩
  have hstate : w.client.state = .kDisconnected := by
    simpa [closing, hback] using hw.1.disabled (hw.2.disconnect h)
  refine ⟨hstate, (hw.1.unconnected (by simp [hstate])).1, ?_⟩
  intro ls' w' hls hrun'
  exact Off.run ⟨hw.1, hback, hstate⟩ hls hrun'

/-- Disconnected by the callback that is told of the connection, and connected
again from the same call. -/
theorem last_call_wins_again :
    ∃ w, Machine.run ClientLoop.step {} [.connect (.immediate false),
        .disconnect, .ret, .connect .refused, .ret] = some w ∧
      lastCall w.log = some .connect ∧ w.client.state ≠ .kDisconnected := by
  have hany : (Machine.run ClientLoop.step {} [.connect (.immediate false),
      .disconnect, .ret, .connect .refused, .ret]).any (fun w =>
        decide (w.frames = [] ∧ lastCall w.log = some .connect)) = true := by
    decide +kernel
  obtain ⟨w, hrun, hw⟩ := (Option.any_eq_true _ _).mp hany
  obtain ⟨hback, hlast⟩ := of_decide_eq_true hw
  exact ⟨w, hrun, hlast,
    (last_call_wins (by decide +kernel) hrun hback).1 hlast⟩

end GameFrame.ClientLoop
