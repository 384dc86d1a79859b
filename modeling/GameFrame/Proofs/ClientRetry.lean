import GameFrame.Proofs.ClientState
import Mathlib.Algebra.Group.Nat.Defs

/-!
# How long a client waits before it dials again

`schedule_retry` sets a timer and doubles the wait for the next time, up to a
bound. A retry timer is never cancelled. It finds out whether it is still
wanted by looking at the state, and so it is wanted by any wait that is going
on when it fires, its own or another. A client that is told to connect while
it waits, or is told to disconnect and connect again, dials at once, and if
that fails two timers are out. The older one fires before the second wait is
over.

`RetryOk` says that this does not happen: nothing is scheduled while an older
timer is out. Then a client that waits has one timer, that of its last wait
(`Timed`), and the wait is the one its failures make it.
-/

namespace GameFrame.ClientLoop

open TcpClient (kInitialBackoffMs kMaxBackoffMs connectInLoop
  disconnectInLoop)

/-! ## The history -/

/-- The last wait in a history: when it began, and how long it was to be. -/
def lastRetry (log : List ClientEv) : Option (Nat × Nat) :=
  log.foldl (fun r e => match e with
    | .retry time wait => some (time, wait)
    | .call _ | .dial _ _ | .success => r) none

/-- How many dials and connections have failed in a row, since the last
`connect()` that dialled or the last success. -/
def failures (log : List ClientEv) : Nat :=
  log.foldl (fun k e => match e with
    | .retry _ _ => k + 1
    | .dial true _ | .success => 0
    | .call _ | .dial false _ => k) 0

/-- Behind this history, a retry at `time` has waited as long as it should. -/
def RetriedInTime (log : List ClientEv) (time : Nat) : Prop :=
  ∃ began wait, lastRetry log = some (began, wait) ∧ began + wait ≤ time ∧
    0 < failures log ∧ wait = min (500 * 2 ^ (failures log - 1)) 30000

/-- Every dial that was not made by `connect()` itself has waited. -/
def Waited (log : List ClientEv) : Prop :=
  ∀ pre post time, log = pre ++ ClientEv.dial false time :: post →
    RetriedInTime pre time

/-- A dial or a connection fails in this step, and is to be tried again. -/
def fails (w : ClientLoop) : Label → Bool
  | .connect d =>
      w.client.state != .kConnecting && w.client.state != .kConnected &&
        d.fails
  | .handshake err => err
  | .ret => w.closing.isSome && w.client.retryEnabled
  | .fire _ d => w.client.state == .kRetrying && d.fails
  | .elapse _ | .disconnect | .closeConn _ | .shutdownConn _ => false

/-- The timers that are out in this step, but for the one that fires. -/
def outstanding (w : ClientLoop) : Label → List Nat
  | .fire due _ => w.timers.erase due
  | .elapse _ | .connect _ | .disconnect | .handshake _ | .closeConn _
  | .shutdownConn _ | .ret => w.timers

/-- Nothing fails while a retry timer is out. -/
def RetryOk (w : ClientLoop) (l : Label) : Prop :=
  w.fails l = true → w.outstanding l = []

instance (w : ClientLoop) (l : Label) : Decidable (RetryOk w l) :=
  inferInstanceAs (Decidable (_ → _))

/-- A second `connect()` 400 ms into the first wait, which is refused too: the
first timer fires 100 ms later. -/
theorem retry_too_soon :
    ¬ ∀ (ls : List Label) (w : ClientLoop),
      Machine.run ClientLoop.step {} ls = some w → Waited w.log := by
  intro h
  have hany : (Machine.run ClientLoop.step {} [.connect .refused, .elapse 400,
      .connect .refused, .elapse 100, .fire 500 .inProgress]).any (fun w =>
        decide (w.log = [.call .connect, .dial true 0, .retry 0 500,
          .call .connect, .dial true 400, .retry 400 500,
          .dial false 500])) = true := by
    decide +kernel
  obtain ⟨w, hrun, hlog⟩ := (Option.any_eq_true _ _).mp hany
  obtain ⟨began, wait, hlast, hle, -⟩ := h _ w hrun
    [.call .connect, .dial true 0, .retry 0 500, .call .connect,
      .dial true 400, .retry 400 500] [] 500 (of_decide_eq_true hlog)
  have hsome : some (400, 500) = some (began, wait) := hlast
  simp only [Option.some.injEq, Prod.mk.injEq] at hsome
  omega

/-! ## What is written behind a history -/

theorem waited_snoc {log : List ClientEv} {e : ClientEv} (h : Waited log)
    (hlast : ∀ time, e = .dial false time → RetriedInTime log time) :
    Waited (log ++ [e]) := by
  intro pre post time heq
  rcases List.eq_nil_or_concat post with rfl | ⟨post, e', rfl⟩
  · obtain ⟨rfl, he⟩ := List.append_inj' heq rfl
    exact hlast time (List.singleton_inj.mp he)
  · have hsplit : log ++ [e] =
        (pre ++ ClientEv.dial false time :: post) ++ [e'] := by
      simpa using heq
    exact h pre post time (List.append_inj' hsplit rfl).1

theorem failures_retry (log : List ClientEv) (time wait : Nat) :
    failures (log ++ [ClientEv.retry time wait]) = failures log + 1 := by
  rw [failures, List.foldl_append]
  rfl

theorem failures_dial (log : List ClientEv) (time : Nat) :
    failures (log ++ [ClientEv.dial false time]) = failures log := by
  rw [failures, List.foldl_append]
  rfl

theorem failures_call (log : List ClientEv) (c : ClientCall) :
    failures (log ++ [ClientEv.call c]) = failures log := by
  rw [failures, List.foldl_append]
  rfl

theorem failures_reset (log : List ClientEv) {e : ClientEv}
    (he : e = .success ∨ ∃ time, e = .dial true time) :
    failures (log ++ [e]) = 0 := by
  rw [failures, List.foldl_append]
  rcases he with rfl | ⟨time, rfl⟩
  · rfl
  · rfl

theorem lastRetry_retry (log : List ClientEv) (time wait : Nat) :
    lastRetry (log ++ [ClientEv.retry time wait]) = some (time, wait) := by
  rw [lastRetry, List.foldl_append]
  rfl

/-! ## What a function of the client may ask for -/

/-- A function of a client that tries again: it fails and asks for a timer, or
it succeeds, or it is not over. -/
inductive Settles (c : TcpClient) (fails : Bool) :
    TcpClient × ClientAsk → Prop where
  | retry (c' : TcpClient) : fails = true →
      c'.backoffMs = min (c.backoffMs * 2) kMaxBackoffMs →
      Settles c fails (c', .runAfter c.backoffMs)
  | success (c' : TcpClient) (fd : Nat) : c'.state = .kConnected →
      c'.backoffMs = kInitialBackoffMs →
      Settles c fails (c', .established fd)
  | quiet (c' : TcpClient) : c'.state ≠ .kRetrying →
      c'.backoffMs = c.backoffMs → Settles c fails (c', .nothing)

section

variable {c c' : TcpClient}

theorem settles_scheduleRetry (henabled : c'.retryEnabled = true)
    (hne : c.backoffMs ≠ 0) (hsame : c'.backoffMs = c.backoffMs) :
    Settles c true c'.scheduleRetry := by
  rw [TcpClient.scheduleRetry, if_neg (by simp [henabled])]
  dsimp only
  rw [hsame, if_neg hne]
  exact .retry _ rfl rfl

theorem settles_handleConnectWritable (henabled : c'.retryEnabled = true)
    (hne : c.backoffMs ≠ 0) (hsame : c'.backoffMs = c.backoffMs)
    (hfd : c'.connectingFd.isSome = true) (err : Bool) :
    Settles c err (c'.handleConnectWritable err) := by
  obtain ⟨fd, hfd⟩ := Option.isSome_iff_exists.mp hfd
  rw [TcpClient.handleConnectWritable, hfd]
  cases err with
  | true => exact settles_scheduleRetry henabled hne hsame
  | false => exact .success _ fd rfl rfl

theorem settles_startConnect (henabled : c.retryEnabled = true)
    (hne : c.backoffMs ≠ 0) (d : Dial) :
    Settles c d.fails (c.startConnect d) := by
  rw [TcpClient.startConnect, if_neg (by simp [henabled])]
  cases d with
  | noSocket => exact settles_scheduleRetry henabled hne rfl
  | blocking => exact settles_scheduleRetry henabled hne rfl
  | refused => exact settles_scheduleRetry henabled hne rfl
  | inProgress => exact .quiet _ (by simp) rfl
  | immediate err =>
      have hsettles : Settles c err (TcpClient.handleConnectWritable
          { c.openSocket.2 with
            connectingFd := some c.sockets
            state := .kConnecting } err) := by
        refine settles_handleConnectWritable ?_ hne ?_ ?_ err
        · exact henabled
        · rfl
        · rfl
      cases err with
      | true => exact hsettles
      | false => exact hsettles

end

/-! ## The invariant -/

/-- The wait that comes next is the one its failures make it. -/
def BackoffIs (c : TcpClient) (log : List ClientEv) : Prop :=
  c.retryEnabled = true → c.backoffMs = min (500 * 2 ^ failures log) 30000

structure Timed (w : ClientLoop) : Prop where
  latest : w.client.state = .kRetrying → ∃ began wait,
    lastRetry w.log = some (began, wait) ∧ w.timers = [began + wait] ∧
      0 < failures w.log ∧ wait = min (500 * 2 ^ (failures w.log - 1)) 30000
  backoff : BackoffIs w.client w.log
  waited : Waited w.log

theorem timed_init : Timed {} where
  latest := by simp
  backoff := by simp [BackoffIs]
  waited := by simp [Waited]

section

variable {w w' : ClientLoop} {c : TcpClient}

theorem Timed.same (h : w.Timed) (hsame : (w'.client, w'.timers, w'.log) =
    (w.client, w.timers, w.log)) : w'.Timed := by
  simp only [Prod.mk.injEq] at hsame
  obtain ⟨hclient, htimers, hlog⟩ := hsame
  refine ⟨?_, ?_, ?_⟩
  · rw [hclient, htimers, hlog]
    exact h.latest
  · rw [hclient, hlog]
    exact h.backoff
  · rw [hlog]
    exact h.waited

/-- A client that is not waiting. -/
theorem timed_elsewhere (hstate : w.client.state ≠ .kRetrying)
    (hbackoff : BackoffIs w.client w.log) (hwaited : Waited w.log) :
    w.Timed := ⟨fun h => absurd h hstate, hbackoff, hwaited⟩

theorem backoff_next (k : Nat) :
    min (min (500 * 2 ^ k) 30000 * 2) 30000 = min (500 * 2 ^ (k + 1)) 30000 := by
  rw [Nat.pow_succ]
  omega

theorem timed_answer {r : TcpClient × ClientAsk} {fails : Bool}
    (hsettles : Settles c fails r) (hkept : r.1.retryEnabled = c.retryEnabled)
    (henabled : c.retryEnabled = true) (hbackoff : BackoffIs c w.log)
    (hwaited : Waited w.log) (hout : fails = true → w.timers = []) :
    (w.answer r).Timed := by
  have hwait := hbackoff henabled
  cases hsettles with
  | retry c' hfails hnext =>
      have hcount := failures_retry w.log w.now c.backoffMs
      refine ⟨fun _ => ⟨w.now, c.backoffMs, lastRetry_retry _ _ _, ?_, ?_, ?_⟩,
        fun _ => ?_, waited_snoc hwaited (by simp)⟩
      · show w.timers ++ [w.now + c.backoffMs] = _
        rw [hout hfails]
        rfl
      · show 0 < failures (w.log ++ [ClientEv.retry w.now c.backoffMs])
        omega
      · show c.backoffMs =
          min (500 * 2 ^ (failures (w.log ++ [ClientEv.retry _ _]) - 1)) 30000
        rw [hcount, Nat.add_sub_cancel]
        exact hwait
      · show c'.backoffMs =
          min (500 * 2 ^ failures (w.log ++ [ClientEv.retry _ _])) 30000
        rw [hcount, hnext, hwait]
        exact backoff_next (failures w.log)
  | success c' fd hstate hreset =>
      refine timed_elsewhere ?_ (fun _ => ?_) (waited_snoc hwaited (by simp))
      · show c'.state ≠ .kRetrying
        simp [hstate]
      · show c'.backoffMs =
          min (500 * 2 ^ failures (w.log ++ [ClientEv.success])) 30000
        rw [failures_reset _ (.inl rfl), hreset]
        decide
  | quiet c' hstate hsame =>
      refine timed_elsewhere hstate (fun _ => ?_) hwaited
      exact hsame.trans hwait

/-! ## Steps and runs -/

theorem Timed.connect (hw : w.Timed) (d : Dial)
    (hok : RetryOk w (.connect d)) : (w.connect d).Timed := by
  rw [ClientLoop.connect]
  split
  · next hdials =>
      have hfree : ¬ (w.client.state = .kConnecting ∨
          w.client.state = .kConnected) := by
        simpa [ClientLoop.note] using hdials
      have hinitial : kInitialBackoffMs ≠ 0 := by decide
      have hwaited : Waited ((w.log ++ [ClientEv.call .connect]) ++
          [ClientEv.dial true w.now]) :=
        waited_snoc (waited_snoc hw.waited (by simp)) (by simp)
      have hsettles := settles_startConnect (c := { w.client with
        retryEnabled := true
        backoffMs := kInitialBackoffMs }) rfl hinitial d
      show Timed (answer _ (w.client.connectInLoop d))
      rw [connectInLoop, if_neg hfree]
      refine timed_answer hsettles (by simp) rfl (fun _ => ?_) hwaited
        fun hfails => hok ?_
      · show kInitialBackoffMs = min (500 * 2 ^ failures (_ ++ [_])) 30000
        rw [failures_reset _ (.inr ⟨_, rfl⟩)]
        decide
      · simpa [fails, hfails] using hfree
  · next hdials =>
      have hbusy : w.client.state = .kConnecting ∨
          w.client.state = .kConnected := by
        refine Decidable.of_not_not fun h => hdials ?_
        simpa [ClientLoop.note] using h
      show Timed (answer _ (w.client.connectInLoop d))
      rw [connectInLoop, if_pos hbusy]
      refine timed_elsewhere ?_ (fun h => ?_)
        (waited_snoc hw.waited (by simp))
      · show w.client.state ≠ .kRetrying
        rcases hbusy with h | h
        · simp [h]
        · simp [h]
      · show w.client.backoffMs = min (500 * 2 ^ failures (_ ++ [_])) 30000
        rw [failures_call]
        exact hw.backoff h

/-- `disconnect()` sets no timer, whatever it finds. -/
theorem disconnect_off (w : ClientLoop) :
    w.disconnect.client.state ≠ .kRetrying ∧
      w.disconnect.client.retryEnabled = false ∧
      w.disconnect.log = w.log ++ [ClientEv.call .disconnect] := by
  have hoff : ∀ {c : TcpClient} {o : Option Nat},
      w.client.disconnectInLoop = (c, o) →
      c.state ≠ .kRetrying ∧ c.retryEnabled = false := by
    intro c o h
    rw [disconnectInLoop] at h
    dsimp only at h
    split at h
    · next hif =>
        cases h
        exact ⟨by simp [hif.1], rfl⟩
    · split at h
      · cases h
        refine ⟨by simp, ?_⟩
        rw [TcpClient.abandonDial]
        dsimp only
        split
        · rfl
        · rfl
      · split at h
        · cases h
          exact ⟨by simp, rfl⟩
        · next hnot =>
            cases h
            exact ⟨hnot, rfl⟩
  cases h : w.client.disconnectInLoop with
  | mk c o =>
      obtain ⟨hstate, hdisabled⟩ := hoff h
      cases o with
      | none =>
          rw [disconnect_none h]
          exact ⟨hstate, hdisabled, rfl⟩
      | some fd =>
          rw [disconnect_some h, closeConn]
          split
          · exact ⟨hstate, hdisabled, rfl⟩
          · exact ⟨hstate, hdisabled, rfl⟩

theorem Timed.disconnect (hw : w.Timed) : w.disconnect.Timed := by
  obtain ⟨hstate, hoff, hlog⟩ := disconnect_off w
  refine timed_elsewhere hstate (fun h => ?_) ?_
  · rw [hoff] at h
    cases h
  · rw [hlog]
    exact waited_snoc hw.waited (by simp)

theorem Timed.enabled (hw : w.Timed) (henabled : w.client.retryEnabled = true) :
    w.client.backoffMs ≠ 0 := by
  rw [hw.backoff henabled]
  have := Nat.two_pow_pos (failures w.log)
  omega

theorem Timed.ret (hw : w.Timed) (hok : RetryOk w .ret)
    (h : Stepped w .ret w') : w'.Timed := by
  cases h with
  | established => exact hw.same rfl
  | closed fd fs hframes =>
      rw [TcpClient.onConnectionClosed]
      by_cases henabled : w.client.retryEnabled = true
      · have hfails : w.fails .ret = true := by
          simp [fails, henabled, closing, hframes]
        have hsettles : Settles w.client true (TcpClient.scheduleRetry
            { w.client with connection := none }) := by
          refine settles_scheduleRetry ?_ (hw.enabled henabled) ?_
          · exact henabled
          · rfl
        exact timed_answer hsettles (by simp) henabled hw.backoff hw.waited
          fun _ => hok hfails
      · rw [TcpClient.scheduleRetry, if_pos (by simpa using henabled)]
        refine timed_elsewhere (by simp [answer]) (fun h => ?_) hw.waited
        exact absurd h henabled

theorem Timed.handshake (hw : w.Timed) (hinv : w.Inv) (hframes : w.frames = [])
    (hch : w.client.connectChannel.isSome = true) {err : Bool}
    (hok : RetryOk w (.handshake err)) :
    (w.answer (w.client.handleConnectWritable err)).Timed := by
  have hstate := hinv.channel hch
  have henabled := hinv.enabled_of (by simp [closing, hframes])
    (by simp [hstate])
  have hsettles := settles_handleConnectWritable (c := w.client) henabled
    (hw.enabled henabled) rfl (hinv.connecting.mp hstate) err
  exact timed_answer hsettles (by simp) henabled hw.backoff hw.waited hok

/-- A timer that is wanted is that of the last wait. -/
theorem Timed.fire (hw : w.Timed) (hinv : w.Inv) (hframes : w.frames = [])
    {due : Nat} (hdue : due ∈ w.timers) (hnow : due ≤ w.now) (d : Dial) :
    (retry { w with timers := w.timers.erase due } d).Timed := by
  rw [ClientLoop.retry]
  by_cases hstate : w.client.state = .kRetrying
  · obtain ⟨began, wait, hlast, htimers, hpos, hwait⟩ := hw.latest hstate
    have henabled := hinv.enabled_of (by simp [closing, hframes])
      (by simp [hstate])
    obtain rfl : due = began + wait := by simpa [htimers] using hdue
    have hintime : RetriedInTime w.log w.now :=
      ⟨began, wait, hlast, hnow, hpos, hwait⟩
    have hsettles := settles_startConnect (c := w.client) henabled
      (hw.enabled henabled) d
    have hdials : (w.client.state == .kRetrying &&
        w.client.retryEnabled) = true := by simp [hstate, henabled]
    rw [if_pos hdials, TcpClient.retry]
    show Timed (answer _ (if w.client.state ≠ .kRetrying then _ else _))
    rw [if_neg (by simp [hstate])]
    refine timed_answer hsettles (TcpClient.startConnect_retryEnabled _ d)
      henabled (fun _ => ?_) (waited_snoc hw.waited fun time ht => ?_)
      fun _ => ?_
    · show _ =
        min (500 * 2 ^ failures (w.log ++ [ClientEv.dial false _])) 30000
      rw [failures_dial]
      exact hw.backoff henabled
    · cases ht
      exact hintime
    · show w.timers.erase (began + wait) = []
      simp [htimers]
  · have hnot : ¬ (w.client.state == .kRetrying &&
        w.client.retryEnabled) = true := by simp [hstate]
    rw [if_neg hnot, TcpClient.retry, if_pos hstate]
    exact timed_elsewhere hstate hw.backoff hw.waited

theorem Timed.step {l : Label} (hw : w.Timed) (hinv : w.Inv)
    (hok : RetryOk w l) (h : w.step l = some w') : w'.Timed := by
  have h := step_stepped h
  cases h with
  | elapse | shutdownConn => exact hw.same rfl
  | connect d => exact hw.connect d hok
  | disconnect => exact hw.disconnect
  | handshake err hframes hch => exact hw.handshake hinv hframes hch hok
  | closeConn fd _ hup =>
      rw [closeConn, if_neg hup]
      exact hw.same rfl
  | closedAlready => exact hw
  | established fd fs hframes => exact hw.ret hok (.established fd fs hframes)
  | closed fd fs hframes => exact hw.ret hok (.closed fd fs hframes)
  | fire due d hframes hdue hnow => exact hw.fire hinv hframes hdue hnow d

/-- If nothing fails while a retry timer is out, every dial of a timer has
waited as long as the failures before it make it, and a client that waits has
one timer out. -/
theorem dials_waited {ls : List Label}
    (hok : Machine.Meets ClientLoop.step RetryOk {} ls)
    (hrun : Machine.run ClientLoop.step {} ls = some w) :
    Waited w.log ∧
      (w.client.state = .kRetrying → w.timers.length = 1) := by
  have hw : w.Inv ∧ w.Timed :=
    Machine.run_preserves_of_meets (P := fun w => w.Inv ∧ w.Timed)
      (fun hs hok h => ⟨hs.1.step h, hs.2.step hs.1 hok h⟩)
      ⟨inv_init, timed_init⟩ hok hrun
  refine ⟨hw.2.waited, fun hstate => ?_⟩
  obtain ⟨began, wait, -, htimers, -⟩ := hw.2.latest hstate
  rw [htimers]
  rfl

/-- Two refusals and a connection that is lost. -/
theorem dials_waited_thrice :
    ∃ w, Machine.run ClientLoop.step {} [.connect .refused, .elapse 500,
        .fire 500 .refused, .elapse 1000, .fire 1500 (.immediate false), .ret,
        .closeConn 2, .ret, .elapse 600, .fire 2000 .inProgress] = some w ∧
      w.client.state = .kConnecting ∧ Waited w.log := by
  have hany : (Machine.run ClientLoop.step {} [.connect .refused, .elapse 500,
      .fire 500 .refused, .elapse 1000, .fire 1500 (.immediate false), .ret,
      .closeConn 2, .ret, .elapse 600, .fire 2000 .inProgress]).any (fun w =>
        decide (w.client.state = .kConnecting)) = true := by
    decide +kernel
  obtain ⟨w, hrun, hw⟩ := (Option.any_eq_true _ _).mp hany
  exact ⟨w, hrun, of_decide_eq_true hw,
    (dials_waited (by decide +kernel) hrun).1⟩

end

end GameFrame.ClientLoop
