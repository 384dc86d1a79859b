import GameFrame.Net.TcpClient

/-!
# What a client does with its sockets

Of all that a client does only this matters to the kernel: which socket it
opens, which it closes, and which has the connect channel. There are six ways
a call can go (`Dials`), and every function of the client goes one of them.
The socket of a handshake has the connect channel, until the handshake is over
and the channel is gone, whoever gets the socket then (`Dialling`).
-/

namespace GameFrame.TcpClient

/-- The fields of a client that are about its sockets. -/
structure Sockets where
  opened : Nat
  closed : List Nat
  dialling : Option Nat
  channel : Option Channel

def socketsOf (c : TcpClient) : Sockets :=
  ⟨c.sockets, c.closedFds, c.connectingFd, c.connectChannel⟩

/-- Nothing is handed to a connection. -/
def Quiet (ask : ClientAsk) : Prop := ∀ k, ask ≠ .established k

theorem quiet_nothing : Quiet .nothing := nofun

inductive Dials (s : Sockets) : Sockets → ClientAsk → Prop where
  | quiet (ask : ClientAsk) : Quiet ask → Dials s s ask
  /-- a socket that comes to nothing -/
  | refused (ask : ClientAsk) : s.dialling = none → s.channel = none →
      Quiet ask → Dials s
        { s with opened := s.opened + 1, closed := s.closed ++ [s.opened] } ask
  /-- a handshake begins -/
  | dialled (ch : Channel) : s.dialling = none → s.channel = none →
      ch.state = .kAdded → Dials s
        { s with
          opened := s.opened + 1
          dialling := some s.opened
          channel := some ch } .nothing
  /-- and one that was over at once -/
  | immediate : s.dialling = none → s.channel = none → Dials s
      { s with opened := s.opened + 1 } (.established s.opened)
  /-- a handshake ends -/
  | failed (k : Nat) (ask : ClientAsk) : s.dialling = some k → Quiet ask →
      Dials s
        { s with
          dialling := none, channel := none, closed := s.closed ++ [k] } ask
  | connected (k : Nat) : s.dialling = some k → Dials s
      { s with dialling := none, channel := none } (.established k)

/-- A socket is being dialled and its channel is registered, or there is
neither. -/
def Dialling (c : TcpClient) : Prop :=
  match c.connectingFd, c.connectChannel with
  | none, none => c.state ≠ .kConnecting
  | some _, some ch => c.state = .kConnecting ∧ ch.state = .kAdded
  | _, _ => False

/-- How a function of the client may go. What it hands to a connection is its
own connection then. -/
structure Goes (c : TcpClient) (r : TcpClient × ClientAsk) : Prop where
  dials : Dials c.socketsOf r.1.socketsOf r.2
  dialling : r.1.Dialling
  handed : ∀ k, r.2 = .established k →
    r.1.state = .kConnected ∧ r.1.connection = some k

/-- A client that is connected is left alone. -/
def Stays (c : TcpClient) (r : TcpClient × ClientAsk) : Prop :=
  c.state = .kConnected →
    r.1.state = .kConnected ∧ r.1.connection = c.connection ∧ Quiet r.2

theorem Dialling.idle {c : TcpClient} (hc : c.Dialling)
    (hstate : c.state ≠ .kConnecting) :
    c.connectingFd = none ∧ c.connectChannel = none := by
  rw [Dialling] at hc
  split at hc
  · next hfd hch => exact ⟨hfd, hch⟩
  · exact absurd hc.1 hstate
  · exact hc.elim

theorem dialling_idle {c : TcpClient} (hfd : c.connectingFd = none)
    (hch : c.connectChannel = none) (hstate : c.state ≠ .kConnecting) :
    c.Dialling := by
  rw [Dialling, hfd, hch]
  exact hstate

/-- A handshake that is going on. -/
theorem Dialling.channel {c : TcpClient} (hc : c.Dialling) {k : Nat}
    (hk : c.connectingFd = some k) :
    ∃ ch, c.connectChannel = some ch ∧ ch.state = .kAdded := by
  rw [Dialling, hk] at hc
  split at hc
  · next h _ => cases h
  · next hch => exact ⟨_, hch, hc.2⟩
  · exact hc.elim

/-! ## The functions -/

section

variable {c : TcpClient}

/-- `schedule_retry()` has nothing to do with sockets. -/
theorem scheduleRetry_sockets (c : TcpClient) :
    c.scheduleRetry.1.socketsOf = c.socketsOf ∧
      c.scheduleRetry.1.state ≠ .kConnecting ∧ Quiet c.scheduleRetry.2 := by
  rw [scheduleRetry]
  split
  · exact ⟨rfl, by simp, by simp [Quiet]⟩
  · exact ⟨rfl, by simp, by simp [Quiet]⟩

theorem goes_scheduleRetry {c' : TcpClient}
    (hdials : ∀ ask, Quiet ask → Dials c.socketsOf c'.socketsOf ask)
    (hfd : c'.connectingFd = none) (hch : c'.connectChannel = none) :
    c.Goes c'.scheduleRetry := by
  obtain ⟨hsame, hstate, hquiet⟩ := scheduleRetry_sockets c'
  refine ⟨hsame ▸ hdials _ hquiet, dialling_idle ?_ ?_ hstate,
    fun k h => absurd h (hquiet k)⟩
  · exact (congrArg Sockets.dialling hsame).trans hfd
  · exact (congrArg Sockets.channel hsame).trans hch

theorem goes_handleConnectWritable (hc : c.Dialling) (err : Bool) :
    c.Goes (c.handleConnectWritable err) := by
  rw [handleConnectWritable]
  split
  · next hfd =>
      refine goes_scheduleRetry (fun ask hquiet => ?_) rfl rfl
      have hch : c.connectChannel = none := by
        rw [Dialling, hfd] at hc
        split at hc
        · next h => exact h
        · next h _ => cases h
        · exact hc.elim
      have hsame : socketsOf
          { c with connectingFd := none, connectChannel := none } =
          c.socketsOf := by rw [socketsOf, socketsOf, hfd, hch]
      rw [hsame]
      exact .quiet ask hquiet
  · next k hk =>
      split
      · refine goes_scheduleRetry (fun ask hquiet => ?_) rfl rfl
        exact .failed k ask hk hquiet
      · refine ⟨.connected k hk, dialling_idle rfl rfl (by simp), fun i h => ?_⟩
        cases h
        exact ⟨rfl, rfl⟩

/-- No socket is opened when a handshake ends. -/
theorem handleConnectWritable_sockets (c : TcpClient) (err : Bool) :
    (c.handleConnectWritable err).1.sockets = c.sockets := by
  have hretry : ∀ c' : TcpClient, c'.sockets = c.sockets →
      c'.scheduleRetry.1.sockets = c.sockets := fun c' h =>
    (congrArg Sockets.opened (scheduleRetry_sockets c').1).trans h
  rw [handleConnectWritable]
  split
  · exact hretry _ rfl
  · split
    · exact hretry _ rfl
    · rfl

/-- `start_connect()`, of a client that is not dialling. -/
theorem goes_startConnect (hfd : c.connectingFd = none)
    (hch : c.connectChannel = none) (d : Dial) :
    c.Goes (c.startConnect d) := by
  rw [startConnect]
  split
  · exact ⟨.quiet _ quiet_nothing, dialling_idle hfd hch (by simp), by simp⟩
  · cases d with
    | noSocket =>
        exact goes_scheduleRetry (fun ask hquiet => .quiet ask hquiet) hfd hch
    | blocking | refused =>
        exact goes_scheduleRetry
          (fun ask hquiet => .refused ask hfd hch hquiet) hfd hch
    | immediate err =>
        cases err with
        | true =>
            refine goes_scheduleRetry (fun ask hquiet => ?_) rfl rfl
            have hrefused := Dials.refused (s := c.socketsOf) ask hfd hch hquiet
            rw [socketsOf, hfd, hch] at hrefused ⊢
            exact hrefused
        | false =>
            refine ⟨?_, dialling_idle rfl rfl (by simp [handleConnectWritable]),
              fun i h => ?_⟩
            · have hconnected := Dials.immediate (s := c.socketsOf) hfd hch
              rw [socketsOf, hfd, hch] at hconnected ⊢
              exact hconnected
            · cases h
              exact ⟨rfl, rfl⟩
    | inProgress =>
        exact ⟨.dialled _ hfd hch rfl, ⟨rfl, rfl⟩, by simp⟩

theorem goes_connectInLoop (hc : c.Dialling) (d : Dial) :
    c.Goes (c.connectInLoop d) := by
  rw [connectInLoop]
  split
  · exact ⟨.quiet _ quiet_nothing, hc, by simp⟩
  · next hstate =>
      obtain ⟨hfd, hch⟩ := hc.idle fun h => hstate (.inl h)
      have hdial := goes_startConnect (c := { c with
        retryEnabled := true, backoffMs := kInitialBackoffMs }) hfd hch d
      exact ⟨hdial.dials, hdial.dialling, hdial.handed⟩

theorem stays_connectInLoop (c : TcpClient) (d : Dial) :
    c.Stays (c.connectInLoop d) := by
  intro hstate
  rw [connectInLoop, if_pos (.inr hstate)]
  exact ⟨hstate, rfl, quiet_nothing⟩

theorem goes_retry (hc : c.Dialling) (d : Dial) : c.Goes (c.retry d) := by
  rw [retry]
  split
  · exact ⟨.quiet _ quiet_nothing, hc, by simp⟩
  · next hstate =>
      have hretrying : c.state = .kRetrying := Decidable.of_not_not hstate
      obtain ⟨hfd, hch⟩ := hc.idle (by simp [hretrying])
      exact goes_startConnect hfd hch d

theorem stays_retry (c : TcpClient) (d : Dial) : c.Stays (c.retry d) := by
  intro hstate
  rw [retry, if_pos (by simp [hstate])]
  exact ⟨hstate, rfl, quiet_nothing⟩

theorem goes_onConnectionClosed (hc : c.Dialling)
    (hstate : c.state ≠ .kConnecting) : c.Goes c.onConnectionClosed := by
  obtain ⟨hfd, hch⟩ := hc.idle hstate
  exact goes_scheduleRetry (fun ask hquiet => .quiet ask hquiet) hfd hch

theorem onConnectionClosed_sockets (c : TcpClient) :
    c.onConnectionClosed.1.sockets = c.sockets :=
  congrArg Sockets.opened (scheduleRetry_sockets { c with connection := none }).1

/-- `disconnect_in_loop()`, before it closes the connection. -/
theorem goes_disconnectInLoop (hc : c.Dialling) :
    c.Goes (c.disconnectInLoop.1, .nothing) := by
  rw [disconnectInLoop]
  dsimp only
  split
  · exact ⟨.quiet _ quiet_nothing, hc, nofun⟩
  · split
    · next hstate =>
        rw [Dialling] at hc
        split at hc
        · exact absurd hstate hc
        · next k ch hfd hch =>
            have habandon : abandonDial { c with retryEnabled := false } =
                { c with
                  retryEnabled := false
                  connectChannel := none
                  connectingFd := none
                  closedFds := c.closedFds ++ [k] } := by
              rw [abandonDial]
              simp only [hfd]
              rfl
            rw [habandon]
            exact ⟨.failed k _ hfd nofun, dialling_idle rfl rfl nofun, nofun⟩
        · exact hc.elim
    · next hstate =>
        split
        · obtain ⟨hfd, hch⟩ := hc.idle hstate
          exact ⟨.quiet _ quiet_nothing, dialling_idle hfd hch nofun, nofun⟩
        · exact ⟨.quiet _ quiet_nothing, hc, nofun⟩

theorem stays_disconnectInLoop (c : TcpClient) :
    c.Stays (c.disconnectInLoop.1, .nothing) := by
  intro hstate
  have hkept : c.disconnectInLoop.1 = { c with retryEnabled := false } := by
    rw [disconnectInLoop]
    dsimp only
    split
    · rfl
    · rw [if_neg (by rw [hstate]; nofun), if_neg (by rw [hstate]; nofun)]
  rw [hkept]
  exact ⟨hstate, rfl, nofun⟩

theorem disconnectInLoop_sockets (c : TcpClient) :
    c.disconnectInLoop.1.sockets = c.sockets ∧
      (c.disconnectInLoop.1.connectingFd = none ∨
        c.disconnectInLoop.1.connectingFd = c.connectingFd) := by
  rw [disconnectInLoop]
  dsimp only
  split
  · exact ⟨rfl, .inr rfl⟩
  · split
    · rw [abandonDial]
      dsimp only
      split
      · exact ⟨rfl, .inr rfl⟩
      · exact ⟨rfl, .inl rfl⟩
    · split
      · exact ⟨rfl, .inr rfl⟩
      · exact ⟨rfl, .inr rfl⟩

/-- `disconnect_in_loop()` hands nothing to anybody. -/
theorem hands_disconnectInLoop (hc : c.Wf) :
    c.Hands (c.disconnectInLoop.1, .nothing) := by
  obtain ⟨hsockets, hfd⟩ := disconnectInLoop_sockets c
  refine ⟨fun k hk => ?_, fun {k} hu => ⟨?_, fun hk => ?_⟩, nofun⟩
  · rcases hfd with h | h
    · rw [h] at hk
      cases hk
    · rw [hsockets]
      exact hc k (h ▸ hk)
  · rw [hsockets]
    exact hu.1
  · rcases hfd with h | h
    · rw [h] at hk
      cases hk
    · exact hu.2 (h ▸ hk)

end

end GameFrame.TcpClient
