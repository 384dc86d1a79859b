import GameFrame.Net.Channel

/-!
# `TcpClient`, one outgoing connection that is dialled again

`src/tcp_client.h`, `src/tcp_client.cpp`. A client dials, waits for the
handshake on a channel of its own, hands the socket to a `Connection` when it
succeeds and sets a timer when it does not, with a wait that doubles up to a
bound.

What it does to others comes last in each of its functions, and is returned
here instead of done: a timer to set, or a connection that is ready to be
announced and started (`ClientAsk`), and from `disconnect_in_loop` the
connection to close. The one exception is `on_connection_closed`, which calls
the user first, so only what comes after that call is a function here.

Sockets are numbered in the order they are opened in, and a connection goes
by the number of its socket. What was opened and what the client closed itself
is recorded for the sake of the proofs.
-/

namespace GameFrame

/-- `TcpClient::State`. -/
inductive ClientState where
  | kDisconnected
  | kConnecting
  | kConnected
  | kRetrying
  deriving DecidableEq, Repr

/-- How a dial goes, call by call: no socket, no `O_NONBLOCK`, `connect` that
succeeds at once (and `SO_ERROR` is looked at all the same), one that fails at
once, and `EINPROGRESS`. -/
inductive Dial where
  | noSocket
  | blocking
  | immediate (err : Bool)
  | refused
  | inProgress
  deriving DecidableEq, Repr

inductive ClientAsk where
  | nothing
  /-- `run_after`, of the retry -/
  | runAfter (ms : Nat)
  /-- build the connection on `fd`, call `connection_cb_`, `start()` -/
  | established (fd : Nat)
  deriving DecidableEq, Repr

structure TcpClient where
  state : ClientState := .kDisconnected
  retryEnabled : Bool := false
  connectingFd : Option Nat := none
  connectChannel : Option Channel := none
  connection : Option Nat := none
  backoffMs : Nat := 0
  /-- how many sockets have been opened -/
  sockets : Nat := 0
  /-- those the client closed itself -/
  closedFds : List Nat := []
  deriving DecidableEq, Repr

namespace TcpClient

def kInitialBackoffMs : Nat := 500
def kMaxBackoffMs : Nat := 30 * 1000

/-- `::close(fd)`. -/
def closeFd (c : TcpClient) (fd : Nat) : TcpClient :=
  { c with closedFds := c.closedFds ++ [fd] }

/-- `schedule_retry()`. -/
def scheduleRetry (c : TcpClient) : TcpClient × ClientAsk :=
  if !c.retryEnabled then ({ c with state := .kDisconnected }, .nothing)
  else
    let wait := if c.backoffMs = 0 then kInitialBackoffMs else c.backoffMs
    ({ c with
        state := .kRetrying
        backoffMs := min (wait * 2) kMaxBackoffMs },
      .runAfter wait)

/-- `handle_connect_writable()`, `err` being whether `SO_ERROR` holds one. -/
def handleConnectWritable (c : TcpClient) (err : Bool) :
    TcpClient × ClientAsk :=
  let c' := { c with connectingFd := none, connectChannel := none }
  match c.connectingFd with
  | none => c'.scheduleRetry
  | some fd =>
      if err then (c'.closeFd fd).scheduleRetry
      else
        ({ c' with
            state := .kConnected
            backoffMs := kInitialBackoffMs
            connection := some fd },
          .established fd)

/-- The socket a dial opens, before anything is known of it. -/
def openSocket (c : TcpClient) : Nat × TcpClient :=
  (c.sockets, { c with sockets := c.sockets + 1 })

/-- `start_connect()`. -/
def startConnect (c : TcpClient) (d : Dial) : TcpClient × ClientAsk :=
  if !c.retryEnabled then ({ c with state := .kDisconnected }, .nothing)
  else
    let (fd, c') := c.openSocket
    match d with
    | .noSocket => c.scheduleRetry
    | .blocking => (c'.closeFd fd).scheduleRetry
    | .immediate err =>
        { c' with
          connectingFd := some fd
          state := .kConnecting }.handleConnectWritable err
    | .refused => (c'.closeFd fd).scheduleRetry
    | .inProgress =>
        ({ c' with
            connectingFd := some fd
            state := .kConnecting
            connectChannel := some (({} : Channel).enableWriting true) },
          .nothing)

/-- `connect_in_loop()`. -/
def connectInLoop (c : TcpClient) (d : Dial) : TcpClient × ClientAsk :=
  if c.state = .kConnecting ∨ c.state = .kConnected then (c, .nothing)
  else
    { c with
      retryEnabled := true
      backoffMs := kInitialBackoffMs }.startConnect d

/-- The retry timer, when it fires. -/
def retry (c : TcpClient) (d : Dial) : TcpClient × ClientAsk :=
  if c.state ≠ .kRetrying then (c, .nothing) else c.startConnect d

/-- `on_connection_closed(conn)`, behind the call of `connection_cb_`. -/
def onConnectionClosed (c : TcpClient) : TcpClient × ClientAsk :=
  { c with connection := none }.scheduleRetry

/-- The channel and the socket of a handshake, taken down. -/
def abandonDial (c : TcpClient) : TcpClient :=
  match c.connectingFd with
  | none => { c with connectChannel := none }
  | some fd =>
      { c with connectChannel := none, connectingFd := none }.closeFd fd

/-- `disconnect_in_loop()`, and the connection it closes last. -/
def disconnectInLoop (c : TcpClient) : TcpClient × Option Nat :=
  let c := { c with retryEnabled := false }
  if c.state = .kConnected ∧ c.connection.isSome then (c, c.connection)
  else if c.state = .kConnecting then
    ({ c.abandonDial with state := .kDisconnected }, none)
  else if c.state = .kRetrying then ({ c with state := .kDisconnected }, none)
  else (c, none)

/-! ## Whether it tries again

Only `connect()` and `disconnect()` say so. -/

@[simp] theorem scheduleRetry_retryEnabled (c : TcpClient) :
    c.scheduleRetry.1.retryEnabled = c.retryEnabled := by
  rw [scheduleRetry]
  split
  · rfl
  · rfl

@[simp] theorem handleConnectWritable_retryEnabled (c : TcpClient)
    (err : Bool) :
    (c.handleConnectWritable err).1.retryEnabled = c.retryEnabled := by
  rw [handleConnectWritable]
  split
  · simp
  · split
    · simp [closeFd]
    · rfl

@[simp] theorem startConnect_retryEnabled (c : TcpClient) (d : Dial) :
    (c.startConnect d).1.retryEnabled = c.retryEnabled := by
  rw [startConnect]
  split
  · rfl
  · cases d with
    | noSocket => simp
    | blocking => simp [closeFd, openSocket]
    | immediate err => simp [openSocket]
    | refused => simp [closeFd, openSocket]
    | inProgress => rfl

/-! ## Sockets that are in use -/

/-- The socket has been opened, and is not the one being dialled. -/
def Used (c : TcpClient) (fd : Nat) : Prop :=
  fd < c.sockets ∧ c.connectingFd ≠ some fd

/-- The socket being dialled has been opened. -/
def Wf (c : TcpClient) : Prop :=
  ∀ fd, c.connectingFd = some fd → fd < c.sockets

/-- All that a function of the client does to sockets: it keeps what is in use
in use, and what it hands to a connection was not. -/
structure Hands (c : TcpClient) (r : TcpClient × ClientAsk) : Prop where
  wf : r.1.Wf
  used : ∀ {fd}, c.Used fd → r.1.Used fd
  fresh : ∀ {fd}, r.2 = .established fd → r.1.Used fd ∧ ¬ c.Used fd

theorem Hands.trans {c c' : TcpClient} {r : TcpClient × ClientAsk}
    (h : c'.Hands r) (hused : ∀ {fd}, c.Used fd → c'.Used fd) : c.Hands r where
  wf := h.wf
  used := fun hu => h.used (hused hu)
  fresh := fun hask => ⟨(h.fresh hask).1, fun hu => (h.fresh hask).2 (hused hu)⟩

theorem hands_scheduleRetry {c : TcpClient} (hc : c.Wf) :
    c.Hands c.scheduleRetry := by
  rw [scheduleRetry]
  split
  · exact ⟨hc, id, by simp⟩
  · exact ⟨hc, id, by simp⟩

theorem hands_handleConnectWritable {c : TcpClient} (hc : c.Wf) (err : Bool) :
    c.Hands (c.handleConnectWritable err) := by
  rw [handleConnectWritable]
  split
  · refine (hands_scheduleRetry ?_).trans fun hu => ⟨hu.1, by simp⟩
    simp [Wf]
  · next fd hfd =>
      split
      · refine (hands_scheduleRetry ?_).trans fun hu => ⟨hu.1, by simp [closeFd]⟩
        simp [Wf, closeFd]
      · refine ⟨by simp [Wf], fun hu => ⟨hu.1, by simp⟩, fun {k} hask => ?_⟩
        obtain rfl : fd = k := by simpa using hask
        exact ⟨⟨hc fd hfd, by simp⟩, fun hu => hu.2 hfd⟩

theorem hands_startConnect {c : TcpClient} (hc : c.Wf) (d : Dial) :
    c.Hands (c.startConnect d) := by
  -- The socket that is opened is one more, whether it is dialled or closed.
  have hopened : ({ c with sockets := c.sockets + 1 }).Wf := fun fd hfd =>
    Nat.lt_succ_of_lt (hc fd hfd)
  have hused : ∀ {fd}, c.Used fd →
      ({ c with sockets := c.sockets + 1 } : TcpClient).Used fd := fun hu =>
    ⟨Nat.lt_succ_of_lt hu.1, hu.2⟩
  have hdialled : ∀ fd, some c.sockets = some fd → fd < c.sockets + 1 := by
    intro fd hfd
    simp only [Option.some.injEq] at hfd
    omega
  have hother : ∀ {fd}, c.Used fd →
      fd < c.sockets + 1 ∧ some c.sockets ≠ some fd := by
    intro fd hu
    have hlt := hu.1
    simp only [ne_eq, Option.some.injEq]
    omega
  rw [startConnect]
  split
  · exact ⟨hc, id, by simp⟩
  · cases d with
    | noSocket => exact hands_scheduleRetry hc
    | blocking =>
        refine (hands_scheduleRetry ?_).trans hused
        exact hopened
    | immediate err =>
        refine (hands_handleConnectWritable ?_ err).trans hother
        exact hdialled
    | refused =>
        refine (hands_scheduleRetry ?_).trans hused
        exact hopened
    | inProgress => exact ⟨hdialled, hother, by simp⟩

theorem hands_connectInLoop {c : TcpClient} (hc : c.Wf) (d : Dial) :
    c.Hands (c.connectInLoop d) := by
  rw [connectInLoop]
  split
  · exact ⟨hc, id, by simp⟩
  · exact (hands_startConnect (c := { c with
      retryEnabled := true, backoffMs := kInitialBackoffMs }) hc d).trans id

theorem hands_retry {c : TcpClient} (hc : c.Wf) (d : Dial) :
    c.Hands (c.retry d) := by
  rw [retry]
  split
  · exact ⟨hc, id, by simp⟩
  · exact hands_startConnect hc d

theorem hands_onConnectionClosed {c : TcpClient} (hc : c.Wf) :
    c.Hands c.onConnectionClosed :=
  (hands_scheduleRetry (c := { c with connection := none }) hc).trans id

end TcpClient

end GameFrame
