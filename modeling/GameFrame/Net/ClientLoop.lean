import GameFrame.Lib.Run
import GameFrame.Net.Connection
import GameFrame.Net.TcpClient

/-!
# A `TcpClient` on its loop

The client of `GameFrame.Net.TcpClient`, with everything that calls it: the
user, the handshake, the retry timers, and the connections it has built, which
tell it when they are closed. It calls back, too. The connection callback runs
in the middle of `handle_connect_writable` and of `on_connection_closed`, and
may call anything there, so there is a stack of the calls that are inside a
connection callback (`frames`), innermost first. What is left of such a call
is done when its callback returns. The loop is waiting for events when the
stack is empty; only then does a handshake end or a timer fire, while the user
may call, and connections may be closed, at any time.

Of a connection there is only its state, by the number of its socket. A socket
is closed by the client (`closedFds`) or by the connection that was built on
it (`connClosed`). Timers are the times they are due at, for a retry timer is
never cancelled and what it does when it fires depends on nothing else. The
log is the history of calls, dials and waits.
-/

namespace GameFrame

/-- The dial comes to nothing before `start_connect` returns. -/
def Dial.fails : Dial → Bool
  | .noSocket | .blocking | .refused | .immediate true => true
  | .immediate false | .inProgress => false

/-- A call that is inside the connection callback. -/
inductive ClientFrame where
  /-- `handle_connect_writable`, with `start()` behind it -/
  | established (fd : Nat)
  /-- `on_connection_closed` -/
  | closed (fd : Nat)
  deriving DecidableEq, Repr

inductive ClientCall where
  | connect
  | disconnect
  deriving DecidableEq, Repr

inductive ClientEv where
  | call (c : ClientCall)
  /-- `start_connect` past its check, called by `connect_in_loop` or not -/
  | dial (direct : Bool) (time : Nat)
  /-- a handshake has succeeded -/
  | success
  /-- `schedule_retry`, with the wait it has computed -/
  | retry (time wait : Nat)
  deriving DecidableEq, Repr

structure ClientLoop where
  client : TcpClient := {}
  conns : Nat → ConnState := fun _ => .kDisconnected
  /-- the sockets a connection was built on -/
  built : List Nat := []
  /-- those a connection has closed -/
  connClosed : List Nat := []
  frames : List ClientFrame := []
  now : Nat := 0
  timers : List Nat := []
  log : List ClientEv := []

namespace ClientLoop

def note (w : ClientLoop) (e : ClientEv) : ClientLoop :=
  { w with log := w.log ++ [e] }

def setConn (w : ClientLoop) (fd : Nat) (s : ConnState) : ClientLoop :=
  { w with conns := fun i => if i = fd then s else w.conns i }

/-- What a function of the client asks for, done. -/
def answer (w : ClientLoop) : TcpClient × ClientAsk → ClientLoop
  | (c, .nothing) => { w with client := c }
  | (c, .runAfter ms) =>
      { w with client := c, timers := w.timers ++ [w.now + ms] }.note
        (.retry w.now ms)
  | (c, .established fd) =>
      ({ w with
        client := c
        built := w.built ++ [fd]
        frames := .established fd :: w.frames }.setConn fd .kConnected).note
          .success

/-- `close()` of a connection, up to the connection callback. -/
def closeConn (w : ClientLoop) (fd : Nat) : ClientLoop :=
  if w.conns fd = .kDisconnected then w
  else
    { w with
      connClosed := w.connClosed ++ [fd]
      frames := .closed fd :: w.frames }.setConn fd .kDisconnected

/-- `connect()`, on the loop thread. -/
def connect (w : ClientLoop) (d : Dial) : ClientLoop :=
  let w := w.note (.call .connect)
  -- `connect_in_loop` dials unless it returns at once.
  let dials := w.client.state != .kConnecting && w.client.state != .kConnected
  let w := if dials then w.note (.dial true w.now) else w
  w.answer (w.client.connectInLoop d)

/-- `disconnect()`, on the loop thread. -/
def disconnect (w : ClientLoop) : ClientLoop :=
  let w := w.note (.call .disconnect)
  match w.client.disconnectInLoop with
  | (c, none) => { w with client := c }
  | (c, some fd) => { w with client := c }.closeConn fd

/-- The function of a retry timer. -/
def retry (w : ClientLoop) (d : Dial) : ClientLoop :=
  let dials := w.client.state == .kRetrying && w.client.retryEnabled
  let w := if dials then w.note (.dial false w.now) else w
  w.answer (w.client.retry d)

inductive Label where
  | elapse (ms : Nat)
  | connect (d : Dial)
  | disconnect
  /-- the connect channel has an event, `SO_ERROR` holding an error or not -/
  | handshake (err : Bool)
  /-- `close()` of a connection, by an event or by the user -/
  | closeConn (fd : Nat)
  /-- `shutdown()` of one -/
  | shutdownConn (fd : Nat)
  /-- the innermost connection callback returns -/
  | ret
  /-- the timer that is due at `due` fires -/
  | fire (due : Nat) (d : Dial)
  deriving DecidableEq, Repr

def step (w : ClientLoop) : Label → Option ClientLoop
  | .elapse ms => some { w with now := w.now + ms }
  | .connect d => some (w.connect d)
  | .disconnect => some w.disconnect
  | .handshake err =>
      if w.frames = [] ∧ w.client.connectChannel.isSome then
        some (w.answer (w.client.handleConnectWritable err))
      else none
  | .closeConn fd => if fd ∈ w.built then some (w.closeConn fd) else none
  | .shutdownConn fd =>
      if w.conns fd = .kConnected then some (w.setConn fd .kDisconnecting)
      else none
  | .ret =>
      match w.frames with
      | [] => none
      | .established _ :: fs => some { w with frames := fs }
      | .closed _ :: fs =>
          some ({ w with frames := fs }.answer w.client.onConnectionClosed)
  | .fire due d =>
      if w.frames = [] ∧ due ∈ w.timers ∧ due ≤ w.now then
        some ({ w with timers := w.timers.erase due }.retry d)
      else none

/-! ## What a step can do -/

inductive Stepped (w : ClientLoop) : Label → ClientLoop → Prop where
  | elapse (ms : Nat) : Stepped w (.elapse ms) { w with now := w.now + ms }
  | connect (d : Dial) : Stepped w (.connect d) (w.connect d)
  | disconnect : Stepped w .disconnect w.disconnect
  | handshake (err : Bool) : w.frames = [] →
      w.client.connectChannel.isSome = true →
      Stepped w (.handshake err)
        (w.answer (w.client.handleConnectWritable err))
  | closeConn (fd : Nat) : fd ∈ w.built → w.conns fd ≠ .kDisconnected →
      Stepped w (.closeConn fd) (w.closeConn fd)
  | closedAlready (fd : Nat) : fd ∈ w.built → w.conns fd = .kDisconnected →
      Stepped w (.closeConn fd) w
  | shutdownConn (fd : Nat) : w.conns fd = .kConnected →
      Stepped w (.shutdownConn fd) (w.setConn fd .kDisconnecting)
  | established (fd : Nat) (fs : List ClientFrame) :
      w.frames = .established fd :: fs →
      Stepped w .ret { w with frames := fs }
  | closed (fd : Nat) (fs : List ClientFrame) : w.frames = .closed fd :: fs →
      Stepped w .ret
        ({ w with frames := fs }.answer w.client.onConnectionClosed)
  | fire (due : Nat) (d : Dial) : w.frames = [] → due ∈ w.timers →
      due ≤ w.now →
      Stepped w (.fire due d) ({ w with timers := w.timers.erase due }.retry d)

theorem step_stepped {w w' : ClientLoop} {l : Label}
    (h : w.step l = some w') : Stepped w l w' := by
  cases l with
  | elapse ms =>
      cases h
      exact .elapse ms
  | connect d =>
      cases h
      exact .connect d
  | disconnect =>
      cases h
      exact .disconnect
  | handshake err =>
      rw [step] at h
      split at h
      · next hif =>
          cases h
          exact .handshake err hif.1 hif.2
      · cases h
  | closeConn fd =>
      rw [step] at h
      split at h
      · next hbuilt =>
          cases h
          by_cases hclosed : w.conns fd = .kDisconnected
          · rw [ClientLoop.closeConn, if_pos hclosed]
            exact .closedAlready fd hbuilt hclosed
          · exact .closeConn fd hbuilt hclosed
      · cases h
  | shutdownConn fd =>
      rw [step] at h
      split at h
      · next hup =>
          cases h
          exact .shutdownConn fd hup
      · cases h
  | ret =>
      rw [step] at h
      split at h
      · cases h
      · next fd fs hframes =>
          cases h
          exact .established fd fs hframes
      · next fd fs hframes =>
          cases h
          exact .closed fd fs hframes
  | fire due d =>
      rw [step] at h
      split at h
      · next hif =>
          cases h
          exact .fire due d hif.1 hif.2.1 hif.2.2
      · cases h

end ClientLoop

end GameFrame
