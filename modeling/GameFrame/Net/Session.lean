import GameFrame.Lib.Run
import GameFrame.Net.Connection

/-!
# A connection and what its server keeps beside it

The message callback of `Connection::handle_read` in `src/connection.cpp` is
whatever the server on top has set, and that server keeps something of its own
for each connection: a parser that stopped halfway, or what it has handed on.
Here the callback is a function on both, instead of the script of operations
that a `Connection` alone is given, and `handle_read` is put around it again.

Nothing is added to what a connection can do. A callback whose effect on the
connection is that of some operations gives a `handle_read` whose effect is
that of the connection's own, with these operations for its script.
-/

namespace GameFrame

/-- A script that takes something from the buffer, again and again. -/
theorem Connection.userOps_retrieve (c : Connection) (lens : List Nat) :
    c.userOps (lens.map .retrieve) =
      some
        { c with inputBuffer := lens.foldl Buffer.retrieve c.inputBuffer } := by
  induction lens generalizing c with
  | nil => rfl
  | cons len lens ih => exact ih _

structure Session (σ : Type _) where
  conn : Connection
  own : σ

namespace Session

variable {σ : Type _}

/-- A message callback, `none` where it has no meaning. -/
abbrev Callback (σ : Type _) := Session σ → Option (Session σ)

def close (s : Session σ) : Session σ := { s with conn := s.conn.close }

/-- The callback, if it is set and there is something for it to see. -/
def deliver (onMessage : Callback σ) (s : Session σ) (fresh : List UInt8) :
    Option (Session σ) :=
  if s.conn.messageCb && s.conn.inputBuffer.readableBytes > 0 then
    onMessage { s with conn := s.conn.note (.message fresh) }
  else some s

/-- `handle_read()`. -/
def handleRead (onMessage : Callback σ) (s : Session σ)
    (reads : List ReadRes) : Option (Session σ) :=
  match s.conn.readLoop [] reads with
  | none => none
  | some (c, fresh, .eof) =>
      (deliver onMessage { s with conn := c } fresh).map close
  | some (c, _, .fatal) => some { s with conn := c.close }
  | some (c, fresh, .eagain) => deliver onMessage { s with conn := c } fresh

/-- One batch. What arrives for a connection that is closed reaches nobody. -/
def receive (onMessage : Callback σ) (s : Session σ) (reads : List ReadRes) :
    Option (Session σ) :=
  if s.conn.state = .kDisconnected then some s
  else s.handleRead onMessage reads

/-- The callback does to the connection what a script can do. -/
def Scripted (onMessage : Callback σ) : Prop :=
  ∀ {s s' : Session σ}, onMessage s = some s' →
    ∃ cb, s.conn.userOps cb = some s'.conn

theorem deliver_scripted {onMessage : Callback σ} (h : Scripted onMessage)
    {s s' : Session σ} {fresh : List UInt8}
    (hs : deliver onMessage s fresh = some s') :
    ∃ cb, s.conn.deliver fresh cb = some s'.conn := by
  rw [deliver] at hs
  split at hs
  · next hsee =>
      obtain ⟨cb, hcb⟩ := h hs
      refine ⟨cb, ?_⟩
      rw [Connection.deliver, if_pos hsee]
      exact hcb
  · next hsee =>
      cases hs
      refine ⟨[], ?_⟩
      rw [Connection.deliver, if_neg hsee, if_pos rfl]

/-- `handle_read` here is `handle_read` there. -/
theorem handleRead_scripted {onMessage : Callback σ} (h : Scripted onMessage)
    {s s' : Session σ} {reads : List ReadRes}
    (hs : s.handleRead onMessage reads = some s') :
    ∃ cb, s.conn.handleRead reads cb = some s'.conn := by
  rw [handleRead] at hs
  split at hs
  · cases hs
  · next c fresh hloop =>
      obtain ⟨t, ht, rfl⟩ := Option.map_eq_some_iff.mp hs
      obtain ⟨cb, hcb⟩ := deliver_scripted h ht
      refine ⟨cb, ?_⟩
      rw [Connection.handleRead, hloop]
      show (c.deliver fresh cb).map Connection.close = _
      rw [hcb]
      rfl
  · next c fresh hloop =>
      cases hs
      refine ⟨[], ?_⟩
      rw [Connection.handleRead, hloop]
      rfl
  · next c fresh hloop =>
      obtain ⟨cb, hcb⟩ := deliver_scripted h hs
      refine ⟨cb, ?_⟩
      rw [Connection.handleRead, hloop]
      exact hcb

/-- It is what an event does that says there is something to read. -/
theorem handleRead_event {onMessage : Callback σ} (h : Scripted onMessage)
    {s s' : Session σ} {reads : List ReadRes}
    (hs : s.handleRead onMessage reads = some s') :
    ∃ ls, Machine.run Connection.step s.conn ls = some s'.conn := by
  obtain ⟨cb, hcb⟩ := handleRead_scripted h hs
  refine ⟨[.event EPOLLIN { reads := reads, cb := cb }],
    Machine.run_cons_some.mpr ⟨s'.conn, ?_, rfl⟩⟩
  show Connection.handleEvent s.conn EPOLLIN _ = some s'.conn
  rw [Connection.handleEvent, Channel.handleEvent, Bool.not_true,
    Bool.and_false, if_neg Bool.false_ne_true, Channel.handleEventWithGuard,
    if_neg (by decide)]
  show (s.conn.handleRead reads cb).bind some = some s'.conn
  rw [hcb]
  rfl

end Session

end GameFrame
