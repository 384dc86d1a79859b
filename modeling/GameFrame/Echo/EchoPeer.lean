import GameFrame.Net.SessionEvents

/-!
# The echo server, one connection of it

The message callback of `main.cpp`: it takes all that is in the buffer and sends
it. What it logs on the way, and the timer it sets anew, are left out here; the
timer is in `EchoLoop`, and all it does to the connection is to close it.
-/

namespace GameFrame

abbrev EchoPeer := Session Unit

namespace EchoPeer

def newPeer : EchoPeer := { conn := Connection.start {}, own := () }

/-- The message callback, and the answers its `send` gets. -/
def onMessage (writes : List WriteRes) : Session.Callback Unit := fun s =>
  let data := s.conn.inputBuffer.readable
  let c := { s.conn with inputBuffer := s.conn.inputBuffer.retrieveAll }
  (c.send data writes).map fun c => { s with conn := c }

def step : EchoPeer → Session.Label (List WriteRes) → Option EchoPeer :=
  Session.step onMessage

theorem onMessage_some {writes : List WriteRes} {s u : EchoPeer}
    (h : onMessage writes s = some u) :
    { s.conn with inputBuffer := s.conn.inputBuffer.retrieveAll }.send
      s.conn.inputBuffer.readable writes = some u.conn := by
  obtain ⟨c, hc, rfl⟩ := Option.map_eq_some_iff.mp h
  exact hc

theorem scripted_onMessage (writes : List WriteRes) :
    Session.Scripted (onMessage writes) := by
  intro s u h
  refine ⟨[.retrieve s.conn.inputBuffer.readableBytes,
    .send s.conn.inputBuffer.readable writes], ?_⟩
  have hall : s.conn.inputBuffer.retrieve
      s.conn.inputBuffer.readableBytes = s.conn.inputBuffer.retrieveAll := by
    rw [Buffer.retrieve, dif_pos (Nat.le_refl _)]
  show (Connection.send _ _ writes).bind some = some u.conn
  rw [hall, onMessage_some h]
  rfl

end EchoPeer

end GameFrame
