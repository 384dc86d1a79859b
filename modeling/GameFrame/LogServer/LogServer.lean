import GameFrame.Net.Session
import GameFrame.Util.LengthPrefixedCodec

/-!
# `log_server`, the other end of a sender

`log_server/main.cpp`. What the process keeps of a connection beside the
connection itself is nothing; what is kept here is what it has handed to
`LogFile::append_line`, in that order. The message callback decodes the frames
that are complete. If the codec comes upon a length that cannot be right it
closes the connection, and else it writes the frames, one by one.
-/

namespace GameFrame.LogServer

/-- `kMaxFrameSize`, 1 MiB. -/
def kMaxFrameSize : UInt32 := 1 * 1024 * 1024

/-- A connection, and the payloads passed to `append_line` so far. -/
abbrev Peer := Session (List (List UInt8))

/-- A connection that is up, with the callback set. -/
def newPeer : Peer where
  conn := Connection.start {}
  own := []

/-- The message callback. -/
def onMessage (s : Peer) : Option Peer :=
  match LengthPrefixedCodec.decode s.conn.inputBuffer [] kMaxFrameSize with
  | none => none
  | some (false, input, _) =>
      some { s with conn := { s.conn with inputBuffer := input }.close }
  | some (true, input, msgs) =>
      some
        { conn := { s.conn with inputBuffer := input }
          own := s.own ++ msgs }

/-- One batch of `handle_read`. -/
def receive (s : Peer) (reads : List ReadRes) : Option Peer :=
  Session.receive onMessage s reads

/-! ## The callback as a script -/

/-- The codec takes from the buffer what it takes, and nothing else. -/
theorem decode_retrieves {maxFrameLen : UInt32} {input input' : Buffer}
    {out out' : List (List UInt8)} {ok : Bool}
    (h : LengthPrefixedCodec.decode input out maxFrameLen =
      some (ok, input', out')) :
    ∃ lens : List Nat, input' = lens.foldl Buffer.retrieve input := by
  fun_induction LengthPrefixedCodec.decode input out maxFrameLen with
  | case1 input out h4 =>
      cases h
      exact ⟨[], rfl⟩
  | case2 input out h4 len hbad =>
      cases h
      exact ⟨[], rfl⟩
  | case3 input out h4 len hgood hshort =>
      cases h
      exact ⟨[], rfl⟩
  | case4 input out h4 len hgood hfull hread => cases h
  | case5 input out h4 len hgood hfull s b hread ih =>
      obtain ⟨lens, rfl⟩ := ih h
      refine ⟨4 :: len.toNat :: lens, ?_⟩
      rw [Buffer.retrieveAsString] at hread
      split at hread
      · cases hread
        rfl
      · cases hread

theorem scripted_onMessage : Session.Scripted onMessage := by
  intro s s' h
  rw [onMessage] at h
  split at h
  · cases h
  · next hdecode =>
      cases h
      obtain ⟨lens, rfl⟩ := decode_retrieves hdecode
      refine ⟨lens.map .retrieve ++ [UserOp.close], ?_⟩
      rw [Connection.userOps, List.foldlM_append]
      exact (congrArg (·.bind fun c => c.userOps [.close])
        (Connection.userOps_retrieve s.conn lens)).trans rfl
  · next hdecode =>
      cases h
      obtain ⟨lens, rfl⟩ := decode_retrieves hdecode
      exact ⟨lens.map .retrieve, Connection.userOps_retrieve s.conn lens⟩

/-- What the connection goes through is a run of a connection. -/
theorem run_connection {s t : Peer} {batches : List (List ReadRes)}
    (h : Machine.run receive s batches = some t) :
    ∃ ls, Machine.run Connection.step s.conn ls = some t.conn := by
  refine Machine.run_simulates (f := Session.conn) ?_ h
  intro s reads s' h
  rw [receive, Session.receive] at h
  split at h
  · cases h
    exact ⟨[], rfl⟩
  · exact Session.handleRead_event scripted_onMessage h

end GameFrame.LogServer
