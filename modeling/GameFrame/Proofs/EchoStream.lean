import GameFrame.Echo.EchoPeer
import GameFrame.Proofs.SessionStream

/-!
# What comes back from the echo server

As long as the connection is up, every byte that has been read has been sent
(`Sent`), so a client that is not cut off reads what it wrote, and what it has
not read yet is in a buffer. If it is cut off, it has read a beginning of what
it wrote (`echoes`).
-/

namespace GameFrame.EchoPeer

open Session

/-- What has been accepted of the bytes `r` that have been read. -/
structure Sent (s : EchoPeer) (r : List UInt8) : Prop where
  part : accepted s.conn.log <+: r
  all : s.conn.state = .kConnected → accepted s.conn.log ++ s.input = r

theorem keeps_sent : Keeps onMessage Sent where
  moved {s t r bytes} hs h := by
    have hlog := h.silent.accepted
    refine ⟨?_, fun hup => ?_⟩
    · rw [hlog]
      exact hs.part.trans (List.prefix_append _ _)
    · rcases h.state with hsame | hdown
      · rw [hlog, h.input, ← List.append_assoc, hs.all (hsame.symm.trans hup)]
      · cases hup.symm.trans hdown
  call {answers s u r} hs h := by
    have hsend := onMessage_some h
    have hlog := Connection.accepted_send hsend
    have hlog : accepted u.conn.log = accepted s.conn.log ++
        if s.conn.state = .kConnected then s.input else [] := hlog
    by_cases hup : s.conn.state = .kConnected
    · rw [if_pos hup, hs.all hup] at hlog
      refine ⟨hlog ▸ List.prefix_refl _, fun _ => ?_⟩
      have hinput : u.conn.inputBuffer = s.conn.inputBuffer.retrieveAll :=
        (send_frame hsend).1
      rw [hlog, Session.input, hinput, Buffer.readable_retrieveAll,
        List.append_nil]
    · rw [if_neg hup, List.append_nil] at hlog
      have hsame : u.conn.state = s.conn.state := (send_frame hsend).2 hup
      exact ⟨hlog ▸ hs.part, fun hup' => absurd (hsame.symm.trans hup') hup⟩

/-- Between two events nothing waits to be sent. -/
structure Rests (s : EchoPeer) : Prop where
  messageCb : s.conn.messageCb = true
  none : s.conn.state = .kConnected → s.input = []

theorem Rests.moved {s t : EchoPeer} (hs : Rests s) (h : s.Moved [] t) :
    Rests t := by
  refine ⟨h.silent.messageCb.trans hs.messageCb, fun hup => ?_⟩
  rcases h.state with hsame | hdown
  · rw [h.input, List.append_nil]
    exact hs.none (hsame.symm.trans hup)
  · cases hup.symm.trans hdown

theorem Rests.handleRead {s s' : EchoPeer} {answers : List WriteRes}
    {reads : List ReadRes} (hs : Rests s)
    (h : s.handleRead (onMessage answers) reads = some s') : Rests s' := by
  have hcall : ∀ {t u : EchoPeer}, t.conn.messageCb = true →
      onMessage answers t = some u → Rests u := by
    intro t u hcb hu
    have hsend := onMessage_some hu
    refine ⟨(Connection.calls_send hsend).1.trans hcb, fun _ => ?_⟩
    rw [Session.input, (send_frame hsend).1]
    exact Buffer.readable_retrieveAll _
  by_cases hstop : readStop reads = some .fatal
  · have hmoved := moved_fatal hstop h
    refine ⟨hmoved.silent.messageCb.trans hs.messageCb, fun hup => ?_⟩
    cases hup.symm.trans (handleRead_fatal hstop h).2
  · obtain ⟨t, u, hread, hu, hend⟩ := handleRead_batch hs.messageCb hstop h
    have hcb := hread.messageCb.trans hs.messageCb
    have hrests : Rests u := by
      rcases hu with ⟨-, hu⟩ | ⟨hnil, rfl⟩
      · exact hcall hcb hu
      · exact ⟨hcb, fun _ => hnil⟩
    rcases hend with ⟨-, rfl⟩ | ⟨-, rfl⟩
    · exact hrests
    · exact hrests.moved (moved_close u)

theorem rests_step {s s' : EchoPeer} {l : Session.Label (List WriteRes)}
    (hs : Rests s) (h : step s l = some s') : Rests s' := by
  have hclose : ∀ {s s' : EchoPeer}, Rests s → some s.close = some s' →
      Rests s' := by
    intro s s' hs h
    cases h
    exact hs.moved (moved_close s)
  cases l with
  | event e answers =>
      exact Channel.handleEvent_preserves hclose hclose
        (fun hs h => hs.handleRead h)
        (fun hs h => hs.moved (moved_handleWrite h)) hs h
  | close => exact hclose hs h

/-- What a client has got back is a beginning of what the server has read from
it, and as long as the connection is up the rest is in the server's buffer. -/
theorem echoes {ls : List (Session.Label (List WriteRes))} {s : EchoPeer}
    (hrun : Machine.run step newPeer ls = some s) :
    written s.conn.log <+: arrived onMessage newPeer ls ∧
      (s.conn.state = .kConnected →
        written s.conn.log ++ s.conn.outputBuffer.readable =
          arrived onMessage newPeer ls) := by
  have hnew : newPeer.conn.New := ⟨rfl, rfl, Buffer.readable_new, rfl, rfl⟩
  have hinput : newPeer.input = [] := Buffer.readable_new
  have hsent : Sent s (arrived onMessage newPeer ls) :=
    run_arrives (r := []) keeps_sent ⟨List.nil_prefix, fun _ => hinput⟩ hrun
  have hrests : Rests s :=
    Machine.run_preserves rests_step ⟨rfl, fun _ => hinput⟩ hrun
  have hconn := run_prefixed scripted_onMessage hnew.prefixed hrun
  refine ⟨?_, fun hup => ?_⟩
  · exact (List.prefix_append _ _).trans (hconn.bytes.trans hsent.part)
  · have hall := hsent.all hup
    rw [hrests.none hup, List.append_nil] at hall
    rw [← hall]
    exact hconn.all (by rw [hup]; nofun)

/-- Two batches, of which the socket takes a part, and a close from outside. -/
def cutOff : List (Session.Label (List WriteRes)) :=
  [.event { revents := EPOLLIN,
            reads := [.data [1, 2, 3], .eintr, .stop .eagain] }
      [.accepted 1, .stop .eagain],
    .event { revents := EPOLLIN ||| EPOLLOUT,
             reads := [.data [4], .stop .eagain],
             writes := [.accepted 2, .stop .eagain] } [],
    .close]

theorem echoes_cutOff :
    ∃ s, Machine.run step newPeer cutOff = some s ∧
      written s.conn.log = [1, 2, 3] ∧
      written s.conn.log <+: arrived onMessage newPeer cutOff := by
  have hany : (Machine.run step newPeer cutOff).any (fun s =>
      written s.conn.log == [1, 2, 3]) = true := by decide +kernel
  obtain ⟨s, hrun, hs⟩ := (Option.any_eq_true _ _).mp hany
  exact ⟨s, hrun, eq_of_beq hs, (echoes hrun).1⟩

end GameFrame.EchoPeer
