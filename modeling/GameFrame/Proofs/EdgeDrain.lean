import GameFrame.Net.TcpServer
import GameFrame.Proofs.ConnectionMoves

/-!
# What a readiness edge leaves undone

Every descriptor is registered with `EPOLLET`. The loop is told once that
there is something to do, and a handler that returns with something still to
do is not called again for it. So there are three good ways to return: the
last call on the descriptor answered `EAGAIN`, there is nothing left to write,
or the descriptor is closed.

`handle_read` and `handle_write` have no others, since on an error they close.
`handle_accept` cannot close, and on an error it breaks out of its loop. Some
of these errors are about one connection, which has gone away while it waited
(`ECONNABORTED`); those that wait behind it stay where they are until somebody
else connects.
-/

namespace GameFrame

namespace TcpServer

/-- The loop of `handle_accept` ends with the answer it ends with, and errors
come last. -/
theorem acceptLoop_last {answers : List AcceptRes} : ∀ {w w' : TcpServer}
    {e : AcceptEnd}, w.acceptLoop answers = some (w', e) →
    answers.getLast? = some (.stop e) ∧
      (.stop .failed ∈ answers ↔ e = .failed) := by
  induction answers with
  | nil =>
      intro w w' e h
      cases h
  | cons r rs ih =>
      intro w w' e h
      have hcons : ∀ {w : TcpServer}, w.acceptLoop rs = some (w', e) →
          (∀ e, r ≠ .stop e) → (r :: rs).getLast? = some (.stop e) ∧
            (.stop .failed ∈ r :: rs ↔ e = .failed) := by
        intro w h hr
        obtain ⟨hlast, hfailed⟩ := ih h
        refine ⟨by rw [List.getLast?_cons, hlast]; rfl, ?_⟩
        rw [List.mem_cons, hfailed]
        exact or_iff_right (hr .failed).symm
      cases r with
      | conn fd nonblocking =>
          rw [acceptLoop] at h
          split at h
          · exact hcons h (by simp)
          · cases h
      | eintr => exact hcons h (by simp)
      | stop e' =>
          rw [acceptLoop] at h
          split at h
          · next hnil =>
              cases h
              subst hnil
              refine ⟨rfl, ?_⟩
              simp [eq_comm]
          · cases h

end TcpServer

namespace Connection

theorem readLoop_last {rs : List ReadRes} : ∀ {c c' : Connection}
    {fresh fresh' : List UInt8} {e : ReadEnd},
    c.readLoop fresh rs = some (c', fresh', e) →
    rs.getLast? = some (.stop e) := by
  induction rs with
  | nil =>
      intro c c' fresh fresh' e h
      cases h
  | cons r rs ih =>
      intro c c' fresh fresh' e h
      have hcons : rs.getLast? = some (.stop e) →
          (r :: rs).getLast? = some (.stop e) := by
        intro hlast
        rw [List.getLast?_cons, hlast]
        rfl
      cases r with
      | data bytes =>
          rw [readLoop] at h
          split at h
          · exact hcons (ih h)
          · cases h
      | eintr => exact hcons (ih h)
      | stop e' =>
          rw [readLoop] at h
          split at h
          · next hnil =>
              cases h
              rw [hnil]
              rfl
          · cases h

theorem drainLoop_last {ws : List WriteRes} : ∀ {c c' : Connection}
    {e : WriteEnd}, c.drainLoop ws = some (c', some e) →
    ws.getLast? = some (.stop e) := by
  induction ws with
  | nil =>
      intro c c' e h
      rw [drainLoop] at h
      split at h
      · cases h
      · cases h
  | cons w ws ih =>
      intro c c' e h
      have hcons : ws.getLast? = some (.stop e) →
          (w :: ws).getLast? = some (.stop e) := by
        intro hlast
        rw [List.getLast?_cons, hlast]
        rfl
      cases w with
      | accepted n =>
          rw [drainLoop] at h
          split at h
          · cases h
          · split at h
            · exact hcons (ih h)
            · cases h
      | eintr =>
          rw [drainLoop] at h
          split at h
          · cases h
          · exact hcons (ih h)
      | stop e' =>
          rw [drainLoop] at h
          split at h
          · cases h
          · split at h
            · next hnil =>
                cases h
                rw [hnil]
                rfl
            · cases h

/-- What a handler may find: a connection behind any number of steps, or in
the middle of a dispatch, behind its error branch or its read branch. -/
inductive Met : Connection → Prop
  | new {c : Connection} (h : c.New) : Met c
  | step {c c' : Connection} {l : Label} (h : Met c)
      (hs : Connection.step c l = some c') : Met c'
  | close {c : Connection} (h : Met c) : Met c.close
  | handleRead {c c' : Connection} {reads : List ReadRes} {cb : List UserOp}
      (h : Met c) (hr : c.handleRead reads cb = some c') : Met c'

theorem Met.fdShut {c : Connection} (h : c.Met) : c.FdShut := by
  induction h with
  | new h =>
      intro hstate
      rw [h.state] at hstate
      cases hstate
  | step _ hs ih => exact ih.step hs
  | close _ ih => exact ih.moves Move.close.moves
  | handleRead _ hr ih => exact ih.moves (moves_handleRead hr)

end Connection

/-! ## The three handlers -/

/-- A call of a handler, and the answers its system calls get. -/
inductive EdgeCall where
  | handleAccept (w : TcpServer) (answers : List TcpServer.AcceptRes)
  | handleRead (c : Connection) (hc : c.Met) (reads : List ReadRes)
      (cb : List UserOp)
  | handleWrite (c : Connection) (hc : c.Met) (writes : List WriteRes)

namespace EdgeCall

/-- The answers are those of a whole call. -/
def Returns : EdgeCall → Prop
  | .handleAccept w answers => (w.acceptLoop answers).isSome = true
  | .handleRead c _ reads cb => (c.handleRead reads cb).isSome = true
  | .handleWrite c _ writes => (c.handleWrite writes).isSome = true

/-- When the handler returns, the last call has answered `EAGAIN`, or nothing
is left to write, or the descriptor is closed. -/
def Drained : EdgeCall → Prop
  | .handleAccept _ answers => answers.getLast? = some (.stop .eagain)
  | .handleRead c _ reads cb => ∀ c', c.handleRead reads cb = some c' →
      reads.getLast? = some (.stop .eagain) ∨ c'.fdOpen = false
  | .handleWrite c _ writes => ∀ c', c.handleWrite writes = some c' →
      writes.getLast? = some (.stop .eagain) ∨
        c'.outputBuffer.readable = [] ∨ c'.fdOpen = false

/-- `accept(2)` fails in no other way than by `EAGAIN` and `EINTR`. -/
def AcceptsOk : EdgeCall → Prop
  | .handleAccept _ answers => .stop .failed ∉ answers
  | .handleRead _ _ _ _ | .handleWrite _ _ _ => True

/-- The first in the queue is served, the second has gone away. -/
theorem accept_breaks :
    ¬ ∀ call : EdgeCall, call.Returns → call.Drained := by
  intro h
  have hlast := h (.handleAccept { numThreads := 1 }
    [.conn 7 true, .stop .failed]) (by rw [Returns]; decide)
  simp [Drained] at hlast

theorem drained_handleRead (c : Connection) (hc : c.Met)
    (reads : List ReadRes) (cb : List UserOp) :
    (handleRead c hc reads cb).Drained := by
  have hloop : ∀ {c₁ : Connection} {fresh : List UInt8} {e : ReadEnd},
      c.readLoop [] reads = some (c₁, fresh, e) → c₁.FdShut := by
    intro c₁ fresh e hl
    obtain ⟨n, b, rfl, -⟩ := Connection.readLoop_spec hl
    exact hc.fdShut
  intro c' h
  rw [Connection.handleRead] at h
  split at h
  · cases h
  · next hl =>
      obtain ⟨c₂, hc₂, rfl⟩ := Option.map_eq_some_iff.mp h
      exact .inr ((hloop hl).moves (Connection.moves_deliver hc₂)).close
  · next hl =>
      split at h
      · cases h
        exact .inr (hloop hl).close
      · cases h
  · next hl => exact .inl (Connection.readLoop_last hl)

theorem drained_handleWrite (c : Connection) (hc : c.Met)
    (writes : List WriteRes) : (handleWrite c hc writes).Drained := by
  intro c' h
  rw [Connection.handleWrite] at h
  split at h
  · next hempty =>
      split at h
      · cases h
        refine .inr (.inl ?_)
        rw [Connection.stopWriting_outputBuffer]
        exact (Buffer.empty_eq_true _).mp hempty
      · cases h
  · split at h
    · cases h
    · next hl => exact .inl (Connection.drainLoop_last hl)
    · next c₁ hl =>
        obtain ⟨chunks, b, rfl, -⟩ := Connection.drainLoop_spec hl
        cases h
        have hshut : Connection.FdShut { c with
            outputBuffer := b, log := c.log ++ chunks.map Ev.write } :=
          hc.fdShut
        exact .inr (.inr hshut.close)
    · next hl =>
        obtain ⟨chunks, b, rfl, -, -, hiff⟩ := Connection.drainLoop_spec hl
        cases h
        refine .inr (.inl ?_)
        rw [Connection.notifyWritten_outputBuffer,
          (Connection.halfClose_spec _).2.1,
          Connection.stopWriting_outputBuffer]
        exact hiff.mpr rfl

/-- A readiness edge is used up by its handler, unless `accept(2)` fails. -/
theorem drained_iff {call : EdgeCall} (h : call.Returns) :
    call.Drained ↔ call.AcceptsOk := by
  cases call with
  | handleAccept w answers =>
      obtain ⟨⟨w', e⟩, hloop⟩ := Option.isSome_iff_exists.mp h
      obtain ⟨hlast, hfailed⟩ := TcpServer.acceptLoop_last hloop
      rw [Drained, AcceptsOk, hlast, hfailed]
      cases e with
      | eagain => simp
      | failed => simp
  | handleRead c hc reads cb =>
      exact iff_of_true (drained_handleRead c hc reads cb) trivial
  | handleWrite c hc writes =>
      exact iff_of_true (drained_handleWrite c hc writes) trivial

/-- An interruption, a connection, and nobody else. -/
theorem drained_iff_one :
    (handleAccept { numThreads := 1 }
      [.eintr, .conn 7 true, .stop .eagain]).Drained :=
  (drained_iff (by rw [Returns]; decide)).mpr (by rw [AcceptsOk]; decide)

end EdgeCall

end GameFrame
