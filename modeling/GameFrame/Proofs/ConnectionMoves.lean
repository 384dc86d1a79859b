import GameFrame.Proofs.ConnectionLoops
import Mathlib.Logic.Relation

/-!
# What moves the state of a connection

There are many functions and they call one another, but the state of a
connection, its descriptor and its channel are only ever moved in four ways.
Something beside them is changed; the channel is registered with another mask;
the connection is half-closed; or it is closed. `Move` is one of the four, and
every function but `start()` is a sequence of them.

So what holds of these three fields is proved of four moves and is then true
behind every function. A channel is registered by `send`, which has asked
whether the connection is up, and by the end of `handle_write`, which asks
whether the channel is writing.
-/

namespace GameFrame.Connection

inductive Move (c : Connection) : Connection → Prop
  /-- buffers, functors, the pending half-close, the log -/
  | aside {c' : Connection}
      (h : (c'.state, c'.channel, c'.fdOpen) =
        (c.state, c.channel, c.fdOpen)) : Move c c'
  | register (ch : Channel) (hch : ch.state = c.channel.state)
      (hwhy : c.state ≠ .kDisconnected ∨ c.channel.isWriting = true) :
      Move c { c with channel := ch.update c.fdOpen }
  | disconnecting (h : c.state = .kConnected) :
      Move c { c with state := .kDisconnecting }
  | close : Move c c.close

def Moves : Connection → Connection → Prop := Relation.ReflTransGen Move

variable {c c' c'' : Connection}

theorem Moves.refl : Moves c c := Relation.ReflTransGen.refl

theorem Moves.trans (h : Moves c c') (h' : Moves c' c'') : Moves c c'' :=
  Relation.ReflTransGen.trans h h'

theorem Move.moves (h : Move c c') : Moves c c' := .single h

theorem moves_aside (h : (c'.state, c'.channel, c'.fdOpen) =
    (c.state, c.channel, c.fdOpen)) : Moves c c' := (Move.aside h).moves

theorem Moves.register (h : Moves c c')
    (hwhy : c'.state ≠ .kDisconnected ∨ c'.channel.isWriting = true)
    {ch : Channel} (hch : ch.state = c'.channel.state) :
    Moves c { c' with channel := ch.update c'.fdOpen } :=
  h.trans (Move.register ch hch hwhy).moves

/-- What each of the four preserves. -/
theorem Moves.preserves {P : Connection → Prop}
    (hmove : ∀ {c c'}, P c → Move c c' → P c') (hc : P c) (h : Moves c c') :
    P c' := by
  induction h with
  | refl => exact hc
  | tail _ hlast ih => exact hmove ih hlast

/-! ## The functions -/

theorem Moves.sendRest {c₀ c : Connection} (h : Moves c₀ c)
    (hopen : c.state ≠ .kDisconnected) (rem : List UInt8) :
    Moves c₀ (c.sendRest rem) := by
  have happend : Moves c₀
      { c with outputBuffer := c.outputBuffer.append rem } :=
    h.trans (moves_aside rfl)
  have hmarked : Moves c₀ { c with
      outputBuffer := c.outputBuffer.append rem
      pending := c.pending ++ [ConnFunctor.highWaterMark] } :=
    h.trans (moves_aside rfl)
  rw [Connection.sendRest]
  split
  · exact h
  · dsimp only
    split
    · split
      · exact hmarked
      · exact hmarked.register (.inl hopen) rfl
    · split
      · exact happend
      · exact happend.register (.inl hopen) rfl

theorem moves_send {data : List UInt8} {writes : List WriteRes}
    (h : c.send data writes = some c') : Moves c c' := by
  have hwrote : ∀ chunks, Moves c (c.wrote data chunks) :=
    fun _ => moves_aside rfl
  have hup : c.state = .kConnected → c.state ≠ .kDisconnected := by
    intro h
    simp [h]
  cases send_sent h with
  | ignored hskip => exact moves_aside rfl
  | behind hstate hdata hne =>
      exact (hwrote []).sendRest (hup hstate) data
  | failed chunks hstate hdata hnil hstop =>
      exact (hwrote chunks).trans Move.close.moves
  | taken chunks rem hstate hdata hnil hbytes hrem =>
      exact (hwrote chunks).sendRest (hup hstate) rem

theorem moves_shutdownInLoop (c : Connection) : Moves c c.shutdownInLoop := by
  rw [shutdownInLoop]
  split
  · exact .refl
  · split
    · exact moves_aside rfl
    · exact moves_aside rfl

theorem moves_userOp {o : UserOp} (h : c.userOp o = some c') :
    Moves c c' := by
  cases o with
  | send data writes => exact moves_send h
  | shutdown =>
      cases h
      rw [shutdown]
      split
      · next hstate =>
          exact (Move.disconnecting hstate).moves.trans
            (moves_shutdownInLoop _)
      · exact .refl
  | close =>
      cases h
      exact Move.close.moves
  | retrieve len =>
      cases h
      exact moves_aside rfl

theorem moves_userOps {ops : List UserOp} (h : c.userOps ops = some c') :
    Moves c c' :=
  userOps_preserves (P := Moves c) (fun hc ho => hc.trans (moves_userOp ho))
    .refl h

theorem moves_deliver {fresh : List UInt8} {cb : List UserOp}
    (h : c.deliver fresh cb = some c') : Moves c c' := by
  rw [deliver] at h
  split at h
  · have hnoted : Moves c (c.note (.message fresh)) := moves_aside rfl
    exact hnoted.trans (moves_userOps h)
  · split at h
    · cases h
      exact .refl
    · cases h

theorem moves_handleRead {reads : List ReadRes} {cb : List UserOp}
    (h : c.handleRead reads cb = some c') : Moves c c' := by
  have hheard : ∀ n b, Moves c (c.heard n b) := fun _ _ => moves_aside rfl
  cases handleRead_heard h with
  | more n b fresh c₁ hstop hc₁ => exact (hheard n b).trans (moves_deliver hc₁)
  | ended n b fresh c₁ hstop hc₁ =>
      exact ((hheard n b).trans (moves_deliver hc₁)).trans Move.close.moves
  | failed n b => exact (hheard n b).trans Move.close.moves

theorem moves_stopWriting (c : Connection) : Moves c c.stopWriting := by
  rw [stopWriting]
  split
  · next hwriting => exact Moves.refl.register (.inr hwriting) rfl
  · exact .refl

theorem moves_halfClose (c : Connection) : Moves c c.halfClose := by
  rw [halfClose]
  split
  · exact moves_aside rfl
  · exact .refl

theorem moves_notifyWritten (c : Connection) : Moves c c.notifyWritten := by
  rw [notifyWritten]
  split
  · exact moves_aside rfl
  · exact .refl

theorem moves_handleWrite {writes : List WriteRes}
    (h : c.handleWrite writes = some c') : Moves c c' := by
  have hflushed : ∀ chunks b, Moves c (c.flushed chunks b) :=
    fun _ _ => moves_aside rfl
  cases handleWrite_flushed h with
  | idle => exact moves_stopWriting c
  | full chunks b => exact hflushed chunks b
  | failed chunks b => exact (hflushed chunks b).trans Move.close.moves
  | taken chunks b =>
      have hstop := (hflushed chunks b).trans (moves_stopWriting _)
      exact (hstop.trans (moves_halfClose _)).trans (moves_notifyWritten _)

theorem moves_handleEvent {revents : UInt32} {d : Dispatch}
    (h : c.handleEvent revents d = some c') : Moves c c' := by
  have hclose : ∀ {s s' : Connection}, Moves c s → some s.close = some s' →
      Moves c s' := by
    intro s s' hs h
    cases h
    exact hs.trans Move.close.moves
  exact Channel.handleEvent_preserves hclose hclose
    (fun hs h => hs.trans (moves_handleRead h))
    (fun hs h => hs.trans (moves_handleWrite h)) .refl h

theorem moves_runFunctor {cb : List UserOp}
    (h : c.runFunctor cb = some c') : Moves c c' := by
  have hrest : ∀ fs, Moves c { c with pending := fs } :=
    fun _ => moves_aside rfl
  rw [runFunctor] at h
  split at h
  · cases h
  · split at h
    · cases h
      exact (hrest _).trans (moves_shutdownInLoop _)
    · cases h
  · exact (hrest _).trans (moves_userOps h)
  · exact (hrest _).trans (moves_userOps h)

theorem moves_shutdownElsewhere (c : Connection) :
    Moves c c.shutdownElsewhere := by
  rw [shutdownElsewhere]
  split
  · next hstate =>
      exact (Move.disconnecting hstate).moves.trans (moves_aside rfl)
  · exact .refl

/-- Every step but `start()`. -/
theorem moves_step {l : Label} (hl : l ≠ .start) (h : step c l = some c') :
    Moves c c' := by
  cases l with
  | start => exact absurd rfl hl
  | event revents d => exact moves_handleEvent h
  | op o => exact moves_userOp h
  | shutdownElsewhere =>
      cases h
      exact moves_shutdownElsewhere c
  | functor cb => exact moves_runFunctor h

/-! ## Closed for good -/

theorem close_fdOpen (h : c.state ≠ .kDisconnected) :
    c.close.fdOpen = false := by
  rw [Connection.close, if_neg h]
  dsimp only
  split
  · rfl
  · rfl

/-- The descriptor of a connection that is closed is closed. -/
def FdShut (c : Connection) : Prop := c.state = .kDisconnected → c.fdOpen = false

theorem FdShut.move (hc : c.FdShut) (h : Move c c') : c'.FdShut := by
  intro hstate
  cases h with
  | aside h =>
      simp only [Prod.mk.injEq] at h
      obtain ⟨hs, -, hfd⟩ := h
      rw [hfd]
      exact hc (hs ▸ hstate)
  | register ch hch hwhy => exact hc hstate
  | disconnecting h => cases hstate
  | close =>
      by_cases hopen : c.state = .kDisconnected
      · rw [Connection.close, if_pos hopen]
        exact hc hopen
      · exact close_fdOpen hopen

theorem FdShut.moves (hc : c.FdShut) (h : Moves c c') : c'.FdShut :=
  h.preserves FdShut.move hc

theorem FdShut.close (hc : c.FdShut) : c.close.fdOpen = false :=
  hc.move .close (close_state c)

theorem FdShut.step (hc : c.FdShut) {l : Label} (h : step c l = some c') :
    c'.FdShut := by
  by_cases hl : l = .start
  · subst hl
    cases h
    exact hc
  · exact hc.moves (moves_step hl h)

end GameFrame.Connection
