import GameFrame.Proofs.ConnectionMoves

/-!
# The channel of a connection

A channel goes from `kNew` to `kAdded` to `kDeleted`. As long as a connection
is open its channel is one of the first two, and `close()` makes it the third.
Behind a close `epoll_ctl` must not be called again, for the number may be
somebody else's, and the functions that call it do not ask for the state of
the connection. `send` does; `handle_write` asks whether the channel is
writing, which `close()` has seen to; and `start` does not ask at all. So it
is `start` that goes wrong, and the only one (`goes_step`).
-/

namespace GameFrame

namespace Channel

variable {ch : Channel}

@[simp] theorem update_events (ch : Channel) (fdOpen : Bool) :
    (ch.update fdOpen).events = ch.events := by
  rw [update]
  split
  · split <;> rfl
  · split <;> rfl
  · rfl

/-- While the number is open a channel only goes forward. -/
theorem update_open (h : ch.state ≠ .kDeleted) :
    (ch.update true).state = .kAdded := by
  cases hs : ch.state with
  | kNew => rw [update, hs]; rfl
  | kAdded => rw [update, hs]; exact hs
  | kDeleted => exact absurd hs h

/-- On a number that is not open, nothing is registered again. -/
theorem update_closed (h : ch.state = .kDeleted) :
    (ch.update false).state = .kDeleted := by
  rw [update, h]
  exact h

/-- Reading is not writing. -/
theorem isWriting_reading (events : UInt32) :
    hasBits (events ||| kReadEvent) EPOLLOUT = hasBits events EPOLLOUT := by
  have hbits : kReadEvent.toBitVec &&& EPOLLOUT.toBitVec = 0#32 := by decide
  have hsame : (events ||| kReadEvent) &&& EPOLLOUT = events &&& EPOLLOUT := by
    rw [← UInt32.toBitVec_inj, UInt32.toBitVec_and, UInt32.toBitVec_or,
      BitVec.and_or_distrib_right, hbits, BitVec.or_zero, UInt32.toBitVec_and]
  rw [hasBits, hasBits, hsame]

end Channel

namespace Connection

/-- An open connection can register its channel, and has not taken it down. A
closed one has, and is not writing. -/
structure Enrolled (c : Connection) : Prop where
  opened : c.state ≠ .kDisconnected →
    c.fdOpen = true ∧ c.channel.state ≠ .kDeleted
  closed : c.state = .kDisconnected →
    c.channel.state = .kDeleted ∧ c.channel.isWriting = false

/-- From `c₀` to `c` the channel has only gone forward, and not behind a
close. -/
structure Goes (c₀ c : Connection) : Prop where
  enrolled : c.Enrolled
  closed : c₀.state = .kDisconnected → c.state = .kDisconnected
  added : c₀.channel.state ≠ .kNew → c.channel.state ≠ .kNew

theorem Goes.refl {c : Connection} (h : c.Enrolled) : Goes c c := ⟨h, id, id⟩

section

variable {c₀ c c' : Connection}

/-- What changes neither the channel nor whether the connection is closed. -/
theorem Goes.same (h : Goes c₀ c) (hchannel : c'.channel = c.channel)
    (hfd : c'.fdOpen = c.fdOpen)
    (hstate : c'.state = .kDisconnected ↔ c.state = .kDisconnected) :
    Goes c₀ c' where
  enrolled := by
    refine ⟨fun hopen => ?_, fun hclosed => ?_⟩
    · rw [hchannel, hfd]
      exact h.enrolled.opened fun hc => hopen (hstate.mpr hc)
    · rw [hchannel]
      exact h.enrolled.closed (hstate.mp hclosed)
  closed := fun h₀ => hstate.mpr (h.closed h₀)
  added := hchannel ▸ h.added

theorem Goes.close (h : Goes c₀ c) : Goes c₀ c.close := by
  by_cases hc : c.state = .kDisconnected
  · rw [Connection.close, if_pos hc]
    exact h
  · have hclosed : ∀ {c' : Connection}, c'.state = .kDisconnected →
        c'.channel = (c.channel.disableAll c.fdOpen).remove →
        Goes c₀ c' := by
      intro c' hstate hchannel
      refine ⟨⟨fun hopen => absurd hstate hopen, fun _ => ?_⟩,
        fun _ => hstate, fun _ => ?_⟩
      · rw [hchannel]
        refine ⟨rfl, ?_⟩
        show hasBits (Channel.disableAll _ _).events EPOLLOUT = false
        rw [Channel.disableAll, Channel.update_events]
        show hasBits 0 EPOLLOUT = false
        decide
      · rw [hchannel]
        simp [Channel.remove]
    rw [Connection.close, if_neg hc]
    dsimp only
    split
    · exact hclosed rfl rfl
    · exact hclosed rfl rfl

/-- An open connection has its channel registered. -/
theorem Goes.update (h : Goes c₀ c) (hopen : c.state ≠ .kDisconnected)
    {ch : Channel} (hch : ch.state = c.channel.state) :
    Goes c₀ { c with channel := ch.update c.fdOpen } := by
  obtain ⟨hfd, hstate⟩ := h.enrolled.opened hopen
  have hadded : (ch.update c.fdOpen).state = .kAdded := by
    rw [hfd]
    exact Channel.update_open (hch ▸ hstate)
  refine ⟨⟨fun _ => ⟨hfd, ?_⟩, fun hc => absurd hc hopen⟩, h.closed, fun _ => ?_⟩
  · rw [hadded]
    nofun
  · rw [hadded]
    nofun

/-- Leaving `kConnected` for the half-closed state. -/
theorem Goes.disconnecting (h : Goes c₀ c) (hstate : c.state = .kConnected) :
    Goes c₀ { c with state := .kDisconnecting } :=
  h.same rfl rfl ⟨nofun, fun hc => nomatch hstate.symm.trans hc⟩

theorem Goes.move (h : Goes c₀ c) (hmove : Move c c') : Goes c₀ c' := by
  cases hmove with
  | aside hsame =>
      simp only [Prod.mk.injEq] at hsame
      obtain ⟨hstate, hchannel, hfd⟩ := hsame
      exact h.same hchannel hfd (by rw [hstate])
  | register ch hch hwhy =>
      refine h.update (fun hclosed => ?_) hch
      rcases hwhy with hopen | hwriting
      · exact hopen hclosed
      · rw [(h.enrolled.closed hclosed).2] at hwriting
        cases hwriting
  | disconnecting hstate => exact h.disconnecting hstate
  | close => exact h.close

theorem Goes.moves (h : Goes c₀ c) (hmoves : Moves c c') : Goes c₀ c' :=
  hmoves.preserves Goes.move h

/-- `start()` of a connection that is open, or whose number is not. -/
theorem Goes.start (h : Goes c₀ c)
    (hok : c.state = .kDisconnected → c.fdOpen = false) :
    Goes c₀ c.start := by
  by_cases hopen : c.state = .kDisconnected
  · have hch := h.enrolled.closed hopen
    have hstate : c.start.channel.state = .kDeleted := by
      show (Channel.update _ c.fdOpen).state = _
      rw [hok hopen]
      exact Channel.update_closed hch.1
    refine ⟨⟨fun hne => absurd hopen hne, fun _ => ⟨hstate, ?_⟩⟩,
      fun _ => hopen, fun _ => by rw [hstate]; nofun⟩
    show hasBits (Channel.update _ c.fdOpen).events EPOLLOUT = false
    rw [Channel.update_events]
    exact (Channel.isWriting_reading _).trans hch.2
  · exact h.update hopen rfl

/-- No step but `start()` registers the channel of a closed connection. -/
theorem goes_step {l : Label} (h : c.Enrolled)
    (hok : l = .start → c.state = .kDisconnected → c.fdOpen = false)
    (hs : step c l = some c') : Goes c c' := by
  have hc := Goes.refl h
  by_cases hl : l = .start
  · subst hl
    cases hs
    exact hc.start (hok rfl)
  · exact hc.moves (moves_step hl hs)

end

end Connection

end GameFrame
