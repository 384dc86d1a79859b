import GameFrame.Proofs.ConnectionChannel

/-!
# Waiting for `EPOLLOUT`

The loop watches edges. It is told that a socket can be written when that
becomes so, and a socket that was never found full does not become so again.
So a connection that has bytes in its output buffer has to be registered for
`EPOLLOUT`, and some `write(2)` must have met the socket full since the last
time it was told; then there will be another time.

`send` and `handle_write` see to it between them. Bytes go into the buffer
behind a write that was refused or behind other bytes, and `handle_write`
leaves bytes in it only when it has been refused. The mask follows the buffer,
and a half-close that is put off is put off until the buffer is empty.

The history is one bit, kept by `Machine.since`: whether some write has been
refused (`refused`) since the connection was last told that it can write
(`writable`). The answers a step gets from `write(2)` are in its label
(`writesOf`), and a label is only taken if they are all used.

`start()` is no such beginning. The user is told of a connection before it is
started, and what is sent then may have been refused already.
-/

namespace GameFrame

namespace Channel

variable (ch : Channel) (fdOpen : Bool)

theorem isWriting_enableWriting :
    (ch.enableWriting fdOpen).isWriting = true := by
  have hbits : (ch.events ||| EPOLLOUT) &&& EPOLLOUT = EPOLLOUT := by
    rw [← UInt32.toBitVec_inj, UInt32.toBitVec_and, UInt32.toBitVec_or]
    ext i hi
    simp only [BitVec.getElem_and, BitVec.getElem_or]
    cases EPOLLOUT.toBitVec[i] with
    | true => simp
    | false => simp
  rw [isWriting, enableWriting, update_events, hasBits]
  dsimp only
  rw [hbits]
  decide

theorem isWriting_disableWriting :
    (ch.disableWriting fdOpen).isWriting = false := by
  have hbits : (ch.events &&& ~~~EPOLLOUT) &&& EPOLLOUT = 0 := by
    rw [← UInt32.toBitVec_inj, UInt32.toBitVec_and, UInt32.toBitVec_and,
      UInt32.toBitVec_not]
    ext i hi
    simp
  rw [isWriting, disableWriting, update_events, hasBits]
  dsimp only
  rw [hbits]
  decide

theorem isWriting_enableReading :
    (ch.enableReading fdOpen).isWriting = ch.isWriting := by
  rw [isWriting, enableReading, update_events]
  exact isWriting_reading ch.events

end Channel

/-- The answers of `write(2)` that a call gets. -/
def UserOp.writes : UserOp → List WriteRes
  | .send _ writes => writes
  | .shutdown | .close | .retrieve _ => []

namespace Connection

/-- `write(2)` has met the socket full. -/
def full (writes : List WriteRes) : Bool := writes.any (· == .stop .eagain)

/-- The answers of `write(2)` in a step, in their order. -/
def writesOf (c : Connection) : Label → List WriteRes
  | .event revents d =>
      if (c.channel.tied && !d.alive) || Channel.pureHangUp revents then []
      else
        (if hasBits revents (EPOLLIN ||| EPOLLRDHUP) then
          d.cb.flatMap UserOp.writes else []) ++
        if hasBits revents EPOLLOUT then d.writes else []
  | .op o => o.writes
  | .functor cb => cb.flatMap UserOp.writes
  | .start | .shutdownElsewhere => []

/-- Some write of the step met the socket full. -/
def refused (c : Connection) (l : Label) : Bool := full (c.writesOf l)

/-- The connection is told that it can write. -/
def writable (c : Connection) : Label → Bool
  | .event revents d =>
      hasBits revents EPOLLOUT && !(c.channel.tied && !d.alive)
  | .start | .op _ | .shutdownElsewhere | .functor _ => false

/-- The connection is told that it can write, or is started. -/
def writableOrStart (c : Connection) (l : Label) : Bool :=
  c.writable l || l == .start

/-- A send from the connection callback, which is before the start, and the
socket is full. No write behind the start has found that out. -/
theorem refused_before_start :
    ¬ ∀ (c₀ : Connection), c₀.New → c₀.channel = {} →
      ∀ (ls : List Label) (s : Connection × Bool),
        Machine.run (Machine.since step writableOrStart refused) (c₀, false)
          ls = some s →
        s.1.state ≠ .kDisconnected → s.1.outputBuffer.readable ≠ [] →
        s.2 = true := by
  intro h
  refine Machine.not_forall_of_run
    (P := fun s : Connection × Bool => s.1.state ≠ .kDisconnected →
      s.1.outputBuffer.readable ≠ [] → s.2 = true)
    [.op (.send [1] [.stop .eagain]), .start] ?_
    (h {} ⟨rfl, rfl, by decide, rfl, rfl⟩ rfl)
  decide +kernel

/-! ## The invariant -/

/-- The mask is the buffer's, so is the half-close that waits, and the bytes
in the buffer are behind a write that was refused, as `b` says. -/
structure Armed (b : Bool) (c : Connection) : Prop where
  mask : c.channel.isWriting = true ↔ c.outputBuffer.readable ≠ []
  pending : c.shutdownPending = true → c.outputBuffer.readable ≠ []
  full : c.outputBuffer.readable ≠ [] → b = true

/-- As long as the connection is open. -/
def OpenArmed (b : Bool) (c : Connection) : Prop :=
  c.state ≠ .kDisconnected → c.Armed b

section

variable {b b' : Bool} {c c' : Connection}

theorem OpenArmed.mono (h : c.OpenArmed b) (hb : b = true → b' = true) :
    c.OpenArmed b' := by
  intro hopen
  obtain ⟨hmask, hpending, hfull⟩ := h hopen
  exact ⟨hmask, hpending, fun hne => hb (hfull hne)⟩

theorem OpenArmed.or (h : c.OpenArmed b) (b' : Bool) :
    c.OpenArmed (b || b') :=
  h.mono fun hb => by simp [hb]

theorem openArmed_closed (h : c.state = .kDisconnected) : c.OpenArmed b :=
  fun hopen => absurd h hopen

theorem openArmed_close : c.close.OpenArmed b :=
  openArmed_closed (close_state c)

/-- What leaves the three alone and opens nothing. -/
theorem OpenArmed.same (h : c.OpenArmed b)
    (hsame : (c'.channel, c'.outputBuffer, c'.shutdownPending) =
      (c.channel, c.outputBuffer, c.shutdownPending))
    (hstate : c.state = .kDisconnected → c'.state = .kDisconnected) :
    c'.OpenArmed b := by
  simp only [Prod.mk.injEq] at hsame
  obtain ⟨hchannel, hbuffer, hpending⟩ := hsame
  intro hopen
  obtain ⟨hmask, hwait, hfull⟩ := h fun hc => hopen (hstate hc)
  refine ⟨?_, ?_, ?_⟩
  · rw [hchannel, hbuffer]
    exact hmask
  · rw [hpending, hbuffer]
    exact hwait
  · rw [hbuffer]
    exact hfull

/-! ## The functions -/

/-- Bytes that go into the buffer arm the channel, whatever it was before. -/
theorem sendRest_isWriting {rem : List UInt8} (h : rem ≠ []) :
    (c.sendRest rem).channel.isWriting = true := by
  rw [sendRest, if_neg h]
  dsimp only
  split
  · split
    · next hwriting => exact hwriting
    · exact Channel.isWriting_enableWriting _ _
  · split
    · next hwriting => exact hwriting
    · exact Channel.isWriting_enableWriting _ _

theorem armed_sendRest {rem : List UInt8} (h : rem ≠ []) :
    (c.sendRest rem).Armed true := by
  have hne : (c.sendRest rem).outputBuffer.readable ≠ [] := by
    rw [(sendRest_spec c rem).2.2.2.1]
    simp [h]
  exact ⟨⟨fun _ => hne, fun _ => sendRest_isWriting h⟩, fun _ => hne,
    fun _ => rfl⟩

theorem full_of_stop {writes : List WriteRes}
    (h : writeStop writes = some .eagain) : full writes = true := by
  induction writes with
  | nil => cases h
  | cons w ws ih =>
      have hcons : full (w :: ws) = (w == .stop .eagain || full ws) := rfl
      rw [hcons, Bool.or_eq_true]
      cases w with
      | stop e =>
          cases h
          exact .inl (by decide)
      | accepted n => exact .inr (ih h)
      | eintr => exact .inr (ih h)

theorem OpenArmed.send (h : c.OpenArmed b) {data : List UInt8}
    {writes : List WriteRes} (hs : c.send data writes = some c') :
    c'.OpenArmed (b || full writes) := by
  cases send_sent hs with
  | ignored hskip => exact (h.or _).same rfl id
  | behind hstate hdata hne =>
      intro _
      have hb : b = true := (h (by rw [hstate]; simp)).full hne
      rw [hb, Bool.true_or]
      exact armed_sendRest hdata
  | failed chunks hstate hdata hnil hstop => exact openArmed_close
  | taken chunks rem hstate hdata hnil hbytes hrem =>
      rcases hrem with ⟨rfl, -⟩ | ⟨hne, hstop⟩
      · exact (h.or _).same rfl id
      · intro _
        rw [full_of_stop hstop, Bool.or_true]
        exact armed_sendRest hne

theorem OpenArmed.shutdownInLoop (h : c.OpenArmed b) :
    c.shutdownInLoop.OpenArmed b := by
  rw [Connection.shutdownInLoop]
  split
  · exact h
  · split
    · exact h.same rfl id
    · next hempty =>
        have hne : c.outputBuffer.readable ≠ [] := fun hnil =>
          hempty ((Buffer.empty_eq_true _).mpr hnil)
        intro hopen
        obtain ⟨hmask, -, hfull⟩ := h hopen
        exact ⟨hmask, fun _ => hne, hfull⟩

theorem OpenArmed.shutdown (h : c.OpenArmed b) : c.shutdown.OpenArmed b := by
  rw [Connection.shutdown]
  split
  · next hstate =>
      refine OpenArmed.shutdownInLoop (h.same rfl fun hc => ?_)
      rw [hstate] at hc
      cases hc
  · exact h

theorem OpenArmed.userOp (h : c.OpenArmed b) {o : UserOp}
    (ho : c.userOp o = some c') : c'.OpenArmed (b || full o.writes) := by
  cases o with
  | send data writes => exact h.send ho
  | shutdown =>
      cases ho
      exact h.shutdown.or _
  | close =>
      cases ho
      exact openArmed_close
  | retrieve len =>
      cases ho
      exact (h.or _).same rfl id

theorem full_append (ws ws' : List WriteRes) :
    full (ws ++ ws') = (full ws || full ws') := by
  rw [full, List.any_append]
  rfl

end

theorem OpenArmed.userOps {ops : List UserOp} : ∀ {b : Bool}
    {c c' : Connection}, c.OpenArmed b → c.userOps ops = some c' →
    c'.OpenArmed (b || full (ops.flatMap UserOp.writes)) := by
  induction ops with
  | nil =>
      intro b c c' h ho
      cases ho
      exact h.or _
  | cons o ops ih =>
      intro b c c' h ho
      obtain ⟨c₁, hone, hrest⟩ := userOps_cons.mp ho
      have := ih (h.userOp hone) hrest
      rwa [Bool.or_assoc, ← full_append] at this

section

variable {b : Bool} {c c' : Connection}

theorem OpenArmed.deliver (h : c.OpenArmed b) {fresh : List UInt8}
    {cb : List UserOp} (hd : c.deliver fresh cb = some c') :
    c'.OpenArmed (b || full (cb.flatMap UserOp.writes)) := by
  rw [Connection.deliver] at hd
  split at hd
  · have hnoted : (c.note (.message fresh)).OpenArmed b := h.same rfl id
    exact hnoted.userOps hd
  · split at hd
    · cases hd
      exact h.or _
    · cases hd

theorem OpenArmed.handleRead (h : c.OpenArmed b) {reads : List ReadRes}
    {cb : List UserOp} (hr : c.handleRead reads cb = some c') :
    c'.OpenArmed (b || full (cb.flatMap UserOp.writes)) := by
  have hheard : ∀ n buf, (c.heard n buf).OpenArmed b :=
    fun _ _ => h.same rfl id
  cases handleRead_heard hr with
  | more n buf fresh c₁ hstop hc₁ => exact (hheard n buf).deliver hc₁
  | ended n buf fresh c₁ => exact openArmed_close
  | failed n buf => exact openArmed_close

theorem stopWriting_isWriting (c : Connection) :
    c.stopWriting.channel.isWriting = false := by
  rw [stopWriting]
  split
  · exact Channel.isWriting_disableWriting _ _
  · next hwriting => simpa using hwriting

/-- The buffer has run empty: the mask is taken back, and the half-close that
waited is done. -/
theorem armed_drained (h : c.outputBuffer.readable = []) :
    c.stopWriting.halfClose.notifyWritten.Armed b := by
  have hnotify : ∀ d : Connection, d.Armed b → d.notifyWritten.Armed b := by
    intro d hd
    rw [notifyWritten]
    split
    · exact ⟨hd.mask, hd.pending, hd.full⟩
    · exact hd
  obtain ⟨hchannel, hbuffer, hpending⟩ := halfClose_spec c.stopWriting
  rw [stopWriting_outputBuffer] at hbuffer
  apply hnotify
  refine ⟨?_, ?_, ?_⟩
  · rw [hchannel, hbuffer, stopWriting_isWriting, h]
    simp
  · rw [hpending]
    simp
  · rw [hbuffer, h]
    simp

/-- Whatever was refused before, `handle_write` finds out again. -/
theorem OpenArmed.handleWrite (h : c.OpenArmed b) {writes : List WriteRes}
    (hw : c.handleWrite writes = some c') : c'.OpenArmed (full writes) := by
  cases handleWrite_flushed hw with
  | idle hnil =>
      intro hopen
      rw [stopWriting_state] at hopen
      obtain ⟨hmask, hpending, -⟩ := h hopen
      have hoff : ¬ c.channel.isWriting = true := fun hon =>
        hmask.mp hon hnil
      rw [Connection.stopWriting, if_neg hoff]
      exact ⟨hmask, hpending, fun hne => absurd hnil hne⟩
  | full chunks buf hne hbytes hleft hstop =>
      intro hopen
      obtain ⟨hmask, hpending, -⟩ := h hopen
      exact ⟨⟨fun _ => hleft, fun _ => hmask.mpr hne⟩, fun _ => hleft,
        fun _ => full_of_stop hstop⟩
  | failed chunks buf => exact openArmed_close
  | taken chunks buf hne hbytes hnil =>
      intro _
      exact armed_drained hnil

/-! ## Steps and runs -/

theorem OpenArmed.event (h : c.OpenArmed b) {revents : UInt32} {d : Dispatch}
    (he : c.handleEvent revents d = some c') :
    c'.OpenArmed (!c.writable (.event revents d) && b ||
      c.refused (.event revents d)) := by
  rw [Connection.handleEvent, Channel.handleEvent] at he
  split at he
  · next hgone =>
      cases he
      simp only [writable, hgone, Bool.not_true, Bool.and_false, Bool.not_false,
        Bool.true_and]
      exact h.or _
  · next hthere =>
      rw [Channel.handleEventWithGuard] at he
      split at he
      · cases he
        exact openArmed_close
      · next hhup =>
          obtain ⟨c₀, h₀, he⟩ := Option.bind_eq_some_iff.mp he
          obtain ⟨c₁, h₁, he⟩ := Option.bind_eq_some_iff.mp he
          have hthere' : (c.channel.tied && !d.alive) = false := by
            simpa using hthere
          have hhup' : Channel.pureHangUp revents = false := by simpa using hhup
          have herr : c₀.OpenArmed b := by
            rcases Channel.when_eq_some h₀ with ⟨-, h₀⟩ | ⟨-, rfl⟩
            · cases h₀
              exact openArmed_close
            · exact h
          have hread : c₁.OpenArmed (b || full
              (if hasBits revents (EPOLLIN ||| EPOLLRDHUP) then
                d.cb.flatMap UserOp.writes else [])) := by
            rcases Channel.when_eq_some h₁ with ⟨hbit, h₁⟩ | ⟨hbit, rfl⟩
            · rw [hbit]
              exact herr.handleRead h₁
            · exact herr.or _
          simp only [writable, refused, writesOf, hthere', hhup', Bool.or_false,
            Bool.false_eq_true, if_false, Bool.not_false, Bool.and_true,
            full_append]
          rcases Channel.when_eq_some he with ⟨hbit, he⟩ | ⟨hbit, rfl⟩
          · rw [hbit]
            refine (hread.handleWrite he).mono fun hb => ?_
            simp [hb]
          · rw [hbit]
            refine hread.mono fun hb => ?_
            simpa [full] using hb

theorem OpenArmed.functor (h : c.OpenArmed b) {cb : List UserOp}
    (hf : c.runFunctor cb = some c') :
    c'.OpenArmed (b || full (cb.flatMap UserOp.writes)) := by
  have hrest : ∀ fs, OpenArmed b { c with pending := fs } := fun _ =>
    h.same rfl id
  rw [Connection.runFunctor] at hf
  split at hf
  · cases hf
  · split at hf
    · cases hf
      exact (hrest _).shutdownInLoop.or _
    · cases hf
  · exact (hrest _).userOps hf
  · exact (hrest _).userOps hf

theorem OpenArmed.step (h : c.OpenArmed b) {l : Label}
    (hs : Connection.step c l = some c') :
    c'.OpenArmed (!c.writable l && b || c.refused l) := by
  cases l with
  | start =>
      cases hs
      intro hopen
      obtain ⟨hmask, hpending, hfull⟩ := h.or (c.refused .start) hopen
      refine ⟨?_, hpending, hfull⟩
      rw [Connection.start, Channel.isWriting_enableReading]
      exact hmask
  | event revents d => exact h.event hs
  | op o => exact h.userOp hs
  | shutdownElsewhere =>
      cases hs
      refine (h.or _).same ?_ ?_
      · rw [Connection.shutdownElsewhere]
        split
        · rfl
        · rfl
      · intro hc
        rw [Connection.shutdownElsewhere, if_neg (by rw [hc]; simp)]
        exact hc
  | functor cb => exact h.functor hs

theorem New.openArmed (h : c.New) (hchannel : c.channel = {}) :
    c.OpenArmed false := by
  intro _
  refine ⟨?_, ?_, ?_⟩
  · rw [hchannel, h.outputBuffer]
    decide
  · rw [h.shutdownPending]
    simp
  · rw [h.outputBuffer]
    simp

/-- As long as a connection is open, its channel is writing if and only if it
has bytes buffered, a half-close is put off only for these, and if there are
any, a write was refused since the connection was last told that it can write,
or since it was made. -/
theorem writes_awaited {c₀ : Connection} (hnew : c₀.New)
    (hchannel : c₀.channel = {}) {ls : List Label} {s : Connection × Bool}
    (hrun : Machine.run (Machine.since Connection.step writable refused)
      (c₀, false) ls = some s)
    (hopen : s.1.state ≠ .kDisconnected) :
    (s.1.channel.isWriting = true ↔ s.1.outputBuffer.readable ≠ []) ∧
      (s.1.shutdownPending = true → s.1.outputBuffer.readable ≠ []) ∧
      (s.1.outputBuffer.readable ≠ [] → s.2 = true) := by
  have hs : s.1.OpenArmed s.2 :=
    Machine.run_preserves (P := fun s : Connection × Bool => s.1.OpenArmed s.2)
      (fun hs h => by
        obtain ⟨hstep, hb⟩ := Machine.since_some.mp h
        rw [hb]
        exact hs.step hstep)
      (hnew.openArmed hchannel) hrun
  exact ⟨(hs hopen).mask, (hs hopen).pending, (hs hopen).full⟩

/-- The socket is full, then it can be written again and takes one byte, the
message callback putting two more behind. -/
def halfTaken : List Label :=
  [.start, .op (.send [1, 2] [.stop .eagain]),
    .event (EPOLLIN ||| EPOLLOUT)
      { reads := [.data [7], .stop .eagain], cb := [.send [3, 4] [], .shutdown]
        writes := [.accepted 1, .stop .eagain] }]

theorem writes_awaited_half :
    ∃ s : Connection × Bool,
      Machine.run (Machine.since Connection.step writable refused)
        ({}, false) halfTaken = some s ∧
      s.1.outputBuffer.readable = [2, 3, 4] ∧ s.1.shutdownPending = true ∧
      s.1.channel.isWriting = true ∧ s.2 = true := by
  have hany : (Machine.run (Machine.since Connection.step writable refused)
      ({}, false) halfTaken).any (fun s =>
        decide (s.1.state ≠ .kDisconnected ∧ s.1.shutdownPending = true ∧
          s.1.outputBuffer.readable = [2, 3, 4])) = true := by
    decide +kernel
  obtain ⟨s, hrun, hs⟩ := (Option.any_eq_true _ _).mp hany
  obtain ⟨hopen, hpending, hbytes⟩ := of_decide_eq_true hs
  obtain ⟨hmask, -, hfull⟩ := writes_awaited ⟨rfl, rfl, by decide, rfl, rfl⟩
    rfl hrun hopen
  exact ⟨s, hrun, hbytes, hpending, hmask.mpr (by simp [hbytes]),
    hfull (by simp [hbytes])⟩

end

end Connection

end GameFrame
