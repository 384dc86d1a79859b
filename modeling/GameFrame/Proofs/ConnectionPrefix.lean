import GameFrame.Proofs.ConnectionCalls
import GameFrame.Proofs.ConnectionStream

/-!
# What the peer gets of a connection that is closed

The stream of a connection is exact until it is closed. It may be closed in the
middle of anything: by a write that fails, by the peer, by the message callback
with data still in the buffer, and the dispatch that closed it goes on to
`handle_write` and writes what is buffered all the same. Something is lost then.
But what the peer gets is still the beginning of what was sent, and nothing in
between is missing (`bytes`).

What is lost without being in the buffer is what a failed `send` had not
written, and there is one such `send` at most. It only gets that far if nothing
was buffered, so there is nothing behind it that could come out instead
(`whole`). A `close()` drops nothing of the buffer.
-/

namespace GameFrame.Connection

/-- The calls that are made of the connection in a step. -/
def Label.ops : Label → List UserOp
  | .op o => [o]
  | .event _ d => d.cb
  | .functor cb => cb
  | .start | .shutdownElsewhere => []

/-- One of the calls that were made was a `send` of which `rem` was left when a
write failed. What it got through is in the log behind the call, and then comes
the close. -/
def CutShort (c : Connection) (made : UserOp → Prop) (rem : List UInt8) :
    Prop :=
  ∃ (data : List UInt8) (writes : List WriteRes) (before : List Ev)
    (chunks : List (List UInt8)), made (.send data writes) ∧
    writeStop writes = some .fatal ∧ rem ≠ [] ∧
    chunks.flatten ++ rem = data ∧
    before ++ Ev.sendCall .kConnected data :: chunks.map Ev.write ++
      [Ev.closeFd] <+: c.log

/-- The calls that were made so far are among those of `made`. -/
structure Prefixed (c : Connection) (made : UserOp → Prop := fun _ => True) :
    Prop where
  bytes : written c.log ++ c.outputBuffer.readable <+: accepted c.log
  whole : written c.log ++ c.outputBuffer.readable = accepted c.log ∨
    c.state = .kDisconnected ∧ c.outputBuffer.readable = [] ∧
      ∃ rem, c.CutShort made rem ∧ written c.log ++ rem = accepted c.log

variable {made : UserOp → Prop}

theorem CutShort.later {c c' : Connection} {rem : List UInt8}
    (h : c.CutShort made rem) (hlog : c.log <+: c'.log) :
    c'.CutShort made rem := by
  obtain ⟨data, writes, before, chunks, hmade, hstop, hrem, hdata, hpre⟩ := h
  exact ⟨data, writes, before, chunks, hmade, hstop, hrem, hdata,
    hpre.trans hlog⟩

theorem New.prefixed {c : Connection} (hc : c.New) : c.Prefixed made := by
  have heq : written c.log ++ c.outputBuffer.readable = accepted c.log := by
    rw [hc.log, hc.outputBuffer]
    rfl
  exact ⟨heq ▸ List.prefix_refl _, .inl heq⟩

/-- All of it is there, written or buffered. -/
theorem Prefixed.of_eq {c : Connection}
    (h : written c.log ++ c.outputBuffer.readable = accepted c.log) :
    c.Prefixed made := ⟨h ▸ List.prefix_refl _, .inl h⟩

theorem Prefixed.all {c : Connection} (hc : c.Prefixed made)
    (hopen : c.state ≠ .kDisconnected) :
    written c.log ++ c.outputBuffer.readable = accepted c.log :=
  hc.whole.resolve_right fun h => hopen h.1

/-- Something that neither writes nor accepts anything. -/
theorem Prefixed.neutral {c c' : Connection} (hc : c.Prefixed made) {new : List Ev}
    (hlog : c'.log = c.log ++ new)
    (hnew : ∀ e ∈ new, written [e] = [] ∧ accepted [e] = [])
    (hout : c'.outputBuffer = c.outputBuffer)
    (hstate : c.state = .kDisconnected → c'.state = .kDisconnected) :
    c'.Prefixed made := by
  have hwritten : written c'.log = written c.log := by
    have hw : written new = [] := by
      refine List.flatMap_eq_nil_iff.mpr fun e he => ?_
      have := (hnew e he).1
      rwa [written, List.flatMap_singleton] at this
    rw [hlog, written_append, hw, List.append_nil]
  have haccepted : accepted c'.log = accepted c.log := by
    have ha : accepted new = [] := by
      refine List.flatMap_eq_nil_iff.mpr fun e he => ?_
      have := (hnew e he).2
      rwa [accepted, List.flatMap_singleton] at this
    rw [hlog, accepted_append, ha, List.append_nil]
  constructor
  · rw [hwritten, haccepted, hout]
    exact hc.bytes
  · rw [hwritten, haccepted, hout]
    rcases hc.whole with hall | ⟨hclosed, hempty, rem, hcut, hrem⟩
    · exact .inl hall
    · exact .inr ⟨hstate hclosed, hempty, rem,
        hcut.later (hlog ▸ List.prefix_append _ _), hrem⟩

/-- Nothing is logged at all. -/
theorem Prefixed.other {c c' : Connection} (hc : c.Prefixed made)
    (hlog : c'.log = c.log) (hout : c'.outputBuffer = c.outputBuffer)
    (hstate : c.state = .kDisconnected → c'.state = .kDisconnected) :
    c'.Prefixed made :=
  hc.neutral (hlog.trans (List.append_nil _).symm)
    (fun _ h => absurd h List.not_mem_nil) hout hstate

theorem Prefixed.note {c : Connection} (hc : c.Prefixed made) {e : Ev}
    (he : written [e] = [] ∧ accepted [e] = []) : (c.note e).Prefixed made :=
  hc.neutral rfl (fun _ h => (List.mem_singleton.mp h) ▸ he) rfl id

theorem Prefixed.close {c : Connection} (hc : c.Prefixed made) :
    c.close.Prefixed made := by
  by_cases hclosed : c.state = .kDisconnected
  · rw [Connection.close, if_pos hclosed]
    exact hc
  · refine hc.neutral (close_log hclosed) (fun e he => ?_)
      (close_outputBuffer c) fun _ => close_state c
    rcases List.mem_cons.mp he with rfl | he
    · exact ⟨rfl, rfl⟩
    · split at he
      · rw [List.mem_singleton.mp he]
        exact ⟨rfl, rfl⟩
      · cases he

/-! ## `send` -/

/-- The log of a call of `send` that was accepted. -/
theorem accepted_wrote {c : Connection} (hstate : c.state = .kConnected)
    (data : List UInt8) (chunks : List (List UInt8)) :
    written (c.wrote data chunks).log = written c.log ++ chunks.flatten ∧
      accepted (c.wrote data chunks).log = accepted c.log ++ data := by
  rw [wrote, ← List.singleton_append]
  simp only [written_append, accepted_append, written_writes, accepted_writes,
    List.append_nil, hstate]
  exact ⟨by simp [written], by simp [accepted]⟩

/-- What is left of the data goes into the buffer. -/
theorem Prefixed.wrote {c : Connection} (hc : c.Prefixed made)
    (hstate : c.state = .kConnected) {data rem : List UInt8}
    {chunks : List (List UInt8)} (hdata : chunks.flatten ++ rem = data)
    (hempty : chunks = [] ∨ c.outputBuffer.readable = []) :
    ((c.wrote data chunks).sendRest rem).Prefixed made := by
  obtain ⟨-, hlog, -, hout, -⟩ := sendRest_spec (c.wrote data chunks) rem
  obtain ⟨hwritten, haccepted⟩ := accepted_wrote hstate data chunks
  have hall := hc.all (by rw [hstate]; nofun)
  refine .of_eq ?_
  rw [hlog, hout, hwritten, haccepted, ← hall, ← hdata]
  show _ ++ (c.outputBuffer.readable ++ rem) = _
  rcases hempty with rfl | hnil
  · simp
  · simp [hnil]

/-- What is left of the data is lost, and the connection with it. -/
theorem Prefixed.lost {c : Connection} (hc : c.Prefixed made)
    (hstate : c.state = .kConnected) (hnil : c.outputBuffer.readable = [])
    {data rem : List UInt8} {chunks : List (List UInt8)}
    {writes : List WriteRes} (ho : made (.send data writes))
    (hstop : writeStop writes = some .fatal) (hleft : rem ≠ [])
    (hdata : chunks.flatten ++ rem = data) :
    (c.wrote data chunks).close.Prefixed made := by
  have hall := hc.all (by rw [hstate]; nofun)
  obtain ⟨hwritten, haccepted⟩ := accepted_wrote hstate data chunks
  have hclose := close_log (c := c.wrote data chunks)
    (by show c.state ≠ _; rw [hstate]; nofun)
  have hlog : written (c.wrote data chunks).close.log =
        written (c.wrote data chunks).log ∧
      accepted (c.wrote data chunks).close.log =
        accepted (c.wrote data chunks).log := by
    rw [hclose]
    split
    · simp [written, accepted]
    · simp [written, accepted]
  have hout : (c.wrote data chunks).close.outputBuffer.readable = [] := by
    rw [close_outputBuffer]
    exact hnil
  have hcut : (c.wrote data chunks).close.CutShort made rem := by
    refine ⟨data, writes, c.log, chunks, ho, hstop, hleft, hdata, ?_⟩
    rw [hclose, ← hstate]
    exact (List.prefix_append_right_inj _).mpr ⟨_, rfl⟩
  have hrem : written (c.wrote data chunks).close.log ++ rem =
      accepted (c.wrote data chunks).close.log := by
    rw [hlog.1, hlog.2, hwritten, haccepted, ← hall, hnil, ← hdata]
    simp
  refine ⟨?_, .inr ⟨close_state _, hout, rem, hcut, hrem⟩⟩
  rw [hout, List.append_nil, ← hrem]
  exact List.prefix_append _ _

theorem Prefixed.send {c c' : Connection} (hc : c.Prefixed made)
    {data : List UInt8} {writes : List WriteRes}
    (ho : made (.send data writes))
    (h : c.send data writes = some c') : c'.Prefixed made := by
  have hlogged : ∀ chunks : List (List UInt8),
      { c.note (.sendCall c.state data) with
        log := (c.note (.sendCall c.state data)).log ++ chunks.map Ev.write } =
      c.wrote data chunks := by
    intro chunks
    rw [Connection.wrote, ← List.singleton_append, ← List.append_assoc]
    rfl
  rw [Connection.send] at h
  split at h
  · next hskip =>
      split at h
      · cases h
        refine hc.note ⟨rfl, ?_⟩
        rcases hskip with hstate | rfl
        · cases hs : c.state with
          | kConnected => exact absurd hs hstate
          | kDisconnecting => rfl
          | kDisconnected => rfl
        · cases c.state <;> rfl
      · cases h
  · next hskip =>
      have hstate : c.state = .kConnected :=
        Decidable.of_not_not fun hne => hskip (.inl hne)
      split at h
      · next hempty =>
          have hnil := (Buffer.empty_eq_true _).mp hempty
          split at h
          · next hloop =>
              obtain ⟨chunks, rfl, hbytes, hstop, hiff⟩ := sendLoop_spec hloop
              cases h
              rw [hlogged]
              exact hc.lost hstate hnil ho hstop.symm
                (fun hrem => Option.some_ne_none _ (hiff.mp hrem)) hbytes
          · next hloop =>
              obtain ⟨chunks, rfl, hbytes, -⟩ := sendLoop_spec hloop
              cases h
              rw [hlogged]
              exact hc.wrote hstate hbytes (.inr hnil)
          · cases h
      · split at h
        · cases h
          have hbehind : ((c.wrote data []).sendRest data).Prefixed made :=
            hc.wrote hstate rfl (.inl rfl)
          exact hbehind
        · cases h

/-! ## The other functions -/

theorem Prefixed.shutdownInLoop {c : Connection} (hc : c.Prefixed made) :
    c.shutdownInLoop.Prefixed made := by
  rw [Connection.shutdownInLoop]
  split
  · exact hc
  · split
    · exact hc.note ⟨rfl, rfl⟩
    · exact hc.other rfl rfl id

theorem Prefixed.shutdown {c : Connection} (hc : c.Prefixed made) :
    c.shutdown.Prefixed made := by
  rw [Connection.shutdown]
  split
  · next hstate =>
      refine Prefixed.shutdownInLoop (hc.other rfl rfl fun h => ?_)
      rw [hstate] at h
      cases h
  · exact hc

theorem Prefixed.userOp {c c' : Connection} (hc : c.Prefixed made) {o : UserOp}
    (ho : made o) (h : c.userOp o = some c') : c'.Prefixed made := by
  cases o with
  | send data writes => exact hc.send ho h
  | shutdown =>
      cases h
      exact hc.shutdown
  | close =>
      cases h
      exact hc.close
  | retrieve len =>
      cases h
      exact hc.other rfl rfl id

theorem Prefixed.userOps {c c' : Connection} (hc : c.Prefixed made)
    {cb : List UserOp} (ho : ∀ o ∈ cb, made o) (h : c.userOps cb = some c') :
    c'.Prefixed made := by
  have hrun : Machine.run Connection.userOp c cb = some c' := h
  exact Machine.run_preserves_of_mem (P := (·.Prefixed made))
    (fun hmem hc hop => hc.userOp (ho _ hmem) hop) hc hrun

theorem Prefixed.deliver {c c' : Connection} (hc : c.Prefixed made)
    {fresh : List UInt8} {cb : List UserOp} (ho : ∀ o ∈ cb, made o)
    (h : c.deliver fresh cb = some c') : c'.Prefixed made := by
  rw [Connection.deliver] at h
  split at h
  · have hnote : (c.note (.message fresh)).Prefixed made := hc.note ⟨rfl, rfl⟩
    exact hnote.userOps ho h
  · split at h
    · cases h
      exact hc
    · cases h

theorem Prefixed.handleRead {c c' : Connection} (hc : c.Prefixed made)
    {reads : List ReadRes} {cb : List UserOp} (ho : ∀ o ∈ cb, made o)
    (h : c.handleRead reads cb = some c') : c'.Prefixed made := by
  have hheard : ∀ n b, (c.heard n b).Prefixed made := by
    intro n b
    refine hc.neutral rfl (fun e he => ?_) rfl id
    rw [(List.mem_replicate.mp he).2]
    exact ⟨rfl, rfl⟩
  cases handleRead_heard h with
  | more n b fresh c₁ hstop hc₁ => exact (hheard n b).deliver ho hc₁
  | ended n b fresh c₁ hstop hc₁ => exact ((hheard n b).deliver ho hc₁).close
  | failed n b => exact (hheard n b).close

/-- Bytes go from the buffer to the socket. -/
theorem Prefixed.flushed {c : Connection} (hc : c.Prefixed made)
    (hne : c.outputBuffer.readable ≠ []) {chunks : List (List UInt8)}
    {b : Buffer}
    (hbytes : chunks.flatten ++ b.readable = c.outputBuffer.readable) :
    (c.flushed chunks b).Prefixed made := by
  refine .of_eq ?_
  have hall := hc.whole.resolve_right fun h => hne h.2.1
  show written (c.log ++ chunks.map Ev.write) ++ b.readable =
    accepted (c.log ++ chunks.map Ev.write)
  rw [written_append, accepted_append, written_writes, accepted_writes,
    List.append_assoc, hbytes, List.append_nil, hall]

theorem Prefixed.stopWriting {c : Connection} (hc : c.Prefixed made) :
    c.stopWriting.Prefixed made := by
  rw [Connection.stopWriting]
  split
  · exact hc.other rfl rfl id
  · exact hc

theorem Prefixed.halfClose {c : Connection} (hc : c.Prefixed made) :
    c.halfClose.Prefixed made := by
  rw [Connection.halfClose]
  split
  · exact (hc.other rfl rfl id :
      Prefixed { c with shutdownPending := false } made).note ⟨rfl, rfl⟩
  · exact hc

theorem Prefixed.notifyWritten {c : Connection} (hc : c.Prefixed made) :
    c.notifyWritten.Prefixed made := by
  rw [Connection.notifyWritten]
  split
  · exact hc.other rfl rfl id
  · exact hc

theorem Prefixed.handleWrite {c c' : Connection} (hc : c.Prefixed made)
    {writes : List WriteRes} (h : c.handleWrite writes = some c') :
    c'.Prefixed made := by
  rw [Connection.handleWrite] at h
  split at h
  · split at h
    · cases h
      exact hc.stopWriting
    · cases h
  · next hempty =>
      have hne : c.outputBuffer.readable ≠ [] := fun hnil =>
        hempty ((Buffer.empty_eq_true _).mpr hnil)
      split at h
      · cases h
      · next hloop =>
          obtain ⟨chunks, b, rfl, hbytes, -⟩ := drainLoop_spec hloop
          cases h
          exact hc.flushed hne hbytes
      · next hloop =>
          obtain ⟨chunks, b, rfl, hbytes, -⟩ := drainLoop_spec hloop
          cases h
          exact (hc.flushed hne hbytes).close
      · next hloop =>
          obtain ⟨chunks, b, rfl, hbytes, -⟩ := drainLoop_spec hloop
          cases h
          exact (hc.flushed hne hbytes).stopWriting.halfClose.notifyWritten

theorem Prefixed.handleEvent {c c' : Connection} (hc : c.Prefixed made)
    {revents : UInt32} {d : Dispatch} (ho : ∀ o ∈ d.cb, made o)
    (h : c.handleEvent revents d = some c') : c'.Prefixed made := by
  have hclose : ∀ {s s' : Connection}, s.Prefixed made → some s.close = some s' →
      s'.Prefixed made := by
    intro s s' hs h
    cases h
    exact hs.close
  rw [Connection.handleEvent] at h
  exact Channel.handleEvent_preserves hclose hclose
    (fun hs h => hs.handleRead ho h) (fun hs h => hs.handleWrite h) hc h

theorem Prefixed.runFunctor {c c' : Connection} (hc : c.Prefixed made)
    {cb : List UserOp} (ho : ∀ o ∈ cb, made o) (h : c.runFunctor cb = some c') :
    c'.Prefixed made := by
  have hpopped : ∀ fs, Prefixed { c with pending := fs } made := fun fs =>
    hc.other rfl rfl id
  rw [Connection.runFunctor] at h
  split at h
  · cases h
  · split at h
    · cases h
      exact (hpopped _).shutdownInLoop
    · cases h
  · exact (hpopped _).userOps ho h
  · exact (hpopped _).userOps ho h

theorem prefixed_step {c c' : Connection} {l : Label} (hc : c.Prefixed made)
    (ho : ∀ o ∈ l.ops, made o) (h : step c l = some c') : c'.Prefixed made := by
  cases l with
  | start =>
      cases h
      exact hc.other rfl rfl id
  | event revents d => exact hc.handleEvent ho h
  | op o => exact hc.userOp (ho o List.mem_cons_self) h
  | shutdownElsewhere =>
      cases h
      rw [Connection.shutdownElsewhere]
      split
      · next hstate =>
          refine hc.other rfl rfl fun h => ?_
          rw [hstate] at h
          cases h
      · exact hc
  | functor cb => exact hc.runFunctor ho h

/-! ## What was accepted, from the calls -/

theorem accepted_calls (c : Connection) :
    accepted c.log = c.calls.flatMap fun call =>
      if call.1 = .kConnected then call.2 else [] := by
  rw [accepted, calls]
  induction c.log with
  | nil => rfl
  | cons e log ih =>
      cases e with
      | sendCall state data =>
          rw [List.flatMap_cons, ih]
          cases state <;> rfl
      | read | write _ | shutWr | closeFd | message _ | closeCb => exact ih

theorem Silent.accepted {c c' : Connection} (h : Silent c c') :
    accepted c'.log = GameFrame.accepted c.log := by
  rw [accepted_calls, accepted_calls, h.calls]

theorem accepted_send {c c' : Connection} {data : List UInt8}
    {writes : List WriteRes} (h : c.send data writes = some c') :
    accepted c'.log =
      accepted c.log ++ if c.state = .kConnected then data else [] := by
  rw [accepted_calls, accepted_calls, (calls_send h).2, List.flatMap_append,
    List.flatMap_singleton]

theorem silent_shutdown (c : Connection) : Silent c c.shutdown := by
  rw [shutdown]
  split
  · have hstate : Silent c { c with state := .kDisconnecting } := ⟨rfl, rfl⟩
    exact hstate.trans (silent_shutdownInLoop _)
  · exact .refl c

/-- In every run, also behind a close, what was written to the socket is a
beginning of what was sent, and so it stays if all that is buffered is written
too. All that can be missing is what was left of one `send` when a write failed,
and then the connection is closed and nothing is buffered. -/
theorem written_begins {c₀ c : Connection} (hnew : c₀.New) {ls : List Label}
    (hrun : Machine.run step c₀ ls = some c) :
    written c.log ++ c.outputBuffer.readable <+: accepted c.log ∧
      (written c.log ++ c.outputBuffer.readable = accepted c.log ∨
        c.state = .kDisconnected ∧ c.outputBuffer.readable = [] ∧
          ∃ rem, c.CutShort (· ∈ ls.flatMap Label.ops) rem ∧
            written c.log ++ rem = accepted c.log) := by
  have hc : c.Prefixed (· ∈ ls.flatMap Label.ops) := by
    refine Machine.run_preserves_of_mem
      (P := fun c => c.Prefixed (· ∈ ls.flatMap Label.ops))
      (fun {_ l _} hl hc h => ?_) hnew.prefixed hrun
    exact prefixed_step hc (fun o ho => List.mem_flatMap.mpr ⟨l, hl, ho⟩) h
  exact ⟨hc.bytes, hc.whole⟩

/-- A message callback that closes the connection with data in the buffer, and
a dispatch that goes on to write it. -/
theorem written_begins_closed :
    ∃ c, Machine.run step {}
        [.start, .op (.send [1, 2, 3] [.accepted 1, .stop .eagain]),
          .event (EPOLLIN ||| EPOLLOUT)
            { reads := [.data [9], .stop .eagain], cb := [.close],
              writes := [.accepted 1, .stop .fatal] }] = some c ∧
      c.state = .kDisconnected ∧ written c.log = [1, 2] ∧
      written c.log ++ c.outputBuffer.readable <+: accepted c.log := by
  have hany : (Machine.run step {}
      [.start, .op (.send [1, 2, 3] [.accepted 1, .stop .eagain]),
        .event (EPOLLIN ||| EPOLLOUT)
          { reads := [.data [9], .stop .eagain], cb := [.close],
            writes := [.accepted 1, .stop .fatal] }]).any (fun c =>
      decide (c.state = .kDisconnected ∧ written c.log = [1, 2])) = true := by
    decide +kernel
  obtain ⟨c, hrun, hc⟩ := (Option.any_eq_true _ _).mp hany
  obtain ⟨hstate, hwritten⟩ := of_decide_eq_true hc
  refine ⟨c, hrun, hstate, hwritten, (written_begins ?_ hrun).1⟩
  exact ⟨rfl, rfl, Buffer.readable_new, rfl, rfl⟩

end GameFrame.Connection
