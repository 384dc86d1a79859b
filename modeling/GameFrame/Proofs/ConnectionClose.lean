import GameFrame.Proofs.ConnectionLoops

/-!
# The descriptor after `close()`

`close()` keeps the number of the descriptor it has closed, and the dispatch
does not ask whether it was called. `send`, `shutdown` and `close` itself look
at the state first; `handle_read` and `handle_write` do not. So a mask that
closes the connection with one of its bits and reads or writes with a later
one uses the number again, which may be another client's by then, and so does
an event that was fetched before the close.

`DispatchOk` says of a dispatch, before it happens, that it does none of
this. What the branches do in the meantime matters for the last of them, but
only two things about it: whether the connection is closed, and whether
anything is left to write. `Sketch` is these two things, and the scripts alone
say how a branch changes them (`sketch_handleRead`). A run whose dispatches
are all of this kind leaves the descriptor alone once it is closed
(`closed_untouched`).
-/

namespace GameFrame

/-- The system calls on the descriptor, and the delivery of bytes that were
just read from it. -/
def Ev.usesFd : Ev → Bool
  | .read | .write _ | .shutWr => true
  | .message fresh => fresh != []
  | .closeFd | .sendCall _ _ | .closeCb => false

/-- Once it is closed, the descriptor is not used. -/
def Clean (log : List Ev) : Prop :=
  log.Pairwise fun a b => a = .closeFd → b.usesFd = false

instance (log : List Ev) : Decidable (Clean log) :=
  inferInstanceAs (Decidable (log.Pairwise _))

/-! ## The part of a connection a dispatch turns on -/

structure Sketch where
  state : ConnState
  buffered : Bool
  deriving DecidableEq, Repr

namespace Sketch

def close (s : Sketch) : Sketch := { s with state := .kDisconnected }

/-- `send`: it writes only if nothing is buffered, closes if that fails, and
buffers what the socket does not take. -/
def send (s : Sketch) (data : List UInt8) (writes : List WriteRes) : Sketch :=
  if s.state ≠ .kConnected ∨ data = [] ∨ s.buffered = true then s
  else
    match writeStop writes with
    | none => s
    | some .eagain => { s with buffered := true }
    | some .fatal => s.close

def op (s : Sketch) : UserOp → Sketch
  | .send data writes => s.send data writes
  | .shutdown =>
      if s.state = .kConnected then { s with state := .kDisconnecting } else s
  | .close => s.close
  | .retrieve _ => s

/-- `handle_read`: the callback, and a close unless there may be more. -/
def read (s : Sketch) (reads : List ReadRes) (cb : List UserOp) : Sketch :=
  let s := cb.foldl op s
  if readStop reads = some .eagain then s else s.close

end Sketch

namespace Connection

def sketch (c : Connection) : Sketch := ⟨c.state, !c.outputBuffer.empty⟩

/-- The dispatch does not use the descriptor of a closed connection: it is a
pure hang-up, or the object is gone; or, in turn, the error branch does not
close before a read, and nothing that has been closed has anything left to
write. -/
def DispatchOk (c : Connection) (revents : UInt32) (d : Dispatch) : Prop :=
  Channel.pureHangUp revents = true ∨
  (c.channel.tied && !d.alive) = true ∨
  let s₀ := if hasBits revents EPOLLERR then c.sketch.close else c.sketch
  let reads := hasBits revents (EPOLLIN ||| EPOLLRDHUP)
  let s₁ := if reads then s₀.read d.reads d.cb else s₀
  (reads = true → s₀.state ≠ .kDisconnected) ∧
    (hasBits revents EPOLLOUT = true → s₁.state = .kDisconnected →
      s₁.buffered = false)

instance (c : Connection) (revents : UInt32) (d : Dispatch) :
    Decidable (c.DispatchOk revents d) :=
  inferInstanceAs (Decidable (_ ∨ _ ∨ _ ∧ _))

/-- Every dispatch of the step is of this kind. -/
def LabelOk (c : Connection) : Label → Prop
  | .event revents d => c.DispatchOk revents d
  | _ => True

instance (c : Connection) : ∀ l, Decidable (LabelOk c l)
  | .event revents d => inferInstanceAs (Decidable (c.DispatchOk revents d))
  | .start | .op _ | .shutdownElsewhere | .functor _ => .isTrue trivial

/-- An error and something to read, in one mask: the error closes, and the
read goes to whoever has the number now. -/
theorem closed_read :
    ¬ ∀ (ls : List Label) (c : Connection),
      Machine.run step {} ls = some c → Clean c.log :=
  Machine.not_forall_of_run [.start, .event (EPOLLERR ||| EPOLLIN)
    { reads := [.data [1], .stop .eagain] }] (by decide +kernel)

/-! ## The sketch is exact -/

theorem sketch_close (c : Connection) : c.close.sketch = c.sketch.close := by
  rw [sketch, close_state, close_outputBuffer]
  rfl

theorem sketch_sendRest (c : Connection) {rem : List UInt8} (h : rem ≠ []) :
    (c.sendRest rem).sketch = { c.sketch with buffered := true } := by
  obtain ⟨hstate, -, -, hout, -⟩ := sendRest_spec c rem
  have hne : (c.sendRest rem).outputBuffer.empty = false := by
    rw [Buffer.empty_eq_false, hout]
    exact fun hnil => h (List.append_eq_nil_iff.mp hnil).2
  rw [sketch, hstate, hne]
  rfl

theorem sketch_send {c c' : Connection} {data : List UInt8}
    {writes : List WriteRes} (h : c.send data writes = some c') :
    c'.sketch = c.sketch.send data writes := by
  rw [Sketch.send]
  show _ = if c.state ≠ .kConnected ∨ data = [] ∨
    (!c.outputBuffer.empty) = true then _ else _
  cases send_sent h with
  | ignored hskip =>
      rw [if_pos (or_assoc.mp (.inl hskip))]
      rfl
  | behind hstate hdata hne =>
      have hempty := (Buffer.empty_eq_false _).mpr hne
      rw [hempty, if_pos (.inr (.inr rfl)), sketch_sendRest _ hdata]
      simp [sketch, wrote, hempty]
  | failed chunks hstate hdata hnil hstop =>
      have hempty := (Buffer.empty_eq_true _).mpr hnil
      rw [if_neg (by simp [hstate, hdata, hempty]), hstop, sketch_close]
      rfl
  | taken chunks rem hstate hdata hnil hbytes hrem =>
      have hempty := (Buffer.empty_eq_true _).mpr hnil
      rw [if_neg (by simp [hstate, hdata, hempty])]
      rcases hrem with ⟨rfl, hstop⟩ | ⟨hrem, hstop⟩
      · rw [hstop, sendRest, if_pos rfl]
        rfl
      · rw [hstop, sketch_sendRest _ hrem]
        rfl

theorem sketch_shutdownInLoop (c : Connection) :
    c.shutdownInLoop.sketch = c.sketch := by
  rw [shutdownInLoop]
  repeat' split
  all_goals rfl

theorem sketch_userOp {c c' : Connection} {o : UserOp}
    (h : c.userOp o = some c') : c'.sketch = c.sketch.op o := by
  cases o with
  | send data writes => exact sketch_send h
  | shutdown =>
      cases h
      rw [shutdown, Sketch.op]
      show _ = if c.state = .kConnected then _ else _
      by_cases hc : c.state = .kConnected
      · rw [if_pos hc, if_pos hc, sketch_shutdownInLoop]
        rfl
      · rw [if_neg hc, if_neg hc]
  | close =>
      cases h
      exact sketch_close c
  | retrieve len =>
      cases h
      rfl

theorem sketch_userOps {ops : List UserOp} : ∀ {c c' : Connection},
    c.userOps ops = some c' → c'.sketch = ops.foldl Sketch.op c.sketch := by
  induction ops with
  | nil =>
      intro c c' h
      cases h
      rfl
  | cons o ops ih =>
      intro c c' h
      obtain ⟨c₁, ho, hops⟩ := userOps_cons.mp h
      rw [ih hops, sketch_userOp ho]
      rfl

theorem sketch_deliver {c c' : Connection} {fresh : List UInt8}
    {cb : List UserOp} (h : c.deliver fresh cb = some c') :
    c'.sketch = cb.foldl Sketch.op c.sketch := by
  rw [deliver] at h
  split at h
  · have hops := sketch_userOps h
    exact hops
  · split at h
    · next hcb =>
        cases h
        rw [hcb]
        rfl
    · cases h

/-- What the read branch does to the sketch is in its scripts. -/
theorem sketch_handleRead {c c' : Connection} {reads : List ReadRes}
    {cb : List UserOp} (h : c.handleRead reads cb = some c') :
    c'.sketch = c.sketch.read reads cb := by
  cases handleRead_heard h with
  | more n b fresh c₁ hstop hc₁ =>
      rw [sketch_deliver hc₁, Sketch.read, hstop]
      rfl
  | ended n b fresh c₁ hstop hc₁ =>
      rw [sketch_close, sketch_deliver hc₁, Sketch.read, hstop]
      rfl
  | failed n b hstop hcb =>
      rw [sketch_close, Sketch.read, hstop, hcb]
      rfl

/-! ## The descriptor is left alone

`Shut` ties the log to the state, so that what may be appended to the log can
be read off the state. Every function that looks at the state first keeps it,
and the two that do not keep it where the descriptor is not closed. -/

structure Shut (c : Connection) : Prop where
  clean : Clean c.log
  closed : Ev.closeFd ∈ c.log ↔ c.state = .kDisconnected

/-- What may be written behind a log: anything but a close while the
connection is open, and nothing that uses the descriptor afterwards. -/
theorem Shut.extend {c c' : Connection} (hc : c.Shut) {new : List Ev}
    (hlog : c'.log = c.log ++ new) (hnew : Ev.closeFd ∉ new)
    (hstate : c'.state = .kDisconnected ↔ c.state = .kDisconnected)
    (huse : c.state = .kDisconnected → ∀ e ∈ new, e.usesFd = false) :
    c'.Shut := by
  constructor
  · rw [hlog]
    refine List.pairwise_append.mpr ⟨hc.clean, ?_, fun a ha b hb hclose => ?_⟩
    · exact List.pairwise_of_forall_mem_list fun a ha b _ hclose =>
        absurd (hclose ▸ ha) hnew
    · exact huse (hc.closed.mp (hclose ▸ ha)) b hb
  · rw [hlog, List.mem_append, hstate, or_iff_left hnew, hc.closed]

theorem Shut.note {c : Connection} (hc : c.Shut) {e : Ev}
    (he : e.usesFd = false) (hne : e ≠ .closeFd) : (c.note e).Shut :=
  hc.extend rfl (fun h => hne (List.mem_singleton.mp h).symm) Iff.rfl
    fun _ _ hmem => (List.mem_singleton.mp hmem) ▸ he

theorem Shut.note_open {c : Connection} (hc : c.Shut)
    (hopen : c.state ≠ .kDisconnected) {e : Ev} (hne : e ≠ .closeFd) :
    (c.note e).Shut :=
  hc.extend rfl (fun h => hne (List.mem_singleton.mp h).symm) Iff.rfl
    fun h => absurd h hopen

theorem Shut.close {c : Connection} (hc : c.Shut) : c.close.Shut := by
  by_cases hopen : c.state = .kDisconnected
  · rw [Connection.close, if_pos hopen]
    exact hc
  · have hfresh : Ev.closeFd ∉ c.log := fun h => hopen (hc.closed.mp h)
    constructor
    · rw [close_log hopen]
      refine List.pairwise_append.mpr ⟨hc.clean, ?_, fun a ha b _ hclose =>
        absurd (hclose ▸ ha) hfresh⟩
      split
      · exact List.pairwise_cons.mpr ⟨fun b hb _ => by
          rw [List.mem_singleton.mp hb]; rfl, List.pairwise_singleton _ _⟩
      · exact List.pairwise_singleton _ _
    · rw [close_log hopen, close_state]
      exact ⟨fun _ => rfl, fun _ => List.mem_append_right _ List.mem_cons_self⟩

/-- A change of anything but state and log, and of the state only while it
stays open. -/
theorem Shut.same {c c' : Connection} (hc : c.Shut) (hlog : c'.log = c.log)
    (hstate : c'.state = .kDisconnected ↔ c.state = .kDisconnected) :
    c'.Shut :=
  ⟨hlog ▸ hc.clean, by rw [hlog, hstate, hc.closed]⟩

theorem Shut.sendRest {c : Connection} (hc : c.Shut) (rem : List UInt8) :
    (c.sendRest rem).Shut := by
  obtain ⟨hstate, hlog, -⟩ := sendRest_spec c rem
  exact hc.same hlog (by rw [hstate])

theorem Shut.wrote {c : Connection} (hc : c.Shut)
    (hstate : c.state = .kConnected) (data : List UInt8)
    (chunks : List (List UInt8)) : (c.wrote data chunks).Shut := by
  refine hc.extend rfl ?_ Iff.rfl fun h => nomatch hstate.symm.trans h
  intro hmem
  rcases List.mem_cons.mp hmem with h | h
  · cases h
  · obtain ⟨_, -, h⟩ := List.mem_map.mp h
    cases h

theorem Shut.send {c c' : Connection} (hc : c.Shut) {data : List UInt8}
    {writes : List WriteRes} (h : c.send data writes = some c') : c'.Shut := by
  cases send_sent h with
  | ignored hskip => exact hc.note rfl nofun
  | behind hstate hdata hne => exact (hc.wrote hstate data []).sendRest data
  | failed chunks hstate hdata hnil hstop =>
      exact (hc.wrote hstate data chunks).close
  | taken chunks rem hstate hdata hnil hbytes hrem =>
      exact (hc.wrote hstate data chunks).sendRest rem

theorem Shut.shutdownInLoop {c : Connection} (hc : c.Shut) :
    c.shutdownInLoop.Shut := by
  rw [Connection.shutdownInLoop]
  split
  · exact hc
  · next hopen =>
      split
      · exact hc.note_open hopen nofun
      · exact hc.same rfl Iff.rfl

/-- Leaving `kConnected` for the half-closed state. -/
theorem Shut.disconnecting {c : Connection} (hc : c.Shut)
    (hstate : c.state = .kConnected) :
    Shut { c with state := .kDisconnecting } :=
  hc.same rfl ⟨nofun, fun h => nomatch hstate.symm.trans h⟩

theorem Shut.userOp {c c' : Connection} (hc : c.Shut) {o : UserOp}
    (h : c.userOp o = some c') : c'.Shut := by
  cases o with
  | send data writes => exact hc.send h
  | shutdown =>
      cases h
      rw [Connection.shutdown]
      split
      · next hstate => exact (hc.disconnecting hstate).shutdownInLoop
      · exact hc
  | close =>
      cases h
      exact hc.close
  | retrieve len =>
      cases h
      exact hc.same rfl Iff.rfl

theorem Shut.userOps {c c' : Connection} {ops : List UserOp} (hc : c.Shut)
    (h : c.userOps ops = some c') : c'.Shut :=
  userOps_preserves (P := Shut) (fun hc ho => hc.userOp ho) hc h

theorem Shut.deliver {c c' : Connection} (hc : c.Shut)
    (hopen : c.state ≠ .kDisconnected) {fresh : List UInt8}
    {cb : List UserOp} (h : c.deliver fresh cb = some c') : c'.Shut := by
  rw [Connection.deliver] at h
  split at h
  · exact (hc.note_open hopen (e := .message fresh) nofun).userOps h
  · split at h
    · cases h
      exact hc
    · cases h

theorem Shut.handleRead {c c' : Connection} (hc : c.Shut)
    (hopen : c.state ≠ .kDisconnected) {reads : List ReadRes}
    {cb : List UserOp} (h : c.handleRead reads cb = some c') : c'.Shut := by
  have hheard : ∀ n b, (c.heard n b).Shut := by
    intro n b
    refine hc.extend rfl ?_ Iff.rfl fun h => absurd h hopen
    intro hmem
    cases (List.mem_replicate.mp hmem).2
  cases handleRead_heard h with
  | more n b fresh c₁ hstop hc₁ => exact (hheard n b).deliver hopen hc₁
  | ended n b fresh c₁ hstop hc₁ =>
      exact ((hheard n b).deliver hopen hc₁).close
  | failed n b => exact (hheard n b).close

theorem Shut.stopWriting {c : Connection} (hc : c.Shut) :
    c.stopWriting.Shut := by
  rw [Connection.stopWriting]
  split
  · exact hc.same rfl Iff.rfl
  · exact hc

theorem Shut.halfClose {c : Connection} (hc : c.Shut)
    (hopen : c.state ≠ .kDisconnected) : c.halfClose.Shut := by
  rw [Connection.halfClose]
  split
  · have hdown : Shut { c with shutdownPending := false } :=
      hc.same rfl Iff.rfl
    exact hdown.note_open hopen (by decide)
  · exact hc

theorem Shut.notifyWritten {c : Connection} (hc : c.Shut) :
    c.notifyWritten.Shut := by
  rw [Connection.notifyWritten]
  split
  · exact hc.same rfl Iff.rfl
  · exact hc

theorem Shut.handleWrite {c c' : Connection} (hc : c.Shut)
    (hok : c.state = .kDisconnected → c.outputBuffer.readable = [])
    {writes : List WriteRes} (h : c.handleWrite writes = some c') :
    c'.Shut := by
  have hflushed : ∀ chunks b, c.outputBuffer.readable ≠ [] →
      (c.flushed chunks b).Shut := by
    intro chunks b hne
    refine hc.extend rfl ?_ Iff.rfl fun h => absurd (hok h) hne
    intro hmem
    obtain ⟨_, -, h⟩ := List.mem_map.mp hmem
    cases h
  cases handleWrite_flushed h with
  | idle => exact hc.stopWriting
  | full chunks b hne => exact hflushed chunks b hne
  | failed chunks b hne => exact (hflushed chunks b hne).close
  | taken chunks b hne =>
      refine ((hflushed chunks b hne).stopWriting.halfClose ?_).notifyWritten
      rw [stopWriting_state]
      exact fun hclosed => hne (hok hclosed)

theorem bufferedFalse_iff (c : Connection) :
    c.sketch.buffered = false ↔ c.outputBuffer.readable = [] := by
  rw [← Buffer.empty_eq_true]
  show (!c.outputBuffer.empty) = false ↔ _
  rw [Bool.not_eq_false']

/-- The dispatch, bit by bit. -/
theorem Shut.handleEvent {c c' : Connection} (hc : c.Shut) {revents : UInt32}
    {d : Dispatch} (hok : c.DispatchOk revents d)
    (h : c.handleEvent revents d = some c') : c'.Shut := by
  rw [Connection.handleEvent, Channel.handleEvent] at h
  split at h
  · cases h
    exact hc
  · next halive =>
      rw [Channel.handleEventWithGuard] at h
      split at h
      · cases h
        exact hc.close
      · next hhup =>
          obtain ⟨hread, hwrite⟩ :=
            (hok.resolve_left hhup).resolve_left halive
          obtain ⟨c₀, herr, h⟩ := Option.bind_eq_some_iff.mp h
          obtain ⟨c₁, hrd, hwr⟩ := Option.bind_eq_some_iff.mp h
          have hc₀ : c₀.Shut ∧ c₀.sketch =
              if hasBits revents EPOLLERR then c.sketch.close else c.sketch := by
            rcases Channel.when_eq_some herr with ⟨hbit, h⟩ | ⟨hbit, rfl⟩
            · cases h
              rw [if_pos hbit]
              exact ⟨hc.close, sketch_close c⟩
            · rw [hbit]
              exact ⟨hc, rfl⟩
          rw [← hc₀.2] at hread hwrite
          have hc₁ : c₁.Shut ∧ c₁.sketch =
              if hasBits revents (EPOLLIN ||| EPOLLRDHUP) then
                c₀.sketch.read d.reads d.cb
              else c₀.sketch := by
            rcases Channel.when_eq_some hrd with ⟨hbit, h⟩ | ⟨hbit, rfl⟩
            · rw [if_pos hbit]
              exact ⟨hc₀.1.handleRead (hread hbit) h, sketch_handleRead h⟩
            · rw [hbit]
              exact ⟨hc₀.1, rfl⟩
          rw [← hc₁.2] at hwrite
          rcases Channel.when_eq_some hwr with ⟨hbit, h⟩ | ⟨hbit, rfl⟩
          · refine hc₁.1.handleWrite (fun hclosed => ?_) h
            exact (bufferedFalse_iff c₁).mp (hwrite hbit hclosed)
          · exact hc₁.1

theorem Shut.runFunctor {c c' : Connection} (hc : c.Shut) {cb : List UserOp}
    (h : c.runFunctor cb = some c') : c'.Shut := by
  have hrest : ∀ fs, Shut { c with pending := fs } := fun _ =>
    hc.same rfl Iff.rfl
  rw [Connection.runFunctor] at h
  split at h
  · cases h
  · split at h
    · cases h
      exact (hrest _).shutdownInLoop
    · cases h
  · exact (hrest _).userOps h
  · exact (hrest _).userOps h

theorem shut_step {c c' : Connection} {l : Label} (hc : c.Shut)
    (hok : c.LabelOk l) (h : step c l = some c') : c'.Shut := by
  cases l with
  | start =>
      cases h
      exact hc.same rfl Iff.rfl
  | event revents d => exact hc.handleEvent hok h
  | op o => exact hc.userOp h
  | shutdownElsewhere =>
      cases h
      rw [shutdownElsewhere]
      split
      · next hstate => exact (hc.disconnecting hstate).same rfl Iff.rfl
      · exact hc
  | functor cb => exact hc.runFunctor h

/-- In a run whose dispatches are in order, the descriptor is not used once it
is closed. -/
theorem closed_untouched {c₀ c : Connection} (hnew : c₀.New)
    {ls : List Label} (hok : Machine.Meets step LabelOk c₀ ls)
    (hrun : Machine.run step c₀ ls = some c) : Clean c.log := by
  have hinit : c₀.Shut := by
    refine ⟨hnew.log ▸ List.Pairwise.nil, ?_⟩
    rw [hnew.log, hnew.state]
    exact ⟨fun h => absurd h List.not_mem_nil, nofun⟩
  have hc : c.Shut :=
    Machine.run_preserves_of_meets (fun hc hok h => shut_step hc hok h) hinit
      hok hrun
  exact hc.clean

/-- A request, its answer, the end of the stream, and a hang-up that was
fetched before. -/
def requestThenEof : List Label :=
  let ask : Dispatch :=
    { reads := [.data [1], .eintr, .stop .eagain]
      cb := [.retrieve 1, .send [2, 3] [.accepted 1, .stop .eagain]] }
  [.start, .event EPOLLIN ask, .event EPOLLOUT { writes := [.accepted 1] },
    .event (EPOLLIN ||| EPOLLRDHUP) { reads := [.stop .eof] },
    .event EPOLLHUP {}]

theorem closed_untouched_eof :
    ∃ c, Machine.run step {} requestThenEof = some c ∧
      Ev.closeFd ∈ c.log ∧ Clean c.log := by
  have hany : (Machine.run step {} requestThenEof).any
      (fun c => decide (Ev.closeFd ∈ c.log)) = true := by decide +kernel
  obtain ⟨c, hrun, hclosed⟩ := (Option.any_eq_true _ _).mp hany
  exact ⟨c, hrun, of_decide_eq_true hclosed,
    closed_untouched ⟨rfl, rfl, Buffer.readable_new, rfl, rfl⟩
      (by decide +kernel) hrun⟩

end Connection

end GameFrame
