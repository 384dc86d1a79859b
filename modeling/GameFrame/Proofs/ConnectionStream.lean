import GameFrame.Proofs.ConnectionLoops

/-!
# What the peer gets is what was sent

Three paths lead to the socket, and they share one stream: `send` writes what
it can, buffers the rest, and buffers everything as long as something is
buffered; `handle_write` empties the buffer. Until the connection is closed,
what was written and what is buffered are what `send` accepted, in order
(`bytes`). A send that fails halfway loses its rest, but closes.

The half-close waits for the buffer. It is in one of three places, a functor
on its way to the loop, the pending flag, or done, and it gets there only once,
since it sets out only from `kConnected` and leaves that state (`owed`). When
it is done the buffer is empty, and it stays empty, for nothing is accepted
any more (`drained`). So nothing is written behind it (`order`).
-/

namespace GameFrame

/-- The bytes `write(2)` accepted. -/
def written (log : List Ev) : List UInt8 :=
  log.flatMap fun
    | .write bytes => bytes
    | _ => []

/-- The bytes of the sends made while the connection was connected. -/
def accepted (log : List Ev) : List UInt8 :=
  log.flatMap fun
    | .sendCall .kConnected data => data
    | _ => []

/-- The half-close is done once, with everything written that ever is. -/
def ShutOrder (log : List Ev) : Prop :=
  ∀ pre post, log = pre ++ .shutWr :: post →
    .shutWr ∉ post ∧ written post = [] ∧ written pre = accepted log

@[simp] theorem written_append (l m : List Ev) :
    written (l ++ m) = written l ++ written m := List.flatMap_append

@[simp] theorem accepted_append (l m : List Ev) :
    accepted (l ++ m) = accepted l ++ accepted m := List.flatMap_append

theorem written_writes (chunks : List (List UInt8)) :
    written (chunks.map Ev.write) = chunks.flatten := by
  induction chunks with
  | nil => rfl
  | cons chunk chunks ih =>
      rw [List.map_cons, List.flatten_cons, ← ih]
      rfl

theorem accepted_writes (chunks : List (List UInt8)) :
    accepted (chunks.map Ev.write) = [] := by
  induction chunks with
  | nil => rfl
  | cons chunk chunks ih => exact ih

theorem shutOrder_of_not_mem {log : List Ev} (h : .shutWr ∉ log) :
    ShutOrder log := by
  rintro pre post rfl
  exact absurd (List.mem_append_right pre List.mem_cons_self) h

/-- Behind a half-close nothing may be written and nothing accepted. -/
theorem ShutOrder.extend {log new : List Ev} (h : ShutOrder log)
    (hnew : .shutWr ∉ new)
    (hquiet : .shutWr ∈ log → written new = [] ∧ accepted new = []) :
    ShutOrder (log ++ new) := by
  intro pre post heq
  rcases List.append_eq_append_iff.mp heq with ⟨mid, -, hmid⟩ | ⟨mid, hlog, hmid⟩
  · exact absurd (hmid ▸ List.mem_append_right mid List.mem_cons_self) hnew
  · cases mid with
    | nil =>
        rw [List.nil_append] at hmid
        exact absurd (hmid ▸ List.mem_cons_self) hnew
    | cons e mid =>
        obtain ⟨rfl, hpost⟩ := List.cons.inj hmid
        rw [show post = mid ++ new from hpost]
        have hmem : Ev.shutWr ∈ log := by
          rw [hlog]
          exact List.mem_append_right pre List.mem_cons_self
        obtain ⟨hwritten, haccepted⟩ := hquiet hmem
        obtain ⟨hnot, hmid, hpre⟩ := h pre mid hlog
        refine ⟨fun hin => ?_, ?_, ?_⟩
        · exact (List.mem_append.mp hin).elim hnot hnew
        · rw [written_append, hmid, hwritten, List.append_nil]
        · rw [accepted_append, haccepted, List.append_nil, hpre]

/-- The half-close itself, with nothing left to write. -/
theorem shutOrder_shut {log : List Ev} (hnot : .shutWr ∉ log)
    (hall : written log = accepted log) : ShutOrder (log ++ [Ev.shutWr]) := by
  intro pre post heq
  have hlen : post = [] := by
    rcases List.eq_nil_or_concat post with hnil | ⟨post', e, rfl⟩
    · exact hnil
    · rw [List.concat_eq_append, ← List.cons_append, ← List.append_assoc] at heq
      have hlog := (List.append_inj' heq rfl).1
      exact absurd (hlog ▸ List.mem_append_right pre List.mem_cons_self) hnot
  subst hlen
  have hpre := (List.append_inj' heq rfl).1
  rw [← hpre, accepted_append, ← hall]
  exact ⟨List.not_mem_nil, rfl, (List.append_nil _).symm⟩

namespace Connection

/-- The half-closes under way: on the way to the loop, waiting for the buffer,
done. -/
def halfCloses (c : Connection) : Nat :=
  c.pending.count .shutdownInLoop + c.shutdownPending.toNat +
    c.log.count .shutWr

structure Stream (c : Connection) : Prop where
  bytes : written c.log ++ c.outputBuffer.readable = accepted c.log
  order : ShutOrder c.log
  owed : c.halfCloses ≤ 1
  none : c.state = .kConnected → c.halfCloses = 0
  drained : .shutWr ∈ c.log → c.outputBuffer.readable = []

/-- What has to be shown of every step. -/
def Faithful (c : Connection) : Prop := c.state ≠ .kDisconnected → c.Stream

theorem not_mem_of_halfCloses {c : Connection} (h : c.halfCloses = 0) :
    Ev.shutWr ∉ c.log := by
  rw [halfCloses] at h
  exact List.count_eq_zero.mp (by omega)

/-- A change that neither issues a half-close nor moves one. -/
theorem Stream.extend {c c' : Connection} (hc : c.Stream) {new : List Ev}
    (hlog : c'.log = c.log ++ new) (hnew : .shutWr ∉ new)
    (hbytes : written new ++ c'.outputBuffer.readable =
      c.outputBuffer.readable ++ accepted new)
    (hstate : c'.state = .kConnected → c.state = .kConnected)
    (hpend : c'.pending.count .shutdownInLoop =
      c.pending.count .shutdownInLoop)
    (hflag : c'.shutdownPending = c.shutdownPending)
    (hquiet : .shutWr ∈ c.log → written new = [] ∧ accepted new = []) :
    c'.Stream := by
  have hhalf : c'.halfCloses = c.halfCloses := by
    rw [halfCloses, halfCloses, hpend, hflag, hlog, List.count_append,
      List.count_eq_zero.mpr hnew, Nat.add_zero]
  refine ⟨?_, ?_, hhalf ▸ hc.owed, fun h => hhalf ▸ hc.none (hstate h), ?_⟩
  · rw [hlog, written_append, accepted_append, ← hc.bytes, List.append_assoc,
      hbytes, List.append_assoc]
  · rw [hlog]
    exact hc.order.extend hnew hquiet
  · intro hmem
    rw [hlog] at hmem
    have hold := (List.mem_append.mp hmem).resolve_right hnew
    obtain ⟨hw, ha⟩ := hquiet hold
    rw [hw, ha, hc.drained hold] at hbytes
    exact hbytes

/-- The same, with nothing about the bytes in it at all. -/
theorem Stream.neutral {c c' : Connection} (hc : c.Stream) {new : List Ev}
    (hlog : c'.log = c.log ++ new)
    (hnew : ∀ e ∈ new, e ≠ .shutWr ∧ written [e] = [] ∧ accepted [e] = [])
    (hout : c'.outputBuffer = c.outputBuffer)
    (hstate : c'.state = .kConnected → c.state = .kConnected)
    (hpend : c'.pending.count .shutdownInLoop =
      c.pending.count .shutdownInLoop)
    (hflag : c'.shutdownPending = c.shutdownPending) : c'.Stream := by
  have hw : written new = [] := by
    refine List.flatMap_eq_nil_iff.mpr fun e he => ?_
    have := (hnew e he).2.1
    rwa [written, List.flatMap_singleton] at this
  have ha : accepted new = [] := by
    refine List.flatMap_eq_nil_iff.mpr fun e he => ?_
    have := (hnew e he).2.2
    rwa [accepted, List.flatMap_singleton] at this
  refine hc.extend hlog (fun h => (hnew _ h).1 rfl) ?_ hstate hpend hflag
    fun _ => ⟨hw, ha⟩
  rw [hw, ha, hout, List.nil_append, List.append_nil]

theorem close_faithful (c : Connection) : c.close.Faithful :=
  fun h => absurd (close_state c) h

/-- An event that is neither a write, nor a send, nor a half-close. -/
theorem Stream.note {c : Connection} (hc : c.Stream) {e : Ev}
    (he : e ≠ .shutWr ∧ written [e] = [] ∧ accepted [e] = []) :
    (c.note e).Stream :=
  hc.neutral rfl (fun _ h => (List.mem_singleton.mp h) ▸ he) rfl id rfl rfl

/-- What is buffered was accepted, and goes behind what is there. -/
theorem Stream.wrote {c : Connection} (hc : c.Stream)
    (hstate : c.state = .kConnected) {data rem : List UInt8}
    {chunks : List (List UInt8)} (hdata : chunks.flatten ++ rem = data)
    (hempty : chunks = [] ∨ c.outputBuffer.readable = []) :
    ((c.wrote data chunks).sendRest rem).Stream := by
  obtain ⟨hst, hlog, hflag, hout, hpend⟩ :=
    sendRest_spec (c.wrote data chunks) rem
  have hwritten : written (.sendCall c.state data :: chunks.map Ev.write) =
      chunks.flatten := by
    rw [← List.singleton_append, written_append, written_writes]
    rfl
  have haccepted : accepted (.sendCall c.state data :: chunks.map Ev.write) =
      data := by
    rw [← List.singleton_append, accepted_append, accepted_writes, hstate]
    simp [accepted]
  refine hc.extend hlog ?_ ?_ (fun _ => hstate) ?_ hflag ?_
  · intro hmem
    rcases List.mem_cons.mp hmem with h | h
    · cases h
    · obtain ⟨_, -, h⟩ := List.mem_map.mp h
      cases h
  · rw [hwritten, haccepted, hout, ← hdata]
    show _ ++ (c.outputBuffer.readable ++ rem) = _
    rcases hempty with rfl | hnil
    · rfl
    · rw [hnil]
      rfl
  · rcases hpend with h | h
    · rw [h]
      rfl
    · rw [h, List.count_append]
      rfl
  · exact fun hmem => absurd hmem (not_mem_of_halfCloses (hc.none hstate))

theorem Faithful.send {c c' : Connection} (hc : c.Faithful)
    {data : List UInt8} {writes : List WriteRes}
    (h : c.send data writes = some c') : c'.Faithful := by
  cases send_sent h with
  | ignored hskip =>
      intro hopen
      refine (hc hopen).note ⟨nofun, rfl, ?_⟩
      rcases hskip with hstate | rfl
      · cases hs : c.state with
        | kConnected => exact absurd hs hstate
        | kDisconnecting => rfl
        | kDisconnected => rfl
      · cases c.state <;> rfl
  | behind hstate hdata hne =>
      intro _
      exact (hc (by rw [hstate]; nofun)).wrote hstate rfl (.inl rfl)
  | failed chunks hstate hdata hnil hstop => exact close_faithful _
  | taken chunks rem hstate hdata hnil hbytes hrem =>
      intro _
      exact (hc (by rw [hstate]; nofun)).wrote hstate hbytes (.inr hnil)

/-- The half-close: the only one there is, and the buffer is empty. -/
theorem Stream.shut {c : Connection} (hc : c.Stream)
    (hstate : c.state ≠ .kConnected) (hhalf : c.halfCloses = 0)
    (hnil : c.outputBuffer.readable = []) : (c.note .shutWr).Stream := by
  have hall : written c.log = accepted c.log := by
    rw [← hc.bytes, hnil, List.append_nil]
  refine ⟨?_, shutOrder_shut (not_mem_of_halfCloses hhalf) hall, ?_,
    fun h => absurd h hstate, fun _ => hnil⟩
  · rw [note_log, written_append, accepted_append, hall, note_outputBuffer,
      hnil, List.append_nil]
    rfl
  · rw [halfCloses, note_log, List.count_append]
    exact Nat.le_of_eq (congrArg (· + 1) hhalf)

/-- A half-close that arrives at the loop. -/
theorem Stream.shutdownInLoop {c : Connection} (hc : c.Stream)
    (hstate : c.state ≠ .kConnected) (hhalf : c.halfCloses = 0) :
    c.shutdownInLoop.Stream := by
  rw [Connection.shutdownInLoop]
  split
  · exact hc
  · split
    · next hempty =>
        exact hc.shut hstate hhalf ((Buffer.empty_eq_true _).mp hempty)
    · refine ⟨hc.bytes, hc.order, ?_, fun h => absurd h hstate, hc.drained⟩
      rw [halfCloses] at hhalf
      show c.pending.count .shutdownInLoop + 1 + c.log.count .shutWr ≤ 1
      omega

/-- Leaving `kConnected`. -/
theorem Stream.disconnecting {c : Connection} (hc : c.Stream) :
    Stream { c with state := .kDisconnecting } :=
  ⟨hc.bytes, hc.order, hc.owed, nofun, hc.drained⟩

theorem Faithful.shutdown {c : Connection} (hc : c.Faithful) :
    c.shutdown.Faithful := by
  rw [Connection.shutdown]
  split
  · next hstate =>
      intro _
      have hs := hc (by rw [hstate]; nofun)
      exact hs.disconnecting.shutdownInLoop nofun (hs.none hstate)
  · exact hc

theorem Faithful.userOp {c c' : Connection} (hc : c.Faithful) {o : UserOp}
    (h : c.userOp o = some c') : c'.Faithful := by
  cases o with
  | send data writes => exact hc.send h
  | shutdown =>
      cases h
      exact hc.shutdown
  | close =>
      cases h
      exact close_faithful c
  | retrieve len =>
      cases h
      intro hopen
      have hs := hc hopen
      exact ⟨hs.bytes, hs.order, hs.owed, hs.none, hs.drained⟩

theorem Faithful.userOps {c c' : Connection} {ops : List UserOp}
    (hc : c.Faithful) (h : c.userOps ops = some c') : c'.Faithful :=
  userOps_preserves (P := Faithful) (fun hc ho => hc.userOp ho) hc h

theorem Faithful.deliver {c c' : Connection} (hc : c.Faithful)
    {fresh : List UInt8} {cb : List UserOp}
    (h : c.deliver fresh cb = some c') : c'.Faithful := by
  have hnote : (c.note (.message fresh)).Faithful := fun hopen =>
    (hc hopen).note ⟨nofun, rfl, rfl⟩
  rw [Connection.deliver] at h
  split at h
  · exact hnote.userOps h
  · split at h
    · cases h
      exact hc
    · cases h

theorem Faithful.handleRead {c c' : Connection} (hc : c.Faithful)
    {reads : List ReadRes} {cb : List UserOp}
    (h : c.handleRead reads cb = some c') : c'.Faithful := by
  have hheard : ∀ n b, (c.heard n b).Faithful := by
    intro n b hopen
    refine (hc hopen).neutral rfl (fun e he => ?_) rfl id rfl rfl
    rw [(List.mem_replicate.mp he).2]
    exact ⟨nofun, rfl, rfl⟩
  cases handleRead_heard h with
  | more n b fresh c₁ hstop hc₁ => exact (hheard n b).deliver hc₁
  | ended n b fresh c₁ => exact close_faithful c₁
  | failed n b => exact close_faithful _

/-! ## The buffer runs empty -/

theorem Stream.stopWriting {c : Connection} (hc : c.Stream) :
    c.stopWriting.Stream := by
  rw [Connection.stopWriting]
  split
  · exact ⟨hc.bytes, hc.order, hc.owed, hc.none, hc.drained⟩
  · exact hc

theorem Stream.halfClose {c : Connection} (hc : c.Stream)
    (hnil : c.outputBuffer.readable = []) : c.halfClose.Stream := by
  rw [Connection.halfClose]
  split
  · next hflag =>
      have hone := hc.owed
      have hzero : Connection.halfCloses { c with shutdownPending := false } =
          0 := by
        rw [halfCloses, hflag, Bool.toNat_true] at hone
        show c.pending.count .shutdownInLoop + 0 + c.log.count .shutWr = 0
        omega
      have hstate : c.state ≠ .kConnected := by
        intro h
        have := hc.none h
        rw [halfCloses, hflag, Bool.toNat_true] at this
        omega
      have hdown : Stream { c with shutdownPending := false } :=
        ⟨hc.bytes, hc.order, hzero ▸ Nat.zero_le 1, fun h => absurd h hstate,
          hc.drained⟩
      exact hdown.shut hstate hzero hnil
  · exact hc

theorem Stream.notifyWritten {c : Connection} (hc : c.Stream) :
    c.notifyWritten.Stream := by
  rw [Connection.notifyWritten]
  split
  · refine hc.neutral (List.append_nil _).symm
      (fun _ h => absurd h List.not_mem_nil) rfl id ?_ rfl
    exact List.count_append.trans (Nat.add_zero _)
  · exact hc

theorem Faithful.flushed {c : Connection} (hc : c.Faithful)
    (hne : c.outputBuffer.readable ≠ []) {chunks : List (List UInt8)}
    {b : Buffer}
    (hbytes : chunks.flatten ++ b.readable = c.outputBuffer.readable) :
    (c.flushed chunks b).Faithful := by
  intro hopen
  have hs := hc hopen
  have hnot : Ev.shutWr ∉ c.log := fun hmem => hne (hs.drained hmem)
  refine hs.extend rfl (fun hmem => ?_) ?_ id rfl rfl
    fun hmem => absurd hmem hnot
  · obtain ⟨_, -, h⟩ := List.mem_map.mp hmem
    cases h
  · rw [written_writes, accepted_writes, List.append_nil]
    exact hbytes

theorem Faithful.handleWrite {c c' : Connection} (hc : c.Faithful)
    {writes : List WriteRes} (h : c.handleWrite writes = some c') :
    c'.Faithful := by
  cases handleWrite_flushed h with
  | idle =>
      intro hopen
      rw [stopWriting_state] at hopen
      exact (hc hopen).stopWriting
  | full chunks b hne hbytes => exact hc.flushed hne hbytes
  | failed chunks b => exact close_faithful _
  | taken chunks b hne hbytes hnil =>
      intro hopen
      rw [notifyWritten_state, halfClose_state, stopWriting_state] at hopen
      have hs := hc.flushed hne hbytes hopen
      refine (hs.stopWriting.halfClose ?_).notifyWritten
      rw [stopWriting_outputBuffer]
      exact hnil

theorem Faithful.handleEvent {c c' : Connection} (hc : c.Faithful)
    {revents : UInt32} {d : Dispatch}
    (h : c.handleEvent revents d = some c') : c'.Faithful := by
  have hclose : ∀ {s s' : Connection}, s.Faithful → some s.close = some s' →
      s'.Faithful := by
    intro s s' _ h
    cases h
    exact close_faithful s
  rw [Connection.handleEvent] at h
  exact Channel.handleEvent_preserves hclose hclose
    (fun hs h => hs.handleRead h) (fun hs h => hs.handleWrite h) hc h

/-- The next functor: a half-close that was on its way, or a callback. -/
theorem Faithful.runFunctor {c c' : Connection} (hc : c.Faithful)
    {cb : List UserOp} (h : c.runFunctor cb = some c') : c'.Faithful := by
  have hcallback : ∀ {f fs}, f ≠ .shutdownInLoop → c.pending = f :: fs →
      Faithful { c with pending := fs } := fun hf hpend hopen =>
    (hc hopen).neutral (List.append_nil _).symm
      (fun _ h => absurd h List.not_mem_nil) rfl id
      (by rw [hpend, List.count_cons_of_ne hf]) rfl
  rw [Connection.runFunctor] at h
  split at h
  · cases h
  · next fs hpend =>
      split at h
      · cases h
        intro hopen
        have hopen' : c.state ≠ .kDisconnected := by
          intro hclosed
          rw [Connection.shutdownInLoop, if_pos hclosed] at hopen
          exact hopen hclosed
        have hs := hc hopen'
        have hone := hs.owed
        rw [halfCloses, hpend, List.count_cons_self] at hone
        have hzero : Connection.halfCloses { c with pending := fs } = 0 := by
          show fs.count .shutdownInLoop + c.shutdownPending.toNat +
            c.log.count .shutWr = 0
          omega
        have hstate : c.state ≠ .kConnected := by
          intro h
          have := hs.none h
          rw [halfCloses, hpend, List.count_cons_self] at this
          omega
        have hnext : Stream { c with pending := fs } :=
          ⟨hs.bytes, hs.order, hzero ▸ Nat.zero_le 1,
            fun h => absurd h hstate, hs.drained⟩
        exact hnext.shutdownInLoop hstate hzero
      · cases h
  · next fs hpend => exact (hcallback (by simp) hpend).userOps h
  · next fs hpend => exact (hcallback (by simp) hpend).userOps h

theorem Faithful.shutdownElsewhere {c : Connection} (hc : c.Faithful) :
    c.shutdownElsewhere.Faithful := by
  rw [Connection.shutdownElsewhere]
  split
  · next hstate =>
      intro _
      have hs := hc (by rw [hstate]; nofun)
      have hzero := hs.none hstate
      rw [halfCloses] at hzero
      refine ⟨hs.bytes, hs.order, ?_, nofun, hs.drained⟩
      show (c.pending ++ [ConnFunctor.shutdownInLoop]).count _ +
        c.shutdownPending.toNat + c.log.count .shutWr ≤ 1
      rw [List.count_append, List.count_singleton_self]
      omega
  · exact hc

theorem faithful_step {c c' : Connection} {l : Label} (hc : c.Faithful)
    (h : step c l = some c') : c'.Faithful := by
  cases l with
  | start =>
      cases h
      intro hopen
      have hs := hc hopen
      exact ⟨hs.bytes, hs.order, hs.owed, hs.none, hs.drained⟩
  | event revents d => exact hc.handleEvent h
  | op o => exact hc.userOp h
  | shutdownElsewhere =>
      cases h
      exact hc.shutdownElsewhere
  | functor cb => exact hc.runFunctor h

theorem New.stream {c : Connection} (hc : c.New) : c.Stream := by
  have hhalf : c.halfCloses = 0 := by
    rw [halfCloses, hc.pending, hc.shutdownPending, hc.log]
    rfl
  have hnot := not_mem_of_halfCloses hhalf
  refine ⟨?_, shutOrder_of_not_mem hnot, hhalf ▸ Nat.zero_le 1,
    fun _ => hhalf, fun hmem => absurd hmem hnot⟩
  rw [hc.log, hc.outputBuffer]
  rfl

/-- Until it is closed, a connection has written or buffered exactly what was
sent on it, and half-closes once, behind all of it. -/
theorem stream_kept {c₀ c : Connection} (hnew : c₀.New) {ls : List Label}
    (hrun : Machine.run step c₀ ls = some c)
    (hopen : c.state ≠ .kDisconnected) :
    written c.log ++ c.outputBuffer.readable = accepted c.log ∧
      ∀ pre post, c.log = pre ++ .shutWr :: post →
        .shutWr ∉ post ∧ written post = [] ∧ written pre = accepted c.log := by
  have hc : c.Faithful :=
    Machine.run_preserves (fun hc h => faithful_step hc h)
      (fun _ => hnew.stream) hrun
  exact ⟨(hc hopen).bytes, (hc hopen).order⟩

/-- A send the socket takes half of, another behind it, a half-close from
another thread, and the socket ready again. -/
def partialWrites : List Label :=
  [.start, .op (.send [1, 2, 3] [.accepted 1, .eintr, .stop .eagain]),
    .op (.send [4] []), .shutdownElsewhere, .op (.send [5] []), .functor [],
    .event EPOLLOUT { writes := [.accepted 2, .accepted 1] }]

theorem stream_kept_partial :
    ∃ c, Machine.run step {} partialWrites = some c ∧
      accepted c.log = [1, 2, 3, 4] ∧
      written c.log ++ c.outputBuffer.readable = accepted c.log := by
  have hany : (Machine.run step {} partialWrites).any (fun c =>
      decide (accepted c.log = [1, 2, 3, 4] ∧ c.state = .kDisconnecting)) =
      true := by decide +kernel
  obtain ⟨c, hrun, hc⟩ := (Option.any_eq_true _ _).mp hany
  obtain ⟨haccepted, hstate⟩ := of_decide_eq_true hc
  refine ⟨c, hrun, haccepted, (stream_kept ?_ hrun ?_).1⟩
  · exact ⟨rfl, rfl, Buffer.readable_new, rfl, rfl⟩
  · rw [hstate]
    nofun

end Connection

end GameFrame
