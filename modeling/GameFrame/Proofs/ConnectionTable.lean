import GameFrame.Net.TcpServer

/-!
# What the table of connections holds

The table is keyed by descriptor numbers, and a number is the kernel's again
as soon as a sub-loop has closed it, long before the main loop gets to the
functor that takes the connection off. So an entry may be written over by a
new connection while the removal of the old one is still on its way, and
removals arrive in any order.

Three facts carry the table through all of it. An entry is under its own
connection's number. A connection that is open is in the table, for a number
that is open is not given out a second time, and `remove_connection_in_loop`
compares the connection before it erases. And a connection that is closed and
still in the table is there only until its own removal, which is with the
thread that is inside `close()` or in the queue of the main loop.

Nothing is assumed here of when the kernel gives a closed number out again.
-/

namespace GameFrame.TcpServer

/-- The removal of the connection has still to be run. -/
def Leaving (w : TcpServer) (id : Nat) : Prop :=
  id ∈ w.closing ∨ .remove id ∈ w.queues 0

structure Filed (w : TcpServer) : Prop where
  held : ∀ id < w.accepted, (w.conns id).state ≠ .kDisconnected →
    w.connections (w.conns id).fd = some id
  own : ∀ k id, w.connections k = some id →
    id < w.accepted ∧ (w.conns id).fd = k
  leaving : ∀ k id, w.connections k = some id →
    (w.conns id).state = .kDisconnected → w.Leaving id
  closing : ∀ id ∈ w.closing,
    id < w.accepted ∧ (w.conns id).state = .kDisconnected
  removals : ∀ l id, .remove id ∈ w.queues l →
    id < w.accepted ∧ (w.conns id).state = .kDisconnected

theorem filed_init (n : Nat) (cb : Bool) :
    Filed { numThreads := n, connectionCb := cb } where
  held := fun _ h => absurd h (Nat.not_lt_zero _)
  own := fun _ _ h => by cases h
  leaving := fun _ _ h => by cases h
  closing := fun _ h => absurd h List.not_mem_nil
  removals := fun _ _ h => absurd h List.not_mem_nil

variable {w w' : TcpServer} {id : Nat}

/-! ## Steps that leave the table alone

The announcement of a connection, a `shutdown()`, a functor that tells the
user: no connection opens or closes, and no removal is queued or lost. -/

/-- No connection is opened, closed, filed or removed. -/
structure Quiet (w w' : TcpServer) : Prop where
  accepted : w'.accepted = w.accepted
  connections : w'.connections = w.connections
  fd : ∀ i, (w'.conns i).fd = (w.conns i).fd
  state : ∀ i, (w'.conns i).state = .kDisconnected ↔
    (w.conns i).state = .kDisconnected
  closing : w'.closing = w.closing
  removals : ∀ l i, .remove i ∈ w'.queues l ↔ .remove i ∈ w.queues l

theorem Quiet.filed (h : Quiet w w') (hw : w.Filed) : w'.Filed := by
  have hleaving : ∀ i, w.Leaving i → w'.Leaving i := by
    intro i hi
    rcases hi with hi | hi
    · exact .inl (h.closing ▸ hi)
    · exact .inr ((h.removals 0 i).mpr hi)
  refine ⟨fun i hi hstate => ?_, fun k i hk => ?_, fun k i hk hstate => ?_,
    fun i hi => ?_, fun l i hi => ?_⟩
  · rw [h.connections, h.fd]
    exact hw.held i (h.accepted ▸ hi) fun heq => hstate ((h.state i).mpr heq)
  · rw [h.accepted, h.fd]
    exact hw.own k i (h.connections ▸ hk)
  · exact hleaving i (hw.leaving k i (h.connections ▸ hk)
      ((h.state i).mp hstate))
  · obtain ⟨hlt, hstate⟩ := hw.closing i (h.closing ▸ hi)
    exact ⟨h.accepted ▸ hlt, (h.state i).mpr hstate⟩
  · obtain ⟨hlt, hstate⟩ := hw.removals l i ((h.removals l i).mp hi)
    exact ⟨h.accepted ▸ hlt, (h.state i).mpr hstate⟩

theorem Quiet.trans {w'' : TcpServer} (h : Quiet w w') (h' : Quiet w' w'') :
    Quiet w w'' where
  accepted := h'.accepted.trans h.accepted
  connections := h'.connections.trans h.connections
  fd := fun i => (h'.fd i).trans (h.fd i)
  state := fun i => (h'.state i).trans (h.state i)
  closing := h'.closing.trans h.closing
  removals := fun l i => (h'.removals l i).trans (h.removals l i)

theorem quiet_refl : Quiet w w :=
  ⟨rfl, rfl, fun _ => rfl, fun _ => .rfl, rfl, fun _ _ => .rfl⟩

/-- A connection that is written back neither opened nor closed. -/
theorem quiet_setConn {c : ServerConn} (hfd : c.fd = (w.conns id).fd)
    (hstate : c.state = .kDisconnected ↔
      (w.conns id).state = .kDisconnected) :
    Quiet w (w.setConn id c) := by
  refine ⟨rfl, rfl, fun i => ?_, fun i => ?_, rfl, fun _ _ => .rfl⟩
  · show (if i = id then c else w.conns i).fd = _
    split
    · next hi => rw [hi, hfd]
    · rfl
  · show (if i = id then c else w.conns i).state = _ ↔ _
    split
    · next hi => rw [hi, hstate]
    · exact .rfl

theorem quiet_connectionCallback (id : Nat) :
    Quiet w (w.connectionCallback id) := by
  rw [connectionCallback]
  split
  · exact ⟨rfl, rfl, fun _ => rfl, fun _ => .rfl, rfl, fun _ _ => .rfl⟩
  · exact quiet_refl

theorem quiet_establish (id : Nat) : Quiet w (w.establish id) := by
  have hcb : Quiet w (w.connectionCallback id) := quiet_connectionCallback id
  exact hcb.trans (quiet_setConn (hcb.fd id).symm (hcb.state id).symm)

/-- Another functor than a removal, queued. -/
theorem quiet_queueInLoop {l : Nat} {f : ServerFunctor}
    (hf : ∀ i, f ≠ .remove i) : Quiet w (w.queueInLoop l f) := by
  refine ⟨rfl, rfl, fun _ => rfl, fun _ => .rfl, rfl, fun k i => ?_⟩
  show _ ∈ (if k = l then w.queues l ++ [f] else w.queues k) ↔ _
  split
  · next hk => simp [hk, (hf i).symm]
  · exact .rfl

/-- Another functor than a removal, taken off its queue. -/
theorem quiet_pop {l : Nat} {f : ServerFunctor} {fs : List ServerFunctor}
    (hq : w.queues l = f :: fs) (hf : ∀ i, f ≠ .remove i) :
    Quiet w (w.setQueue l fs) := by
  refine ⟨rfl, rfl, fun _ => rfl, fun _ => .rfl, rfl, fun k i => ?_⟩
  show _ ∈ (if k = l then fs else w.queues k) ↔ _
  split
  · next hk => simp [hk, hq, (hf i).symm]
  · exact .rfl

theorem quiet_shutdown (id : Nat) : Quiet w (w.shutdown id) := by
  rw [shutdown]
  split
  · next hstate => exact quiet_setConn rfl (by simp [hstate])
  · exact quiet_refl

/-! ## Accepting

The number is not open, so the entry that is written over, if there is one, is
that of a connection that is closed. -/

/-- The new connection in the table, before it is announced. -/
theorem Filed.enter (hw : w.Filed) {fd loop : Nat} (hfree : w.fdFree fd) :
    Filed ({ w with
      accepted := w.accepted + 1
      connections := fun k =>
        if k = fd then some w.accepted else w.connections k }.setConn
          w.accepted { fd := fd, loop := loop }) := by
  have hold : ∀ i < w.accepted, (if i = w.accepted then
      ({ fd := fd, loop := loop } : ServerConn) else w.conns i) = w.conns i :=
    fun i hi => if_neg (Nat.ne_of_lt hi)
  have hopen : ∀ i < w.accepted, (w.conns i).state ≠ .kDisconnected →
      (w.conns i).fd ≠ fd := by
    intro i hi hstate
    have := List.all_eq_true.mp hfree i (List.mem_range.mpr hi)
    simpa [hstate] using this
  refine ⟨fun i hi hstate => ?_, fun k i hk => ?_, fun k i hk hstate => ?_,
    fun i hi => ?_, fun l i hi => ?_⟩
  · by_cases heq : i = w.accepted
    · simp [setConn, heq]
    · have hlt : i < w.accepted := by
        have : i < w.accepted + 1 := hi
        omega
      simp only [setConn, hold i hlt] at hstate ⊢
      rw [if_neg (hopen i hlt hstate)]
      exact hw.held i hlt hstate
  · simp only [setConn] at hk ⊢
    split at hk
    · next hfd =>
        cases hk
        simp [hfd]
    · obtain ⟨hlt, hfd⟩ := hw.own k i hk
      rw [hold i hlt]
      exact ⟨Nat.lt_succ_of_lt hlt, hfd⟩
  · simp only [setConn] at hk hstate
    split at hk
    · cases hk
      simp at hstate
    · have hlt := (hw.own k i hk).1
      rw [hold i hlt] at hstate
      exact hw.leaving k i hk hstate
  · obtain ⟨hlt, hstate⟩ := hw.closing i hi
    simp only [setConn, hold i hlt]
    exact ⟨Nat.lt_succ_of_lt hlt, hstate⟩
  · obtain ⟨hlt, hstate⟩ := hw.removals l i hi
    simp only [setConn, hold i hlt]
    exact ⟨Nat.lt_succ_of_lt hlt, hstate⟩

theorem quiet_nextLoop (w : TcpServer) : Quiet w w.nextLoop.2 := by
  rw [nextLoop]
  split
  · exact quiet_refl
  · exact ⟨rfl, rfl, fun _ => rfl, fun _ => .rfl, rfl, fun _ _ => .rfl⟩

theorem nextLoop_fdFree (w : TcpServer) (fd : Nat) :
    w.nextLoop.2.fdFree fd = w.fdFree fd := by
  rw [nextLoop]
  split
  · rfl
  · rfl

theorem Filed.handleAccept (hw : w.Filed) {fd : Nat} (hfree : w.fdFree fd) :
    (w.handleAccept fd).Filed := by
  have hnext := (quiet_nextLoop w).filed hw
  have hentered := @Filed.enter _ hnext fd w.nextLoop.1
    (by rw [nextLoop_fdFree]; exact hfree)
  rw [(quiet_nextLoop w).accepted] at hentered
  unfold TcpServer.handleAccept
  dsimp only
  split
  · exact (quiet_establish _).filed hentered
  · exact (quiet_queueInLoop (by simp)).filed hentered

/-! ## Closing and removing -/

/-- What `remove_connection_in_loop` leaves of the table: everything but the
connection's own entry. -/
theorem removeConnectionInLoop_table (w : TcpServer) (id k : Nat) :
    (w.removeConnectionInLoop id).connections k =
      if k = (w.conns id).fd ∧ w.connections k = some id then none
      else w.connections k := by
  have hcb : ∀ v : TcpServer, (v.connectionCallback id).connections =
      v.connections := fun v => (quiet_connectionCallback id).connections
  unfold removeConnectionInLoop
  dsimp only
  split
  · next hnone =>
      split
      · next h => rw [h.1, hnone] at h; cases h.2
      · rfl
  · next i hsome =>
      split
      · next hne =>
          split
          · next h =>
              rw [h.1, hsome] at h
              exact absurd (Option.some.inj h.2) hne
          · rfl
      · next heq =>
          have hi : i = id := by simpa using heq
          have herased : (if k = (w.conns id).fd then none
              else w.connections k) =
              if k = (w.conns id).fd ∧ w.connections k = some id then none
              else w.connections k := by
            by_cases hk : k = (w.conns id).fd
            · rw [if_pos hk, if_pos ⟨hk, by rw [hk, hsome, hi]⟩]
            · rw [if_neg hk, if_neg fun h => hk h.1]
          split
          · split
            · rw [hcb]
              exact herased
            · exact herased
          · exact herased

/-- And of the rest, a `destroyed` functor is all that may be new. -/
theorem removeConnectionInLoop_rest (w : TcpServer) (id : Nat) :
    (w.removeConnectionInLoop id).accepted = w.accepted ∧
      (w.removeConnectionInLoop id).conns = w.conns ∧
      (w.removeConnectionInLoop id).closing = w.closing ∧
      ∀ l i, .remove i ∈ (w.removeConnectionInLoop id).queues l ↔
        .remove i ∈ w.queues l := by
  unfold removeConnectionInLoop
  dsimp only
  split
  · exact ⟨rfl, rfl, rfl, fun _ _ => .rfl⟩
  · split
    · exact ⟨rfl, rfl, rfl, fun _ _ => .rfl⟩
    · split
      · split
        · rw [connectionCallback]
          split
          · exact ⟨rfl, rfl, rfl, fun _ _ => .rfl⟩
          · exact ⟨rfl, rfl, rfl, fun _ _ => .rfl⟩
        · exact ⟨rfl, rfl, rfl, (quiet_queueInLoop (by simp)).removals⟩
      · exact ⟨rfl, rfl, rfl, fun _ _ => .rfl⟩

/-- `v` is where the removal runs: it has left the place it was in, and is
nowhere else. -/
theorem Filed.remove {v : TcpServer} (hw : w.Filed)
    (haccepted : v.accepted = w.accepted) (hconns : v.conns = w.conns)
    (hconnections : v.connections = w.connections)
    (hclosing : ∀ i ∈ v.closing, i ∈ w.closing)
    (hremovals : ∀ l i, .remove i ∈ v.queues l → .remove i ∈ w.queues l)
    (hkept : ∀ i, i ≠ id → w.Leaving i → v.Leaving i)
    (hclosed : (w.conns id).state = .kDisconnected) :
    (v.removeConnectionInLoop id).Filed := by
  obtain ⟨hacc, hcon, hclo, hrem⟩ := removeConnectionInLoop_rest v id
  have htable := removeConnectionInLoop_table v id
  rw [haccepted] at hacc
  rw [hconns] at hcon htable
  rw [hconnections] at htable
  have hsome : ∀ k i, (v.removeConnectionInLoop id).connections k = some i →
      w.connections k = some i ∧ i ≠ id := by
    intro k i hk
    rw [htable] at hk
    split at hk
    · cases hk
    · next hne =>
        refine ⟨hk, fun heq => hne ?_⟩
        subst heq
        exact ⟨(hw.own k i hk).2.symm, hk⟩
  refine ⟨fun i hi hstate => ?_, fun k i hk => ?_, fun k i hk hstate => ?_,
    fun i hi => ?_, fun l i hi => ?_⟩
  · rw [hcon] at hstate ⊢
    have hheld := hw.held i (hacc ▸ hi) hstate
    rw [htable, if_neg, hheld]
    intro h
    rw [hheld] at h
    cases h.2
    exact hstate hclosed
  · rw [hacc, hcon]
    exact hw.own k i (hsome k i hk).1
  · rw [hcon] at hstate
    obtain ⟨hk, hne⟩ := hsome k i hk
    rcases hkept i hne (hw.leaving k i hk hstate) with h | h
    · exact .inl (hclo ▸ h)
    · exact .inr ((hrem 0 i).mpr h)
  · rw [hacc, hcon]
    exact hw.closing i (hclosing i (hclo ▸ hi))
  · rw [hacc, hcon]
    exact hw.removals l i (hremovals l i ((hrem l i).mp hi))

theorem Filed.closeFd (hw : w.Filed) (hid : id < w.accepted) :
    (w.closeFd id).Filed := by
  rw [TcpServer.closeFd]
  split
  · exact hw
  · have hfd : ∀ i, (if i = id then ({ w.conns id with
        state := .kDisconnected } : ServerConn) else w.conns i).fd =
        (w.conns i).fd := by
      intro i
      split
      · next hi => rw [hi]
      · rfl
    have hstate : ∀ i, (if i = id then ({ w.conns id with
        state := .kDisconnected } : ServerConn) else w.conns i).state =
        if i = id then .kDisconnected else (w.conns i).state := by
      intro i
      split
      · rfl
      · rfl
    refine ⟨fun i hi hs => ?_, fun k i hk => ?_, fun k i hk hs => ?_,
      fun i hi => ?_, fun l i hi => ?_⟩
    · simp only [setConn, hfd, hstate] at hs ⊢
      split at hs
      · exact absurd rfl hs
      · exact hw.held i hi hs
    · simp only [setConn, hfd]
      exact hw.own k i hk
    · simp only [setConn, hstate] at hs
      split at hs
      · next heq => exact .inl (heq ▸ List.mem_cons_self)
      · rcases hw.leaving k i hk hs with h | h
        · exact .inl (List.mem_cons_of_mem id h)
        · exact .inr h
    · simp only [setConn, hstate]
      split
      · next heq => exact ⟨heq ▸ hid, rfl⟩
      · next hne =>
          rcases List.mem_cons.mp hi with heq | hin
          · exact absurd heq hne
          · exact hw.closing i hin
    · simp only [setConn, hstate]
      obtain ⟨hlt, hclosed⟩ := hw.removals l i hi
      split
      · exact ⟨hlt, rfl⟩
      · exact ⟨hlt, hclosed⟩

/-- The close callback: the removal goes from the thread to the queue, or is
run. -/
theorem Filed.closeCb (hw : w.Filed) (hin : id ∈ w.closing) :
    ({ w with closing := w.closing.erase id }.closeCallback id).Filed := by
  obtain ⟨hlt, hclosed⟩ := hw.closing id hin
  rw [closeCallback]
  split
  · refine hw.remove rfl rfl rfl (fun i hi => List.mem_of_mem_erase hi)
      (fun _ _ h => h) (fun i hne hi => ?_) hclosed
    rcases hi with hi | hi
    · exact .inl ((List.mem_erase_of_ne hne).mpr hi)
    · exact .inr hi
  · have hmem : ∀ l i, .remove i ∈
        (if l = 0 then w.queues 0 ++ [ServerFunctor.remove id] else w.queues l) ↔
        .remove i ∈ w.queues l ∨ (l = 0 ∧ i = id) := by
      intro l i
      split
      · next hl => simp [hl]
      · next hl => simp [hl]
    refine ⟨hw.held, hw.own, fun k i hk hs => ?_, fun i hi =>
      hw.closing i (List.mem_of_mem_erase hi), fun l i hi => ?_⟩
    · by_cases heq : i = id
      · exact .inr ((hmem 0 i).mpr (.inr ⟨rfl, heq⟩))
      · rcases hw.leaving k i hk hs with h | h
        · exact .inl ((List.mem_erase_of_ne heq).mpr h)
        · exact .inr ((hmem 0 i).mpr (.inl h))
    · rcases (hmem l i).mp hi with h | ⟨-, rfl⟩
      · exact hw.removals l i h
      · exact ⟨hlt, hclosed⟩

theorem Filed.functor (hw : w.Filed) {l : Nat} {f : ServerFunctor}
    {fs : List ServerFunctor} (hq : w.queues l = f :: fs) :
    ((w.setQueue l fs).runFunctor f).Filed := by
  cases f with
  | established id =>
      exact (quiet_establish id).filed ((quiet_pop hq (by simp)).filed hw)
  | destroyed id =>
      exact (quiet_connectionCallback id).filed
        ((quiet_pop hq (by simp)).filed hw)
  | remove id =>
      have hmem : ∀ k i, i ≠ id → (.remove i ∈
          (if k = l then fs else w.queues k) ↔ .remove i ∈ w.queues k) := by
        intro k i hi
        split
        · next hk => simp [hk, hq, hi]
        · exact .rfl
      have hclosed := (hw.removals l id (by simp [hq])).2
      refine hw.remove rfl rfl rfl (fun _ h => h) (fun k i hi => ?_)
        (fun i hne hi => ?_) hclosed
      · simp only [setQueue] at hi
        split at hi
        · next hk =>
            rw [hk, hq]
            exact List.mem_cons_of_mem _ hi
        · exact hi
      · rcases hi with hi | hi
        · exact .inl hi
        · exact .inr ((hmem 0 i hne).mpr hi)

/-! ## Every run -/

theorem Filed.step {lb : Label} (hw : w.Filed) (h : w.step lb = some w') :
    w'.Filed := by
  cases step_stepped h with
  | accept fd hbusy hfree => exact hw.handleAccept hfree
  | functor l f fs hq => exact hw.functor hq
  | shutdown id => exact (quiet_shutdown id).filed hw
  | closeFd id hid => exact hw.closeFd hid
  | closeCb id hin => exact hw.closeCb hin

/-! ## The loop of `handle_accept`

One call of it is a run of accepts, and so all of this is true behind it. -/

theorem handleAccept_closing (w : TcpServer) (fd : Nat) :
    (w.handleAccept fd).closing = w.closing := by
  have hnext := (quiet_nextLoop w).closing
  unfold TcpServer.handleAccept
  dsimp only
  split
  · exact (quiet_establish _).closing.trans hnext
  · exact hnext

theorem busy_handleAccept (hw : w.Filed) (fd l : Nat) :
    (w.handleAccept fd).busy l = w.busy l := by
  have hloop : ∀ i ∈ w.closing,
      ((w.handleAccept fd).conns i).loop = (w.conns i).loop := by
    intro i hi
    have hlt := (hw.closing i hi).1
    exact ((handleAccept_places w fd).2.2 i (Nat.ne_of_lt hlt)).2
  rw [busy, busy, handleAccept_closing, Bool.eq_iff_iff, List.any_eq_true,
    List.any_eq_true]
  refine exists_congr fun i => and_congr_right fun hi => ?_
  rw [hloop i hi]

theorem acceptLoop_run {answers : List AcceptRes} : ∀ {w w' : TcpServer}
    {e : AcceptEnd}, w.Filed → w.busy 0 = false →
    w.acceptLoop answers = some (w', e) →
    ∃ fds : List Nat,
      Machine.run TcpServer.step w (fds.map .accept) = some w' := by
  induction answers with
  | nil =>
      intro w w' e hw hbusy h
      cases h
  | cons r rs ih =>
      intro w w' e hw hbusy h
      cases r with
      | conn fd nonblocking =>
          rw [acceptLoop] at h
          split at h
          · next hfree =>
              cases nonblocking with
              | true =>
                  obtain ⟨fds, hrun⟩ := ih (hw.handleAccept hfree)
                    ((busy_handleAccept hw fd 0).trans hbusy) h
                  have hstep : w.step (.accept fd) =
                      some (w.handleAccept fd) := by
                    simp [TcpServer.step, hbusy, hfree]
                  exact ⟨fd :: fds, Machine.run_cons_some.mpr
                    ⟨_, hstep, hrun⟩⟩
              | false => exact ih hw hbusy h
          · cases h
      | eintr => exact ih hw hbusy h
      | stop e =>
          rw [acceptLoop] at h
          split at h
          · cases h
            exact ⟨[], rfl⟩
          · cases h

theorem run_filed {n : Nat} {cb : Bool} {ls : List Label}
    (hrun : Machine.run TcpServer.step
      { numThreads := n, connectionCb := cb } ls = some w) : w.Filed :=
  Machine.run_preserves Filed.step (filed_init n cb) hrun

/-- Whatever the kernel does with the numbers it has back: an open connection
is in the table under its own number, a removal takes nothing off but its own
connection, and after it the connection is in the table no more. -/
theorem table_exact {n : Nat} {cb : Bool} {ls : List Label}
    (hrun : Machine.run TcpServer.step
      { numThreads := n, connectionCb := cb } ls = some w) :
    (∀ id < w.accepted, (w.conns id).state ≠ .kDisconnected →
      w.connections (w.conns id).fd = some id) ∧
    (∀ id k c, w.connections k = some c → c ≠ id →
      (w.removeConnectionInLoop id).connections k = some c) ∧
    (∀ id k, (w.removeConnectionInLoop id).connections k ≠ some id) ∧
    ∀ id, (w.conns id).state = .kDisconnected → id ∉ w.closing →
      .remove id ∉ w.queues 0 → ∀ k, w.connections k ≠ some id := by
  have hw := run_filed hrun
  refine ⟨hw.held, fun id k c hk hne => ?_, fun id k hk => ?_,
    fun id hstate hclosing hqueue k hk => ?_⟩
  · rw [removeConnectionInLoop_table, if_neg, hk]
    intro h
    rw [hk] at h
    exact hne (Option.some.inj h.2)
  · rw [removeConnectionInLoop_table] at hk
    split at hk
    · cases hk
    · next hne => exact hne ⟨(hw.own k id hk).2.symm, hk⟩
  · rcases hw.leaving k id hk hstate with h | h
    · exact hclosing h
    · exact hqueue h

/-- A number that is used again before the first removal has run, which then
finds the second connection and leaves it. -/
theorem table_exact_reused :
    ∃ w, Machine.run TcpServer.step { numThreads := 1, connectionCb := true }
        [.accept 7, .functor 1, .closeFd 0, .closeCb 0, .accept 7] = some w ∧
      w.queues 0 = [.remove 0] ∧
      (w.removeConnectionInLoop 0).connections 7 = some 1 := by
  have hany : (Machine.run TcpServer.step
      { numThreads := 1, connectionCb := true }
      [.accept 7, .functor 1, .closeFd 0, .closeCb 0, .accept 7]).any
      (fun w => decide (w.queues 0 = [.remove 0] ∧
        w.connections 7 = some 1)) = true := by
    decide +kernel
  obtain ⟨w, hrun, hw⟩ := (Option.any_eq_true _ _).mp hany
  obtain ⟨hqueue, hentry⟩ := of_decide_eq_true hw
  exact ⟨w, hrun, hqueue,
    (table_exact hrun).2.1 0 7 1 hentry (by decide)⟩

end GameFrame.TcpServer
