import GameFrame.Net.Reactor

/-!
# The rest of the batch

A channel is registered only while its connection is open, and an open
connection is in the table, so `epoll_wait` returns channels that exist. A
callback of the first of them may then close the connection of a later one.
With one thread the table has it no more when `close()` returns, and it is
destroyed unless the user or a functor has a pointer to it. What `tie()`
protects is the connection whose channel is being dispatched; to ask it, one
has to follow the pointer (`dispatch_dangling`).

`LetGoOk` says that nobody lets go of such a connection: when `close()` of a
connection returns, or the user drops a pointer, and an event of the
connection is still to come, there is another pointer. And `start()` must not
register a connection that has been closed, which it does if the number has
been opened again in the meantime.
-/

namespace GameFrame.Reactor

open TcpServer (handleAccept_single close_single)

/-- The channel that is dispatched next exists. -/
def Standing (w : Reactor) : Prop :=
  w.stack = [] → ∀ id rest, w.phase = .dispatch (.conn id :: rest) →
    id ∈ w.alive

/-- An event of the connection is still to come in this batch. -/
def awaits (w : Reactor) (id : Nat) : Bool :=
  match w.phase with
  | .dispatch rest => rest.contains (.conn id)
  | .wait | .functors _ => false

/-- The user or a queued functor has one of these pointers. -/
def kept (w : Reactor) (held : List Nat) (id : Nat) : Bool :=
  held.contains id || w.pendingFunctors.contains (some id)

/-- The connection that the innermost call is closing, or accepting. -/
def closing (w : Reactor) : Option Nat :=
  match w.stack with
  | .close id :: _ => some id
  | _ => none

def accepting (w : Reactor) : Option Nat :=
  match w.stack with
  | .accept id :: _ => some id
  | _ => none

/-- Nobody lets go of a closed connection whose event is still to come, and
none is started. -/
def LetGoOk (w : Reactor) : Label → Prop
  | .ret => ∀ id ∈ w.closing, w.awaits id = true → w.kept w.held id = true
  | .drop id => w.awaits id = true → w.closed id = true →
      w.kept (w.held.erase id) id = true ∨ .close id ∈ w.stack
  | .start reopened => ∀ id ∈ w.accepting, w.closed id = true →
      reopened = false
  | _ => True

instance (w : Reactor) : ∀ l, Decidable (LetGoOk w l)
  | .ret => inferInstanceAs (Decidable (∀ id ∈ w.closing, _ → _))
  | .drop _ => inferInstanceAs (Decidable (_ → _ → _ ∨ _))
  | .start _ => inferInstanceAs (Decidable (∀ id ∈ w.accepting, _ → _))
  | .poll _ | .handleEvent | .swap | .runFunctor | .endRound | .accept _
  | .close _ | .hold _ | .queueInLoop _ => .isTrue trivial

/-- Two connections in one batch, and a callback of the first closes the
second. -/
theorem dispatch_dangling :
    ¬ ∀ (ls : List Label) (w : Reactor), Machine.run step {} ls = some w →
      w.Standing := by
  intro hall
  have hany : (Machine.run step {} [.poll [.acceptor], .handleEvent, .accept 7,
      .start false, .accept 8, .start false, .ret, .swap, .endRound,
      .poll [.conn 0, .conn 1], .handleEvent, .close 1, .ret, .ret]).any
      (fun w => w.stack == [] && w.phase == .dispatch [.conn 1] &&
        !w.alive.contains 1) = true := by decide +kernel
  obtain ⟨w, hrun, hw⟩ := (Option.any_eq_true _ _).mp hany
  simp only [Bool.and_eq_true, beq_iff_eq, Bool.not_eq_true'] at hw
  obtain ⟨⟨hstack, hphase⟩, hgone⟩ := hw
  have hmem := hall _ w hrun hstack 1 [] hphase
  simp [hmem] at hgone

/-! ## The invariant -/

/-- The connections whose descriptor is open are those in the table, every
registered channel is one of theirs, and so is every channel in the batch,
unless the connection has been closed and somebody else keeps it. And whatever
somebody has a pointer to exists. -/
structure Whole (w : Reactor) : Prop where
  threads : w.server.numThreads = 0
  loops : ∀ id, (w.server.conns id).loop = 0
  table : ∀ fd id, w.server.connections fd = some id →
    id < w.server.accepted ∧ (w.server.conns id).fd = fd ∧ w.closed id = false
  mapped : ∀ id < w.server.accepted, w.closed id = false → w.inTable id = true
  added : ∀ id ∈ w.added, id < w.server.accepted ∧ w.closed id = false
  awaited : ∀ id, w.awaits id = true → id < w.server.accepted ∧
    (w.closed id = false ∨ w.kept w.held id = true ∨ .close id ∈ w.stack)
  alive : ∀ id, w.owned id = true → id ∈ w.alive
  born : ∀ id ∈ w.alive, id < w.server.accepted

theorem owned_iff {w : Reactor} {id : Nat} : w.owned id = true ↔
    w.inTable id = true ∨ id ∈ w.held ∨ some id ∈ w.pendingFunctors ∨
      some id ∈ w.functors ∨ ∃ f ∈ w.stack, f.guard = some id := by
  rw [owned]
  simp only [Bool.or_eq_true, List.contains_iff_mem, List.any_eq_true,
    beq_iff_eq, or_assoc]

theorem kept_iff {w : Reactor} {held : List Nat} {id : Nat} :
    w.kept held id = true ↔ id ∈ held ∨ some id ∈ w.pendingFunctors := by
  rw [kept]
  simp only [Bool.or_eq_true, List.contains_iff_mem]

theorem whole_init : Whole {} where
  threads := rfl
  loops := fun _ => rfl
  table := nofun
  mapped := nofun
  added := nofun
  awaited := nofun
  alive := fun id h => by
    rw [owned_iff] at h
    simp [inTable] at h
  born := nofun

/-! What somebody has a pointer to, by who has it. -/

section

variable {w : Reactor} {id : Nat}

theorem Whole.alive_table (hw : w.Whole) (h : w.inTable id = true) :
    id ∈ w.alive :=
  hw.alive id (owned_iff.mpr (.inl h))

theorem Whole.alive_held (hw : w.Whole) (h : id ∈ w.held) : id ∈ w.alive :=
  hw.alive id (owned_iff.mpr (.inr (.inl h)))

theorem Whole.alive_pending (hw : w.Whole)
    (h : some id ∈ w.pendingFunctors) : id ∈ w.alive :=
  hw.alive id (owned_iff.mpr (.inr (.inr (.inl h))))

theorem Whole.alive_round (hw : w.Whole) (h : some id ∈ w.functors) :
    id ∈ w.alive :=
  hw.alive id (owned_iff.mpr (.inr (.inr (.inr (.inl h)))))

theorem Whole.alive_frame (hw : w.Whole) {f : Frame} (hf : f ∈ w.stack)
    (hguard : f.guard = some id) : id ∈ w.alive :=
  hw.alive id (owned_iff.mpr (.inr (.inr (.inr (.inr ⟨f, hf, hguard⟩)))))

end

/-- What is in the batch is alive. -/
theorem Whole.standing {w : Reactor} (hw : w.Whole) : w.Standing := by
  intro hstack id rest hphase
  have hawaits : w.awaits id = true := by
    rw [awaits, hphase]
    simp
  obtain ⟨hlt, hopen | hkept | hframe⟩ := hw.awaited id hawaits
  · exact hw.alive_table (hw.mapped id hlt hopen)
  · rcases kept_iff.mp hkept with hheld | hqueued
    · exact hw.alive_held hheld
    · exact hw.alive_pending hqueued
  · rw [hstack] at hframe
    cases hframe

/-- Destroying what nobody has a pointer to. -/
theorem Whole.reap {w : Reactor} (hw : w.Whole) : w.reap.Whole where
  threads := hw.threads
  loops := hw.loops
  table := hw.table
  mapped := hw.mapped
  added := hw.added
  awaited := hw.awaited
  alive := fun id h => List.mem_filter.mpr ⟨hw.alive id h, h⟩
  born := fun id h => hw.born id (List.mem_filter.mp h).1

/-- The server is left alone, and the pointers that are new are to what
exists. -/
theorem Whole.same {w w' : Reactor} (hw : w.Whole)
    (h : (w'.server, w'.alive) = (w.server, w.alive))
    (hstack : ∀ f ∈ w'.stack, f ∈ w.stack ∨
      ∀ id, f.guard = some id → id ∈ w'.alive)
    (hadded : ∀ id ∈ w'.added, id < w'.server.accepted ∧ w'.closed id = false)
    (hawaited : ∀ id, w'.awaits id = true → id < w'.server.accepted ∧
      (w'.closed id = false ∨ w'.kept w'.held id = true ∨
        .close id ∈ w'.stack))
    (hheld : ∀ id ∈ w'.held, id ∈ w.held ∨ id ∈ w'.alive)
    (hqueued : ∀ id, some id ∈ w'.pendingFunctors →
      some id ∈ w.pendingFunctors ∨ id ∈ w'.alive)
    (hround : ∀ id, some id ∈ w'.functors → some id ∈ w.functors ∨
      some id ∈ w.pendingFunctors) : w'.Whole := by
  obtain ⟨hserver, halive⟩ := Prod.mk.inj h
  refine ⟨?_, ?_, fun fd id h => ?_, fun id hlt hopen => ?_, hadded, hawaited,
    fun id h => ?_, ?_⟩
  · rw [hserver]; exact hw.threads
  · rw [hserver]; exact hw.loops
  · rw [hserver] at h
    rw [closed, hserver]
    exact hw.table fd id h
  · rw [closed, hserver] at hopen
    rw [hserver] at hlt
    rw [inTable, hserver]
    exact hw.mapped id hlt hopen
  · rw [halive] at hstack hheld hqueued ⊢
    rcases owned_iff.mp h with h | h | h | h | ⟨f, hf, hguard⟩
    · rw [inTable, hserver] at h
      exact hw.alive_table h
    · rcases hheld id h with h | hnew
      · exact hw.alive_held h
      · exact hnew
    · rcases hqueued id h with h | hnew
      · exact hw.alive_pending h
      · exact hnew
    · rcases hround id h with h | h
      · exact hw.alive_round h
      · exact hw.alive_pending h
    · rcases hstack f hf with hf | hnew
      · exact hw.alive_frame hf hguard
      · exact hnew id hguard
  · rw [halive, hserver]
    exact hw.born

/-! ## The steps -/

theorem Whole.poll {w : Reactor} (hw : w.Whole) {events : List EventSource}
    (h : events.all w.registered = true) :
    { w with phase := .dispatch events }.Whole := by
  refine hw.same rfl (fun f hf => .inl hf) hw.added (fun id hawaits => ?_)
    (fun _ h => .inl h) (fun _ h => .inl h) fun _ h => .inl h
  have hmem : .conn id ∈ events := by simpa [awaits] using hawaits
  have hreg := List.all_eq_true.mp h _ hmem
  have hadded := hw.added id (by simpa [registered] using hreg)
  exact ⟨hadded.1, .inl hadded.2⟩

theorem Whole.handleEvent {w : Reactor} (hw : w.Whole) {s : EventSource}
    {rest : List EventSource} (hphase : w.phase = .dispatch (s :: rest))
    (hstack : w.stack = []) (hstanding : w.standing s = true) :
    { w with phase := .dispatch rest, stack := [.handleEvent s] }.Whole := by
  refine hw.same rfl (fun f hf => .inr fun id hguard => ?_) hw.added
    (fun id hawaits => ?_) (fun _ h => .inl h) (fun _ h => .inl h)
    fun _ h => .inl h
  · rw [List.mem_singleton.mp hf] at hguard
    cases s with
    | conn i =>
        cases hguard
        simpa [Reactor.standing] using hstanding
    | acceptor | wakeup | timers => cases hguard
  · have hmem : .conn id ∈ rest := by simpa [awaits] using hawaits
    obtain ⟨hlt, hopen | hkept | hframe⟩ := hw.awaited id (by
      rw [awaits, hphase]
      simp [hmem])
    · exact ⟨hlt, .inl hopen⟩
    · exact ⟨hlt, .inr (.inl hkept)⟩
    · rw [hstack] at hframe
      cases hframe

/-- Outside of the batch nothing is awaited. -/
theorem Whole.outside {w w' : Reactor} (hw : w.Whole)
    (h : (w'.server, w'.alive, w'.held, w'.added) =
      (w.server, w.alive, w.held, w.added))
    (hphase : ∀ rest, w'.phase ≠ .dispatch rest)
    (hstack : ∀ f ∈ w'.stack, f ∈ w.stack ∨ f.guard = none)
    (hqueued : ∀ id, some id ∈ w'.pendingFunctors →
      some id ∈ w.pendingFunctors)
    (hround : ∀ id, some id ∈ w'.functors → some id ∈ w.functors ∨
      some id ∈ w.pendingFunctors) : w'.Whole := by
  simp only [Prod.mk.injEq] at h
  obtain ⟨hserver, halive, hheld, hadded⟩ := h
  refine hw.same (Prod.ext hserver halive) ?_ ?_ ?_ ?_ ?_ hround
  · intro f hf
    rcases hstack f hf with hf | hnone
    · exact .inl hf
    · exact .inr fun id hguard => by cases hnone.symm.trans hguard
  · rw [hadded]
    intro id hid
    rw [closed, hserver]
    exact hw.added id hid
  · intro id hawaits
    rw [awaits] at hawaits
    split at hawaits
    · next rest h => exact absurd h (hphase rest)
    · cases hawaits
    · cases hawaits
  · rw [hheld]
    exact fun _ h => .inl h
  · exact fun id h => .inl (hqueued id h)

theorem Whole.ret {w : Reactor} (hw : w.Whole) {f : Frame}
    {frames : List Frame} (hstack : w.stack = f :: frames)
    (hok : ∀ id ∈ w.closing, w.awaits id = true → w.kept w.held id = true) :
    { w with stack := frames }.Whole := by
  refine hw.same rfl (fun g hg => .inl ?_) hw.added (fun id hawaits => ?_)
    (fun _ h => .inl h) (fun _ h => .inl h) fun _ h => .inl h
  · rw [hstack]
    exact List.mem_cons_of_mem f hg
  · obtain ⟨hlt, hopen | hkept | hframe⟩ := hw.awaited id hawaits
    · exact ⟨hlt, .inl hopen⟩
    · exact ⟨hlt, .inr (.inl hkept)⟩
    · rw [hstack] at hframe
      rcases List.mem_cons.mp hframe with hf | hframe
      · refine ⟨hlt, .inr (.inl (hok id ?_ hawaits))⟩
        rw [Reactor.closing, hstack, ← hf]
        rfl
      · exact ⟨hlt, .inr (.inr hframe)⟩

theorem Whole.start {w : Reactor} (hw : w.Whole) {id : Nat}
    {frames : List Frame} (hstack : w.stack = .accept id :: frames)
    {added : List Nat}
    (hadded : added = id :: w.added ∧ w.closed id = false ∨
      added = w.added) :
    { w with added := added, stack := frames }.Whole := by
  have hframe : .accept id ∈ w.stack := by simp [hstack]
  have hlt : id < w.server.accepted := hw.born id (hw.alive_frame hframe rfl)
  refine hw.same rfl (fun g hg => .inl ?_) (fun i hi => ?_)
    (fun i hawaits => ?_) (fun _ h => .inl h) (fun _ h => .inl h)
    fun _ h => .inl h
  · rw [hstack]
    exact List.mem_cons_of_mem _ hg
  · rcases hadded with ⟨rfl, hopen⟩ | rfl
    · rcases List.mem_cons.mp hi with rfl | hi
      · exact ⟨hlt, hopen⟩
      · exact hw.added i hi
    · exact hw.added i hi
  · obtain ⟨hlt, hopen | hkept | hframe⟩ := hw.awaited i hawaits
    · exact ⟨hlt, .inl hopen⟩
    · exact ⟨hlt, .inr (.inl hkept)⟩
    · rw [hstack] at hframe
      rcases List.mem_cons.mp hframe with hf | hframe
      · cases hf
      · exact ⟨hlt, .inr (.inr hframe)⟩

/-- No open connection has a number that is free. -/
theorem fd_ne_of_free {w : Reactor} {fd : Nat}
    (hfree : w.server.fdFree fd = true) {id : Nat}
    (hlt : id < w.server.accepted) (hopen : w.closed id = false) :
    (w.server.conns id).fd ≠ fd := by
  intro heq
  have hall := List.all_eq_true.mp hfree id (List.mem_range.mpr hlt)
  rw [closed] at hopen
  simp [heq, hopen] at hall

theorem inTable_iff {w : Reactor} {id : Nat} : w.inTable id = true ↔
    w.server.connections (w.server.conns id).fd = some id := by
  rw [inTable, beq_iff_eq]

theorem Whole.accept {w : Reactor} (hw : w.Whole) {fd : Nat}
    (hfree : w.server.fdFree fd = true) : (w.handleAccept fd).Whole := by
  obtain ⟨hthreads, haccepted, htable, hconns⟩ :=
    handleAccept_single hw.threads fd
  have hnew : (w.server.handleAccept fd).conns w.server.accepted =
      { fd := fd, known := true } := by rw [hconns, if_pos rfl]
  have hold : ∀ i, i < w.server.accepted →
      (w.server.handleAccept fd).conns i = w.server.conns i := fun i hi => by
    rw [hconns, if_neg (Nat.ne_of_lt hi)]
  have hclosed : ∀ i, i < w.server.accepted →
      (w.handleAccept fd).closed i = w.closed i := fun i hi =>
    congrArg (fun c : ServerConn => c.state == .kDisconnected) (hold i hi)
  have hlt : ∀ i, i < w.server.accepted →
      i < (w.handleAccept fd).server.accepted := fun i hi =>
    haccepted ▸ Nat.lt_succ_of_lt hi
  refine ⟨hthreads, fun id => ?_, fun k id h => ?_, fun id hid hopen => ?_,
    fun id hid => ?_, fun id h => ?_, fun id h => ?_, fun id h => ?_⟩
  · show ((w.server.handleAccept fd).conns id).loop = 0
    rw [hconns]
    split
    · rfl
    · exact hw.loops id
  · have h : (w.server.handleAccept fd).connections k = some id := h
    rw [htable] at h
    split at h
    · next hk =>
        cases h
        refine ⟨haccepted ▸ Nat.lt_succ_self _, ?_, ?_⟩
        · show ((w.server.handleAccept fd).conns _).fd = k
          rw [hnew, hk]
        · exact congrArg (fun c : ServerConn => c.state == .kDisconnected) hnew
    · obtain ⟨hid, hfd, hopen⟩ := hw.table k id h
      refine ⟨hlt id hid, ?_, (hclosed id hid).trans hopen⟩
      show ((w.server.handleAccept fd).conns id).fd = k
      rw [hold id hid, hfd]
  · refine inTable_iff.mpr ?_
    show (w.server.handleAccept fd).connections
      ((w.server.handleAccept fd).conns id).fd = some id
    have hid : id < (w.server.handleAccept fd).accepted := hid
    rw [haccepted] at hid
    rcases Nat.lt_succ_iff_lt_or_eq.mp hid with hid | rfl
    · rw [hclosed id hid] at hopen
      rw [hold id hid, htable, if_neg (fd_ne_of_free hfree hid hopen)]
      exact inTable_iff.mp (hw.mapped id hid hopen)
    · rw [hnew, htable, if_pos rfl]
  · obtain ⟨hid, hopen⟩ := hw.added id hid
    exact ⟨hlt id hid, (hclosed id hid).trans hopen⟩
  · obtain ⟨hid, hopen | hkept | hframe⟩ := hw.awaited id h
    · exact ⟨hlt id hid, .inl ((hclosed id hid).trans hopen)⟩
    · exact ⟨hlt id hid, .inr (.inl hkept)⟩
    · exact ⟨hlt id hid, .inr (.inr (List.mem_cons_of_mem _ hframe))⟩
  · show id ∈ w.server.accepted :: w.alive
    rcases owned_iff.mp h with h | h | h | h | ⟨f, hf, hguard⟩
    · have h : (w.server.handleAccept fd).connections
        ((w.server.handleAccept fd).conns id).fd = some id := inTable_iff.mp h
      rw [htable] at h
      split at h
      · cases h
        exact List.mem_cons_self
      · obtain ⟨hid, -, -⟩ := hw.table _ id h
        rw [hold id hid] at h
        exact List.mem_cons_of_mem _ (hw.alive_table (inTable_iff.mpr h))
    · exact List.mem_cons_of_mem _ (hw.alive_held h)
    · exact List.mem_cons_of_mem _ (hw.alive_pending h)
    · exact List.mem_cons_of_mem _ (hw.alive_round h)
    · rcases List.mem_cons.mp hf with rfl | hf
      · cases hguard
        exact List.mem_cons_self
      · exact List.mem_cons_of_mem _ (hw.alive_frame hf hguard)
  · show id < (w.server.handleAccept fd).accepted
    rw [haccepted]
    rcases List.mem_cons.mp h with rfl | h
    · exact Nat.lt_succ_self _
    · exact Nat.lt_succ_of_lt (hw.born id h)

theorem Whole.close {w : Reactor} (hw : w.Whole) {id : Nat}
    (halive : id ∈ w.alive) (hopen : w.closed id = false) :
    (w.closeConnection id).Whole := by
  obtain ⟨hthreads, hacc, hconns, hentry⟩ := close_single (hw.loops id)
    (inTable_iff.mp (hw.mapped id (hw.born id halive) hopen))
    (by simpa [closed] using hopen)
  have hacc : (w.closeConnection id).server.accepted = w.server.accepted := hacc
  have hfd : ∀ i, ((w.closeConnection id).server.conns i).fd =
      (w.server.conns i).fd := fun i => (hconns i).1
  have hentry : ∀ k, (w.closeConnection id).server.connections k =
      if k = (w.server.conns id).fd then none else w.server.connections k :=
    hentry
  have htable := inTable_iff.mp (hw.mapped id (hw.born id halive) hopen)
  have hclosed : ∀ i, i ≠ id → (w.closeConnection id).closed i = w.closed i := by
    intro i hi
    have hstate := (hconns i).2.2
    rw [if_neg hi] at hstate
    exact congrArg (fun s => s == ConnState.kDisconnected) hstate
  have hself : (w.closeConnection id).closed id = true := by
    have hstate := (hconns id).2.2
    rw [if_pos rfl] at hstate
    exact beq_iff_eq.mpr hstate
  refine ⟨hthreads.trans hw.threads, fun i => ?_, fun k i h => ?_,
    fun i hi hup => ?_, fun i hi => ?_, fun i h => ?_, fun i h => ?_,
    fun i h => ?_⟩
  · exact (hconns i).2.1.trans (hw.loops i)
  · rw [hentry] at h
    split at h
    · cases h
    · next hk =>
        obtain ⟨hlt, hfdi, hup⟩ := hw.table k i h
        have hi : i ≠ id := fun heq => hk (by rw [← hfdi, heq])
        exact ⟨hacc ▸ hlt, (hfd i).trans hfdi, (hclosed i hi).trans hup⟩
  · have hi' : i ≠ id := fun heq => by
      rw [heq, hself] at hup
      cases hup
    rw [hclosed i hi'] at hup
    have hold := inTable_iff.mp (hw.mapped i (hacc ▸ hi) hup)
    refine inTable_iff.mpr ?_
    rw [hentry, hfd, if_neg]
    · exact hold
    · intro heq
      rw [heq, htable] at hold
      exact hi' (Option.some.inj hold).symm
  · obtain ⟨hi, hne⟩ := List.mem_filter.mp hi
    have hne : i ≠ id := by simpa using hne
    obtain ⟨hlt, hup⟩ := hw.added i hi
    exact ⟨hacc ▸ hlt, (hclosed i hne).trans hup⟩
  · have h : w.awaits i = true := h
    obtain ⟨hlt, hrest⟩ := hw.awaited i h
    refine ⟨hacc ▸ hlt, ?_⟩
    by_cases hi : i = id
    · rw [hi]
      exact .inr (.inr List.mem_cons_self)
    · rcases hrest with hup | hkept | hframe
      · exact .inl ((hclosed i hi).trans hup)
      · exact .inr (.inl hkept)
      · exact .inr (.inr (List.mem_cons_of_mem _ hframe))
  · show i ∈ w.alive
    rcases owned_iff.mp h with h | h | h | h | ⟨f, hf, hguard⟩
    · have h := inTable_iff.mp h
      rw [hentry, hfd] at h
      split at h
      · cases h
      · exact hw.alive_table (inTable_iff.mpr h)
    · exact hw.alive_held h
    · exact hw.alive_pending h
    · exact hw.alive_round h
    · rcases List.mem_cons.mp hf with rfl | hf
      · cases hguard
        exact halive
      · exact hw.alive_frame hf hguard
  · exact hacc ▸ hw.born i h

theorem Whole.drop {w : Reactor} (hw : w.Whole) {id : Nat}
    (hok : w.awaits id = true → w.closed id = true →
      w.kept (w.held.erase id) id = true ∨ .close id ∈ w.stack) :
    { w with held := w.held.erase id }.Whole := by
  refine hw.same rfl (fun f hf => .inl hf) hw.added (fun i hawaits => ?_)
    (fun i hi => .inl (List.mem_of_mem_erase hi)) (fun _ h => .inl h)
    fun _ h => .inl h
  obtain ⟨hlt, hrest⟩ := hw.awaited i hawaits
  refine ⟨hlt, ?_⟩
  by_cases hi : i = id
  · cases hup : w.closed i with
    | false => exact .inl hup
    | true => exact .inr (hi ▸ hok (hi ▸ hawaits) (hi ▸ hup))
  · rcases hrest with hup | hkept | hframe
    · exact .inl hup
    · refine .inr (.inl (kept_iff.mpr ?_))
      exact (kept_iff.mp hkept).imp_left (List.mem_erase_of_ne hi).mpr
    · exact .inr (.inr hframe)

/-- A pointer more. -/
theorem Whole.hold {w : Reactor} (hw : w.Whole) {id : Nat}
    (halive : id ∈ w.alive) : { w with held := id :: w.held }.Whole := by
  refine hw.same rfl (fun f hf => .inl hf) hw.added (fun i hawaits => ?_)
    (fun i hi => ?_) (fun _ h => .inl h) fun _ h => .inl h
  · obtain ⟨hlt, hrest⟩ := hw.awaited i hawaits
    refine ⟨hlt, hrest.imp_right (Or.imp_left fun hkept => kept_iff.mpr ?_)⟩
    exact (kept_iff.mp hkept).imp_left (List.mem_cons_of_mem id)
  · rcases List.mem_cons.mp hi with rfl | hi
    · exact .inr halive
    · exact .inl hi

theorem Whole.queueInLoop {w : Reactor} (hw : w.Whole) {f : Option Nat}
    (halive : ∀ id, f = some id → id ∈ w.alive) :
    { w with pendingFunctors := w.pendingFunctors ++ [f] }.Whole := by
  refine hw.same rfl (fun f hf => .inl hf) hw.added (fun i hawaits => ?_)
    (fun _ h => .inl h) (fun i hi => ?_) fun _ h => .inl h
  · obtain ⟨hlt, hrest⟩ := hw.awaited i hawaits
    refine ⟨hlt, hrest.imp_right (Or.imp_left fun hkept => kept_iff.mpr ?_)⟩
    exact (kept_iff.mp hkept).imp_right (List.mem_append_left _)
  · rcases List.mem_append.mp hi with hi | hi
    · exact .inl hi
    · exact .inr (halive i (List.mem_singleton.mp hi).symm)

theorem whole_step {w w' : Reactor} {l : Label} (hw : w.Whole)
    (hok : w.LetGoOk l) (h : w.step l = some w') : w'.Whole := by
  obtain ⟨v, hv, rfl⟩ := Option.map_eq_some_iff.mp h
  refine Whole.reap ?_
  rw [act.eq_def] at hv
  split at hv
  · split at hv
    · next hall =>
        cases hv
        exact hw.poll hall.2.2.2
    · cases hv
  · split at hv
    · next hphase hstack =>
        split at hv
        · next hstanding =>
            cases hv
            exact hw.handleEvent hphase hstack hstanding
        · cases hv
    · cases hv
  · split at hv
    · cases hv
      exact hw.outside rfl nofun (fun f hf => .inl hf) nofun fun _ h => .inr h
    · cases hv
  · split at hv
    · cases hv
      refine hw.outside rfl nofun (fun f hf => .inr ?_) (fun _ h => h)
        fun _ h => .inl h
      rw [List.mem_singleton.mp hf]
      rfl
    · cases hv
  · split at hv
    · cases hv
      exact hw.outside rfl nofun (fun f hf => .inl hf) (fun _ h => h) nofun
    · cases hv
  · split at hv
    · cases hv
    · cases hv
    · next hstack =>
        cases hv
        exact hw.ret hstack hok
  · split at hv
    · split at hv
      · next hfree =>
          cases hv
          exact hw.accept hfree
      · cases hv
    · cases hv
  · next reopened =>
      split at hv
      · next id frames hstack =>
          split at hv
          · next hstart =>
              cases hv
              refine hw.start hstack (.inl ⟨rfl, ?_⟩)
              cases hclosed : w.closed id with
              | false => rfl
              | true =>
                  have hno := hok id (by rw [accepting, hstack]; rfl) hclosed
                  simp [hclosed, hno] at hstart
          · cases hv
            exact hw.start hstack (.inr rfl)
      · cases hv
  · next id =>
      split at hv
      · next halive =>
          split at hv
          · cases hv
            exact hw
          · next hopen =>
              cases hv
              exact hw.close halive.2 (by simpa using hopen)
      · cases hv
  · next id =>
      split at hv
      · next halive =>
          cases hv
          exact hw.hold halive
      · cases hv
  · next id =>
      split at hv
      · cases hv
        exact hw.drop hok
      · cases hv
  · next f =>
      split at hv
      · next halive =>
          cases hv
          exact hw.queueInLoop halive
      · cases hv

/-- In a run where nobody lets go of a connection whose event is still to
come, every channel exists when it is dispatched. -/
theorem dispatch_standing {ls : List Label} {w : Reactor}
    (hok : Machine.Meets step LetGoOk {} ls)
    (hrun : Machine.run step {} ls = some w) : w.Standing :=
  Whole.standing (Machine.run_preserves_of_meets whole_step whole_init hok hrun)

/-- Two connections in one batch. The user keeps a pointer to the second, a
callback of the first closes it, and the first is closed by its own event. -/
theorem dispatch_standing_held :
    ∃ w, Machine.run step {} [.poll [.acceptor], .handleEvent, .accept 7,
        .start false, .accept 8, .hold 1, .start false, .ret, .swap, .endRound,
        .poll [.conn 0, .conn 1], .handleEvent, .close 1, .ret, .close 0, .ret,
        .ret] = some w ∧
      w.phase = .dispatch [.conn 1] ∧ w.alive = [1] ∧ w.Standing := by
  have hany : (Machine.run step {} [.poll [.acceptor], .handleEvent, .accept 7,
      .start false, .accept 8, .hold 1, .start false, .ret, .swap, .endRound,
      .poll [.conn 0, .conn 1], .handleEvent, .close 1, .ret, .close 0, .ret,
      .ret]).any (fun w => w.phase == .dispatch [.conn 1] &&
        w.alive == [1]) = true := by decide +kernel
  obtain ⟨w, hrun, hw⟩ := (Option.any_eq_true _ _).mp hany
  obtain ⟨hphase, halive⟩ := Bool.and_eq_true_iff.mp hw
  exact ⟨w, hrun, eq_of_beq hphase, eq_of_beq halive,
    dispatch_standing (by decide +kernel) hrun⟩

end GameFrame.Reactor
