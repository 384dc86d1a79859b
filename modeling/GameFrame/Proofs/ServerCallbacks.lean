import GameFrame.Net.TcpServer

/-!
# Who is told that a connection is gone

A connection is announced once, and once it is closed its close is in exactly
one place at a time: with the thread that is still inside `close()`, in the
queue of the main loop, in the queue of its own loop, or told. `opens` and
`closes` count these places, and the invariant is that they add up to one
(`Tracked`).

What keeps the close moving is the table. `remove_connection_in_loop` looks
the descriptor number up, and if another connection is there it returns, which
protects the other connection and forgets the close. It is there if the kernel
has given the number out again before the main loop got to the functor, and
with a sub-loop nothing prevents that: the number is free as soon as the
sub-loop has closed it. `AcceptOk` says that it has not happened: the number
`accept` returns is not in the table.
-/

namespace GameFrame.TcpServer

/-- Every connection is announced once, and once it is closed and its functors
have run, its end is told once. -/
def Told (w : TcpServer) (id : Nat) : Prop :=
  (.established id ∉ w.queues (w.conns id).loop →
    w.callbacks.count (id, .kConnected) = 1) ∧
  w.callbacks.count (id, .kConnected) ≤ 1 ∧
  ((w.conns id).state = .kDisconnected → id ∉ w.closing →
    .remove id ∉ w.queues 0 → .destroyed id ∉ w.queues (w.conns id).loop →
    w.callbacks.count (id, .kDisconnected) = 1) ∧
  w.callbacks.count (id, .kDisconnected) ≤ 1

instance (w : TcpServer) (id : Nat) : Decidable (w.Told id) :=
  inferInstanceAs (Decidable ((_ → _) ∧ _ ∧ (_ → _ → _ → _ → _) ∧ _))

/-- The number `accept` returns is not in the table: the connection that had
it before has been removed. -/
def AcceptOk (w : TcpServer) : Label → Prop
  | .accept fd => w.connections fd = none
  | _ => True

instance (w : TcpServer) : ∀ l, Decidable (AcceptOk w l)
  | .accept fd => inferInstanceAs (Decidable (w.connections fd = none))
  | .functor _ | .shutdown _ | .closeFd _ | .closeCb _ => .isTrue trivial

/-- One sub-loop, one number, two connections: the second is accepted while
the removal of the first is still queued. -/
theorem close_forgotten :
    ¬ ∀ (n : Nat) (ls : List Label) (w : TcpServer),
      Machine.run step { numThreads := n } ls = some w →
      ∀ id < w.accepted, w.Told id := by
  intro h
  refine Machine.not_forall_of_run [.accept 7, .functor 1, .closeFd 0,
    .closeCb 0, .accept 7, .functor 0, .functor 1] ?_ (h 1)
  decide +kernel

/-! ## The invariant -/

/-- The places a connection's announcement can be in. -/
def opens (w : TcpServer) (id : Nat) : Nat :=
  (w.queues (w.conns id).loop).count (.established id) +
    w.callbacks.count (id, .kConnected)

/-- The places its close can be in. -/
def closes (w : TcpServer) (id : Nat) : Nat :=
  w.closing.count id + (w.queues 0).count (.remove id) +
    (w.queues (w.conns id).loop).count (.destroyed id) +
    w.callbacks.count (id, .kDisconnected)

structure Tracked (w : TcpServer) (id : Nat) : Prop where
  opened : w.opens id = 1
  closed : w.closes id = if (w.conns id).state = .kDisconnected then 1 else 0
  unknown : (w.conns id).known = false → (w.conns id).state = .kConnected
  announced : .established id ∈ w.queues (w.conns id).loop →
    (w.conns id).known = false
  mapped : (w.conns id).state ≠ .kDisconnected ∨ id ∈ w.closing ∨
    .remove id ∈ w.queues 0 → w.connections (w.conns id).fd = some id

/-- Where a functor may be queued. -/
def Placed (w : TcpServer) (l : Nat) : ServerFunctor → Prop
  | .established id | .destroyed id => id < w.accepted ∧ (w.conns id).loop = l
  | .remove id => id < w.accepted ∧ l = 0

structure Inv (w : TcpServer) : Prop where
  cb : w.connectionCb = true
  tracked : ∀ id < w.accepted, w.Tracked id
  placed : ∀ l f, f ∈ w.queues l → w.Placed l f
  closingLt : ∀ id ∈ w.closing, id < w.accepted
  callbacksLt : ∀ p ∈ w.callbacks, p.1 < w.accepted

theorem inv_init (n : Nat) : Inv { numThreads := n } where
  cb := rfl
  tracked := fun _ h => absurd h (Nat.not_lt_zero _)
  placed := fun _ _ h => absurd h List.not_mem_nil
  closingLt := fun _ h => absurd h List.not_mem_nil
  callbacksLt := fun _ h => absurd h List.not_mem_nil

/-- The connection a functor is about. -/
def about : ServerFunctor → Nat
  | .established id | .remove id | .destroyed id => id

theorem mem_of_count {α : Type _} [BEq α] [LawfulBEq α] {l l' : List α} {x : α}
    (h : l'.count x = l.count x) (hx : x ∈ l') : x ∈ l := by
  rw [← List.count_pos_iff, ← h]
  exact List.count_pos_iff.mpr hx

/-- A step on some other connection. The table may change, but not where this
one is in it. -/
theorem Tracked.frame {w w' : TcpServer} {id : Nat} (h : w.Tracked id)
    (hconn : w'.conns id = w.conns id)
    (htable : w.connections (w.conns id).fd = some id →
      w'.connections (w.conns id).fd = some id)
    (hqueues : ∀ l f, about f = id →
      (w'.queues l).count f = (w.queues l).count f)
    (hclosing : w'.closing.count id = w.closing.count id)
    (hcalls : ∀ s, w'.callbacks.count (id, s) = w.callbacks.count (id, s)) :
    w'.Tracked id := by
  have hmem : ∀ l f, about f = id → f ∈ w'.queues l → f ∈ w.queues l :=
    fun l f hf hin => mem_of_count (hqueues l f hf) hin
  constructor
  · rw [opens, hconn, hqueues _ _ rfl, hcalls]
    exact h.opened
  · rw [closes, hconn, hqueues _ _ rfl, hqueues _ _ rfl, hcalls, hclosing]
    exact h.closed
  · rw [hconn]
    exact h.unknown
  · rw [hconn]
    exact fun hin => h.announced (hmem _ _ rfl hin)
  · rw [hconn]
    refine fun hor => htable (h.mapped ?_)
    rcases hor with hstate | hin | hin
    · exact .inl hstate
    · exact .inr (.inl (mem_of_count hclosing hin))
    · exact .inr (.inr (hmem _ _ rfl hin))

theorem count_snoc_ne {α : Type _} [BEq α] [LawfulBEq α] {x y : α}
    (l : List α) (h : y ≠ x) : (l ++ [y]).count x = l.count x := by
  rw [List.count_append, List.count_singleton, if_neg (by simpa using h),
    Nat.add_zero]

theorem count_snoc_self {α : Type _} [BEq α] [LawfulBEq α] (l : List α)
    (x : α) : (l ++ [x]).count x = l.count x + 1 := by
  rw [List.count_append, List.count_singleton_self]

/-! ## Everything else is about one connection -/

/-- A step that is about connection `id` keeps the invariant if it keeps the
account of that connection, and the functors it queues are where they belong. -/
theorem Inv.step_about {w w' : TcpServer} (hw : w.Inv) (id : Nat)
    (hcb : w'.connectionCb = w.connectionCb)
    (haccepted : w'.accepted = w.accepted)
    (hconns : ∀ i, i ≠ id → w'.conns i = w.conns i)
    (hloop : (w'.conns id).loop = (w.conns id).loop)
    (htable : ∀ k i, i ≠ id → w.connections k = some i →
      w'.connections k = some i)
    (hqueues : ∀ l f, about f ≠ id →
      (w'.queues l).count f = (w.queues l).count f)
    (hclosing : ∀ i, i ≠ id → w'.closing.count i = w.closing.count i)
    (hcalls : ∀ i s, i ≠ id →
      w'.callbacks.count (i, s) = w.callbacks.count (i, s))
    (hid : id < w.accepted)
    (hplaced : ∀ l f, about f = id → f ∈ w'.queues l → w.Placed l f)
    (htracked : w'.Tracked id) : w'.Inv := by
  have hloops : ∀ i, (w'.conns i).loop = (w.conns i).loop := by
    intro i
    by_cases hi : i = id
    · rw [hi, hloop]
    · rw [hconns i hi]
  have hkeep : ∀ l f, w.Placed l f → w'.Placed l f := by
    intro l f h
    cases f with
    | established i => exact ⟨haccepted ▸ h.1, (hloops i).trans h.2⟩
    | remove i => exact ⟨haccepted ▸ h.1, h.2⟩
    | destroyed i => exact ⟨haccepted ▸ h.1, (hloops i).trans h.2⟩
  refine ⟨hcb.trans hw.cb, fun i hi => ?_, fun l f hf => hkeep l f ?_,
    fun i hi => ?_, fun p hp => ?_⟩
  · by_cases hne : i = id
    · exact hne ▸ htracked
    · exact (hw.tracked i (haccepted ▸ hi)).frame (hconns i hne)
        (htable _ i hne) (fun l f hf => hqueues l f (by rwa [hf]))
        (hclosing i hne) (fun s => hcalls i s hne)
  · by_cases hf' : about f = id
    · exact hplaced l f hf' hf
    · exact hw.placed l f (mem_of_count (hqueues l f hf') hf)
  · rw [haccepted]
    by_cases hne : i = id
    · exact hne ▸ hid
    · exact hw.closingLt i (mem_of_count (hclosing i hne) hi)
  · rw [haccepted]
    by_cases hne : p.1 = id
    · exact hne ▸ hid
    · exact hw.callbacksLt p (mem_of_count (hcalls p.1 p.2 hne) hp)

theorem queues_setQueue (w : TcpServer) (l : Nat) (q : List ServerFunctor)
    (i : Nat) :
    (w.setQueue l q).queues i = if i = l then q else w.queues i := rfl

/-- Taking the first functor off a queue. -/
theorem count_pop {w : TcpServer} {l : Nat} {f : ServerFunctor}
    {fs : List ServerFunctor} (hq : w.queues l = f :: fs) (i : Nat)
    {g : ServerFunctor} (hne : g ≠ f) :
    ((w.setQueue l fs).queues i).count g = (w.queues i).count g := by
  rw [queues_setQueue]
  split
  · next hi => rw [hi, hq, List.count_cons_of_ne (Ne.symm hne)]
  · rfl

theorem mem_pop {w : TcpServer} {l : Nat} {f : ServerFunctor}
    {fs : List ServerFunctor} (hq : w.queues l = f :: fs) {i : Nat}
    {g : ServerFunctor} (hg : g ∈ (w.setQueue l fs).queues i) :
    g ∈ w.queues i := by
  rw [queues_setQueue] at hg
  split at hg
  · next hi => rw [hi, hq]; exact List.mem_cons_of_mem f hg
  · exact hg

/-- A queue that gets one functor more, wherever in it. -/
theorem count_setQueue {w : TcpServer} {l : Nat} {q : List ServerFunctor}
    {f : ServerFunctor}
    (hothers : ∀ g, g ≠ f → q.count g = (w.queues l).count g) (i : Nat)
    {g : ServerFunctor} (hg : g ≠ f) :
    ((w.setQueue l q).queues i).count g = (w.queues i).count g := by
  rw [queues_setQueue]
  split
  · next hi => rw [hi, hothers g hg]
  · rfl

/-- A functor put in front of a queue and taken off again. -/
theorem setQueue_pop (w : TcpServer) (l : Nat) (q : List ServerFunctor) :
    (w.setQueue l q).setQueue l (w.queues l) = w := by
  have hqueues : (fun i => if i = l then w.queues l else
      if i = l then q else w.queues i) = w.queues := by
    funext i
    by_cases hi : i = l
    · simp [hi]
    · simp [hi]
  simp only [setQueue, hqueues]

theorem ne_of_about {f g : ServerFunctor} (h : about f ≠ about g) : f ≠ g :=
  fun heq => h (congrArg about heq)

/-! ## The functors -/

variable {w : TcpServer} {l id : Nat} {fs : List ServerFunctor}

theorem Inv.established (hw : w.Inv)
    (hq : w.queues l = .established id :: fs) :
    ((w.setQueue l fs).establish id).Inv := by
  obtain ⟨hid, rfl⟩ := hw.placed l (.established id) (by simp [hq])
  have ht := hw.tracked id hid
  have hunknown := ht.announced (by simp [hq])
  have hstate := ht.unknown hunknown
  have hcount : fs.count (.established id) = 0 ∧
      w.callbacks.count (id, .kConnected) = 0 := by
    have := ht.opened
    rw [opens, hq, List.count_cons_self] at this
    omega
  have heq : (w.setQueue (w.conns id).loop fs).establish id =
      { w.setQueue (w.conns id).loop fs with
        callbacks := w.callbacks ++ [(id, .kConnected)]
        conns := fun i =>
          if i = id then { w.conns id with known := true } else w.conns i } := by
    simp only [establish, connectionCallback, setQueue, setConn, hw.cb, hstate,
      if_true]
  rw [heq]
  refine hw.step_about id rfl rfl (fun i hi => if_neg hi)
    (by simp) (fun _ _ _ h => h)
    (fun i f hf => count_pop hq i (ne_of_about hf)) (fun _ _ => rfl)
    (fun i s hi => count_snoc_ne _ fun h => hi (congrArg Prod.fst h).symm) hid
    (fun i f _ hf => hw.placed i f (mem_pop hq hf)) ?_
  constructor
  · simp [opens, setQueue, hcount]
  · simp only [closes, if_true, hstate]
    have := ht.closed
    rw [closes, hstate] at this
    rw [count_pop hq _ (by simp), count_pop hq _ (by simp),
      count_snoc_ne _ (by simp)]
    exact this
  · simp
  · simp only [if_true, setQueue]
    intro hin
    exact absurd hin (List.count_eq_zero.mp hcount.1)
  · simp only [if_true]
    intro _
    exact ht.mapped (.inl (by simp [hstate]))

/-- A connection whose close has left the table. -/
theorem Tracked.of_removed {w' : TcpServer} (hopened : w'.opens id = 1)
    (hclosed : w'.closes id = 1)
    (hstate : (w'.conns id).state = .kDisconnected)
    (hknown : (w'.conns id).known = true)
    (hannounced : .established id ∉ w'.queues (w'.conns id).loop)
    (hclosing : id ∉ w'.closing) (hremove : .remove id ∉ w'.queues 0) :
    w'.Tracked id := by
  refine ⟨hopened, by rw [hclosed, if_pos hstate], fun h => ?_,
    fun h => absurd h hannounced, fun h => ?_⟩
  · rw [hknown] at h
    cases h
  · rcases h with h | h | h
    · exact absurd hstate h
    · exact absurd h hclosing
    · exact absurd h hremove

/-- What is known of a connection when some part of its close is queued. -/
theorem Tracked.of_closes (ht : w.Tracked id) (hpos : 0 < w.closes id) :
    (w.conns id).state = .kDisconnected ∧ (w.conns id).known = true ∧
      .established id ∉ w.queues (w.conns id).loop ∧ w.closes id = 1 := by
  have hclosed := ht.closed
  have hstate : (w.conns id).state = .kDisconnected := by
    refine Decidable.byContradiction fun h => ?_
    rw [if_neg h] at hclosed
    omega
  have hknown : (w.conns id).known = true := by
    cases h : (w.conns id).known with
    | true => rfl
    | false => exact absurd (ht.unknown h) (by simp [hstate])
  refine ⟨hstate, hknown, fun h => ?_, by rw [hclosed, if_pos hstate]⟩
  rw [ht.announced h] at hknown
  cases hknown

theorem Inv.destroyed (hw : w.Inv) (hq : w.queues l = .destroyed id :: fs) :
    ((w.setQueue l fs).connectionCallback id).Inv := by
  obtain ⟨hid, rfl⟩ := hw.placed l (.destroyed id) (by simp [hq])
  have ht := hw.tracked id hid
  have hparts : w.closes id = w.closing.count id +
      (w.queues 0).count (.remove id) + (fs.count (.destroyed id) + 1) +
      w.callbacks.count (id, .kDisconnected) := by
    rw [closes, hq, List.count_cons_self]
  obtain ⟨hstate, hknown, hannounced, hone⟩ := ht.of_closes (by omega)
  have hclosing : w.closing.count id = 0 := by omega
  have hremove : (w.queues 0).count (.remove id) = 0 := by omega
  have heq : (w.setQueue (w.conns id).loop fs).connectionCallback id =
      { w.setQueue (w.conns id).loop fs with
        callbacks := w.callbacks ++ [(id, .kDisconnected)] } := by
    simp only [connectionCallback, setQueue, hw.cb, hstate, if_true]
  rw [heq]
  refine hw.step_about id rfl rfl (fun _ _ => rfl) rfl (fun _ _ _ h => h)
    (fun i f hf => count_pop hq i (ne_of_about hf)) (fun _ _ => rfl)
    (fun i s hi => count_snoc_ne _ fun h => hi (congrArg Prod.fst h).symm) hid
    (fun i f _ hf => hw.placed i f (mem_pop hq hf)) ?_
  refine .of_removed ?_ ?_ hstate hknown
    (fun h => hannounced (mem_pop hq h)) (List.count_eq_zero.mp hclosing)
    (fun h => List.count_eq_zero.mp hremove (mem_pop hq h))
  · have := ht.opened
    rw [opens] at this ⊢
    rw [count_pop hq _ (by simp), count_snoc_ne _ (by simp)]
    exact this
  · have hsame : ((w.setQueue (w.conns id).loop fs).queues 0).count
        (.remove id) = _ := count_pop hq 0 (by simp)
    show w.closing.count id + _ + ((w.setQueue (w.conns id).loop fs).queues
      (w.conns id).loop).count (.destroyed id) +
      (w.callbacks ++ [_]).count (id, ConnState.kDisconnected) = 1
    rw [hsame, count_snoc_self, queues_setQueue, if_pos rfl]
    omega

/-- A close that is in the queue of the main loop finds its own connection in
the table. It goes to the queue of the connection's loop, wherever in it. -/
theorem Inv.queueDestroyed (hw : w.Inv) (hq : w.queues l = .remove id :: fs)
    {q : List ServerFunctor}
    (hothers : ∀ g, g ≠ .destroyed id →
      q.count g = ((w.setQueue l fs).queues (w.conns id).loop).count g)
    (hdestroyed : q.count (.destroyed id) =
      (w.queues (w.conns id).loop).count (.destroyed id) + 1) :
    { (w.setQueue l fs).setQueue (w.conns id).loop q with
      connections := fun k =>
        if k = (w.conns id).fd then none else w.connections k }.Inv := by
  obtain ⟨hid, rfl⟩ := hw.placed l (.remove id) (by simp [hq])
  have ht := hw.tracked id hid
  have htable := ht.mapped (.inr (.inr (by simp [hq])))
  have hparts : w.closes id = w.closing.count id + (fs.count (.remove id) + 1) +
      (w.queues (w.conns id).loop).count (.destroyed id) +
      w.callbacks.count (id, .kDisconnected) := by
    rw [closes, hq, List.count_cons_self]
  obtain ⟨hstate, hknown, hannounced, hone⟩ := ht.of_closes (by omega)
  have hclosing : w.closing.count id = 0 := by omega
  have hremove : fs.count (.remove id) = 0 := by omega
  have hpopped : ∀ i g, g ≠ .destroyed id →
      (((w.setQueue 0 fs).setQueue (w.conns id).loop q).queues i).count g =
        ((w.setQueue 0 fs).queues i).count g := fun i g hg =>
    count_setQueue hothers i hg
  have hcount : ∀ i g, g ≠ .remove id → g ≠ .destroyed id →
      (((w.setQueue 0 fs).setQueue (w.conns id).loop q).queues i).count g =
        (w.queues i).count g := fun i g h1 h2 =>
    (hpopped i g h2).trans (count_pop hq i h1)
  refine hw.step_about id rfl rfl (fun _ _ => rfl) rfl (fun k i hi h => ?_)
    (fun i f hf => hcount i f (ne_of_about hf) (ne_of_about hf))
    (fun _ _ => rfl) (fun _ _ _ => rfl) hid (fun i f _ hf => ?_) ?_
  · show (if k = (w.conns id).fd then none else w.connections k) = some i
    rw [if_neg, h]
    rintro rfl
    exact hi (Option.some.inj (h.symm.trans htable))
  · by_cases hd : f = .destroyed id
    · subst hd
      by_cases hi : i = (w.conns id).loop
      · exact ⟨hid, hi.symm⟩
      · refine hw.placed i _ (mem_pop hq ?_)
        have hkept : .destroyed id ∈
            if i = (w.conns id).loop then q else (w.setQueue 0 fs).queues i := hf
        rwa [if_neg hi] at hkept
    · exact hw.placed i f (mem_pop hq (mem_of_count (hpopped i f hd) hf))
  · have hzero : (((w.setQueue 0 fs).setQueue (w.conns id).loop q).queues
        0).count (.remove id) = 0 := by
      rw [hpopped 0 _ (by simp), queues_setQueue, if_pos rfl, hremove]
    refine .of_removed ?_ ?_ hstate hknown ?_ (List.count_eq_zero.mp hclosing)
      (List.count_eq_zero.mp hzero)
    · have := ht.opened
      rw [opens] at this ⊢
      rw [hcount _ _ (by simp) (by simp)]
      exact this
    · show w.closing.count id + List.count _
        (((w.setQueue 0 fs).setQueue (w.conns id).loop q).queues 0) +
        List.count _ (if (w.conns id).loop = (w.conns id).loop then q else _) +
        w.callbacks.count (id, .kDisconnected) = 1
      rw [hzero, if_pos rfl, hdestroyed]
      omega
    · rw [← List.count_eq_zero, hcount _ _ (by simp) (by simp),
        List.count_eq_zero]
      exact hannounced

/-- `remove_connection_in_loop`. A connection of the main loop is told of on
the spot, as if the functor had been the first in the queue. -/
theorem Inv.remove (hw : w.Inv) (hq : w.queues l = .remove id :: fs) :
    ((w.setQueue l fs).removeConnectionInLoop id).Inv := by
  obtain ⟨hid, rfl⟩ := hw.placed l (.remove id) (by simp [hq])
  have htable := (hw.tracked id hid).mapped (.inr (.inr (by simp [hq])))
  by_cases hl : (w.conns id).loop = 0
  · have hinv := hw.queueDestroyed hq (q := .destroyed id :: fs)
      (fun g hg => by
        rw [hl, queues_setQueue, if_pos rfl, List.count_cons_of_ne (Ne.symm hg)])
      (by rw [hl, hq, List.count_cons_self, List.count_cons_of_ne (by simp)])
    have hrun := hinv.destroyed (l := 0) (by
      show (if 0 = (w.conns id).loop then _ else _) = _
      rw [if_pos hl.symm])
    have heq : (w.setQueue 0 fs).removeConnectionInLoop id =
        ({ (w.setQueue 0 fs).setQueue (w.conns id).loop (.destroyed id :: fs)
          with
          connections := fun k =>
            if k = (w.conns id).fd then none else w.connections k }.setQueue 0
          fs).connectionCallback id := by
      simp only [removeConnectionInLoop, setQueue, htable, hl, hw.cb,
        connectionCallback, if_true, ne_eq, not_true, if_false]
      congr 1
      funext i
      by_cases hi : i = 0
      · simp [hi]
      · simp [hi]
    rw [heq]
    exact hrun
  · have hinv := hw.queueDestroyed hq
      (q := (w.setQueue 0 fs).queues (w.conns id).loop ++ [.destroyed id])
      (fun g hg => count_snoc_ne _ (Ne.symm hg))
      (by rw [count_snoc_self, count_pop hq _ (by simp)])
    have heq : (w.setQueue 0 fs).removeConnectionInLoop id =
        { (w.setQueue 0 fs).queueInLoop (w.conns id).loop (.destroyed id) with
          connections := fun k =>
            if k = (w.conns id).fd then none else w.connections k } := by
      simp only [removeConnectionInLoop, setQueue, htable, hl, hw.cb,
        queueInLoop, if_true, ne_eq, not_true, if_false]
    rw [heq]
    exact hinv

theorem Inv.runFunctor {f : ServerFunctor} (hw : w.Inv)
    (hq : w.queues l = f :: fs) : ((w.setQueue l fs).runFunctor f).Inv := by
  cases f with
  | established id => exact hw.established hq
  | remove id => exact hw.remove hq
  | destroyed id => exact hw.destroyed hq

/-! ## Accepting -/

/-- The server behind an accept, the connection's loop being `l`. -/
def withConn (w : TcpServer) (fd l : Nat) : TcpServer :=
  { w with
    accepted := w.accepted + 1
    connections := fun k => if k = fd then some w.accepted else w.connections k
    conns := fun i =>
      if i = w.accepted then { fd := fd, loop := l } else w.conns i }

theorem Inv.count_fresh (hw : w.Inv) (i : Nat) {f : ServerFunctor}
    (hf : about f = w.accepted) : (w.queues i).count f = 0 := by
  refine List.count_eq_zero.mpr fun hin => ?_
  have := hw.placed i f hin
  cases f with
  | established id => exact absurd this.1 (Nat.not_lt.mpr (Nat.le_of_eq hf.symm))
  | remove id => exact absurd this.1 (Nat.not_lt.mpr (Nat.le_of_eq hf.symm))
  | destroyed id => exact absurd this.1 (Nat.not_lt.mpr (Nat.le_of_eq hf.symm))

theorem Inv.calls_fresh (hw : w.Inv) (s : ConnState) :
    w.callbacks.count (w.accepted, s) = 0 :=
  List.count_eq_zero.mpr fun hin =>
    absurd (hw.callbacksLt _ hin) (Nat.lt_irrefl _)

theorem Inv.closing_fresh (hw : w.Inv) : w.closing.count w.accepted = 0 :=
  List.count_eq_zero.mpr fun hin =>
    absurd (hw.closingLt _ hin) (Nat.lt_irrefl _)

/-- The functors that are queued stay where they belong. -/
theorem Placed.withConn {i : Nat} {f : ServerFunctor} (h : w.Placed i f)
    (fd l : Nat) : (w.withConn fd l).Placed i f := by
  cases f with
  | established id =>
      refine ⟨Nat.lt_succ_of_lt h.1, ?_⟩
      show (if id = w.accepted then _ else w.conns id).loop = i
      rw [if_neg (Nat.ne_of_lt h.1), h.2]
  | remove id => exact ⟨Nat.lt_succ_of_lt h.1, h.2⟩
  | destroyed id =>
      refine ⟨Nat.lt_succ_of_lt h.1, ?_⟩
      show (if id = w.accepted then _ else w.conns id).loop = i
      rw [if_neg (Nat.ne_of_lt h.1), h.2]

/-- The account of a connection that is yet to be announced. -/
theorem Inv.tracked_fresh {w' : TcpServer} (hw : w.Inv) {fd l : Nat}
    (hconn : w'.conns w.accepted = { fd := fd, loop := l })
    (htable : w'.connections fd = some w.accepted)
    (hclosing : w'.closing = w.closing) (hcalls : w'.callbacks = w.callbacks)
    (hqueues : ∀ i g, g ≠ .established w.accepted →
      (w'.queues i).count g = (w.queues i).count g)
    (hnew : (w'.queues l).count (.established w.accepted) = 1) :
    w'.Tracked w.accepted := by
  have hnone : ∀ i g, g ≠ .established w.accepted → about g = w.accepted →
      (w'.queues i).count g = 0 := fun i g hg habout =>
    (hqueues i g hg).trans (hw.count_fresh i habout)
  constructor
  · rw [opens, hconn, hnew, hcalls, hw.calls_fresh]
  · rw [closes, hconn, hclosing, hcalls, hnone 0 _ (by simp) rfl,
      hnone l _ (by simp) rfl, hw.closing_fresh, hw.calls_fresh]
    rfl
  · exact fun _ => by rw [hconn]
  · exact fun _ => by rw [hconn]
  · intro _
    rw [hconn]
    exact htable

/-- A new connection, and its functor in the queue of its loop, wherever in
it. -/
theorem Inv.queueEstablished (hw : w.Inv) {fd : Nat}
    (hfree : w.connections fd = none) (l next : Nat) {q : List ServerFunctor}
    (hothers : ∀ g, g ≠ .established w.accepted →
      q.count g = (w.queues l).count g)
    (hnew : q.count (.established w.accepted) = 1) :
    ({ w.withConn fd l with next := next }.setQueue l q).Inv := by
  have hqueue : ∀ i g, g ≠ .established w.accepted →
      (({ w.withConn fd l with next := next }.setQueue l q).queues i).count g =
        (w.queues i).count g := fun i g hg => count_setQueue hothers i hg
  refine ⟨hw.cb, fun id hid => ?_, fun i f hf => ?_,
    fun id hid => Nat.lt_succ_of_lt (hw.closingLt id hid),
    fun p hp => Nat.lt_succ_of_lt (hw.callbacksLt p hp)⟩
  · by_cases hid' : id = w.accepted
    · subst hid'
      refine hw.tracked_fresh (if_pos rfl) (if_pos rfl) rfl rfl hqueue ?_
      rw [queues_setQueue, if_pos rfl, hnew]
    · have hlt : id < w.accepted :=
        Nat.lt_of_le_of_ne (Nat.le_of_lt_succ hid) hid'
      refine (hw.tracked id hlt).frame (if_neg hid') (fun htable => ?_)
        (fun i f hf => hqueue i f ?_) rfl fun _ => rfl
      · show (if (w.conns id).fd = fd then some w.accepted else
          w.connections (w.conns id).fd) = some id
        rw [if_neg, htable]
        rintro rfl
        rw [hfree] at htable
        cases htable
      · rintro rfl
        exact hid' hf.symm
  · by_cases he : f = .established w.accepted
    · subst he
      have hi : i = l := by
        refine Decidable.byContradiction fun hi => ?_
        rw [queues_setQueue, if_neg hi] at hf
        exact absurd hf (List.count_eq_zero.mp (hw.count_fresh i rfl))
      refine ⟨Nat.lt_succ_self _, ?_⟩
      show (if w.accepted = w.accepted then _ else _ : ServerConn).loop = i
      rw [if_pos rfl, hi]
    · have hold := hw.placed i f (mem_of_count (hqueue i f he) hf)
      exact hold.withConn fd l

/-- On the main loop the functor is run on the spot. -/
theorem Inv.handleAccept (hw : w.Inv) {fd : Nat}
    (hfree : w.connections fd = none) : (w.handleAccept fd).Inv := by
  by_cases hn : w.numThreads = 0
  · have hinv := hw.queueEstablished hfree 0 w.next
      (q := .established w.accepted :: w.queues 0)
      (fun g hg => List.count_cons_of_ne (Ne.symm hg))
      (by rw [List.count_cons_self, hw.count_fresh 0 rfl])
    have hrun := hinv.established (l := 0) rfl
    have heq : w.handleAccept fd =
        (({ w.withConn fd 0 with next := w.next }.setQueue 0
          (.established w.accepted :: w.queues 0)).setQueue 0
          (w.queues 0)).establish w.accepted := by
      refine Eq.trans ?_ (congrArg (establish · w.accepted)
        (setQueue_pop { w.withConn fd 0 with next := w.next } 0 _).symm)
      simp only [TcpServer.handleAccept, nextLoop, hn, if_true, establish,
        connectionCallback, setConn, TcpServer.withConn]
    rw [heq]
    exact hrun
  · have hinv := hw.queueEstablished hfree (w.next + 1)
      ((w.next + 1) % w.numThreads)
      (fun g hg => count_snoc_ne (w.queues (w.next + 1)) (Ne.symm hg))
      (by rw [count_snoc_self, hw.count_fresh _ rfl])
    have heq : w.handleAccept fd =
        { w.withConn fd (w.next + 1) with
          next := (w.next + 1) % w.numThreads }.queueInLoop (w.next + 1)
          (.established w.accepted) := by
      simp only [TcpServer.handleAccept, nextLoop, hn, if_false,
        Nat.succ_ne_zero, queueInLoop, setQueue, setConn, TcpServer.withConn]
    rw [heq]
    exact hinv

/-! ## Closing -/

/-- A new state for a connection that is not closed. -/
theorem Tracked.setConn (ht : w.Tracked id) {s : ConnState}
    (hopen : (w.conns id).state ≠ .kDisconnected) (hs : s ≠ .kDisconnected)
    (hknown : (w.conns id).known = true) :
    (w.setConn id { w.conns id with state := s }).Tracked id := by
  have hclosed := ht.closed
  rw [if_neg hopen] at hclosed
  constructor
  · simpa [opens, TcpServer.setConn] using ht.opened
  · simpa [closes, TcpServer.setConn, hs] using hclosed
  · simp [TcpServer.setConn, hknown]
  · simpa [TcpServer.setConn] using ht.announced
  · simp only [TcpServer.setConn, if_true]
    exact fun _ => ht.mapped (.inl hopen)

theorem Inv.shutdown (hw : w.Inv) (hid : id < w.accepted)
    (hknown : (w.conns id).known = true) : (w.shutdown id).Inv := by
  rw [TcpServer.shutdown]
  split
  · next hstate =>
      refine hw.step_about id rfl rfl (fun i hi => if_neg hi)
        (by simp [setConn]) (fun _ _ _ h => h) (fun _ _ _ => rfl)
        (fun _ _ => rfl) (fun _ _ _ => rfl) hid (fun i f _ => hw.placed i f) ?_
      exact (hw.tracked id hid).setConn (by simp [hstate]) (by simp) hknown
  · exact hw

theorem Inv.closeFd (hw : w.Inv) (hid : id < w.accepted)
    (hknown : (w.conns id).known = true) : (w.closeFd id).Inv := by
  rw [TcpServer.closeFd]
  split
  · exact hw
  · next hopen =>
      have ht := hw.tracked id hid
      refine hw.step_about id rfl rfl (fun i hi => if_neg hi)
        (by simp [setConn]) (fun _ _ _ h => h) (fun _ _ _ => rfl)
        (fun i hi => List.count_cons_of_ne (Ne.symm hi)) (fun _ _ _ => rfl)
        hid (fun i f _ => hw.placed i f) ?_
      have hclosed := ht.closed
      rw [if_neg hopen, closes] at hclosed
      constructor
      · simpa [opens, setConn] using ht.opened
      · simp only [closes, setConn, if_true, List.count_cons_self]
        omega
      · simp [setConn, hknown]
      · simpa [setConn] using ht.announced
      · simp only [setConn, if_true]
        exact fun _ => ht.mapped (.inl hopen)

/-- The close goes from the thread that closed to the queue of the main loop,
wherever in it. -/
theorem Inv.queueRemove (hw : w.Inv) (hin : id ∈ w.closing)
    {q : List ServerFunctor}
    (hothers : ∀ g, g ≠ .remove id → q.count g = (w.queues 0).count g)
    (hremove : q.count (.remove id) = (w.queues 0).count (.remove id) + 1) :
    ({ w with closing := w.closing.erase id }.setQueue 0 q).Inv := by
  have hid := hw.closingLt id hin
  have ht := hw.tracked id hid
  have hpos := List.count_pos_iff.mpr hin
  have hqueue : ∀ i g, g ≠ .remove id →
      (({ w with closing := w.closing.erase id }.setQueue 0 q).queues i).count
        g = (w.queues i).count g := fun i g hg => count_setQueue hothers i hg
  refine hw.step_about id rfl rfl (fun _ _ => rfl) rfl (fun _ _ _ h => h)
    (fun i f hf => hqueue i f (ne_of_about hf))
    (fun i hi => List.count_erase_of_ne hi) (fun _ _ _ => rfl) hid
    (fun i f _ hf => ?_) ?_
  · by_cases hr : f = .remove id
    · subst hr
      by_cases hi : i = 0
      · exact ⟨hid, hi⟩
      · rw [queues_setQueue, if_neg hi] at hf
        exact hw.placed i _ hf
    · exact hw.placed i f (mem_of_count (hqueue i f hr) hf)
  · have hclosed := ht.closed
    have hopened := ht.opened
    constructor
    · rw [opens] at hopened ⊢
      rw [hqueue _ _ (by simp)]
      exact hopened
    · rw [closes] at hclosed ⊢
      rw [hqueue _ (.destroyed id) (by simp)]
      show (w.closing.erase id).count id + q.count (.remove id) +
        (w.queues (w.conns id).loop).count (.destroyed id) +
        w.callbacks.count (id, .kDisconnected) =
        if (w.conns id).state = .kDisconnected then 1 else 0
      rw [hremove, List.count_erase_self]
      omega
    · exact ht.unknown
    · rw [← List.count_pos_iff, hqueue _ _ (by simp), List.count_pos_iff]
      exact ht.announced
    · exact fun _ => ht.mapped (.inr (.inl hin))

/-- On the main loop the functor is run on the spot, as if it had been the
first in the queue. -/
theorem Inv.closeCallback (hw : w.Inv) (hin : id ∈ w.closing) :
    ({ w with closing := w.closing.erase id }.closeCallback id).Inv := by
  rw [TcpServer.closeCallback]
  split
  · have hinv := hw.queueRemove hin (q := .remove id :: w.queues 0)
      (fun g hg => List.count_cons_of_ne (Ne.symm hg)) List.count_cons_self
    have hrun := hinv.remove (l := 0) rfl
    rwa [setQueue_pop { w with closing := w.closing.erase id }] at hrun
  · exact hw.queueRemove hin (fun g hg => count_snoc_ne _ (Ne.symm hg))
      (count_snoc_self _ _)

/-! ## The run -/

theorem inv_step {w w' : TcpServer} {lb : Label} (hw : w.Inv)
    (hok : AcceptOk w lb) (hstep : w.step lb = some w') : w'.Inv := by
  have hs := step_stepped hstep
  cases hs with
  | accept fd => exact hw.handleAccept hok
  | functor l f fs hq => exact hw.runFunctor hq
  | shutdown id hid hknown => exact hw.shutdown hid hknown
  | closeFd id hid hknown => exact hw.closeFd hid hknown
  | closeCb id hin => exact hw.closeCallback hin

theorem Inv.told (hw : w.Inv) (hid : id < w.accepted) : w.Told id := by
  have ht := hw.tracked id hid
  have hopened := ht.opened
  have hclosed := ht.closed
  rw [opens] at hopened
  rw [closes] at hclosed
  refine ⟨fun h => ?_, by omega, fun hstate hclosing hremove hdestroyed => ?_,
    ?_⟩
  · have := List.count_eq_zero.mpr h
    omega
  · rw [if_pos hstate] at hclosed
    have := List.count_eq_zero.mpr hclosing
    have := List.count_eq_zero.mpr hremove
    have := List.count_eq_zero.mpr hdestroyed
    omega
  · split at hclosed <;> omega

theorem callbacks_once {n : Nat} {ls : List Label} {w : TcpServer}
    (hok : Machine.Meets step AcceptOk { numThreads := n } ls)
    (hrun : Machine.run step { numThreads := n } ls = some w) :
    ∀ id < w.accepted, w.Told id := by
  have hinv : w.Inv :=
    Machine.run_preserves_of_meets inv_step (inv_init n) hok hrun
  exact fun id hid => hinv.told hid

/-- The number is given out again after its first connection is off the table,
and before that connection's user has been told. -/
def reuse : List Label :=
  [.accept 7, .functor 1, .shutdown 0, .closeFd 0, .closeCb 0, .functor 0,
    .accept 7, .functor 1, .functor 1]

theorem callbacks_once_reuse :
    ∃ w, Machine.run step { numThreads := 1 } reuse = some w ∧
      w.callbacks = [(0, .kConnected), (0, .kDisconnected), (1, .kConnected)] ∧
      ∀ id < w.accepted, w.Told id := by
  have hany : (Machine.run step { numThreads := 1 } reuse).any (fun w =>
      decide (w.callbacks =
        [(0, .kConnected), (0, .kDisconnected), (1, .kConnected)])) = true := by
    decide +kernel
  obtain ⟨w, hrun, hcalls⟩ := (Option.any_eq_true _ _).mp hany
  exact ⟨w, hrun, of_decide_eq_true hcalls,
    callbacks_once (by decide +kernel) hrun⟩

end GameFrame.TcpServer
