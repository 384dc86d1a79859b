import GameFrame.Net.Teardown
import GameFrame.Proofs.LoopQuit

/-!
# What `~TcpServer` closes

The destructor walks through the table and has every connection closed. On a
sub-loop the close is a functor, and the table stays as it is: what takes a
connection off it is queued on the main loop, which is not run any more. Then
the sub-loop is told to quit, and the functor is run if the loop gets to it,
which is the matter of `quit()`. With no sub-loops `run_in_loop`, `close()`,
the close callback and `remove_connection_in_loop` all run on the spot, and the
first connection is off the table while the range-for still stands on it
(`teardown_erases`).

So `TeardownOk` has two parts: no connection is on the main loop, and each
sub-loop is told to quit, and interrupted, at a moment that `QuitOk` allows.
The proof keeps count of each close, from the queue of its loop to the call
(`Inv`).
-/

namespace GameFrame.Teardown

open EventLoop (Stepped step_stepped QuitOk)

/-- The table is left alone while it is walked through, no connection is
closed twice, and all are closed in the end. -/
structure Closes (w : Teardown) : Prop where
  untouched : w.pc.iterates = true → w.server.connections = w.first
  once : ∀ id ∈ w.order, w.closeCalls.count id ≤ 1
  all : w.pc = .done → ∀ id ∈ w.order, w.closeCalls.count id = 1

/-- The connection whose turn it is, and the loop that is about to be told. -/
def nextId (w : Teardown) : Option Nat :=
  match w.pc with
  | .iterate todo => todo.head?
  | _ => none

def quitNext (w : Teardown) : Option Nat :=
  match w.pc with
  | .quit l => some l
  | _ => none

/-- No connection is on the main loop, and the sub-loops quit in order. -/
def TeardownOk (w : Teardown) : Label → Prop
  | .next => ∀ id ∈ w.nextId, (w.server.conns id).loop ≠ 0
  | .loop l s => QuitOk (w.loops l) (.loop s)
  | .quit => ∀ l ∈ w.quitNext, QuitOk (w.loops l) (.quit false)
  | _ => True

instance (w : Teardown) : ∀ l, Decidable (TeardownOk w l)
  | .next => inferInstanceAs (Decidable (∀ id ∈ w.nextId, _))
  | .loop l s => inferInstanceAs (Decidable (QuitOk (w.loops l) (.loop s)))
  | .quit => inferInstanceAs (Decidable (∀ l ∈ w.quitNext, _))
  | .pushBack _ _ | .pushReturn _ _ | .closeOwn _ | .start _ | .posted
  | .endFor | .quitReturn | .join => .isTrue trivial

/-- One connection, and no sub-loops. -/
theorem teardown_erases :
    ¬ ∀ (n : Nat) (before : List TcpServer.Label) (s : TcpServer)
      (ls : List Label) (w : Teardown),
      Machine.run TcpServer.step { numThreads := n } before = some s →
      Machine.run step { server := s } ls = some w → w.Closes := by
  intro hall
  have hany : (Machine.run TcpServer.step { numThreads := 0 }
      [.accept 7]).any (fun s =>
        (Machine.run step { server := s } [.start [0], .next]).any fun w =>
          w.pc.iterates && w.server.connections 7 == none &&
            w.first 7 == some 0) = true := by decide +kernel
  obtain ⟨s, hs, hw⟩ := (Option.any_eq_true _ _).mp hany
  obtain ⟨w, hrun, hw⟩ := (Option.any_eq_true _ _).mp hw
  simp only [Bool.and_eq_true, beq_iff_eq] at hw
  obtain ⟨⟨hpc, hnow⟩, hfirst⟩ := hw
  have hsame := (hall 0 _ s _ w hs hrun).untouched hpc
  rw [hsame, hfirst] at hnow
  cases hnow

/-! ## A functor on its way through a loop -/

section

variable {φ : Type _} {q q' : EventLoop φ} {l : EventLoop.Label φ} {f : φ}

/-- Whoever is inside `queue_in_loop` is there once, behind an enqueue. -/
def InsideOk (q : EventLoop φ) : Prop :=
  q.inside.Nodup ∧ ∀ i ∈ q.inside, i < q.enqueued.length

theorem InsideOk.step (hq : InsideOk q) (h : Stepped q l q') : InsideOk q' := by
  cases h with
  | pushBack f own =>
      refine ⟨List.nodup_cons.mpr ⟨fun hmem => ?_, hq.1⟩, fun i hi => ?_⟩
      · exact Nat.lt_irrefl _ (hq.2 _ hmem)
      · show i < (q.enqueued ++ [f]).length
        rw [List.length_append]
        rcases List.mem_cons.mp hi with rfl | hi
        · exact Nat.lt_succ_self _
        · exact Nat.lt_succ_of_lt (hq.2 i hi)
  | pushReturn i =>
      exact ⟨hq.1.erase i, fun j hj => hq.2 j (List.mem_of_mem_erase hj)⟩
  | enter | stop | goOn | poll | pollFull | interrupted | handleWakeup | swap
  | runNext | endRound | quit | quitReturn => exact hq

/-- The functor has been queued by a call that has returned, and before
`quit()` if that has been called. -/
def Entered (q : EventLoop φ) (f : φ) : Prop :=
  ∃ i, q.enqueued[i]? = some f ∧ i ∉ q.inside ∧
    (q.quit = true → i ∈ q.beforeQuit)

theorem Entered.step (hf : Entered q f) (h : Stepped q l q') :
    Entered q' f := by
  obtain ⟨i, hi, hout, hbefore⟩ := hf
  have hlt : i < q.enqueued.length := (List.getElem?_eq_some_iff.mp hi).1
  cases h with
  | pushBack g own =>
      refine ⟨i, ?_, fun hmem => ?_, hbefore⟩
      · show (q.enqueued ++ [g])[i]? = some f
        rw [List.getElem?_append_left hlt, hi]
      · rcases List.mem_cons.mp hmem with heq | hmem
        · exact absurd hlt (by rw [heq]; exact Nat.lt_irrefl _)
        · exact hout hmem
  | pushReturn j =>
      exact ⟨i, hi, fun hmem => hout (List.mem_of_mem_erase hmem), hbefore⟩
  | quit own =>
      refine ⟨i, hi, hout, fun _ => ?_⟩
      exact List.mem_filter.mpr ⟨List.mem_range.mpr hlt, by simp [hout]⟩
  | enter | stop | goOn | poll | pollFull | interrupted | handleWakeup | swap
  | runNext | endRound | quitReturn => exact ⟨i, hi, hout, hbefore⟩

theorem done_stays (h : Stepped q l q') (hq : q.pc = .done) : q'.pc = .done := by
  cases h with
  | enter hpc | stop hpc | goOn hpc | poll _ hpc | pollFull hpc
  | interrupted hpc | handleWakeup hpc | swap hpc | runNext _ _ hpc
  | endRound hpc => cases hq.symm.trans hpc
  | pushBack | pushReturn | quit | quitReturn => exact hq

/-- What had been queued before `quit()` has been run. -/
theorem Entered.run (hf : Entered q f) (hq : EventLoop.Inv q)
    (hdone : q.pc = .done) (hquit : q.quit = true) : f ∈ q.executed := by
  obtain ⟨i, hi, -, hbefore⟩ := hf
  obtain ⟨hgrown, hall⟩ := hq.kept
  have hlt := hall hdone i (hbefore hquit)
  obtain ⟨rest, hrest⟩ := hgrown
  rw [← hrest, List.getElem?_append_left hlt] at hi
  exact List.mem_of_getElem? hi

/-- What a step queues, and what it runs. -/
theorem enqueued_moved (h : Stepped q l q') : q'.enqueued = q.enqueued ++
    match l with
    | .pushBack f _ => [f]
    | _ => [] := by
  cases h with
  | pushBack f own => rfl
  | enter | stop | goOn | poll | pollFull | interrupted | handleWakeup | swap
  | runNext | endRound | pushReturn | quit | quitReturn =>
      exact (List.append_nil _).symm

theorem executed_kept (h : Stepped q l q') (hl : l ≠ .loop .runNext) :
    q'.executed = q.executed := by
  cases h with
  | runNext => exact absurd rfl hl
  | enter | stop | goOn | poll | pollFull | interrupted | handleWakeup | swap
  | pushBack | endRound | pushReturn | quit | quitReturn => rfl

theorem quit_kept (h : Stepped q l q') (hl : ∀ own, l ≠ .quit own) :
    q'.quit = q.quit := by
  cases h with
  | quit own => exact absurd rfl (hl own)
  | enter | stop | goOn | poll | pollFull | interrupted | handleWakeup | swap
  | runNext | endRound | pushBack | pushReturn | quitReturn => rfl

end

/-! ## Where the server's connections are -/

section

variable {s s' : TcpServer}

/-- Every connection is on a loop the server has, and so is the next. -/
structure Dealt (s : TcpServer) : Prop where
  loops : ∀ id, (s.conns id).loop ≤ s.numThreads
  next : s.numThreads ≠ 0 → s.next < s.numThreads

theorem Dealt.same (hs : Dealt s) (h : s.SamePlaces s') : Dealt s' where
  loops := fun id => by
    rw [h.loop, h.threads]
    exact hs.loops id
  next := by
    rw [h.next, h.threads]
    exact hs.next

theorem Dealt.handleAccept (hs : Dealt s) (fd : Nat) :
    Dealt (s.handleAccept fd) := by
  refine Dealt.same (s := s.placed fd) ?_ (s.samePlaces_handleAccept fd)
  have hadd : ∀ {t : TcpServer} {l : Nat}, Dealt t → l ≤ t.numThreads →
      Dealt ({ t with accepted := s.accepted + 1 }.setConn s.accepted
        { fd := fd, loop := l }) := by
    intro t l ht hl
    refine ⟨fun id => ?_, ht.next⟩
    show (if id = s.accepted then { fd := fd, loop := l }
      else t.conns id : ServerConn).loop ≤ t.numThreads
    split
    · exact hl
    · exact ht.loops id
  rw [TcpServer.placed, TcpServer.nextLoop]
  split
  · exact hadd hs (Nat.zero_le _)
  · next hthreads =>
      have hmoved : Dealt { s with next := (s.next + 1) % s.numThreads } :=
        ⟨hs.loops, fun _ => Nat.mod_lt _ (Nat.pos_of_ne_zero hthreads)⟩
      exact hadd hmoved (hs.next hthreads)

theorem Dealt.step {l : TcpServer.Label} (hs : Dealt s)
    (h : s.step l = some s') : Dealt s' := by
  cases l with
  | accept fd =>
      obtain ⟨-, h⟩ := Option.ite_none_right_eq_some.mp h
      cases h
      exact hs.handleAccept fd
  | functor l =>
      simp only [TcpServer.step] at h
      split at h
      · cases h
      · next f fs _ =>
          obtain ⟨-, h⟩ := Option.ite_none_left_eq_some.mp h
          cases h
          have hleft := hs.same (TcpServer.samePlaces_queue l fs)
          exact hleft.same (TcpServer.samePlaces_functor f)
  | shutdown id =>
      obtain ⟨-, h⟩ := Option.ite_none_right_eq_some.mp h
      cases h
      exact hs.same (TcpServer.samePlaces_shutdown id)
  | closeFd id =>
      obtain ⟨-, h⟩ := Option.ite_none_right_eq_some.mp h
      cases h
      exact hs.same (TcpServer.samePlaces_closeFd id)
  | closeCb id =>
      obtain ⟨-, h⟩ := Option.ite_none_right_eq_some.mp h
      cases h
      have hleft : s.SamePlaces { s with closing := s.closing.erase id } :=
        ⟨rfl, rfl, rfl, fun _ => rfl, fun _ => rfl⟩
      exact hs.same (hleft.trans (TcpServer.samePlaces_closeCallback id))

end

/-- The loops of a server's connections are its own. -/
theorem loop_le {n : Nat} {ls : List TcpServer.Label} {s : TcpServer}
    (hrun : Machine.run TcpServer.step { numThreads := n } ls = some s) :
    ∀ id, (s.conns id).loop ≤ s.numThreads :=
  (Machine.run_preserves (P := Dealt) Dealt.step
    ⟨fun _ => Nat.zero_le n, Nat.pos_of_ne_zero⟩ hrun).loops

/-! ## The invariant -/

end GameFrame.Teardown

/-- What the range-for has not come to. -/
def GameFrame.TeardownPc.rest : TeardownPc → List Nat
  | .iterate todo | .posting _ _ todo => todo
  | .before | .dangling | .quit _ | .quitting _ | .join _ | .done => []

/-- The loops whose `quit()` has been called, and those that were joined. -/
def GameFrame.TeardownPc.hasQuit : TeardownPc → Nat → Bool
  | .quit k, l => l < k
  | .quitting k, l | .join k, l => l ≤ k
  | .done, _ => true
  | .before, _ | .iterate _, _ | .posting _ _ _, _ | .dangling, _ => false

def GameFrame.TeardownPc.joined : TeardownPc → Nat → Bool
  | .quit k, l | .quitting k, l | .join k, l => l < k
  | .done, _ => true
  | .before, _ | .iterate _, _ | .posting _ _ _, _ | .dangling, _ => false

namespace GameFrame.Teardown

open EventLoop (Stepped step_stepped QuitOk)

/-- The destructor is inside the `queue_in_loop` of this close. -/
def Posting (w : Teardown) (l id : Nat) : Prop :=
  ∃ i todo, w.pc = .posting l i todo ∧
    (w.loops l).enqueued[i]? = some (.close id)

/-- Of the table, `front` is what the range-for is done with. The close of
each is queued once, on its own loop, and was called as often as the loop has
run it. -/
structure Inv (w : Teardown) (front : List Nat) : Prop where
  loops : ∀ l, EventLoop.Inv (w.loops l)
  inside : ∀ l, InsideOk (w.loops l)
  subs : ∀ id, (w.server.conns id).loop ≤ w.server.numThreads
  fresh : w.pc = .before → front = []
  order : w.order = front ++ w.pc.rest
  nodup : w.order.Nodup
  untouched : w.pc.iterates = true → w.server.connections = w.first
  walking : w.pc ≠ .dangling
  placed : ∀ id ∈ front, (w.server.conns id).loop ≠ 0
  queued : ∀ l id, (w.loops l).enqueued.count (.close id) =
    if id ∈ front ∧ l = (w.server.conns id).loop then 1 else 0
  called : ∀ id, w.closeCalls.count id =
    (w.loops (w.server.conns id).loop).executed.count (.close id)
  entered : ∀ id ∈ front,
    Entered (w.loops (w.server.conns id).loop) (.close id) ∨
      w.Posting (w.server.conns id).loop id
  quits : ∀ l, 0 < l → l ≤ w.server.numThreads →
    (w.loops l).quit = w.pc.hasQuit l
  ended : ∀ l, 0 < l → l ≤ w.server.numThreads → w.pc.joined l = true →
    (w.loops l).pc = .done

/-- A close is called no more often than it is queued. -/
theorem Inv.called_le {w : Teardown} {front : List Nat} (hw : w.Inv front)
    (id : Nat) : w.closeCalls.count id ≤ if id ∈ front then 1 else 0 := by
  have hle : (w.loops (w.server.conns id).loop).executed.count (.close id) ≤
      (w.loops (w.server.conns id).loop).enqueued.count (.close id) :=
    (hw.loops _).kept.1.sublist.count_le _
  rw [hw.called]
  rw [hw.queued] at hle
  simpa only [and_true] using hle

/-- The last of them is called when its loop has been joined. -/
theorem Inv.closes {w : Teardown} {front : List Nat} (hw : w.Inv front) :
    w.Closes where
  untouched := hw.untouched
  once := by
    intro id _
    have hle := hw.called_le id
    split at hle
    · exact hle
    · omega
  all := by
    intro hdone id hid
    have hfront : id ∈ front := by
      have horder := hw.order
      rw [hdone] at horder
      rw [horder] at hid
      simpa [TeardownPc.rest] using hid
    have hpos := Nat.pos_of_ne_zero (hw.placed id hfront)
    have hle := hw.subs id
    have hquit := hw.quits _ hpos hle
    have hended := hw.ended _ hpos hle
    rw [hdone] at hquit hended
    rcases hw.entered id hfront with hin | ⟨i, todo, hpc, -⟩
    · have hrun := hin.run (hw.loops _) (hended rfl) hquit
      have hcount := List.count_pos_iff.mpr hrun
      rw [← hw.called] at hcount
      have hle := hw.called_le id
      rw [if_pos hfront] at hle
      omega
    · cases hdone.symm.trans hpc

theorem inv_init {s : TcpServer} (hs : ∀ id, (s.conns id).loop ≤ s.numThreads) :
    Inv { server := s } [] where
  loops := fun _ => EventLoop.inv_init
  inside := fun _ => ⟨List.nodup_nil, nofun⟩
  subs := hs
  fresh := fun _ => rfl
  order := rfl
  nodup := List.nodup_nil
  untouched := nofun
  walking := nofun
  placed := nofun
  queued := fun l id => by rw [if_neg (by simp)]; rfl
  called := fun id => rfl
  entered := nofun
  quits := fun _ _ _ => rfl
  ended := nofun

/-! ## A loop takes a step -/

section

variable {w w' : Teardown} {front : List Nat} {l : Nat}
  {q : EventLoop TeardownFunctor} {lb : EventLoop.Label TeardownFunctor}

/-- What holds of every loop, and of this one behind its step. -/
theorem forall_setLoop {P : Nat → EventLoop TeardownFunctor → Prop}
    (hw : ∀ i, P i (w.loops i)) (hq : P l q) :
    ∀ i, P i ((w.setLoop l q).loops i) := by
  intro i
  show P i (if i = l then q else w.loops i)
  split
  · next hi => rwa [hi]
  · exact hw i

/-- A functor is recorded when it is run, and nothing else is. -/
theorem executed_running {q q' : EventLoop TeardownFunctor}
    {s : EventLoop.LoopStep} (h : Stepped q (.loop s) q') :
    q'.executed = q.executed ++ (running q s).toList := by
  cases h with
  | runNext f rest hpc => simp [running, EventLoop.swapped, hpc]
  | enter | stop | goOn | poll | pollFull | interrupted | handleWakeup | swap
  | endRound => exact (List.append_nil _).symm

/-- Outside of its round a loop runs nothing, and no close is called. -/
theorem called_kept (h : Stepped (w.loops l) lb q) (hlb : lb ≠ .loop .runNext)
    (id : Nat) : w.closeCalls.count id = w.closeCalls.count id +
      if (w.server.conns id).loop = l then
        q.executed.count (.close id) -
          (w.loops l).executed.count (.close id) else 0 := by
  rw [executed_kept h hlb]
  simp

theorem executed_grows (h : Stepped (w.loops l) lb q) :
    (w.loops l).executed <+: q.executed := by
  cases lb with
  | loop s => exact ⟨_, (executed_running h).symm⟩
  | pushBack | pushReturn | quit | quitReturn =>
      exact ⟨[], by rw [executed_kept h nofun, List.append_nil]⟩

/-- One loop takes a step that queues no close, and the destructor may take
one with it. -/
theorem Inv.moved (hw : w.Inv front) (calls : List Nat)
    (hstep : Stepped (w.loops l) lb q) (hok : QuitOk (w.loops l) lb)
    {pc : TeardownPc}
    (hqueue : ∀ id own, lb ≠ .pushBack (.close id) own)
    (hfresh : pc = .before → w.pc = .before)
    (hrest : pc.rest = w.pc.rest)
    (hiterates : pc.iterates = true → w.pc.iterates = true)
    (hwalking : pc ≠ .dangling)
    (hcalled : ∀ id, calls.count id = w.closeCalls.count id +
      if (w.server.conns id).loop = l then
        q.executed.count (.close id) -
          (w.loops l).executed.count (.close id) else 0)
    (hposting : ∀ id ∈ front, w.Posting (w.server.conns id).loop id →
      Entered ((w.setLoop l q).loops (w.server.conns id).loop) (.close id) ∨
        Posting { w.setLoop l q with pc := pc } (w.server.conns id).loop id)
    (hquit : 0 < l → l ≤ w.server.numThreads → q.quit = pc.hasQuit l)
    (hothers : ∀ i, i ≠ l → pc.hasQuit i = w.pc.hasQuit i)
    (hjoined : ∀ i, pc.joined i = true → w.pc.joined i = true) :
    Inv { w.setLoop l q with pc := pc, closeCalls := calls } front where
  loops := forall_setLoop hw.loops ((hw.loops l).step hok hstep)
  inside := forall_setLoop (P := fun _ => InsideOk) hw.inside
    ((hw.inside l).step hstep)
  subs := hw.subs
  fresh := fun h => hw.fresh (hfresh h)
  order := hw.order.trans (by rw [hrest])
  nodup := hw.nodup
  untouched := fun h => hw.untouched (hiterates h)
  walking := hwalking
  placed := hw.placed
  queued := by
    refine forall_setLoop (P := fun i q => ∀ id, q.enqueued.count (.close id) =
      if id ∈ front ∧ i = (w.server.conns id).loop then 1 else 0)
      hw.queued fun id => ?_
    rw [← hw.queued l id, enqueued_moved hstep]
    cases lb with
    | pushBack f own =>
        have hne : f ≠ .close id := fun heq => hqueue id own (heq ▸ rfl)
        rw [List.count_append, List.count_singleton,
          if_neg (by simpa using hne), Nat.add_zero]
    | loop | pushReturn | quit | quitReturn =>
        exact congrArg _ (List.append_nil _)
  called := by
    intro id
    show calls.count id =
      ((w.setLoop l q).loops (w.server.conns id).loop).executed.count _
    rw [hcalled, hw.called]
    by_cases hl : (w.server.conns id).loop = l
    · have hle := (executed_grows hstep).sublist.count_le (.close id)
      simp only [hl, setLoop, if_true]
      omega
    · simp only [hl, setLoop, if_false, Nat.add_zero]
  entered := by
    intro id hid
    rcases hw.entered id hid with hin | hpost
    · refine .inl ?_
      show Entered ((w.setLoop l q).loops (w.server.conns id).loop) _
      by_cases hl : (w.server.conns id).loop = l
      · simp only [setLoop, hl, if_true]
        exact Entered.step (hl ▸ hin) hstep
      · simp only [setLoop, hl, if_false]
        exact hin
    · exact hposting id hid hpost
  quits := by
    intro i hpos hle
    show (if i = l then q else w.loops i).quit = pc.hasQuit i
    split
    · next hi => exact hi ▸ hquit (hi ▸ hpos) (hi ▸ hle)
    · next hi => rw [hw.quits i hpos hle, hothers i hi]
  ended := by
    intro i hpos hle hi
    have hdone := hw.ended i hpos hle (hjoined i hi)
    show (if i = l then q else w.loops i).pc = .done
    split
    · next heq => exact done_stays hstep (heq ▸ hdone)
    · exact hdone

/-- The destructor stays where it is. -/
theorem Inv.kept (hw : w.Inv front) (calls : List Nat)
    (hstep : Stepped (w.loops l) lb q) (hok : QuitOk (w.loops l) lb)
    (hqueue : ∀ id own, lb ≠ .pushBack (.close id) own)
    (hquit : ∀ own, lb ≠ .quit own)
    (hcalled : ∀ id, calls.count id = w.closeCalls.count id +
      if (w.server.conns id).loop = l then
        q.executed.count (.close id) -
          (w.loops l).executed.count (.close id) else 0) :
    Inv { w.setLoop l q with closeCalls := calls } front := by
  refine hw.moved calls hstep hok hqueue id rfl id hw.walking hcalled
    (fun id _ hpost => .inr ?_) (fun hpos hle => ?_) (fun _ _ => rfl)
    (fun _ => id)
  · obtain ⟨i, todo, hpc, hi⟩ := hpost
    refine ⟨i, todo, hpc, ?_⟩
    show (if (w.server.conns id).loop = l then q else _).enqueued[i]? = _
    split
    · next heq =>
        rw [heq] at hi
        have hlt := (List.getElem?_eq_some_iff.mp hi).1
        rw [enqueued_moved hstep, List.getElem?_append_left hlt, hi]
    · exact hi
  · rw [quit_kept hstep hquit, hw.quits l hpos hle]
    rfl

/-- A close on a sub-loop leaves the table to the main loop. -/
theorem Inv.close (hw : w.Inv front) {id : Nat}
    (hloop : (w.server.conns id).loop ≠ 0) :
    Inv { w with server := w.server.close id } front := by
  obtain ⟨hthreads, hconnections, hloops⟩ := TcpServer.close_queued hloop
  refine ⟨hw.loops, hw.inside, fun i => ?_, hw.fresh, hw.order, hw.nodup,
    fun h => ?_, hw.walking, fun i hi => ?_, fun i k => ?_, fun i => ?_,
    fun i hi => ?_, ?_, ?_⟩
  · rw [hloops, hthreads]
    exact hw.subs i
  · exact hconnections.trans (hw.untouched h)
  · rw [hloops]
    exact hw.placed i hi
  · rw [hloops]
    exact hw.queued i k
  · rw [hloops]
    exact hw.called i
  · rw [hloops]
    exact hw.entered i hi
  · rw [hthreads]
    exact hw.quits
  · rw [hthreads]
    exact hw.ended

/-- A close that is queued on a loop is the close of a connection of that
loop. -/
theorem Inv.mem_queue (hw : w.Inv front) {id : Nat}
    (hin : .close id ∈ (w.loops l).enqueued) :
    id ∈ front ∧ l = (w.server.conns id).loop := by
  have hpos := List.count_pos_iff.mpr hin
  rw [hw.queued] at hpos
  split at hpos
  · next h => exact h
  · exact absurd hpos (Nat.lt_irrefl 0)

theorem Inv.loopStep (hw : w.Inv front) {s : EventLoop.LoopStep}
    (hstep : Stepped (w.loops l) (.loop s) q)
    (hok : QuitOk (w.loops l) (.loop s)) :
    Inv (match running (w.loops l) s with
      | none => w.setLoop l q
      | some f => (w.setLoop l q).runFunctor f) front := by
  have hgrown := executed_running hstep
  cases hf : running (w.loops l) s with
  | none =>
      rw [hf] at hgrown
      refine hw.kept w.closeCalls hstep hok nofun nofun fun id => ?_
      rw [hgrown]
      simp
  | some f =>
      rw [hf] at hgrown
      cases f with
      | other =>
          refine hw.kept w.closeCalls hstep hok nofun nofun
            fun id => ?_
          rw [hgrown]
          simp
      | close id =>
          have hqueued : .close id ∈ (w.loops l).enqueued := by
            have hq : EventLoop.Inv q := (hw.loops l).step hok hstep
            have hmem := hq.kept.1.subset (a := .close id) (by simp [hgrown])
            rwa [enqueued_moved hstep, List.append_nil] at hmem
          obtain ⟨hfront, hl⟩ := hw.mem_queue hqueued
          have hran := hw.kept (w.closeCalls ++ [id]) hstep hok nofun
            nofun fun i => ?_
          · exact hran.close (hw.placed id hfront)
          · rw [hgrown, List.count_append, List.count_append]
            by_cases hi : i = id
            · simp [hi, ← hl]
            · simp [Ne.symm hi]

/-! ## The destructor takes a step -/

theorem tableIds_nodup (s : TcpServer) : (tableIds s).Nodup :=
  List.nodup_range.sublist List.filter_sublist

/-- Nothing has been queued or called before the destructor begins. -/
theorem Inv.start (hw : w.Inv front) (hpc : w.pc = .before)
    {order : List Nat} (hperm : order.Perm (tableIds w.server)) :
    Inv
      { w with
        pc := .iterate order
        first := w.server.connections
        order := order } [] := by
  obtain rfl := hw.fresh hpc
  refine ⟨hw.loops, hw.inside, hw.subs, nofun, rfl,
    hperm.nodup_iff.mpr (tableIds_nodup _), fun _ => rfl, nofun, nofun,
    hw.queued, hw.called, nofun, fun l hpos hle => ?_, nofun⟩
  rw [hw.quits l hpos hle, hpc]
  rfl

/-- One close more on the queue of its loop. -/
theorem Inv.next_queued (hw : w.Inv front) {id : Nat} (hnew : id ∉ front)
    (hl : (w.server.conns id).loop = l)
    (hqueue : q.enqueued =
      (w.loops l).enqueued ++ [TeardownFunctor.close id]) (j k : Nat) :
    ((w.setLoop l q).loops j).enqueued.count (.close k) =
      if k ∈ front ++ [id] ∧ j = (w.server.conns k).loop then 1 else 0 := by
  have hold := hw.queued j k
  show (if j = l then q else w.loops j).enqueued.count (.close k) = _
  by_cases hk : k = id
  · rw [if_neg fun h => hnew (hk ▸ h.1)] at hold
    rw [hk] at hold ⊢
    by_cases hj : j = l
    · rw [hj] at hold ⊢
      simp [hqueue, hold, hl]
    · simp [hj, hold, hl]
  · simp only [List.mem_append, List.mem_singleton, hk, or_false]
    rw [← hold]
    split
    · next hj =>
        rw [hj, hqueue, List.count_append, List.count_singleton,
          if_neg (by simpa using Ne.symm hk), Nat.add_zero]
    · rfl

/-- The close of the next connection is queued on its loop. -/
theorem Inv.next (hw : w.Inv front) {id : Nat} {todo : List Nat}
    (hpc : w.pc = .iterate (id :: todo))
    (hl : (w.server.conns id).loop = l) (hsub : l ≠ 0)
    (hstep : Stepped (w.loops l) (.pushBack (.close id) false) q) :
    Inv
      { w.setLoop l q with
        pc := .posting l (w.loops l).enqueued.length todo }
      (front ++ [id]) := by
  have horder : w.order = front ++ [id] ++ todo := by
    rw [hw.order, hpc, List.append_assoc]
    rfl
  have hnew : id ∉ front := by
    have hnodup := hw.nodup
    rw [horder, List.nodup_append, List.nodup_append] at hnodup
    exact fun hid => hnodup.1.2.2 id hid id (List.mem_singleton_self id) rfl
  have hqueue : q.enqueued =
      (w.loops l).enqueued ++ [TeardownFunctor.close id] :=
    enqueued_moved hstep
  have hmem : ∀ i, i ∈ front ++ [id] ↔ i ∈ front ∨ i = id := by
    simp
  have hok : QuitOk (w.loops l) (.pushBack (.close id) false) := trivial
  refine ⟨forall_setLoop hw.loops ((hw.loops l).step hok hstep),
    forall_setLoop (P := fun _ => InsideOk) hw.inside
      ((hw.inside l).step hstep), hw.subs, nofun, horder, hw.nodup,
    fun _ => hw.untouched (by rw [hpc]; rfl), nofun, fun i hi => ?_,
    hw.next_queued hnew hl hqueue, fun i => ?_, fun i hi => ?_,
    fun i hpos hle => ?_, nofun⟩
  · rcases (hmem i).mp hi with hi | rfl
    · exact hw.placed i hi
    · exact hl ▸ hsub
  · show w.closeCalls.count i =
      (if (w.server.conns i).loop = l then q else _).executed.count (.close i)
    rw [hw.called]
    split
    · next hi => rw [hi, executed_kept hstep nofun]
    · rfl
  · show Entered (if (w.server.conns i).loop = l then q else _) _ ∨ _
    rcases (hmem i).mp hi with hi | rfl
    · refine .inl ?_
      have hin := (hw.entered i hi).resolve_right fun ⟨_, _, h, _⟩ =>
        nomatch hpc.symm.trans h
      split
      · next heq => exact Entered.step (heq ▸ hin) hstep
      · exact hin
    · refine .inr ⟨_, todo, congrArg (TeardownPc.posting · _ todo) hl.symm, ?_⟩
      show (if (w.server.conns i).loop = l then q else _).enqueued[_]? = _
      rw [if_pos hl, hqueue]
      exact List.getElem?_concat_length
  · show (if i = l then q else w.loops i).quit = false
    have hquit := hw.quits i hpos hle
    rw [hpc] at hquit
    split
    · next heq => rw [quit_kept hstep nofun, ← heq, hquit]; rfl
    · exact hquit

/-- The destructor is back from `queue_in_loop`. -/
theorem Inv.posted (hw : w.Inv front) {i : Nat} {todo : List Nat}
    (hpc : w.pc = .posting l i todo)
    (hstep : Stepped (w.loops l) (.pushReturn i) q) :
    Inv { w.setLoop l q with pc := .iterate todo } front := by
  refine hw.moved w.closeCalls hstep trivial nofun nofun ?_ ?_ nofun
    (called_kept hstep nofun) (fun id hid hpost => .inl ?_)
    (fun hpos hle => ?_) (fun i _ => ?_) nofun
  · rw [hpc]
    rfl
  · rw [hpc]
    exact fun _ => rfl
  · obtain ⟨k, todo', hpc', hk⟩ := hpost
    obtain ⟨hl, rfl, -⟩ : l = _ ∧ i = k ∧ todo = todo' := by
      simpa using hpc.symm.trans hpc'
    show Entered (if _ = l then q else _) _
    rw [if_pos hl.symm]
    have hplaced := Nat.pos_of_ne_zero (hw.placed id hid)
    have hquit := hw.quits _ hplaced (hw.subs id)
    rw [← hl] at hk hquit
    cases hstep with
    | pushReturn _ hi =>
        refine ⟨i, hk, ?_, fun h => ?_⟩
        · exact ((hw.inside l).1.not_mem_erase)
        · have hlate : (w.loops l).quit = true := h
          rw [hlate, hpc] at hquit
          cases hquit
  · rw [quit_kept hstep nofun, hw.quits l hpos hle, hpc]
    rfl
  · rw [hpc]
    rfl

/-- `quit()` of loop `l`. -/
theorem Inv.quit (hw : w.Inv front) (hpc : w.pc = .quit l)
    (hok : QuitOk (w.loops l) (.quit false))
    (hstep : Stepped (w.loops l) (.quit false) q) :
    Inv { w.setLoop l q with pc := .quitting l } front := by
  refine hw.moved w.closeCalls hstep hok nofun nofun ?_ nofun nofun
    (called_kept hstep nofun)
    (fun id _ ⟨_, _, h, _⟩ => nomatch hpc.symm.trans h)
    (fun _ _ => ?_) (fun i hi => ?_) (fun i hi => ?_)
  · rw [hpc]
    rfl
  · cases hstep
    exact (decide_eq_true (Nat.le_refl l)).symm
  · rw [hpc]
    exact decide_eq_decide.mpr ⟨fun h => by omega, Nat.le_of_lt⟩
  · rw [hpc]
    exact hi

theorem Inv.quitReturn (hw : w.Inv front) (hpc : w.pc = .quitting l)
    (hstep : Stepped (w.loops l) .quitReturn q) :
    Inv { w.setLoop l q with pc := .join l } front := by
  refine hw.moved w.closeCalls hstep trivial nofun nofun ?_ nofun
    nofun (called_kept hstep nofun)
    (fun id _ ⟨_, _, h, _⟩ => nomatch hpc.symm.trans h)
    (fun hpos hle => ?_) (fun i _ => ?_) (fun i hi => ?_)
  · rw [hpc]
    rfl
  · rw [quit_kept hstep nofun, hw.quits l hpos hle, hpc]
    rfl
  · rw [hpc]
    rfl
  · rw [hpc]
    exact hi

/-- The destructor goes on to the next loop, or to the end, and nothing else
changes. -/
theorem Inv.goOn (hw : w.Inv front) {pc : TeardownPc} {t : Nat → Option Nat}
    (hrest : w.pc.rest = [] ∧ pc.rest = [])
    (hnot : ∀ l i todo, w.pc ≠ .posting l i todo)
    (hpc : pc ≠ .before ∧ pc.iterates = false ∧ pc ≠ .dangling)
    (hquits : ∀ l, 0 < l → l ≤ w.server.numThreads →
      pc.hasQuit l = w.pc.hasQuit l)
    (hended : ∀ l, 0 < l → l ≤ w.server.numThreads → pc.joined l = true →
      (w.loops l).pc = .done) :
    Inv { w with pc := pc, server := { w.server with connections := t } }
      front where
  loops := hw.loops
  inside := hw.inside
  subs := hw.subs
  fresh := fun h => absurd h hpc.1
  order := by
    rw [hw.order, hrest.1]
    exact congrArg (front ++ ·) hrest.2.symm
  nodup := hw.nodup
  untouched := fun h => nomatch h.symm.trans hpc.2.1
  walking := hpc.2.2
  placed := hw.placed
  queued := hw.queued
  called := hw.called
  entered := fun id hid => .inl ((hw.entered id hid).resolve_right
    fun ⟨_, _, h, _⟩ => hnot _ _ _ h)
  quits := fun l hpos hle => (hw.quits l hpos hle).trans (hquits l hpos hle).symm
  ended := hended

theorem Inv.endFor (hw : w.Inv front) (h : w.step .endFor = some w') :
    w'.Inv front := by
  simp only [Teardown.step] at h
  split at h
  · next hpc =>
      have hnot : ∀ l i todo, w.pc ≠ .posting l i todo := fun _ _ _ h =>
        nomatch hpc.symm.trans h
      split at h
      · cases h
        exact hw.goOn (by rw [hpc]; exact ⟨rfl, rfl⟩) hnot ⟨nofun, rfl, nofun⟩
          (fun l hpos hle => by omega) fun l hpos hle => by omega
      · cases h
        refine hw.goOn (t := w.server.connections)
          (by rw [hpc]; exact ⟨rfl, rfl⟩) hnot ⟨nofun, rfl, nofun⟩
          (fun l hpos _ => ?_) fun l hpos _ h => ?_
        · rw [hpc]
          exact decide_eq_false (by omega)
        · have hlt : l < 1 := of_decide_eq_true h
          omega
  · cases h

theorem Inv.join (hw : w.Inv front) (h : w.step .join = some w') :
    w'.Inv front := by
  simp only [Teardown.step] at h
  split at h
  · next k hpc =>
      have hnot : ∀ l i todo, w.pc ≠ .posting l i todo := fun _ _ _ h =>
        nomatch hpc.symm.trans h
      split at h
      · next hdone =>
          -- the loops before this one have been joined already
          have hended : ∀ l, 0 < l → l ≤ w.server.numThreads → l ≤ k →
              (w.loops l).pc = .done := by
            intro l hpos hle hlk
            rcases Nat.lt_or_eq_of_le hlk with hlt | rfl
            · refine hw.ended l hpos hle ?_
              rw [hpc]
              exact decide_eq_true hlt
            · exact hdone
          split at h
          · cases h
            refine hw.goOn (t := w.server.connections)
              (by rw [hpc]; exact ⟨rfl, rfl⟩) hnot ⟨nofun, rfl, nofun⟩
              (fun l _ _ => ?_) fun l hpos hle h => ?_
            · rw [hpc]
              exact decide_eq_decide.mpr Nat.lt_succ_iff
            · exact hended l hpos hle (Nat.lt_succ_iff.mp (of_decide_eq_true h))
          · next hlast =>
              cases h
              refine hw.goOn (by rw [hpc]; exact ⟨rfl, rfl⟩) hnot
                ⟨nofun, rfl, nofun⟩ (fun l _ hle => ?_)
                fun l hpos hle _ => hended l hpos hle (by omega)
              rw [hpc]
              exact (decide_eq_true (by omega)).symm
      · cases h
  · cases h

theorem Inv.step {lb : Label} (hw : w.Inv front)
    (hok : w.TeardownOk lb) (h : w.step lb = some w') :
    ∃ front, w'.Inv front := by
  cases lb with
  | loop l s =>
      obtain ⟨-, h⟩ := Option.ite_none_right_eq_some.mp h
      obtain ⟨q, hq, rfl⟩ := Option.map_eq_some_iff.mp h
      exact ⟨front, hw.loopStep (step_stepped hq) hok⟩
  | pushBack l own =>
      obtain ⟨-, h⟩ := Option.ite_none_right_eq_some.mp h
      obtain ⟨q, hq, rfl⟩ := Option.map_eq_some_iff.mp h
      have hstep := step_stepped hq
      exact ⟨front, hw.kept w.closeCalls hstep trivial
        (fun id own h => by cases h) nofun (called_kept hstep nofun)⟩
  | pushReturn l i =>
      have hq : ∃ q, (w.loops l).step (.pushReturn i) = some q ∧
          w.setLoop l q = w' := by
        simp only [Teardown.step] at h
        split at h
        · split at h
          · cases h
          · exact Option.map_eq_some_iff.mp h
        · exact Option.map_eq_some_iff.mp h
      obtain ⟨q, hq, rfl⟩ := hq
      have hstep := step_stepped hq
      exact ⟨front, hw.kept w.closeCalls hstep trivial nofun nofun
        (called_kept hstep nofun)⟩
  | closeOwn id =>
      obtain ⟨hsub, h⟩ := Option.ite_none_right_eq_some.mp h
      cases h
      have hpos : 0 < (w.server.conns id).loop :=
        of_decide_eq_true ((Bool.and_eq_true _ _).mp hsub).1
      exact ⟨front, hw.close (Nat.ne_of_gt hpos)⟩
  | start order =>
      simp only [Teardown.step] at h
      split at h
      · next hpc =>
          obtain ⟨hperm, h⟩ := Option.ite_none_right_eq_some.mp h
          cases h
          exact ⟨[], hw.start hpc hperm⟩
      · cases h
  | next =>
      simp only [Teardown.step] at h
      split at h
      · next id todo hpc =>
          have hsub : (w.server.conns id).loop ≠ 0 :=
            hok id (by rw [nextId, hpc]; rfl)
          rw [if_neg hsub] at h
          obtain ⟨q, hq, rfl⟩ := Option.map_eq_some_iff.mp h
          exact ⟨_, hw.next hpc rfl hsub (step_stepped hq)⟩
      · cases h
  | posted =>
      simp only [Teardown.step] at h
      split at h
      · next l i todo hpc =>
          obtain ⟨q, hq, rfl⟩ := Option.map_eq_some_iff.mp h
          exact ⟨front, hw.posted hpc (step_stepped hq)⟩
      · cases h
  | endFor => exact ⟨front, hw.endFor h⟩
  | quit =>
      simp only [Teardown.step] at h
      split at h
      · next l hpc =>
          obtain ⟨q, hq, rfl⟩ := Option.map_eq_some_iff.mp h
          exact ⟨front, hw.quit hpc (hok l (by rw [quitNext, hpc]; rfl))
            (step_stepped hq)⟩
      · cases h
  | quitReturn =>
      simp only [Teardown.step] at h
      split at h
      · next l hpc =>
          obtain ⟨q, hq, rfl⟩ := Option.map_eq_some_iff.mp h
          exact ⟨front, hw.quitReturn hpc (step_stepped hq)⟩
      · cases h
  | join => exact ⟨front, hw.join h⟩

end

/-- With every connection on a sub-loop that quits in order, the table stays
as it is until all of them are closed. -/
theorem teardown_closes {n : Nat} {before : List TcpServer.Label}
    {s : TcpServer} {ls : List Label} {w : Teardown}
    (hserver : Machine.run TcpServer.step { numThreads := n } before = some s)
    (hok : Machine.Meets step TeardownOk { server := s } ls)
    (hrun : Machine.run step { server := s } ls = some w) : w.Closes := by
  have hw : ∃ front, w.Inv front :=
    Machine.run_preserves_of_meets (P := fun w => ∃ front, Inv w front)
      (fun ⟨_, hw⟩ hok h => hw.step hok h) ⟨[], inv_init (loop_le hserver)⟩
      hok hrun
  obtain ⟨front, hw⟩ := hw
  exact hw.closes

/-- Two connections, one sub-loop, which is waiting when it is told. -/
def waiting : List Label :=
  [.loop 1 .enter, .loop 1 .test, .start [1, 0], .next, .posted, .next,
    .posted, .endFor, .quit, .loop 1 (.poll false), .loop 1 .handleWakeup,
    .loop 1 .swap, .loop 1 .runNext, .loop 1 .runNext, .quitReturn,
    .loop 1 .endRound, .loop 1 .test, .join]

theorem teardown_closes_waiting :
    ∃ (s : TcpServer) (w : Teardown), Machine.run TcpServer.step
        { numThreads := 1 } [.accept 7, .accept 8, .functor 1, .functor 1] =
        some s ∧
      Machine.run step { server := s } waiting = some w ∧
      w.pc = .done ∧ w.closeCalls = [1, 0] ∧ w.Closes := by
  have hany : (Machine.run TcpServer.step { numThreads := 1 }
      [.accept 7, .accept 8, .functor 1, .functor 1]).any (fun s =>
        decide (Machine.Meets step TeardownOk { server := s } waiting) &&
        (Machine.run step { server := s } waiting).any fun w =>
          w.pc == .done && w.closeCalls == [1, 0]) = true := by decide +kernel
  obtain ⟨s, hs, hw⟩ := (Option.any_eq_true _ _).mp hany
  obtain ⟨hok, hw⟩ := (Bool.and_eq_true _ _).mp hw
  obtain ⟨w, hrun, hw⟩ := (Option.any_eq_true _ _).mp hw
  simp only [Bool.and_eq_true, beq_iff_eq] at hw
  exact ⟨s, w, hs, hrun, hw.1, hw.2,
    teardown_closes hs (of_decide_eq_true hok) hrun⟩

end GameFrame.Teardown
