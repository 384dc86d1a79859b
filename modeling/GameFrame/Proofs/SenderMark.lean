import GameFrame.LogSender.SenderLoop
import GameFrame.Proofs.SenderBrake

/-!
# The mark is heeded

`high_water_mark` is there so that what `log_server` does not read stays in the
queue, which has room for so much and no more, and does not go into the buffer
of the connection. But when the mark is passed a functor is queued, and no more.
Others are in front of it, and any of these may drain the queue once more, or
take a pause back.

While the connection has as much as the mark in its buffer, the sender will be
paused when what is queued has run (`Braced`). So it is when a round has run the
functors that it has swapped out (`Swapped`), and from then on nothing is passed
on until the buffer has run empty or the connection is gone (`mark_heeded`).
-/

namespace GameFrame

/-! ## The mark -/

namespace Brake

variable {b b' : Brake} {fd : Nat} {c : Connection}

theorem foldl_conns (fd : Nat) (fs : List ConnFunctor) (paused : Bool) :
    (fs.map (SenderFunctor.conn fd)).foldl SenderFunctor.pauses paused =
      fs.foldl ConnFunctor.pauses paused := by
  rw [List.foldl_map]
  rfl

theorem foldl_others {fs : List SenderFunctor} (h : ∀ fd f, .conn fd f ∉ fs)
    (paused : Bool) : fs.foldl SenderFunctor.pauses paused = paused := by
  induction fs with
  | nil => rfl
  | cons f fs ih =>
      have hkeep : f.pauses paused = paused := by
        cases f with
        | conn fd g => exact absurd List.mem_cons_self (h fd g)
        | startInLoop | stopInLoop | wake => rfl
      rw [List.foldl_cons, hkeep]
      exact ih fun fd g hg => h fd g (List.mem_cons_of_mem _ hg)

theorem comesTo_run (b : Brake) : b.run.comesTo = b.comesTo := by
  rw [comesTo, comesTo, run]
  cases b.pending with
  | nil => rfl
  | cons f fs => rfl

/-- The current connection, with its mark watched. -/
structure Held (b : Brake) (fd : Nat) : Prop where
  watched : (b.conns fd).Watched b.opts
  quiet : (b.conns fd).messageCb = false
  swept : (b.conns fd).pending = []
  braking : (b.conns fd).Braking b.opts.highWaterMark b.comesTo

/-- While the connection has as much as the mark in its buffer, the sender is
going to be paused. -/
structure Braced (b : Brake) : Prop where
  mark : 0 < b.opts.highWaterMark
  held : ∀ fd, b.connection = some fd → b.Held fd

theorem Braced.put (hb : b.Braced) (hput : Put fd c b b')
    (hlives : Connection.Lives (b.conns fd) c) (hup : c.state = .kConnected)
    (hc : c.Braking b.opts.highWaterMark b.comesTo) : b'.Braced := by
  refine ⟨by rw [hput.opts]; exact hb.mark, fun i hi => ?_⟩
  obtain rfl : fd = i := Option.some.inj (hput.connection.symm.trans hi)
  have hheld := hb.held fd hput.before
  have hset := hheld.watched.lives hlives hup
  have hwill : b'.comesTo = c.pending.foldl ConnFunctor.pauses b.comesTo := by
    rw [comesTo, hput.pending, hput.paused, List.foldl_append, foldl_conns]
    rfl
  refine ⟨?_, ?_, ?_, ?_⟩
  · rw [hput.conn, hput.opts]
    exact ⟨hset.state, hset.highWaterCb, hset.highWaterMark⟩
  · rw [hput.conn]
    exact hlives.messageCb.trans hheld.quiet
  · rw [hput.conn]
  · rw [hput.conn, hput.opts, hwill]
    exact hc

theorem Braced.move (hb : b.Braced) (h : Move b b') : b'.Braced := by
  cases h with
  | queue fs hfs hsame hconn hpending =>
      simp only [Prod.mk.injEq] at hsame
      obtain ⟨hopts, hconnection, hpaused⟩ := hsame
      have hwill : b'.comesTo = b.comesTo := by
        rw [comesTo, hpending, hpaused, List.foldl_append, foldl_others hfs]
        rfl
      refine ⟨by rw [hopts]; exact hb.mark, fun i hi => ?_⟩
      rw [hconnection] at hi
      have hheld := hb.held i hi
      refine ⟨?_, ?_, ?_, ?_⟩
      · rw [hconn i hi, hopts]; exact hheld.watched
      · rw [hconn i hi]; exact hheld.quiet
      · rw [hconn i hi]; exact hheld.swept
      · rw [hconn i hi, hopts, hwill]; exact hheld.braking
  | send fd c data writes hsend hup hput =>
      have hheld := hb.held fd hput.before
      exact hb.put hput (Connection.lives_send hheld.watched.state hsend) hup
        (hheld.braking.send hb.mark hheld.watched hsend)
  | shutdown fd hput =>
      have hheld := hb.held fd hput.before
      have hsame := (b.conns fd).shutdownInLoop_same
      have hup : (b.conns fd).shutdownInLoop.state = .kConnected := by
        simp only [Prod.mk.injEq] at hsame
        rw [hsame.1]
        exact hheld.watched.state
      exact hb.put hput
        (Connection.Lives.refl hheld.watched.state).shutdownInLoop hup
        (hheld.braking.aside hsame)

theorem Braced.moved (hb : b.Braced) (h : Relation.ReflTransGen Move b b') :
    b'.Braced := by
  induction h with
  | refl => exact hb
  | tail _ hmove ih => exact ih.move hmove

theorem Braced.turn (hb : b.Braced) (h : Turn b b') : b'.Braced := by
  cases h with
  | moved hmoved => exact hb.moved hmoved
  | event fd revents d c hc hup hput =>
      have hheld := hb.held fd hput.before
      have hemptied := Connection.emptied_swept hheld.swept
      have hlives :=
        Connection.lives_handleEvent hheld.watched.state hheld.quiet hc
      exact hb.put hput hlives hup (hheld.braking.handleEvent hb.mark
        hheld.watched.state hheld.quiet hemptied hc).1
  | changed hopts hne hopened =>
      refine ⟨by rw [hopts]; exact hb.mark, fun i hi => ?_⟩
      have hnew := hopened i hi
      refine ⟨?_, ?_, ?_, fun _ hfull => ?_⟩
      · rw [hnew, hopts]; exact ⟨rfl, rfl, rfl⟩
      · rw [hnew]; rfl
      · rw [hnew]; rfl
      · -- A connection that is new has nothing in its buffer.
        have hempty : (LogSender.opened b.opts).outputBuffer.readable = [] :=
          Buffer.readable_new
        rw [hnew, hempty, hopts] at hfull
        exact absurd hfull (Nat.not_le_of_lt hb.mark)

theorem Braced.run (hb : b.Braced) : b.run.Braced := by
  refine ⟨hb.mark, fun fd hfd => ?_⟩
  have hheld := hb.held fd hfd
  refine ⟨hheld.watched, hheld.quiet, hheld.swept, ?_⟩
  rw [comesTo_run]
  exact hheld.braking

/-! ## The pause -/

/-- The first so many functors leave the sender paused, and none behind them
ends that. -/
structure Swapped (left : Nat) (b : Brake) : Prop where
  length : left ≤ b.pending.length
  front : (b.pending.take left).foldl SenderFunctor.pauses b.paused = true
  behind : ∀ fd, SenderFunctor.conn fd .writeComplete ∉ b.pending.drop left

theorem Braced.swapped (hb : b.Braced) (hfd : b.connection = some fd)
    (hfull : b.opts.highWaterMark ≤ (b.conns fd).outputBuffer.readable.length) :
    Swapped b.pending.length b := by
  have hheld := hb.held fd hfd
  refine ⟨Nat.le_refl _, ?_, fun i => ?_⟩
  · rw [List.take_length]
    have hwill := hheld.braking hheld.watched.state hfull
    rw [hheld.swept] at hwill
    exact hwill
  · rw [List.drop_length]
    exact List.not_mem_nil

theorem Swapped.append {left : Nat} (hb : b.Swapped left)
    {fs : List SenderFunctor} (hpaused : b'.paused = b.paused)
    (hpending : b'.pending = b.pending ++ fs)
    (hfs : ∀ fd, SenderFunctor.conn fd .writeComplete ∉ fs) :
    b'.Swapped left := by
  refine ⟨?_, ?_, fun fd hmem => ?_⟩
  · rw [hpending, List.length_append]
    exact Nat.le_add_right_of_le hb.length
  · rw [hpending, hpaused, List.take_append_of_le_length hb.length]
    exact hb.front
  · rw [hpending, List.drop_append_of_le_length hb.length] at hmem
    rcases List.mem_append.mp hmem with hold | hnew
    · exact hb.behind fd hold
    · exact hfs fd hnew

/-- The functors of the connection are queued, and none of them ends a pause. -/
theorem Swapped.put {left : Nat} (hb : b.Swapped left) (hput : Put fd c b b')
    (hc : ConnFunctor.writeComplete ∉ c.pending) : b'.Swapped left := by
  refine hb.append hput.paused hput.pending fun i hmem => ?_
  obtain ⟨f, hf, heq⟩ := List.mem_map.mp hmem
  cases heq
  exact hc hf

theorem Swapped.moved {left : Nat} (hb : b.Swapped left) (hbraced : b.Braced)
    (h : Relation.ReflTransGen Move b b') : b'.Swapped left := by
  induction h with
  | refl => exact hb
  | @tail u _ hmoved hmove ih =>
      have hbefore := hbraced.moved hmoved
      cases hmove with
      | queue fs hfs hsame hconn hpending =>
          simp only [Prod.mk.injEq] at hsame
          exact ih.append hsame.2.2 hpending fun fd => hfs fd _
      | send fd c data writes hsend hup hput =>
          have hheld := hbefore.held fd hput.before
          refine ih.put hput (Connection.pending_send ?_ hup hsend)
          rw [hheld.swept]
          exact List.not_mem_nil
      | shutdown fd hput =>
          refine ih.put hput ?_
          have hsame := (u.conns fd).shutdownInLoop_same
          simp only [Prod.mk.injEq] at hsame
          rw [hsame.2.1, (hbefore.held fd hput.before).swept]
          exact List.not_mem_nil

/-- While the connection stays and has something left to write, nothing ends
the pause. -/
theorem Swapped.turn {left : Nat} (hb : b.Swapped left) (hbraced : b.Braced)
    (hbefore : b.connection = some fd) (hbehind : b'.connection = some fd)
    (hleft : (b'.conns fd).outputBuffer.readable ≠ []) (h : Turn b b') :
    b'.Swapped left := by
  cases h with
  | moved hmoved => exact hb.moved hbraced hmoved
  | event i revents d c hc hup hput =>
      obtain rfl : i = fd :=
        Option.some.inj (hput.connection.symm.trans hbehind)
      have hheld := hbraced.held i hput.before
      have hemptied := Connection.emptied_swept hheld.swept
      have hdone := (hheld.braking.handleEvent hbraced.mark
        hheld.watched.state hheld.quiet hemptied hc).2
      refine hb.put hput fun hqueued => hleft ?_
      rw [hput.conn]
      exact hdone hup hqueued
  | changed hopts hne hopened =>
      exact absurd (hbehind.trans hbefore.symm) hne

/-- The first of them has run. -/
theorem Swapped.run {left : Nat} (hb : b.Swapped left) :
    b.run.Swapped (left - 1) := by
  obtain ⟨hlength, hfront, hbehind⟩ := hb
  cases hpending : b.pending with
  | nil =>
      rw [hpending] at hlength hfront
      have hzero : left = 0 := Nat.le_zero.mp hlength
      subst hzero
      exact ⟨Nat.zero_le _, by simpa [Brake.run, hpending] using hfront,
        by simp [Brake.run, hpending]⟩
  | cons f fs =>
      rw [hpending] at hlength hfront hbehind
      cases left with
      | zero =>
          -- The functor is none that ends a pause.
          have hpaused : b.paused = true := hfront
          have hf : f.pauses b.paused = true := by
            cases f with
            | conn fd g =>
                cases g with
                | writeComplete => exact absurd List.mem_cons_self (hbehind fd)
                | highWaterMark => rfl
                | shutdownInLoop => exact hpaused
            | startInLoop | stopInLoop | wake => exact hpaused
          refine ⟨Nat.zero_le _, ?_, fun fd hmem => ?_⟩
          · simpa [Brake.run, hpending] using hf
          · refine hbehind fd (List.mem_cons_of_mem f ?_)
            simpa [Brake.run, hpending] using hmem
      | succ left =>
          refine ⟨?_, ?_, fun fd => ?_⟩
          · simpa [Brake.run, hpending] using hlength
          · simpa [Brake.run, hpending] using hfront
          · simpa [Brake.run, hpending] using hbehind fd

end Brake

/-! ## Nothing is passed -/

namespace LogSender

open Brake

variable {ι : Type _}

theorem steady_onTick {w : LogSender ι} (h : w.paused = true) :
    Steady w w.onTick [] := by
  rw [onTick]
  split
  · exact .refl w
  · rw [if_neg (by simp [h])]
    exact steady_scheduleNextTick w

/-- The loop thread is not in the middle of a drain, and nothing is passed. -/
structure Idles (w w' : LogSender ι) : Prop where
  loopPc : w'.loopPc = w.loopPc
  passed : w'.passed = w.passed

theorem Idles.trans {w₁ w₂ w₃ : LogSender ι} (h : Idles w₁ w₂)
    (h' : Idles w₂ w₃) : Idles w₁ w₃ :=
  ⟨h'.loopPc.trans h.loopPc, h'.passed.trans h.passed⟩

theorem Steady.idles {w w' : LogSender ι} (h : Steady w w' []) :
    Idles w w' :=
  ⟨h.loopPc, h.passed.trans (List.append_nil _)⟩

theorem idles_startInLoop (w : LogSender ι) (d : Dial) :
    Idles w (w.startInLoop d) := by
  rw [startInLoop]
  split
  · exact ⟨rfl, rfl⟩
  · have hstart : Idles w { w with started := true } := ⟨rfl, rfl⟩
    dsimp only
    split
    · exact hstart.trans (frame_steady.fail _ _).idles
    · exact hstart.trans
        ((steady_settle _ _).trans (steady_scheduleNextTick _)).idles

theorem idles_runFunctor {w : LogSender ι} (h : w.paused = true) (d : Dial)
    {f : SenderFunctor} (hstop : f ≠ .stopInLoop) :
    Idles w (w.runFunctor d f) := by
  cases f with
  | startInLoop => exact idles_startInLoop w d
  | stopInLoop => exact absurd rfl hstop
  | wake =>
      rw [runFunctor]
      split
      · exact ⟨rfl, rfl⟩
      · exact (steady_onTick h).idles
  | conn fd f =>
      cases f with
      | shutdownInLoop => exact (steady_putConn w fd _).idles
      | highWaterMark | writeComplete => exact ⟨rfl, rfl⟩

theorem idles_fireTimer {w : LogSender ι} (h : w.paused = true) (d : Dial)
    (k : TimerKind) : Idles w (w.fireTimer d k) := by
  cases k with
  | tick =>
      have hfired : Idles w { w with tickTimerId := 0 } := ⟨rfl, rfl⟩
      have hsteady := steady_onTick (w := { w with tickTimerId := 0 }) h
      exact hfired.trans hsteady.idles
  | retry =>
      rw [fireTimer]
      split
      · exact (frame_steady.fail w _).idles
      · exact (steady_settle w _).idles

variable [DecidableEq ι]

/-- A sender that is paused begins no drain. -/
theorem idles_step {w w' : LogSender ι} {l : Label ι}
    (hpaused : w.paused = true)
    (hloop : w.loopPc = .idle) (hstopped : w'.stopped = false)
    (h : w.step l = some w') : Idles w w' := by
  cases (step_stepped h).2 with
  | enter | leave | wake | start | stop => exact ⟨rfl, rfl⟩
  | drain scripts dropped stopping _ hdraining =>
      cases hloop.symm.trans hdraining
  | functor d f fs =>
      have hpop : Idles w { w with pending := fs } := ⟨rfl, rfl⟩
      refine hpop.trans (idles_runFunctor (w := { w with pending := fs })
        hpaused d fun hf => ?_)
      rw [hf, runFunctor, stopInLoop_stopped] at hstopped
      cases hstopped
  | timer id d t =>
      have hcancel : Idles w (w.cancelTimer id) := ⟨rfl, rfl⟩
      exact hcancel.trans
        (idles_fireTimer (w := w.cancelTimer id) hpaused d t.kind)
  | handshake err c => exact (steady_settle w _).idles
  | event fd revents d c => exact (steady_putConn w fd c).idles

end LogSender

namespace SenderLoop

open Brake

variable {ι : Type _}

/-- The connection is still there and has something left to write, before
`stop()` has come to the loop. -/
def Writing (fd : Nat) (w : LogSender ι) : Prop :=
  w.connection = some fd ∧ (w.conns fd).outputBuffer.readable ≠ [] ∧
    w.stopped = false ∧ w.fault = none

instance (fd : Nat) (w : LogSender ι) : Decidable (Writing fd w) :=
  inferInstanceAs (Decidable (_ ∧ _ ∧ _ ∧ _))

/-- The sender is in order, before `stop()`. -/
def Ready (w : LogSender ι) : Prop :=
  w.stopped = false → w.fault = none → w.Tidy ∧ w.brake.Braced

theorem ready_new {opts : Options} (h : 0 < opts.highWaterMark) :
    Ready (.new opts : LogSender ι) :=
  fun _ _ => ⟨LogSender.tidy_new opts, h, nofun⟩

theorem braced_due {w : LogSender ι} (hb : w.brake.Braced)
    (l : LogSender.Label ι) : (w.due l).Braced := by
  cases l with
  | functor d => exact hb.run
  | _ => exact hb

/-- How many functors a step takes off the queue. -/
def taken : LogSender.Label ι → Nat
  | .functor _ => 1
  | _ => 0

theorem after_running {left : Nat} {l : LogSender.Label ι} {ph : SenderPhase}
    (h : (SenderPhase.running left).after l = some ph) :
    ph = .running (left - taken l) := by
  cases l with
  | functor d =>
      cases left with
      | zero => cases h
      | succ n =>
          cases h
          rfl
  | timer id d | handshake err | event i revents d => cases h
  | enter | leave | wake | start | stop | drain =>
      cases h
      rfl

/-- The pause has come, and nothing has been passed since. -/
structure Resting (passed : List (Nat × Payload)) (w : LogSender ι) :
    Prop where
  swapped : w.brake.Swapped 0
  loopPc : w.loopPc = .idle
  same : w.passed = passed

theorem Resting.paused {passed : List (Nat × Payload)} {w : LogSender ι}
    (hw : Resting passed w) : w.paused = true := hw.swapped.front

variable [DecidableEq ι]

theorem ready_step {w w' : LogSender ι} {l : LogSender.Label ι} (hw : Ready w)
    (h : w.step l = some w') : Ready w' := by
  intro hstopped hfault
  have hbefore : w.stopped = false := by
    cases hs : w.stopped with
    | false => rfl
    | true =>
        exact absurd (LogSender.step_stopped h hs) (by simp [hstopped])
  obtain ⟨htidy, hbraced⟩ := hw hbefore (LogSender.step_fault h)
  have hturn := LogSender.turn_step htidy hstopped hfault h
  exact ⟨LogSender.tidy_step htidy hstopped hfault h,
    (braced_due hbraced l).turn hturn⟩

theorem swapped_step {w w' : LogSender ι} {l : LogSender.Label ι}
    {left fd : Nat}
    (hw : Ready w) (hs : w.brake.Swapped left) (hbefore : Writing fd w)
    (hbehind : Writing fd w') (h : w.step l = some w') :
    w'.brake.Swapped (left - taken l) := by
  obtain ⟨hfd, hmore, hstopped, hfault⟩ := hbehind
  obtain ⟨htidy, hbraced⟩ := hw hbefore.2.2.1 hbefore.2.2.2
  have hturn := LogSender.turn_step htidy hstopped hfault h
  have hdue : (w.due l).Swapped (left - taken l) := by
    cases l with
    | functor d => exact hs.run
    | _ => exact hs
  have hconnection : (w.due l).connection = some fd := by
    cases l with
    | functor d => exact hbefore.1
    | _ => exact hbefore.1
  exact hdue.turn (braced_due hbraced l) hconnection hfd hmore hturn

/-- The round is going on, with the pause to come, or it has come. -/
def Heeding (s : SenderLoop ι) : Prop :=
  ∃ left, (s.phase = .running left ∨ left = 0) ∧ s.sender.brake.Swapped left

/-- With each step of the loop the sender makes one or none. -/
theorem step_sender {s s' : SenderLoop ι} {l : Label ι}
    (h : s.step l = some s') :
    (s'.sender = s.sender ∧ ∀ left, s.phase = .running left → left = 0) ∨
      ∃ m, s.phase.after m = some s'.phase ∧
        s.sender.step m = some s'.sender := by
  cases l with
  | poll =>
      rw [step] at h
      split at h
      · next hwaiting =>
          cases h
          exact .inl ⟨rfl, fun left hleft => by simp [hleft] at hwaiting⟩
      · cases h
  | swap =>
      rw [step] at h
      split at h
      · next hdispatching =>
          cases h
          exact .inl ⟨rfl, fun left hleft => by simp [hleft] at hdispatching⟩
      · cases h
  | endRound =>
      rw [step] at h
      split at h
      · next hdone =>
          cases h
          refine .inl ⟨rfl, fun left hleft => ?_⟩
          simp [hleft] at hdone
          exact hdone.1
      · cases h
  | sender m =>
      rw [step] at h
      split at h
      · cases h
      · next ph hph =>
          obtain ⟨w, hw, rfl⟩ := Option.map_eq_some_iff.mp h
          exact .inr ⟨m, hph, hw⟩

theorem ready_loop {s s' : SenderLoop ι} {l : Label ι} (hs : Ready s.sender)
    (h : s.step l = some s') : Ready s'.sender := by
  rcases step_sender h with ⟨hsame, -⟩ | ⟨m, -, hm⟩
  · rw [hsame]
    exact hs
  · exact ready_step hs hm

theorem heeding_step {s s' : SenderLoop ι} {l : Label ι} {fd : Nat}
    (hs : s.Heeding) (hready : Ready s.sender) (hbefore : Writing fd s.sender)
    (hbehind : Writing fd s'.sender) (h : s.step l = some s') :
    s'.Heeding := by
  obtain ⟨left, hleft, hswapped⟩ := hs
  rcases step_sender h with ⟨hsame, hnone⟩ | ⟨m, hph, hm⟩
  · obtain rfl : left = 0 := hleft.elim (hnone left) id
    exact ⟨0, .inr rfl, by rw [hsame]; exact hswapped⟩
  · refine ⟨left - taken m, ?_,
      swapped_step hready hswapped hbefore hbehind hm⟩
    rcases hleft with hrunning | hzero
    · rw [hrunning] at hph
      exact .inl (after_running hph)
    · exact .inr (by omega)

theorem resting_step {s s' : SenderLoop ι} {l : Label ι} {fd : Nat}
    {passed : List (Nat × Payload)} (hs : Resting passed s.sender)
    (hready : Ready s.sender) (hbefore : Writing fd s.sender)
    (hbehind : Writing fd s'.sender) (h : s.step l = some s') :
    Resting passed s'.sender := by
  rcases step_sender h with ⟨hsame, -⟩ | ⟨m, -, hm⟩
  · rw [hsame]
    exact hs
  · have hidles := LogSender.idles_step hs.paused hs.loopPc hbehind.2.2.1 hm
    have hswapped := swapped_step hready hs.swapped hbefore hbehind hm
    rw [Nat.zero_sub] at hswapped
    exact ⟨hswapped, hidles.loopPc.trans hs.loopPc, hidles.passed.trans hs.same⟩

/-- What holds while the connection is being written to holds along a run in
which it is all the time. -/
theorem run_writing {P : SenderLoop ι → Prop} {fd : Nat}
    (hstep : ∀ {s s' : SenderLoop ι} {l : Label ι}, P s → Ready s.sender →
      Writing fd s.sender → Writing fd s'.sender → s.step l = some s' → P s')
    {s t : SenderLoop ι} {ls : List (Label ι)} (hready : Ready s.sender)
    (hs : Writing fd s.sender → P s)
    (hkept : Machine.Meets step (fun s _ => Writing fd s.sender) s ls)
    (hrun : Machine.run step s ls = some t) :
    Ready t.sender ∧ (Writing fd t.sender → P t) := by
  refine Machine.run_preserves_of_meets
    (P := fun s => Ready s.sender ∧ (Writing fd s.sender → P s)) ?_
    ⟨hready, hs⟩ hkept hrun
  intro s l s' hs hwriting h
  exact ⟨ready_loop hs.1 h, fun hbehind =>
    hstep (hs.2 hwriting) hs.1 hwriting hbehind h⟩

/-- If the connection has as much as the mark in its buffer when a round swaps
its functors out, the sender is paused at the end of that round. Nothing is
passed from then on, as long as the connection stays and its buffer does not
run empty, in any order of events, timers, functors and pushes. -/
theorem mark_heeded {opts : Options} (hmark : 0 < opts.highWaterMark)
    {ls mid rest : List (Label ι)} {s₀ s₁ s₂ : SenderLoop ι} {fd : Nat}
    (hrun : Machine.run step (new opts) ls = some s₀)
    (hfull : s₀.sender.opts.highWaterMark ≤
      (s₀.sender.conns fd).outputBuffer.readable.length)
    (hround : Machine.run step s₀ (.swap :: mid ++ [.endRound]) = some s₁)
    (hrest : Machine.run step s₁ rest = some s₂)
    (hduring : Machine.Meets step (fun s _ => Writing fd s.sender) s₀
      (.swap :: mid ++ [.endRound]))
    (hbehind : Machine.Meets step (fun s _ => Writing fd s.sender) s₁ rest)
    (hlast : Writing fd s₂.sender) :
    s₂.sender.paused = true ∧ s₂.sender.passed = s₁.sender.passed := by
  have hready : Ready s₀.sender :=
    Machine.run_preserves (P := fun s => Ready s.sender) ready_loop
      (ready_new hmark) hrun
  -- The functors that are swapped out lead to the pause.
  obtain ⟨s', hswap, hmid⟩ := Machine.run_cons_some.mp hround
  obtain ⟨hwriting, hkept⟩ := (Machine.meets_cons hswap).mp hduring
  have hswapped : s'.Heeding := by
    obtain ⟨-, hbraced⟩ := hready hwriting.2.2.1 hwriting.2.2.2
    rw [step] at hswap
    split at hswap
    · cases hswap
      exact ⟨_, .inl rfl, hbraced.swapped hwriting.1 hfull⟩
    · cases hswap
  obtain ⟨hready₁, hheeding⟩ := run_writing heeding_step
    (ready_loop hready hswap) (fun _ => hswapped) hkept hmid
  -- At the end of the round they have run.
  obtain ⟨u, -, hend⟩ := Machine.run_snoc_some.mp hmid
  have hresting : Writing fd s₁.sender →
      Resting s₁.sender.passed s₁.sender := by
    intro hwriting₁
    obtain ⟨left, hleft, hpause⟩ := hheeding hwriting₁
    rw [step] at hend
    split at hend
    · next hdone =>
        cases hend
        obtain rfl : left = 0 := hleft.elim (by simp) id
        simp [idle] at hdone
        exact ⟨hpause, hdone.2.1, rfl⟩
    · cases hend
  obtain ⟨-, hfinal⟩ := run_writing
    (P := fun s => Resting s₁.sender.passed s.sender)
    resting_step hready₁ hresting hbehind hrest
  exact ⟨(hfinal hlast).paused, (hfinal hlast).same⟩

/-- A batch of five bytes that the socket takes nothing of. -/
def marked : List (Label Unit) :=
  [.sender .start, .poll, .swap, .sender (.functor (.immediate false)),
    .endRound, .sender (.enter () [1]), .sender (.leave ()), .sender (.wake ()),
    .poll, .swap, .sender (.functor .inProgress),
    .sender (.drain [[.stop .eagain]]), .endRound, .poll]

/-- A push that wakes the loop, and a tick, while the socket takes two bytes. -/
def another : List (Label Unit) :=
  [.sender (.enter () [2]), .sender (.leave ()), .sender (.wake ()), .poll,
    .sender (.event 0 EPOLLOUT { writes := [.accepted 2, .stop .eagain] }),
    .sender (.timer 1 .inProgress), .swap, .sender (.functor .inProgress),
    .endRound]

theorem mark_heeded_another :
    ∃ s₀ s₁ s₂, Machine.run step (new { highWaterMark := 5 }) marked = some s₀ ∧
      Machine.run step s₀
        (.swap :: [.sender (.functor .inProgress)] ++ [.endRound]) = some s₁ ∧
      Machine.run step s₁ another = some s₂ ∧
      s₂.sender.queue.contents = [[2]] ∧
      s₂.sender.paused = true ∧ s₂.sender.passed = s₁.sender.passed := by
  have hany : (Machine.run step (new { highWaterMark := 5 }) marked).any
      (fun s₀ =>
        decide (s₀.sender.opts.highWaterMark ≤
          (s₀.sender.conns 0).outputBuffer.readable.length) &&
        decide (Machine.Meets step (fun s _ => Writing 0 s.sender) s₀
          (.swap :: [.sender (.functor .inProgress)] ++ [.endRound])) &&
        (Machine.run step s₀
          (.swap :: [.sender (.functor .inProgress)] ++ [.endRound])).any
          fun s₁ =>
            decide (Machine.Meets step (fun s _ => Writing 0 s.sender) s₁
              another) &&
            (Machine.run step s₁ another).any fun s₂ =>
              decide (Writing 0 s₂.sender) &&
              s₂.sender.queue.contents == [[2]]) = true := by decide +kernel
  obtain ⟨s₀, hrun, hs₀⟩ := (Option.any_eq_true _ _).mp hany
  simp only [Bool.and_eq_true, decide_eq_true_eq] at hs₀
  obtain ⟨⟨hfull, hduring⟩, hs₁⟩ := hs₀
  obtain ⟨s₁, hround, hs₁⟩ := (Option.any_eq_true _ _).mp hs₁
  simp only [Bool.and_eq_true, decide_eq_true_eq] at hs₁
  obtain ⟨hbehind, hs₂⟩ := hs₁
  obtain ⟨s₂, hrest, hs₂⟩ := (Option.any_eq_true _ _).mp hs₂
  simp only [Bool.and_eq_true, decide_eq_true_eq, beq_iff_eq] at hs₂
  exact ⟨s₀, s₁, s₂, hrun, hround, hrest, hs₂.2,
    mark_heeded (by decide) hrun hfull hround hrest hduring hbehind hs₂.1⟩

end SenderLoop

end GameFrame
