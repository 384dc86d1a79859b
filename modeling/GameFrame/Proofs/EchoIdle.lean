import GameFrame.Echo.EchoLoop

/-!
# An idle connection is closed, and no other

Three things are kept in step: the timers that are outstanding, the ids in the
contexts, and what the clock said when they were set, for a new connection or
behind its data. Whatever is outstanding is for a connection that is announced
and not reported closed, under the id in its context, and for ten seconds after
that. And there is something outstanding for each that is connected.

So behind each pass of `handle_read` there is no connection left that was idle
for ten seconds by its clock (`idle_bounded`), and what a pass closes was idle
for as long (`kicks_idle`). When the disconnect has been reported, no timer of
the connection is left (`timers_released`).
-/

namespace GameFrame.EchoLoop

open TimerCalls (Turn)

/-- `kIdleTimeoutMs` in nanoseconds. -/
def idleNs : Int := kIdleTimeoutMs * 1000000

theorem idle_soon : TimerCalls.Soon kIdleTimeoutMs := by decide

variable {s s' : EchoLoop}

/-! ## The timers and the contexts -/

/-- What is outstanding is what the contexts name. -/
structure Timed (s : EchoLoop) : Prop where
  ok : s.calls.Ok
  ahead : s.calls.Ahead
  sole : ∀ {id : Nat} {due : Int} {k : Nat}, s.calls.Outstanding id due k →
    (s.conns k).timerId = id ∧ (s.conns k).announced = true ∧
      (s.conns k).gone = false
  own : ∀ k, (s.conns k).timerId ≠ 0 →
    s.calls.captured (s.conns k).timerId = some k ∧
      (s.conns k).timerId < s.calls.queue.nextId

/-- The timers with the one in this context cancelled, if it names one. -/
def disarmed (s : EchoLoop) (k : Nat) : TimerCalls Nat :=
  if (s.conns k).timerId ≠ 0 then s.calls.cancel (s.conns k).timerId
  else s.calls

/-- Nothing of the connection is left in `calls`, and of the others all. -/
structure Disarmed (s : EchoLoop) (k : Nat) (calls : TimerCalls Nat) :
    Prop where
  ok : calls.Ok
  ahead : calls.Ahead
  now : calls.queue.now = s.calls.queue.now
  nextId : calls.queue.nextId = s.calls.queue.nextId
  pc : calls.queue.pc = s.calls.queue.pc
  captured : calls.captured = s.calls.captured
  outstanding : ∀ {id : Nat} {due : Int} {k' : Nat},
    calls.Outstanding id due k' ↔ s.calls.Outstanding id due k' ∧ k' ≠ k

theorem Timed.disarmed (hs : s.Timed) (hidle : s.calls.queue.pc = .idle)
    (k : Nat) : Disarmed s k (s.disarmed k) := by
  have hrest : s.calls.queue.pc.rest = [] := by rw [hidle]; rfl
  have hcalls : TimerQueue.callsOut s.calls.queue.pc = true := by
    rw [hidle]
    rfl
  rw [EchoLoop.disarmed]
  split
  · next hne =>
      obtain ⟨hnow, hnext, hpc, -⟩ :=
        TimerCalls.cancel_fields s.calls (s.conns k).timerId
      refine ⟨hs.ok.cancel hcalls _, hs.ahead.cancel hs.ok _, hnow, hnext, hpc,
        rfl, fun {id due k'} => ?_⟩
      rw [hs.ok.outstanding_cancel hrest]
      refine and_congr_right fun hout => ?_
      -- The ids of two connections are not the same, for one id has captured
      -- one connection.
      constructor
      · rintro hid rfl
        exact hid (hs.sole hout).1.symm
      · rintro hk rfl
        have hown := (hs.own k hne).1
        rw [hout.captured, Option.some.injEq] at hown
        exact hk hown
  · next heq =>
      refine ⟨hs.ok, hs.ahead, rfl, rfl, rfl, rfl, fun {id due k'} => ?_⟩
      refine (and_iff_left_of_imp ?_).symm
      rintro hout rfl
      have hid := (hs.sole hout).1
      have hpos := hs.ok.outstanding_pos hout
      omega

/-- `arm_idle_timer`: one timer of the connection is outstanding then, and it
is new. -/
theorem Timed.armIdleTimer (hs : s.Timed) (hidle : s.calls.queue.pc = .idle)
    {k : Nat} (hann : (s.conns k).announced = true)
    (hgone : (s.conns k).gone = false) :
    (s.armIdleTimer k).Timed ∧
      (∀ {id : Nat} {due : Int} {k' : Nat},
        (s.armIdleTimer k).calls.Outstanding id due k' ↔
          id = s.calls.queue.nextId ∧ due = s.calls.queue.now + idleNs ∧
              k' = k ∨ s.calls.Outstanding id due k' ∧ k' ≠ k) := by
  have hd : Disarmed s k (s.disarmed k) := hs.disarmed hidle k
  have hcalls : (s.armIdleTimer k).calls =
      (s.disarmed k).runAfter kIdleTimeoutMs k := rfl
  have hconns : ∀ i, (s.armIdleTimer k).conns i =
      if i = k then { s.conns k with
        timerId := (s.disarmed k).queue.nextId } else s.conns i :=
    fun _ => rfl
  have hout : ∀ {id : Nat} {due : Int} {k' : Nat},
      (s.armIdleTimer k).calls.Outstanding id due k' ↔
        id = s.calls.queue.nextId ∧ due = s.calls.queue.now + idleNs ∧
            k' = k ∨ s.calls.Outstanding id due k' ∧ k' ≠ k := by
    intro id due k'
    rw [hcalls, hd.ok.outstanding_runAfter idle_soon, hd.outstanding,
      hd.nextId, hd.now]
    rfl
  have hcallsOut : TimerQueue.callsOut (s.disarmed k).queue.pc = true := by
    rw [hd.pc, hidle]
    rfl
  refine ⟨⟨?_, ?_, fun {id due k'} h => ?_, fun i hi => ?_⟩, hout⟩
  · rw [hcalls]
    exact hd.ok.runAfter hcallsOut idle_soon _
  · rw [hcalls]
    exact hd.ahead.runAfter hd.ok idle_soon (by decide) _
  · rw [hconns]
    rcases hout.mp h with ⟨rfl, -, rfl⟩ | ⟨h, hk⟩
    · rw [if_pos rfl]
      exact ⟨hd.nextId, hann, hgone⟩
    · rw [if_neg hk]
      exact hs.sole h
  · have hnext :=
      (TimerCalls.runAfter_fields (s.disarmed k) kIdleTimeoutMs k).2.1
    have hcapt : ∀ j, (s.armIdleTimer k).calls.captured j =
        if j = (s.disarmed k).queue.nextId then some k
        else (s.disarmed k).captured j := fun _ => rfl
    rw [hconns] at hi ⊢
    rw [hcapt, hcalls, hnext]
    split
    · next hik =>
        exact ⟨(if_pos rfl).trans (hik ▸ rfl), Nat.lt_succ_self _⟩
    · next hik =>
        rw [if_neg hik] at hi
        obtain ⟨hcaptured, hlt⟩ := hs.own i hi
        rw [hd.nextId, hd.captured, if_neg (Nat.ne_of_lt hlt)]
        exact ⟨hcaptured, Nat.lt_succ_of_lt hlt⟩

/-- Contexts and timers are as they were, but for what is not asked here. -/
theorem Timed.same (hs : s.Timed) (hcalls : s'.calls = s.calls)
    (hconns : ∀ k, (s'.conns k).timerId = (s.conns k).timerId ∧
      (s'.conns k).announced = (s.conns k).announced ∧
      (s'.conns k).gone = (s.conns k).gone) : s'.Timed where
  ok := hcalls ▸ hs.ok
  ahead := hcalls ▸ hs.ahead
  sole := by
    intro id due k h
    rw [hcalls] at h
    obtain ⟨hid, hann, hgone⟩ := hconns k
    rw [hid, hann, hgone]
    exact hs.sole h
  own := by
    intro k hk
    rw [(hconns k).1] at hk ⊢
    rw [hcalls]
    exact hs.own k hk

/-- The queue has gone on by itself, or by a call. -/
theorem Timed.calls (hs : s.Timed) {calls : TimerCalls Nat} (hok : calls.Ok)
    (hahead : calls.Ahead) (hcaptured : calls.captured = s.calls.captured)
    (hnext : calls.queue.nextId = s.calls.queue.nextId)
    (hout : ∀ {id : Nat} {due : Int} {k : Nat}, calls.Outstanding id due k →
      s.calls.Outstanding id due k) : (s.setCalls calls).Timed where
  ok := hok
  ahead := hahead
  sole := fun h => hs.sole (hout h)
  own := by
    intro k hk
    obtain ⟨hcapt, hlt⟩ := hs.own k hk
    exact ⟨(congrFun hcaptured _).trans hcapt,
      Nat.lt_of_lt_of_eq hlt hnext.symm⟩

/-! ## The moments -/

/-- Whatever is outstanding is so for ten seconds behind the last data, and
every connection has something outstanding, but for the connection `e`, whose
timer is about to be set. -/
structure Settled (e : Option Nat) (s : EchoLoop) : Prop where
  timed : s.Timed
  due : ∀ {id : Nat} {due : Int} {k : Nat}, s.calls.Outstanding id due k →
    e ≠ some k → due = (s.conns k).last + idleNs
  watched : ∀ k, (s.conns k).connected = true → e ≠ some k →
    ∃ id due, s.calls.Outstanding id due k
  standing : ∀ k, (s.conns k).connected = true →
    (s.conns k).announced = true ∧ (s.conns k).gone = false
  reported : ∀ k, (s.conns k).gone = true → (s.conns k).announced = true
  /-- what was closed in this batch has not been reported -/
  late : ∀ k ∈ s.late, (s.conns k).connected = false ∧
    (s.conns k).announced = true ∧ (s.conns k).gone = false
  noLate : s.functors = true → s.late = [] ∧ s.calls.queue.pc = .idle
  kicks : ∀ x ∈ s.kicks, x.last + idleNs ≤ x.now ∧
    (s.conns x.conn).connected = false ∧ (s.conns x.conn).announced = true
  once : (s.kicks.map Kick.conn).Nodup

theorem settled_new (t : Uptime) : Settled none (new t) where
  timed :=
    { ok := TimerCalls.new_ok t
      ahead := TimerCalls.new_ahead t
      sole := fun h => absurd h TimerCalls.not_outstanding_new
      own := fun _ h => absurd rfl h }
  due := fun h => absurd h TimerCalls.not_outstanding_new
  watched := nofun
  standing := nofun
  reported := nofun
  late := nofun
  noLate := fun _ => ⟨rfl, rfl⟩
  kicks := nofun
  once := .nil

theorem close_eq (s : EchoLoop) (k : Nat) :
    (s.close k).calls = s.calls ∧ (s.close k).kicks = s.kicks ∧
      (s.close k).functors = s.functors ∧
      (∀ i ∈ (s.close k).late, i ∈ s.late ∨
        i = k ∧ (s.conns k).connected = true) ∧
      ∀ i, (s.close k).conns i = if i = k then
        { s.conns k with connected := false } else s.conns i := by
  rw [close]
  split
  · next hconn =>
      refine ⟨rfl, rfl, rfl, fun i hi => ?_, fun _ => rfl⟩
      rcases List.mem_cons.mp hi with rfl | hi
      · exact .inr ⟨rfl, hconn⟩
      · exact .inl hi
  · next hconn =>
      refine ⟨rfl, rfl, rfl, fun _ => .inl, fun i => ?_⟩
      split
      · next hi =>
          rw [Bool.not_eq_true] at hconn
          rw [hi, ← hconn]
      · rfl

variable {e : Option Nat}

/-- A connection is closed in a batch. -/
theorem Settled.close (hs : Settled e s) (hevents : s.functors = false)
    (k : Nat) : Settled e (s.close k) := by
  obtain ⟨hcalls, hkicks, hfunctors, hlate, hconns⟩ := close_eq s k
  have hsame : ∀ i, ((s.close k).conns i).timerId = (s.conns i).timerId ∧
      ((s.close k).conns i).announced = (s.conns i).announced ∧
      ((s.close k).conns i).gone = (s.conns i).gone ∧
      ((s.close k).conns i).last = (s.conns i).last := by
    intro i
    rw [hconns]
    split
    · next hi =>
        rw [hi]
        exact ⟨rfl, rfl, rfl, rfl⟩
    · exact ⟨rfl, rfl, rfl, rfl⟩
  have hless : ∀ i, ((s.close k).conns i).connected = true →
      (s.conns i).connected = true := by
    intro i hi
    rw [hconns] at hi
    split at hi
    · cases hi
    · exact hi
  have hmore : ∀ i, (s.conns i).connected = false →
      ((s.close k).conns i).connected = false := by
    intro i hi
    rw [hconns]
    split
    · rfl
    · exact hi
  refine ⟨hs.timed.same hcalls fun i => ⟨(hsame i).1, (hsame i).2.1,
    (hsame i).2.2.1⟩, fun {id due i} h hi => ?_, fun i hi => ?_,
    fun i hi => ?_, fun i hi => ?_, fun i hi => ?_, fun h => ?_,
    fun x hx => ?_, hkicks ▸ hs.once⟩
  · rw [(hsame i).2.2.2]
    rw [hcalls] at h
    exact hs.due h hi
  · rw [hcalls]
    exact hs.watched i (hless i hi)
  · rw [(hsame i).2.1, (hsame i).2.2.1]
    exact hs.standing i (hless i hi)
  · rw [(hsame i).2.1]
    rw [(hsame i).2.2.1] at hi
    exact hs.reported i hi
  · rw [(hsame i).2.1, (hsame i).2.2.1]
    rcases hlate i hi with hi | ⟨rfl, hconn⟩
    · exact ⟨hmore i (hs.late i hi).1, (hs.late i hi).2⟩
    · refine ⟨?_, hs.standing i hconn⟩
      rw [hconns, if_pos rfl]
  · rw [hfunctors, hevents] at h
    cases h
  · rw [hkicks] at hx
    rw [(hsame _).2.1]
    obtain ⟨hidle, hconn, hann⟩ := hs.kicks x hx
    exact ⟨hidle, hmore _ hconn, hann⟩

/-- The timer of a connection is set, and data has come now. -/
theorem Settled.armIdleTimer {k : Nat} (hs : Settled (some k) s)
    (hidle : s.calls.queue.pc = .idle) (hann : (s.conns k).announced = true)
    (hgone : (s.conns k).gone = false)
    (hlast : (s.conns k).last = s.calls.queue.now) :
    Settled none (s.armIdleTimer k) := by
  obtain ⟨htimed, hout⟩ := hs.timed.armIdleTimer hidle hann hgone
  have hsame : ∀ i,
      ((s.armIdleTimer k).conns i).connected = (s.conns i).connected ∧
      ((s.armIdleTimer k).conns i).announced = (s.conns i).announced ∧
      ((s.armIdleTimer k).conns i).gone = (s.conns i).gone ∧
      ((s.armIdleTimer k).conns i).last = (s.conns i).last := by
    intro i
    show ((if i = k then _ else s.conns i : EchoConn)).connected = _ ∧
      ((if i = k then _ else s.conns i : EchoConn)).announced = _ ∧
      ((if i = k then _ else s.conns i : EchoConn)).gone = _ ∧
      ((if i = k then _ else s.conns i : EchoConn)).last = _
    split
    · next hi =>
        rw [hi]
        exact ⟨rfl, rfl, rfl, rfl⟩
    · exact ⟨rfl, rfl, rfl, rfl⟩
  have hother : ∀ {i : Nat}, i ≠ k → some k ≠ some i := fun hi heq =>
    hi (Option.some.inj heq).symm
  refine ⟨htimed, fun {id due i} h _ => ?_, fun i hi _ => ?_, fun i hi => ?_,
    fun i hi => ?_, fun i hi => ?_, fun h => ⟨(hs.noLate h).1, ?_⟩,
    fun x hx => ?_, hs.once⟩
  · rw [(hsame i).2.2.2]
    rcases hout.mp h with ⟨-, rfl, rfl⟩ | ⟨h, hk⟩
    · rw [hlast]
    · exact hs.due h (hother hk)
  · rw [(hsame i).1] at hi
    by_cases hik : i = k
    · exact ⟨_, _, hout.mpr (.inl ⟨rfl, rfl, hik⟩)⟩
    · obtain ⟨id, due, h⟩ := hs.watched i hi (hother hik)
      exact ⟨id, due, hout.mpr (.inr ⟨h, hik⟩)⟩
  · rw [(hsame i).1] at hi
    rw [(hsame i).2.1, (hsame i).2.2.1]
    exact hs.standing i hi
  · rw [(hsame i).2.1]
    rw [(hsame i).2.2.1] at hi
    exact hs.reported i hi
  · rw [(hsame i).1, (hsame i).2.1, (hsame i).2.2.1]
    exact hs.late i hi
  · have hpc : (s.armIdleTimer k).calls.queue.pc =
        (s.disarmed k).queue.pc :=
      (TimerCalls.runAfter_fields (s.disarmed k) kIdleTimeoutMs k).2.2
    rw [hpc, (hs.timed.disarmed hidle k).pc, hidle]
  · rw [(hsame _).1, (hsame _).2.1]
    exact hs.kicks x hx

/-! ## The steps -/

/-- The queue goes on, and nothing is called. -/
theorem Settled.turn (hs : Settled none s) {l : Turn} {calls : TimerCalls Nat}
    (h : s.calls.turn l = some calls) (hread : l = .read → s.functors = false) :
    Settled none (s.setCalls calls) where
  timed := by
    refine hs.timed.calls (hs.timed.ok.turn h) (hs.timed.ahead.turn h)
      (TimerCalls.turn_spec h).2.2 (TimerCalls.turn_nextId h) fun hout => ?_
    exact (TimerCalls.outstanding_turn h).mp hout
  due := fun hout => hs.due ((TimerCalls.outstanding_turn h).mp hout)
  watched := by
    intro k hk hne
    obtain ⟨id, due, hout⟩ := hs.watched k hk hne
    exact ⟨id, due, (TimerCalls.outstanding_turn h).mpr hout⟩
  standing := hs.standing
  reported := hs.reported
  late := hs.late
  noLate := by
    intro hfunctors
    obtain ⟨hlate, hidle⟩ := hs.noLate hfunctors
    refine ⟨hlate, ?_⟩
    -- Only the clock goes on while the functors run.
    obtain ⟨-, hstep, -⟩ := TimerCalls.turn_spec h
    show calls.queue.pc = .idle
    generalize calls.queue = q at hstep
    cases l with
    | clock t =>
        cases hstep
        exact hidle
    | read => exact absurd hfunctors (by rw [setCalls, hread rfl]; nofun)
    | collect =>
        cases hstep with
        | collect hpc => exact absurd (hidle.symm.trans hpc) nofun
    | «return» =>
        cases hstep with
        | returned rest hpc => exact absurd (hidle.symm.trans hpc) nofun
    | finish =>
        cases hstep with
        | finish hpc => exact absurd (hidle.symm.trans hpc) nofun
  kicks := hs.kicks
  once := hs.once

/-- The timer of `k` was called: what is settled is so but for `k`. -/
theorem Settled.called (hs : Settled none s) {k : Nat} {x : Entry}
    {rest : List Entry} {calls : TimerCalls Nat}
    (h : TimerCalls.Called s.calls x rest k calls) :
    Settled (some k) (s.setCalls calls) := by
  have hok := hs.timed.ok
  have hiff := @TimerCalls.Called.outstanding_iff _ _ _ _ _ _ h hok
  refine ⟨hs.timed.calls h.ok (h.ahead hs.timed.ahead) h.captured h.nextId
    fun hout => (hiff.mp hout).1, fun hout _ => ?_, fun i hi hne => ?_,
    hs.standing, hs.reported, hs.late, fun hfunctors => ?_, hs.kicks, hs.once⟩
  · exact hs.due (hiff.mp hout).1 nofun
  · obtain ⟨id, due, hout⟩ := hs.watched i hi nofun
    refine ⟨id, due, hiff.mpr ⟨hout, ?_⟩⟩
    -- It was not the one that was called, which is of `k`.
    rintro rfl
    have hcaptured := hout.captured
    rw [h.took] at hcaptured
    exact hne hcaptured
  · have hidle := (hs.noLate hfunctors).2
    rw [h.batch] at hidle
    cases hidle

/-- And settled altogether when it is closed. -/
theorem Settled.closed {k : Nat} (hs : Settled (some k) s)
    (hclosed : (s.conns k).connected = false)
    (hout : ∀ {id : Nat} {due : Int}, ¬ s.calls.Outstanding id due k) :
    Settled none s := by
  refine ⟨hs.timed, fun {id due i} h _ => hs.due h ?_, fun i hi _ =>
    hs.watched i hi ?_, hs.standing, hs.reported, hs.late, hs.noLate,
    hs.kicks, hs.once⟩
  · rintro heq
    cases heq
    exact hout h
  · rintro heq
    cases heq
    rw [hclosed] at hi
    cases hi

theorem close_kicks (s : EchoLoop) (k : Nat) (kicks : List Kick) :
    ({ s with kicks := kicks } : EchoLoop).close k =
      { s.close k with kicks := kicks } := by
  rw [EchoLoop.close, EchoLoop.close]
  split
  · rfl
  · rfl

/-- A connection whose timer is called has been idle, and is closed. -/
theorem Settled.idleTimeout (hs : Settled none s) {k : Nat}
    {calls : TimerCalls Nat} (h : s.calls.call = some (k, calls)) :
    Settled none ((s.setCalls calls).idleTimeout k) := by
  obtain ⟨x, rest, hcalled⟩ := hs.timed.ok.call h
  have hbut := hs.called hcalled
  have hevents : s.functors = false := by
    refine Bool.eq_false_iff.mpr fun hfunctors => ?_
    have hidle := (hs.noLate hfunctors).2
    rw [hcalled.batch] at hidle
    cases hidle
  -- The only one of `k` was the one that was called.
  have hout : ∀ {id : Nat} {due : Int}, ¬ calls.Outstanding id due k := by
    intro id due hout
    obtain ⟨hout, hne⟩ := (hcalled.outstanding_iff hs.timed.ok).mp hout
    have hid := (hs.timed.sole hout).1
    have hid' := (hs.timed.sole hcalled.outstanding).1
    exact hne (hid.symm.trans hid')
  rw [EchoLoop.idleTimeout]
  split
  · next hconn =>
      replace hconn : (s.conns k).connected = true := hconn
      have hclose := hbut.close hevents k
      obtain ⟨hcalls, hkicks, -, -, hconns⟩ := close_eq (s.setCalls calls) k
      have hclosed :
          (((s.setCalls calls).close k).conns k).connected = false := by
        rw [hconns, if_pos rfl]
      have hsettled := hclose.closed hclosed (hcalls ▸ hout)
      rw [close_kicks]
      refine { hsettled with
        timed := hsettled.timed.same rfl fun _ => ⟨rfl, rfl, rfl⟩
        kicks := fun y hy => ?_
        once := ?_ }
      · rcases List.mem_cons.mp hy with rfl | hy
        · refine ⟨?_, hclosed, ?_⟩
          · have hdue := hs.due hcalled.outstanding nofun
            have hle := hcalled.due hs.timed.ok
            have hclock := hs.timed.ok.clock
            show (s.conns k).last + idleNs ≤ calls.queue.now
            rw [hcalled.now]
            omega
          · show (((s.setCalls calls).close k).conns k).announced = true
            rw [hconns, if_pos rfl]
            exact (hs.standing k hconn).1
        · exact hsettled.kicks y (hkicks ▸ hy)
      · refine List.nodup_cons.mpr ⟨fun hmem => ?_, hs.once⟩
        obtain ⟨y, hy, hyk⟩ := List.mem_map.mp hmem
        replace hyk : y.conn = k := hyk
        have hnot := (hs.kicks y hy).2.1
        rw [hyk, hconn] at hnot
        cases hnot
  · next hconn =>
      exact hbut.closed (Bool.eq_false_iff.mpr hconn) hout

/-- Something becomes of one connection, and of its timer something will. -/
theorem Settled.setConn (hs : Settled e s) {k : Nat} {c : EchoConn}
    (hother : e ≠ none → e = some k)
    (hsole : ∀ {id : Nat} {due : Int}, s.calls.Outstanding id due k →
      c.timerId = id ∧ c.announced = true ∧ c.gone = false)
    (hown : c.timerId ≠ 0 → c.timerId = (s.conns k).timerId)
    (hstanding : c.connected = true → c.announced = true ∧ c.gone = false)
    (hreported : c.gone = true → c.announced = true)
    (hlate : k ∈ s.late → c.connected = false ∧ c.announced = true ∧
      c.gone = false)
    (hkicked : (s.conns k).connected = false →
      (s.conns k).announced = true → c.connected = false ∧
        c.announced = true) :
    Settled (some k) (s.setConn k c) := by
  have hconns : ∀ i, (s.setConn k c).conns i =
      if i = k then c else s.conns i := fun _ => rfl
  have hpick : ∀ {P : EchoConn → Prop} (i : Nat), (i = k → P c) →
      (i ≠ k → P (s.conns i)) → P ((s.setConn k c).conns i) := by
    intro P i hnew hold
    rw [hconns]
    split
    · next hi => exact hnew hi
    · next hi => exact hold hi
  have hsome : ∀ {i : Nat}, some k ≠ some i → i ≠ k ∧ e ≠ some i := by
    intro i hne
    refine ⟨fun hi => hne (congrArg some hi.symm), fun he => ?_⟩
    have hk := hother (by rw [he]; nofun)
    exact hne (hk.symm.trans he)
  refine ⟨⟨hs.timed.ok, hs.timed.ahead, fun {id due i} h => ?_, fun i => ?_⟩,
    fun {id due i} h hne => ?_, fun i hi hne => ?_, fun i => ?_, fun i => ?_,
    fun i hi => ?_, hs.noLate, fun x hx => ?_, hs.once⟩
  · refine hpick (P := fun c => c.timerId = id ∧ c.announced = true ∧
      c.gone = false) i ?_ fun _ => hs.timed.sole h
    rintro rfl
    exact hsole h
  · refine hpick (P := fun c => c.timerId ≠ 0 →
      s.calls.captured c.timerId = some i ∧
        c.timerId < s.calls.queue.nextId) i ?_ fun _ => hs.timed.own i
    rintro rfl hne
    have hsame := hown hne
    rw [hsame] at hne ⊢
    exact hs.timed.own i hne
  · rw [hconns, if_neg (hsome hne).1]
    exact hs.due h (hsome hne).2
  · rw [hconns, if_neg (hsome hne).1] at hi
    exact hs.watched i hi (hsome hne).2
  · exact hpick (P := fun c => c.connected = true → c.announced = true ∧
      c.gone = false) i (fun _ => hstanding) fun _ => hs.standing i
  · exact hpick (P := fun c => c.gone = true → c.announced = true) i
      (fun _ => hreported) fun _ => hs.reported i
  · refine hpick (P := fun c => c.connected = false ∧ c.announced = true ∧
      c.gone = false) i ?_ fun _ => hs.late i hi
    rintro rfl
    exact hlate hi
  · obtain ⟨hidle, hclosed, hann⟩ := hs.kicks x hx
    refine ⟨hidle, hpick (P := fun c => c.connected = false ∧
      c.announced = true) x.conn ?_ fun _ => ⟨hclosed, hann⟩⟩
    intro hk
    rw [hk] at hclosed hann
    exact hkicked hclosed hann

theorem setConn_setConn (s : EchoLoop) (k : Nat) (c c' : EchoConn) :
    (s.setConn k c).setConn k c' = s.setConn k c' := by
  simp only [EchoLoop.setConn, EchoLoop.mk.injEq, true_and, and_true]
  funext i
  split
  · rfl
  · rfl

@[simp] theorem setConn_conns (s : EchoLoop) (k : Nat) (c : EchoConn) :
    (s.setConn k c).conns k = c := if_pos rfl

/-- A connection is announced, and its timer set. -/
theorem Settled.established (hs : Settled none s)
    (hidle : s.calls.queue.pc = .idle) {k : Nat}
    (hann : (s.conns k).announced = false) :
    Settled none ((s.setConn k { s.conns k with
      announced := true
      connected := true
      last := s.calls.queue.now }).connectionCallback k) := by
  have hgone : (s.conns k).gone = false := by
    refine Bool.eq_false_iff.mpr fun hgone => ?_
    rw [hs.reported k hgone] at hann
    cases hann
  have hnot : ¬ (s.conns k).announced = true := Bool.eq_false_iff.mp hann
  simp only [connectionCallback, setConn_conns, if_true, setConn_setConn]
  refine Settled.armIdleTimer ?_ hidle (by rw [setConn_conns])
    (by rw [setConn_conns]; exact hgone) (by rw [setConn_conns]; rfl)
  refine hs.setConn nofun ?_ nofun (fun _ => ⟨rfl, hgone⟩) (fun _ => rfl) ?_ ?_
  · exact fun hout => absurd (hs.timed.sole hout).2.1 hnot
  · exact fun hlate => absurd (hs.late k hlate).2.1 hnot
  · exact fun _ h => absurd h hnot

/-- Data comes, which sets the timer anew. -/
theorem Settled.message (hs : Settled none s)
    (hidle : s.calls.queue.pc = .idle) (hevents : s.functors = false) {k : Nat}
    (hk : (s.conns k).connected = true ∨ k ∈ s.late) (fails : Bool) :
    Settled none ((s.setConn k { s.conns k with
      last := s.calls.queue.now }).messageCallback k fails) := by
  have hopen : (s.conns k).announced = true ∧ (s.conns k).gone = false := by
    rcases hk with hk | hk
    · exact hs.standing k hk
    · exact (hs.late k hk).2
  have htouched : Settled (some k) (s.setConn k { s.conns k with
      last := s.calls.queue.now }) :=
    hs.setConn nofun hs.timed.sole (fun _ => rfl) (hs.standing k)
      (hs.reported k) (hs.late k) (fun hclosed hann => ⟨hclosed, hann⟩)
  rw [messageCallback]
  split
  · have hclosed := htouched.close hevents k
    obtain ⟨hcalls, -, -, -, hconns⟩ := close_eq (s.setConn k { s.conns k with
      last := s.calls.queue.now }) k
    have hconn := hconns k
    rw [if_pos rfl, setConn_conns] at hconn
    refine hclosed.armIdleTimer ?_ ?_ ?_ ?_
    · rw [hcalls]
      exact hidle
    · rw [hconn]
      exact hopen.1
    · rw [hconn]
      exact hopen.2
    · rw [hconn, hcalls]
      rfl
  · refine htouched.armIdleTimer hidle ?_ ?_ ?_
    · rw [setConn_conns]
      exact hopen.1
    · rw [setConn_conns]
      exact hopen.2
    · rw [setConn_conns]
      rfl

/-- The disconnect is reported, and the timer cancelled. -/
theorem Settled.destroyed (hs : Settled none s)
    (hidle : s.calls.queue.pc = .idle) (hfunctors : s.functors = true) {k : Nat}
    (hann : (s.conns k).announced = true)
    (hconn : (s.conns k).connected = false) :
    Settled none
      ((s.setConn k { s.conns k with gone := true }).connectionCallback k) ∧
      ∀ {id : Nat} {due : Int}, ¬ ((s.setConn k { s.conns k with
        gone := true }).connectionCallback k).calls.Outstanding id due k := by
  have hd := hs.timed.disarmed hidle k
  have hout : ∀ {id : Nat} {due : Int}, ¬ (s.disarmed k).Outstanding id due k :=
    fun h => (hd.outstanding.mp h).2 rfl
  have hless : Settled none (s.setCalls (s.disarmed k)) := by
    refine ⟨hs.timed.calls hd.ok hd.ahead hd.captured hd.nextId
      fun h => (hd.outstanding.mp h).1, fun h => ?_, fun i hi hne => ?_,
      hs.standing, hs.reported, hs.late,
      fun h => ⟨(hs.noLate h).1, hd.pc.trans hidle⟩, hs.kicks, hs.once⟩
    · exact hs.due (hd.outstanding.mp h).1
    · obtain ⟨id, due, h⟩ := hs.watched i hi hne
      refine ⟨id, due, hd.outstanding.mpr ⟨h, ?_⟩⟩
      rintro rfl
      replace hi : (s.conns i).connected = true := hi
      rw [hconn] at hi
      cases hi
  have hfinal : ∀ c : EchoConn, c.connected = false → c.announced = true →
      (c.timerId ≠ 0 → c.timerId = (s.conns k).timerId) →
      Settled none ((s.setCalls (s.disarmed k)).setConn k c) := by
    intro c hclosed hann' hid
    refine (hless.setConn nofun (fun h => absurd h hout) hid ?_
      (fun _ => hann') ?_ (fun _ _ => ⟨hclosed, hann'⟩)).closed ?_ hout
    · intro h
      rw [hclosed] at h
      cases h
    · intro hlate
      have hnil : s.late = [] := (hs.noLate hfunctors).1
      replace hlate : k ∈ s.late := hlate
      rw [hnil] at hlate
      cases hlate
    · rw [setConn_conns]
      exact hclosed
  have hgo :
      (s.setConn k { s.conns k with gone := true }).connectionCallback k =
      (s.setCalls (s.disarmed k)).setConn k
        { s.conns k with gone := true, timerId := 0 } := by
    simp only [connectionCallback, setConn_conns, hconn, disarmed]
    split
    · cases ‹false = true›
    · split
      · rw [setConn_setConn]
        rfl
      · next hzero =>
          have hzero : (s.conns k).timerId = 0 := not_not.mp hzero
          rw [← hzero]
          rfl
  rw [hgo]
  exact ⟨hfinal _ hconn hann fun h => absurd rfl h, hout⟩

theorem settled_step {l : Label} (hs : Settled none s)
    (h : s.step l = some s') : Settled none s' := by
  cases step_stepped h with
  | turn l calls hturn _ hread => exact hs.turn hturn hread
  | fire k calls calls' hcall hturn =>
      exact (hs.idleTimeout hcall).turn hturn nofun
  | wait hidle hfunctors =>
      exact ⟨hs.timed.same rfl fun _ => ⟨rfl, rfl, rfl⟩, hs.due, hs.watched,
        hs.standing, hs.reported, hs.late, nofun, hs.kicks, hs.once⟩
  | dispatched hidle hevents =>
      exact ⟨hs.timed.same rfl fun _ => ⟨rfl, rfl, rfl⟩, hs.due, hs.watched,
        hs.standing, hs.reported, nofun, fun _ => ⟨rfl, hidle⟩, hs.kicks,
        hs.once⟩
  | established k hidle _ hann => exact hs.established hidle hann
  | message k fails hidle hevents hk => exact hs.message hidle hevents hk fails
  | close k hidle hevents hconn => exact hs.close hevents k
  | destroyed k hidle hfunctors hann hconn =>
      exact (hs.destroyed hidle hfunctors hann hconn).1

theorem settled_run {t : Uptime} {ls : List Label} {s : EchoLoop}
    (hrun : Machine.run step (new t) ls = some s) : Settled none s :=
  Machine.run_preserves settled_step (settled_new t) hrun

/-! ## Whole runs -/

/-- Two connections, one of which sends data after four seconds. The other is
closed after ten, and reported. -/
def tenSeconds : List Label :=
  [.established 0, .established 1, .wait, .turn (.clock 4000000000),
    .message 1 false, .dispatched, .turn (.clock 10000000000), .wait,
    .turn .read, .turn .collect, .fire, .turn .finish, .dispatched,
    .destroyed 0]

theorem tenSeconds_run : (Machine.run step (new 0) tenSeconds).any (fun s =>
    s.calls.queue.pc == .idle && (s.conns 1).connected &&
      s.calls.passed == 10000000000 &&
      s.calls.queue.timers.elems == [⟨14000000000, 3, true⟩] &&
      s.calls.captured 3 == some 1 &&
      s.kicks == [⟨0, 10000000000, 0⟩]) = true := by
  decide +kernel

/-- When a pass of `handle_read` is over, every connection that is left was new
or had its data answered within the ten seconds before the pass, and when the
loop thread waits, the timerfd will wake it by the moment at which that is
over. -/
theorem idle_bounded {t : Uptime} {ls : List Label} {s : EchoLoop}
    (hrun : Machine.run step (new t) ls = some s)
    (hrest : s.calls.queue.pc.rest = []) {k : Nat}
    (hk : (s.conns k).connected = true) :
    s.calls.passed < (s.conns k).last + idleNs ∧
      (s.calls.queue.pc = .idle →
        (∃ d, s.calls.queue.armed = some d ∧
          (d ≤ s.calls.queue.now + 1 ∨ d ≤ (s.conns k).last + idleNs + 1)) ∨
        s.calls.queue.unread = true) := by
  have hs := settled_run hrun
  obtain ⟨id, due, hout⟩ := hs.watched k hk nofun
  obtain rfl := hs.due hout nofun
  exact ⟨hs.timed.ahead.outstanding hrest hout,
    fun hidle => hs.timed.ok.wakes hidle hout⟩

theorem idle_bounded_tenSeconds :
    ∃ s, Machine.run step (new 0) tenSeconds = some s ∧
      s.calls.passed < (s.conns 1).last + idleNs ∧
      (s.calls.queue.pc = .idle →
        (∃ d, s.calls.queue.armed = some d ∧
          (d ≤ s.calls.queue.now + 1 ∨ d ≤ (s.conns 1).last + idleNs + 1)) ∨
        s.calls.queue.unread = true) := by
  obtain ⟨s, hrun, hs⟩ := (Option.any_eq_true _ _).mp tenSeconds_run
  simp only [Bool.and_eq_true, beq_iff_eq] at hs
  obtain ⟨⟨⟨⟨⟨hidle, hconn⟩, -⟩, -⟩, -⟩, -⟩ := hs
  exact ⟨s, hrun, idle_bounded hrun (by rw [hidle]; rfl) hconn⟩

/-- What a timer closes had sent nothing for ten seconds, and it closes no
connection twice. -/
theorem kicks_idle {t : Uptime} {ls : List Label} {s : EchoLoop}
    (hrun : Machine.run step (new t) ls = some s) :
    (∀ x ∈ s.kicks, x.last + idleNs ≤ x.now ∧
      (s.conns x.conn).connected = false) ∧
    (s.kicks.map Kick.conn).Nodup := by
  have hs := settled_run hrun
  exact ⟨fun x hx => ⟨(hs.kicks x hx).1, (hs.kicks x hx).2.1⟩, hs.once⟩

theorem kicks_idle_tenSeconds :
    ∃ s, Machine.run step (new 0) tenSeconds = some s ∧
      s.kicks = [⟨0, 10000000000, 0⟩] ∧
      (∀ x ∈ s.kicks, x.last + idleNs ≤ x.now ∧
        (s.conns x.conn).connected = false) ∧
      (s.kicks.map Kick.conn).Nodup := by
  obtain ⟨s, hrun, hs⟩ := (Option.any_eq_true _ _).mp tenSeconds_run
  simp only [Bool.and_eq_true, beq_iff_eq] at hs
  exact ⟨s, hrun, hs.2, kicks_idle hrun⟩

/-- At most one timer of a connection is outstanding, and none before it was
announced and after its disconnect was reported. -/
theorem timers_released {t : Uptime} {ls : List Label} {s : EchoLoop}
    (hrun : Machine.run step (new t) ls = some s) {id : Nat} {due : Int}
    {k : Nat} (hout : s.calls.Outstanding id due k) :
    (s.conns k).announced = true ∧ (s.conns k).gone = false ∧
      ∀ id' due', s.calls.Outstanding id' due' k → id' = id ∧ due' = due := by
  have hs := settled_run hrun
  obtain ⟨hid, hann, hgone⟩ := hs.timed.sole hout
  refine ⟨hann, hgone, fun id' due' hout' => ?_⟩
  refine ⟨(hs.timed.sole hout').1.symm.trans hid, ?_⟩
  rw [hs.due hout nofun, hs.due hout' nofun]

theorem timers_released_tenSeconds :
    ∃ s, Machine.run step (new 0) tenSeconds = some s ∧
      (s.conns 1).announced = true ∧ (s.conns 1).gone = false ∧
      ∀ id due, s.calls.Outstanding id due 1 → id = 3 ∧ due = 14000000000 := by
  obtain ⟨s, hrun, hs⟩ := (Option.any_eq_true _ _).mp tenSeconds_run
  simp only [Bool.and_eq_true, beq_iff_eq] at hs
  obtain ⟨⟨⟨⟨⟨-, -⟩, -⟩, helems⟩, htook⟩, -⟩ := hs
  have hmem : (⟨14000000000, 3, true⟩ : Entry) ∈ s.calls.queue.timers := by
    rw [OrderedSet.mem_def, helems]
    exact List.mem_singleton_self _
  exact ⟨s, hrun, timers_released hrun ⟨_, .inl hmem, rfl, rfl, htook⟩⟩

end GameFrame.EchoLoop
