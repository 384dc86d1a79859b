import GameFrame.Net.TimerQueue

/-!
# No timer is left without a wake-up

Two containers and one descriptor have to agree. The index maps an id to the
entry with that id and to no other, which is what lets `cancel` find an entry
by its id and be sure that it was the only one (`Indexed`). And between two
steps the timerfd is good for the earliest timer: it is set for a moment that
is not later, or it has expired and not been read (`Armed`).

Whoever changes the front of the set sets the timerfd anew, and who does not
change it leaves the timerfd alone. Inside `handle_read` the second half does
not hold, for the expiration has been read, and a timer its callbacks add
behind the front does not set anything. But the last thing `handle_read` does
is to set it.

What it is set for is the difference of two moments, in 64 bits. Where that
does not fit, a timer that was due long ago comes out as one of the far future
(`past_sleeps`). `TimeOk` says that it fits wherever the timerfd is set.
-/

namespace GameFrame.TimerQueue

open TimerSpec (Fits wrap64_fits)

/-- Each id maps to the entry with that id, and no other. -/
def Indexed (q : TimerQueue) : Prop :=
  ∀ id e, q.idToIter id = some e ↔ e ∈ q.timers ∧ e.id = id

/-- If there is a timer, the timerfd is set for a moment that is at most a
nanosecond later than the earliest expiration or now, or has expired. -/
def Armed (q : TimerQueue) : Prop :=
  ∀ b, q.timers.begin? = some b →
    (∃ d, q.armed = some d ∧ d ≤ max q.now b.expiration + 1) ∨ q.unread = true

/-- What is computed of times in this step is what it would be without a bound:
the expiration of `run_after`, and how long it is to the expiration that the
timerfd is set for. -/
def TimeOk (q : TimerQueue) : Label → Prop
  | .runAt expiration cb =>
      q.earliestChanged ⟨expiration, q.nextId, cb⟩ = true →
        Fits (expiration - q.now)
  | .runAfter delayMs _ =>
      Fits (delayMs * 1000000) ∧ Fits (q.now + delayMs * 1000000)
  | .cancel id => ∀ e ∈ q.idToIter id, q.timers.begin? = some e →
      ∀ b ∈ (q.timers.erase e).begin?, Fits (b.expiration - q.now)
  | .finish => ∀ b ∈ q.timers.begin?, Fits (b.expiration - q.now)
  | _ => True

instance (q : TimerQueue) : ∀ l, Decidable (TimeOk q l)
  | .runAt _ _ => inferInstanceAs (Decidable (_ → _))
  | .runAfter _ _ => inferInstanceAs (Decidable (_ ∧ _))
  | .cancel id => inferInstanceAs (Decidable (∀ e ∈ q.idToIter id,
      q.timers.begin? = some e →
        ∀ b ∈ (q.timers.erase e).begin?, Fits (b.expiration - q.now)))
  | .finish => inferInstanceAs (Decidable (∀ b ∈ q.timers.begin?,
      Fits (b.expiration - q.now)))
  | .clock _ | .read | .collect | .call | .return => .isTrue trivial

/-- A timer for the earliest moment there is. It is due, but the timerfd is set
for a moment that no clock of 64 bits comes to. -/
theorem past_sleeps :
    ¬ ∀ (t : Int) (ls : List Label) (q : TimerQueue),
      Machine.run step { now := t } ls = some q →
        q.Indexed ∧ (q.pc = .idle → q.Armed) := by
  intro hall
  have hany : (Machine.run step { now := 1 }
      [.runAt (-9223372036854775808) true]).any
      (fun q => q.pc == .idle && q.now == 1 && q.unread == false &&
        q.timers.begin? == some ⟨-9223372036854775808, 1, true⟩ &&
        q.armed == some 9223372036854775808) = true := by
    decide +kernel
  obtain ⟨q, hrun, hq⟩ := (Option.any_eq_true _ _).mp hany
  simp only [Bool.and_eq_true, beq_iff_eq] at hq
  obtain ⟨⟨⟨⟨hidle, hnow⟩, hunread⟩, hbegin⟩, harmed⟩ := hq
  rcases (hall _ _ q hrun).2 hidle _ hbegin with ⟨d, hd, hle⟩ | htrue
  · obtain rfl := Option.some.inj (harmed.symm.trans hd)
    rw [hnow] at hle
    exact absurd hle (by decide)
  · rw [hunread] at htrue
    cases htrue

theorem Indexed.sole {q : TimerQueue} (hq : q.Indexed) {x y : Entry}
    (hx : x ∈ q.timers) (hy : y ∈ q.timers) (hid : x.id = y.id) : x = y := by
  have hsome := (hq y.id x).mpr ⟨hx, hid⟩
  rw [(hq y.id y).mpr ⟨hy, rfl⟩] at hsome
  exact (Option.some.inj hsome).symm

/-! ## What the functions touch

All of them may set the timerfd, and set it for the earliest timer. -/

theorem resetToBegin_eq (q : TimerQueue) : ∃ armed unread,
    q.resetToBegin = { q with armed := armed, unread := unread } := by
  rw [resetToBegin]
  split
  · exact ⟨_, _, rfl⟩
  · exact ⟨_, _, rfl⟩

theorem addTimerInLoop_eq (q : TimerQueue) (e : Entry) : ∃ armed unread,
    q.addTimerInLoop e =
      { q with
        timers := q.timers.insert e
        idToIter := q.emplace e
        armed := armed
        unread := unread } := by
  rw [addTimerInLoop]
  split
  · exact resetToBegin_eq _
  · exact ⟨_, _, rfl⟩

theorem cancelInLoop_eq (q : TimerQueue) (id : Nat) :
    ∃ timers armed unread, q.cancelInLoop id =
      { q with
        timers := timers
        idToIter := fun i => if i = id then none else q.idToIter i
        armed := armed
        unread := unread } := by
  rw [cancelInLoop]
  split
  · next hnone =>
      have hsame : (fun i => if i = id then none else q.idToIter i) =
          q.idToIter := by
        funext i
        split
        · next hi => rw [hi, hnone]
        · rfl
      exact ⟨_, _, _, by rw [hsame]⟩
  · dsimp only
    split
    · obtain ⟨armed, unread, heq⟩ := resetToBegin_eq { q with
        timers := _
        idToIter := fun i => if i = id then none else q.idToIter i }
      exact ⟨_, armed, unread, heq⟩
    · exact ⟨_, _, _, rfl⟩

theorem resetToBegin_armed {q : TimerQueue}
    (hfits : ∀ b ∈ q.timers.begin?, Fits (b.expiration - q.now)) :
    q.resetToBegin.Armed := by
  intro b hb
  obtain ⟨armed, unread, heq⟩ := resetToBegin_eq q
  have hb' : q.timers.begin? = some b := by rwa [heq] at hb
  refine .inl ?_
  rw [resetToBegin, hb']
  refine ⟨_, rfl, ?_⟩
  show q.now + max (wrap64 (b.expiration - q.now)) 1 ≤
    max q.now b.expiration + 1
  rw [wrap64_fits (hfits b hb')]
  omega

/-! ## Adding, cancelling and the clock -/

theorem Indexed.addTimerInLoop {q : TimerQueue} (hq : q.Indexed) {e : Entry}
    (hfresh : ∀ x ∈ q.timers, x.id ≠ e.id) :
    (q.addTimerInLoop e).Indexed := by
  have hkey : ∀ x ∈ q.timers, x.key ≠ e.key := by
    intro x hx heq
    exact hfresh x hx (congrArg (fun k => (ofLex k).2) heq)
  obtain ⟨armed, unread, heq⟩ := addTimerInLoop_eq q e
  rw [heq]
  intro id x
  show q.emplace e id = some x ↔ x ∈ q.timers.insert e ∧ x.id = id
  rw [OrderedSet.mem_insert hkey, emplace]
  split
  · next hid =>
      have hnone : q.idToIter id = none := by
        cases hx : q.idToIter id with
        | none => rfl
        | some y =>
            obtain ⟨hy, hyid⟩ := (hq id y).mp hx
            exact absurd (hyid.trans hid) (hfresh y hy)
      rw [hnone, Option.none_or, Option.some.injEq]
      constructor
      · rintro rfl
        exact ⟨.inl rfl, hid.symm⟩
      · rintro ⟨rfl | hx, hxid⟩
        · rfl
        · exact absurd (hxid.trans hid) (hfresh x hx)
  · next hid =>
      rw [hq]
      constructor
      · rintro ⟨hx, hxid⟩
        exact ⟨.inr hx, hxid⟩
      · rintro ⟨rfl | hx, hxid⟩
        · exact absurd hxid.symm hid
        · exact ⟨hx, hxid⟩

theorem Armed.addTimerInLoop {q : TimerQueue} (hq : q.Armed) {e : Entry}
    (hfits : q.earliestChanged e = true → Fits (e.expiration - q.now)) :
    (q.addTimerInLoop e).Armed := by
  rw [TimerQueue.addTimerInLoop]
  split
  · next hchanged =>
      refine resetToBegin_armed fun b hb => ?_
      have hfront : (q.timers.insert e).begin? = some e := by
        refine OrderedSet.begin?_insert_front fun c hc => ?_
        rw [earliestChanged, hc] at hchanged
        exact of_decide_eq_true hchanged
      obtain rfl : e = b := Option.some.inj (hfront.symm.trans hb)
      exact hfits hchanged
  · next hchanged =>
      rw [earliestChanged] at hchanged
      cases hb : q.timers.begin? with
      | none => simp [hb] at hchanged
      | some b =>
          have hlt : ¬ e.key < b.key := by simpa [hb] using hchanged
          have hfront : (q.timers.insert e).begin? = some b :=
            OrderedSet.begin?_insert hb hlt
          intro c hc
          obtain rfl : b = c := Option.some.inj (hfront.symm.trans hc)
          exact hq b hb

/-- `cancel_in_loop` takes out the entry with this id, if there is one. -/
theorem Indexed.mem_cancelInLoop {q : TimerQueue} (hq : q.Indexed) {id : Nat}
    {x : Entry} : x ∈ (q.cancelInLoop id).timers ↔ x ∈ q.timers ∧ x.id ≠ id := by
  rw [TimerQueue.cancelInLoop]
  split
  · next hnone =>
      refine ⟨fun hx => ⟨hx, fun hid => ?_⟩, And.left⟩
      have hsome := (hq id x).mpr ⟨hx, hid⟩
      rw [hnone] at hsome
      cases hsome
  · next e he =>
      obtain ⟨hmem, hid⟩ := (hq id e).mp he
      have hiff : ∀ x ∈ q.timers, (x.key ≠ e.key ↔ x.id ≠ id) := by
        intro x hx
        refine not_congr ⟨fun hkey => ?_, fun hxid => ?_⟩
        · exact (congrArg (fun k => (ofLex k).2) hkey).trans hid
        · have hsome := (hq id x).mpr ⟨hx, hxid⟩
          rw [he] at hsome
          rw [Option.some.inj hsome]
      have herase : x ∈ q.timers.erase e ↔ x ∈ q.timers ∧ x.id ≠ id := by
        rw [OrderedSet.mem_erase]
        exact and_congr_right fun hx => hiff x hx
      dsimp only
      split
      · obtain ⟨armed, unread, heq⟩ := resetToBegin_eq { q with
          timers := q.timers.erase e
          idToIter := fun i => if i = id then none else q.idToIter i }
        rw [heq]
        exact herase
      · exact herase

theorem Indexed.cancelInLoop {q : TimerQueue} (hq : q.Indexed) (id : Nat) :
    (q.cancelInLoop id).Indexed := by
  intro i e
  have hindex : (q.cancelInLoop id).idToIter i =
      if i = id then none else q.idToIter i := by
    obtain ⟨timers, armed, unread, heq⟩ := cancelInLoop_eq q id
    rw [heq]
  rw [hindex, hq.mem_cancelInLoop]
  split
  · next hi =>
      refine ⟨nofun, fun h => ?_⟩
      exact absurd (h.2.trans hi) h.1.2
  · next hi =>
      rw [hq]
      constructor
      · rintro ⟨he, rfl⟩
        exact ⟨⟨he, hi⟩, rfl⟩
      · rintro ⟨⟨he, -⟩, rfl⟩
        exact ⟨he, rfl⟩

theorem Armed.cancelInLoop {q : TimerQueue} (hq : q.Armed) (hindex : q.Indexed)
    {id : Nat} (hok : q.TimeOk (.cancel id)) : (q.cancelInLoop id).Armed := by
  rw [TimerQueue.cancelInLoop]
  split
  · exact hq
  · next e he =>
      obtain ⟨hmem, hid⟩ := (hindex id e).mp he
      dsimp only
      split
      · next hfront => exact resetToBegin_armed (hok e he hfront)
      · next hfront =>
          -- Somebody else is in front, and stays there.
          intro c hc
          obtain ⟨b, hb⟩ : ∃ b, q.timers.begin? = some b := by
            refine Option.ne_none_iff_exists'.mp fun hnone => ?_
            rw [OrderedSet.begin?, List.head?_eq_none_iff] at hnone
            rw [OrderedSet.mem_def, hnone] at hmem
            cases hmem
          have hne : b.key ≠ e.key := by
            intro hkey
            have hbid : b.id = id :=
              (congrArg (fun k => (ofLex k).2) hkey).trans hid
            have hsome := (hindex id b).mpr ⟨OrderedSet.mem_of_begin? hb, hbid⟩
            rw [he] at hsome
            exact hfront (by rw [hb, Option.some.inj hsome])
          have hstays := OrderedSet.begin?_erase hb hne
          obtain rfl : b = c := Option.some.inj (hstays.symm.trans hc)
          exact hq b hb

theorem Armed.clock {q : TimerQueue} (hq : q.Armed) {t : Int}
    (hle : q.now ≤ t) : (q.clock t).Armed := by
  intro b hb
  rcases hq b hb with ⟨d, hd, hle'⟩ | hunread
  · by_cases hexp : d ≤ t
    · refine .inr ?_
      simp [TimerQueue.clock, hd, hexp]
    · refine .inl ⟨d, ?_, ?_⟩
      · simp [TimerQueue.clock, hd, hexp]
      · show d ≤ max t b.expiration + 1
        omega
  · refine .inr ?_
    simp [TimerQueue.clock, hunread]

/-! ## `handle_read` -/

theorem foldl_erase {l : List Entry} : ∀ {m : Nat → Option Entry} {i : Nat},
    l.foldl (fun m e i => if i = e.id then none else m i) m i =
      if ∃ e ∈ l, e.id = i then none else m i := by
  induction l with
  | nil => intro m i; simp
  | cons e l ih =>
      intro m i
      rw [List.foldl_cons, ih]
      by_cases hi : i = e.id
      · simp [hi]
      · simp [hi, Ne.symm hi]

theorem Indexed.collect {q : TimerQueue} (hq : q.Indexed) :
    q.collect.Indexed := by
  intro id e
  have hmem : ∀ {x : Entry}, x ∈ (q.timers.popWhile _).1 ∨
      x ∈ (q.timers.popWhile fun e => e.expiration ≤ q.now).2 ↔
        x ∈ q.timers := OrderedSet.mem_popWhile
  show (q.timers.popWhile _).1.foldl _ q.idToIter id = some e ↔
    e ∈ (q.timers.popWhile _).2 ∧ e.id = id
  rw [foldl_erase]
  split
  · next hex =>
      obtain ⟨x, hx, rfl⟩ := hex
      refine ⟨nofun, fun ⟨he, hid⟩ => ?_⟩
      obtain rfl := hq.sole (hmem.mp (.inr he)) (hmem.mp (.inl hx)) hid
      exact absurd (OrderedSet.key_lt_of_popWhile hx he) (lt_irrefl _)
  · next hnot =>
      rw [hq, ← hmem]
      constructor
      · rintro ⟨he | he, rfl⟩
        · exact absurd ⟨e, he, rfl⟩ hnot
        · exact ⟨he, rfl⟩
      · rintro ⟨he, rfl⟩
        exact ⟨.inr he, rfl⟩

/-! ## The step -/

structure Inv (q : TimerQueue) : Prop where
  indexed : q.Indexed
  idsLt : ∀ e ∈ q.timers, e.id < q.nextId

theorem inv_init (t : Int) : Inv { now := t } where
  indexed := fun id e => by simp
  idsLt := fun e he => absurd he (OrderedSet.not_mem_empty e)

/-- A timer is added, under an id that no timer has. -/
theorem Inv.addTimerInLoop {q : TimerQueue} (hq : q.Inv) {e : Entry}
    (hfresh : ∀ x ∈ q.timers, x.id ≠ e.id) (hlt : e.id < q.nextId) :
    (q.addTimerInLoop e).Inv := by
  refine ⟨hq.indexed.addTimerInLoop hfresh, fun x hx => ?_⟩
  obtain ⟨armed, unread, heq⟩ := addTimerInLoop_eq q e
  rw [heq] at hx ⊢
  rcases OrderedSet.mem_of_mem_insertElems hx with rfl | hx
  · exact hlt
  · exact hq.idsLt x hx

theorem Inv.runAt {q : TimerQueue} (hq : q.Inv) (expiration : Int)
    (cb : Bool) : (q.runAt expiration cb).Inv := by
  have hnext : { q with nextId := q.nextId + 1 }.Inv :=
    ⟨hq.indexed, fun e he => Nat.lt_succ_of_lt (hq.idsLt e he)⟩
  refine hnext.addTimerInLoop (fun x hx => ?_) (Nat.lt_succ_self _)
  exact Nat.ne_of_lt (hq.idsLt x hx)

theorem Inv.cancelInLoop {q : TimerQueue} (hq : q.Inv) (id : Nat) :
    (q.cancelInLoop id).Inv := by
  obtain ⟨timers, armed, unread, heq⟩ := cancelInLoop_eq q id
  refine ⟨hq.indexed.cancelInLoop id, fun x hx => ?_⟩
  have hlt := hq.idsLt x (hq.indexed.mem_cancelInLoop.mp hx).1
  rw [heq]
  exact hlt

theorem inv_step {q q' : TimerQueue} {l : Label} (hq : q.Inv)
    (h : q.step l = some q') : q'.Inv := by
  cases step_stepped h with
  | clock t hle => exact ⟨hq.indexed, hq.idsLt⟩
  | runAt expiration cb => exact hq.runAt expiration cb
  | runAfter delayMs cb => exact hq.runAt _ cb
  | cancel id =>
      have hcancel := hq.cancelInLoop id
      exact ⟨hcancel.indexed, hcancel.idsLt⟩
  | read | call | callNothing | returned => exact ⟨hq.indexed, hq.idsLt⟩
  | collect =>
      refine ⟨hq.indexed.collect, fun e he => ?_⟩
      exact hq.idsLt e (OrderedSet.mem_popWhile.mp (.inr he))
  | finish =>
      obtain ⟨armed, unread, heq⟩ := resetToBegin_eq { q with pc := .idle }
      rw [heq]
      exact ⟨hq.indexed, hq.idsLt⟩

/-- Outside of `handle_read` the timerfd is good for the earliest timer. -/
def Awake (q : TimerQueue) : Prop := q.pc = .idle → q.Armed

theorem awake_init (t : Int) : Awake { now := t } := fun _ b hb => by cases hb

theorem Awake.runAt {q : TimerQueue} (hq : q.Awake) {expiration : Int}
    {cb : Bool} (hok : q.TimeOk (.runAt expiration cb)) :
    (q.runAt expiration cb).Awake := by
  intro hpc
  obtain ⟨armed, unread, heq⟩ := addTimerInLoop_eq
    { q with nextId := q.nextId + 1 } ⟨expiration, q.nextId, cb⟩
  rw [TimerQueue.runAt, heq] at hpc
  have hnext : { q with nextId := q.nextId + 1 }.Armed := hq hpc
  exact hnext.addTimerInLoop hok

/-- The timerfd is left alone, or set for a moment that is near enough. -/
theorem awake_step {q q' : TimerQueue} {l : Label} (hinv : q.Inv)
    (hq : q.Awake) (hok : q.TimeOk l) (h : q.step l = some q') : q'.Awake := by
  cases step_stepped h with
  | clock t hle => exact fun hpc => (hq hpc).clock hle
  | runAt expiration cb => exact hq.runAt hok
  | runAfter delayMs cb =>
      obtain ⟨hns, hsum⟩ := hok
      rw [TimerQueue.runAfter, wrap64_fits hns, wrap64_fits hsum]
      refine hq.runAt fun _ => ?_
      have hdelay : q.now + delayMs * 1000000 - q.now = delayMs * 1000000 := by
        omega
      rwa [hdelay]
  | cancel id =>
      intro hpc
      obtain ⟨timers, armed, unread, heq⟩ := cancelInLoop_eq q id
      have hidle : (q.cancelInLoop id).pc = .idle := hpc
      rw [heq] at hidle
      exact (hq hidle).cancelInLoop hinv.indexed hok
  | read | collect | call | callNothing | returned => exact nofun
  | finish => exact fun _ => resetToBegin_armed hok

/-- In every run the index is right, and outside of `handle_read` no timer is
left without a wake-up, if the times are such that the differences fit. -/
theorem timers_wake {t : Int} {ls : List Label} {q : TimerQueue}
    (hok : Machine.Meets step TimeOk { now := t } ls)
    (hrun : Machine.run step { now := t } ls = some q) :
    q.Indexed ∧ (q.pc = .idle → q.Armed) := by
  have hstep : ∀ {q l q'}, Inv q ∧ Awake q → TimeOk q l →
      step q l = some q' → Inv q' ∧ Awake q' := fun hq hok h =>
    ⟨inv_step hq.1 h, awake_step hq.1 hq.2 hok h⟩
  obtain ⟨hinv, hawake⟩ := Machine.run_preserves_of_meets hstep
    ⟨inv_init t, awake_init t⟩ hok hrun
  exact ⟨hinv.indexed, hawake⟩

/-- Three timers. One is cancelled from the callback of another, which adds a
fourth that is due already. -/
theorem timers_wake_nested :
    ∃ q : TimerQueue, Machine.run step { now := 7 }
        [.runAt 20 true, .runAt 10 true, .runAfter 1 true, .clock 12, .read,
          .collect, .call, .cancel 1, .runAt 5 true, .return, .finish] =
          some q ∧
      q.timers.elems = [⟨5, 4, true⟩, ⟨1000007, 3, true⟩] ∧
      q.armed = some 13 ∧ q.Indexed ∧ (q.pc = .idle → q.Armed) := by
  have hany : (Machine.run step { now := 7 }
      [.runAt 20 true, .runAt 10 true, .runAfter 1 true, .clock 12, .read,
        .collect, .call, .cancel 1, .runAt 5 true, .return, .finish]).any
      (fun q => q.timers.elems == [⟨5, 4, true⟩, ⟨1000007, 3, true⟩] &&
        q.armed == some 13) = true := by
    decide +kernel
  obtain ⟨q, hrun, hq⟩ := (Option.any_eq_true _ _).mp hany
  obtain ⟨helems, harmed⟩ := Bool.and_eq_true_iff.mp hq
  exact ⟨q, hrun, by simpa using helems, by simpa using harmed,
    timers_wake (by decide +kernel) hrun⟩

end GameFrame.TimerQueue
