import GameFrame.Proofs.TimerPasses

/-!
# Timers and what their callbacks captured

Of a callback the `TimerQueue` records that it was called, and by which id. A
program that uses timers goes by what the callback of an id has captured: the
connection that is to be closed, or the file that is to be flushed. Here that
is recorded beside the queue, and what is left of a queue, for such a program,
is which calls are `Outstanding`: under which id, for which moment, with what.

`run_after` adds one under an id that no other has, `cancel` takes one off, and
so does the call. Nothing else changes them. What is called is due, and when a
pass is over nothing is left that was due by its clock (`Ahead`).

The clock is a steady one, whose nanoseconds are counted from when the machine
was started (`Uptime`), and the delays of these programs are seconds. So there
is room for all that is computed of times, and the timerfd is always good for
the earliest timer.
-/

namespace GameFrame

/-- What the steady clock says within 146 years. -/
abbrev Uptime : Type := Fin 4611686018427387904

/-- A queue that is watched, and what its callbacks have captured. -/
structure TimerCalls (κ : Type _) where
  timers : TimerQueue.Watched
  captured : Nat → Option κ := fun _ => none

namespace TimerCalls

open TimerQueue (Once Passing watch callsOut Awake)
open TimerSpec (Fits wrap64_fits)

variable {κ : Type _}

/-- No timer yet. The last pass is one of this moment, with nothing in it. -/
def new (t : Uptime) : TimerCalls κ where
  timers := { queue := { now := t.val }, pass := { clock := t.val } }

def queue (c : TimerCalls κ) : TimerQueue := c.timers.queue

/-- What the last `handle_read` read from the clock. -/
def passed (c : TimerCalls κ) : Int := c.timers.pass.clock

/-- `run_after(delay_ms, cb)`, which returns `next_id_`. -/
def runAfter (c : TimerCalls κ) (delayMs : Int) (k : κ) : TimerCalls κ where
  timers := ⟨c.queue.runAfter delayMs true,
    c.timers.pass.after c.queue (.runAfter delayMs true)⟩
  captured := fun i => if i = c.queue.nextId then some k else c.captured i

def cancel (c : TimerCalls κ) (id : Nat) : TimerCalls κ :=
  { c with timers := ⟨c.queue.cancel id, c.timers.pass⟩ }

/-- What the queue does without the program. -/
inductive Turn where
  | clock (t : Uptime)
  | read
  | collect
  | return
  | finish
  deriving DecidableEq, Repr

def Turn.label : Turn → TimerQueue.Label
  | .clock t => .clock t.val
  | .read => .read
  | .collect => .collect
  | .return => .return
  | .finish => .finish

def turn (c : TimerCalls κ) (l : Turn) : Option (TimerCalls κ) :=
  (watch c.timers l.label).map fun w => { c with timers := w }

/-- The next callback of the batch is called, with what it has captured. -/
def call (c : TimerCalls κ) : Option (κ × TimerCalls κ) :=
  match c.queue.pc with
  | .batch (e :: _) => do
      let w ← watch c.timers .call
      let k ← c.captured e.id
      some (k, { c with timers := w })
  | _ => none

/-- A timer that is in the set or in the batch. -/
def Live (c : TimerCalls κ) (e : Entry) : Prop :=
  e ∈ c.queue.timers ∨ e ∈ c.queue.pc.rest

/-- The callback of this id is still to be called, for that moment. -/
def Outstanding (c : TimerCalls κ) (id : Nat) (due : Int) (k : κ) : Prop :=
  ∃ e, c.Live e ∧ e.id = id ∧ e.expiration = due ∧ c.captured id = some k

/-- A delay for which there is room behind any reading of the clock. -/
def Soon (delayMs : Int) : Prop :=
  0 ≤ delayMs ∧ delayMs * 1000000 < 4611686018427387904

instance (delayMs : Int) : Decidable (Soon delayMs) :=
  inferInstanceAs (Decidable (_ ∧ _))

structure Ok (c : TimerCalls κ) : Prop where
  passing : Passing c.timers
  awake : Awake c.queue
  up : 0 ≤ c.queue.now ∧ c.queue.now < 4611686018427387904
  room : ∀ e ∈ c.queue.timers,
    0 ≤ e.expiration ∧ e.expiration ≤ 9223372036854775807
  clock : c.passed ≤ c.queue.now
  first : 0 < c.queue.nextId
  called : ∀ e, c.Live e →
    e.cb = true ∧ 0 < e.id ∧ (c.captured e.id).isSome = true

/-- Nothing in the set was due by the clock of the last pass. -/
def Ahead (c : TimerCalls κ) : Prop :=
  ∀ e ∈ c.queue.timers, c.passed < e.expiration

variable {c c' : TimerCalls κ}

theorem new_ok (t : Uptime) : (new t : TimerCalls κ).Ok where
  awake := TimerQueue.awake_init _
  up := by
    have hlt := t.isLt
    show 0 ≤ (t.val : Int) ∧ (t.val : Int) < 4611686018427387904
    omega
  room := fun e he => absurd he (OrderedSet.not_mem_empty e)
  passing :=
    { once := TimerQueue.once_init _
      calls := List.nil_suffix
      all := rfl
      onTime := nofun
      ordered := .nil
      dueLt := nofun
      notAdded := nofun }
  clock := Int.le_refl _
  first := Nat.one_pos
  called := by
    rintro e (he | he)
    · exact absurd he (OrderedSet.not_mem_empty e)
    · cases he

theorem new_ahead (t : Uptime) : (new t : TimerCalls κ).Ahead := fun e he =>
  absurd he (OrderedSet.not_mem_empty e)

theorem not_outstanding_new {t : Uptime} {id : Nat} {due : Int} {k : κ} :
    ¬ (new t : TimerCalls κ).Outstanding id due k := by
  rintro ⟨e, -, -, -, hk⟩
  cases hk

theorem Outstanding.captured {id : Nat} {due : Int} {k : κ}
    (h : c.Outstanding id due k) : c.captured id = some k := by
  obtain ⟨e, -, -, -, hk⟩ := h
  exact hk

theorem Ok.live_lt (hc : c.Ok) {e : Entry} (he : c.Live e) :
    e.id < c.queue.nextId := by
  rcases he with he | he
  · exact hc.passing.once.inv.idsLt e he
  · exact hc.passing.once.restLt e he

theorem Ok.fits (hc : c.Ok) {e : Entry} (he : e ∈ c.queue.timers) :
    Fits (e.expiration - c.queue.now) := by
  obtain ⟨hlow, hhigh⟩ := hc.up
  obtain ⟨hpos, hle⟩ := hc.room e he
  constructor
  · omega
  · omega

/-- No timer has the id that stands for none. -/
theorem Ok.outstanding_pos (hc : c.Ok) {id : Nat} {due : Int} {k : κ}
    (h : c.Outstanding id due k) : 0 < id := by
  obtain ⟨e, he, rfl, -, -⟩ := h
  exact (hc.called e he).2.1

/-- What is in the batch was due. -/
theorem Ok.rest_due (hc : c.Ok) {e : Entry} (he : e ∈ c.queue.pc.rest) :
    e.expiration ≤ c.passed := by
  have hcb := (hc.called e (.inr he)).1
  have hall := hc.passing.all
  have hmem : e ∈ c.timers.pass.ran ++ c.queue.pc.rest.filter (·.cb) :=
    List.mem_append_right _ (List.mem_filter.mpr ⟨he, hcb⟩)
  have hdue : e ∈ c.timers.pass.due.filter (·.cb) := hall ▸ hmem
  exact hc.passing.onTime e (List.mem_filter.mp hdue).1

/-- Between passes everything that is outstanding is still to come. -/
theorem Ahead.outstanding (hc : c.Ahead) (hrest : c.queue.pc.rest = [])
    {id : Nat} {due : Int} {k : κ} (h : c.Outstanding id due k) :
    c.passed < due := by
  obtain ⟨e, he | he, -, rfl, -⟩ := h
  · exact hc e he
  · rw [hrest] at he
    cases he

/-- And the timerfd will expire for it in time, or has. -/
theorem Ok.wakes (hc : c.Ok) (hpc : c.queue.pc = .idle) {id : Nat} {due : Int}
    {k : κ} (h : c.Outstanding id due k) :
    (∃ d, c.queue.armed = some d ∧ (d ≤ c.queue.now + 1 ∨ d ≤ due + 1)) ∨
      c.queue.unread = true := by
  obtain ⟨e, he | he, -, rfl, -⟩ := h
  · obtain ⟨b, hb⟩ := OrderedSet.exists_begin? he
    have hle : b.expiration ≤ e.expiration := by
      have hkey := OrderedSet.begin?_le hb he
      rcases Prod.Lex.toLex_le_toLex.mp hkey with hlt | ⟨heq, -⟩
      · exact Int.le_of_lt hlt
      · exact Int.le_of_eq heq
    rcases hc.awake hpc b hb with ⟨d, hd, hle'⟩ | hunread
    · refine .inl ⟨d, hd, ?_⟩
      replace hle' : d ≤ max c.queue.now b.expiration + 1 := hle'
      omega
    · exact .inr hunread
  · rw [hpc] at he
    cases he

/-! ## `run_after` -/

theorem runAfter_passed (c : TimerCalls κ) (delayMs : Int) (k : κ) :
    (c.runAfter delayMs k).passed = c.passed := rfl

/-- There is room for the expiration. -/
theorem Ok.soon (hc : c.Ok) {delayMs : Int} (hd : Soon delayMs) :
    Fits (delayMs * 1000000) ∧ Fits (c.queue.now + delayMs * 1000000) := by
  obtain ⟨hlow, hhigh⟩ := hc.up
  obtain ⟨hpos, hlt⟩ := hd
  refine ⟨⟨?_, ?_⟩, ?_, ?_⟩
  · omega
  · omega
  · omega
  · omega

theorem Ok.runAfter_queue (hc : c.Ok) {delayMs : Int} (hd : Soon delayMs)
    (k : κ) : (c.runAfter delayMs k).queue =
      c.queue.runAt (c.queue.now + delayMs * 1000000) true := by
  obtain ⟨hns, hsum⟩ := hc.soon hd
  show c.queue.runAfter delayMs true = _
  rw [TimerQueue.runAfter, wrap64_fits hns, wrap64_fits hsum]

/-- The queue behind `run_after`. -/
theorem runAfter_fields (c : TimerCalls κ) (delayMs : Int) (k : κ) :
    (c.runAfter delayMs k).queue.now = c.queue.now ∧
      (c.runAfter delayMs k).queue.nextId = c.queue.nextId + 1 ∧
      (c.runAfter delayMs k).queue.pc = c.queue.pc := by
  show (c.queue.runAfter delayMs true).now = _ ∧
    (c.queue.runAfter delayMs true).nextId = _ ∧
    (c.queue.runAfter delayMs true).pc = _
  obtain ⟨armed, unread, heq⟩ := TimerQueue.addTimerInLoop_eq
    { c.queue with nextId := c.queue.nextId + 1 } ⟨_, c.queue.nextId, true⟩
  rw [TimerQueue.runAfter, TimerQueue.runAt, heq]
  exact ⟨rfl, rfl, rfl⟩

theorem Ok.runAfter_timers (hc : c.Ok) {delayMs : Int} (hd : Soon delayMs)
    (k : κ) : (c.runAfter delayMs k).queue.timers = c.queue.timers.insert
      ⟨c.queue.now + delayMs * 1000000, c.queue.nextId, true⟩ := by
  obtain ⟨armed, unread, heq⟩ := TimerQueue.addTimerInLoop_eq
    { c.queue with nextId := c.queue.nextId + 1 }
    ⟨c.queue.now + delayMs * 1000000, c.queue.nextId, true⟩
  rw [hc.runAfter_queue hd, TimerQueue.runAt, heq]

theorem Ok.live_runAfter (hc : c.Ok) {delayMs : Int} (hd : Soon delayMs)
    {k : κ} {e : Entry} : (c.runAfter delayMs k).Live e ↔
      e = ⟨c.queue.now + delayMs * 1000000, c.queue.nextId, true⟩ ∨
        c.Live e := by
  have hpc := (runAfter_fields c delayMs k).2.2
  have hnew : ∀ b ∈ c.queue.timers, b.key ≠
      Entry.key ⟨c.queue.now + delayMs * 1000000, c.queue.nextId, true⟩ := by
    intro b hb hkey
    have hid : b.id = c.queue.nextId :=
      congrArg (fun x : Int ×ₗ Nat => (ofLex x).2) hkey
    have hlt := hc.live_lt (.inl hb)
    omega
  rw [Live, hc.runAfter_timers hd, hpc, OrderedSet.mem_insert hnew, or_assoc]
  exact Iff.rfl

/-- One more is outstanding, under an id that none had. -/
theorem Ok.outstanding_runAfter (hc : c.Ok) {delayMs : Int}
    (hd : Soon delayMs) {k k' : κ} {id : Nat} {due : Int} :
    (c.runAfter delayMs k).Outstanding id due k' ↔
      id = c.queue.nextId ∧ due = c.queue.now + delayMs * 1000000 ∧ k' = k ∨
        c.Outstanding id due k' := by
  constructor
  · rintro ⟨e, he, rfl, rfl, hk⟩
    replace hk : (if e.id = c.queue.nextId then some k else
      c.captured e.id) = some k' := hk
    rcases (hc.live_runAfter hd).mp he with rfl | he
    · rw [if_pos rfl, Option.some.injEq] at hk
      exact .inl ⟨rfl, rfl, hk.symm⟩
    · have hlt := hc.live_lt he
      rw [if_neg (by omega)] at hk
      exact .inr ⟨e, he, rfl, rfl, hk⟩
  · rintro (⟨rfl, rfl, rfl⟩ | ⟨e, he, rfl, rfl, hk⟩)
    · exact ⟨_, (hc.live_runAfter hd).mpr (.inl rfl), rfl, rfl, if_pos rfl⟩
    · have hlt := hc.live_lt he
      refine ⟨e, (hc.live_runAfter hd).mpr (.inr he), rfl, rfl, ?_⟩
      exact (if_neg (by omega)).trans hk

theorem Ok.runAfter (hc : c.Ok) (hpc : callsOut c.queue.pc = true)
    {delayMs : Int} (hd : Soon delayMs) (k : κ) :
    (c.runAfter delayMs k).Ok where
  passing := by
    refine TimerQueue.passing_step (l := .runAfter delayMs true) hc.passing ?_
    have hstep : c.timers.queue.step (.runAfter delayMs true) =
        some (c.queue.runAfter delayMs true) := if_pos hpc
    rw [watch, hstep]
    rfl
  awake := TimerQueue.awake_step (l := .runAfter delayMs true)
    hc.passing.once.inv hc.awake (hc.soon hd) (if_pos hpc)
  up := by
    rw [(runAfter_fields c delayMs k).1]
    exact hc.up
  room := by
    intro e he
    rw [hc.runAfter_timers hd] at he
    rcases OrderedSet.mem_of_mem_insertElems he with rfl | he
    · obtain ⟨hlow, hhigh⟩ := hc.up
      obtain ⟨hpos, hlt⟩ := hd
      show 0 ≤ c.queue.now + delayMs * 1000000 ∧
        c.queue.now + delayMs * 1000000 ≤ 9223372036854775807
      omega
    · exact hc.room e he
  clock := by
    rw [(runAfter_fields c delayMs k).1]
    exact hc.clock
  first := by
    rw [(runAfter_fields c delayMs k).2.1]
    exact Nat.succ_pos _
  called := by
    intro e he
    show e.cb = true ∧ 0 < e.id ∧ (if e.id = c.queue.nextId then some k else
      c.captured e.id).isSome = true
    rcases (hc.live_runAfter hd).mp he with rfl | he
    · exact ⟨rfl, hc.first, by rw [if_pos rfl]; rfl⟩
    · obtain ⟨hcb, hpos, hsome⟩ := hc.called e he
      refine ⟨hcb, hpos, ?_⟩
      split
      · rfl
      · exact hsome

theorem Ahead.runAfter (hc : c.Ahead) (hok : c.Ok) {delayMs : Int}
    (hd : Soon delayMs) (hpos : 0 < delayMs) (k : κ) :
    (c.runAfter delayMs k).Ahead := by
  intro e he
  rw [hok.runAfter_timers hd] at he
  rw [runAfter_passed]
  rcases OrderedSet.mem_of_mem_insertElems he with rfl | he
  · have hclock := hok.clock
    show c.passed < c.queue.now + delayMs * 1000000
    omega
  · exact hc e he

/-! ## `cancel` -/

theorem cancel_fields (c : TimerCalls κ) (id : Nat) :
    (c.cancel id).queue.now = c.queue.now ∧
      (c.cancel id).queue.nextId = c.queue.nextId ∧
      (c.cancel id).queue.pc = c.queue.pc ∧
      (c.cancel id).queue.timers = (c.queue.cancelInLoop id).timers := by
  obtain ⟨timers, armed, unread, heq⟩ :=
    TimerQueue.cancelInLoop_eq c.queue id
  show (c.queue.cancel id).now = _ ∧ (c.queue.cancel id).nextId = _ ∧
    (c.queue.cancel id).pc = _ ∧ (c.queue.cancel id).timers = _
  rw [TimerQueue.cancel, heq]
  exact ⟨rfl, rfl, rfl, rfl⟩

theorem Ok.mem_cancel (hc : c.Ok) {id : Nat} {e : Entry} :
    e ∈ (c.cancel id).queue.timers ↔ e ∈ c.queue.timers ∧ e.id ≠ id := by
  rw [(cancel_fields c id).2.2.2]
  exact hc.passing.once.inv.indexed.mem_cancelInLoop

/-- Between passes `cancel` takes off what is outstanding under the id. -/
theorem Ok.outstanding_cancel (hc : c.Ok) (hrest : c.queue.pc.rest = [])
    {i id : Nat} {due : Int} {k : κ} :
    (c.cancel i).Outstanding id due k ↔ c.Outstanding id due k ∧ id ≠ i := by
  have hpc := (cancel_fields c i).2.2.1
  constructor
  · rintro ⟨e, he | he, rfl, rfl, hk⟩
    · obtain ⟨he, hne⟩ := hc.mem_cancel.mp he
      exact ⟨⟨e, .inl he, rfl, rfl, hk⟩, hne⟩
    · rw [hpc, hrest] at he
      cases he
  · rintro ⟨⟨e, he | he, rfl, rfl, hk⟩, hne⟩
    · exact ⟨e, .inl (hc.mem_cancel.mpr ⟨he, hne⟩), rfl, rfl, hk⟩
    · rw [hrest] at he
      cases he

theorem Ok.cancel (hc : c.Ok) (hpc : callsOut c.queue.pc = true) (id : Nat) :
    (c.cancel id).Ok where
  passing := by
    refine TimerQueue.passing_step (l := .cancel id) hc.passing ?_
    have hstep : c.timers.queue.step (.cancel id) =
        some (c.queue.cancel id) := if_pos hpc
    rw [watch, hstep]
    rfl
  awake := by
    refine TimerQueue.awake_step (l := .cancel id) hc.passing.once.inv hc.awake
      ?_ (if_pos hpc)
    intro e _ _ b hb
    exact hc.fits (OrderedSet.mem_erase.mp (OrderedSet.mem_of_begin? hb)).1
  up := by
    rw [(cancel_fields c id).1]
    exact hc.up
  room := fun e he => hc.room e (hc.mem_cancel.mp he).1
  clock := by
    rw [(cancel_fields c id).1]
    exact hc.clock
  first := by
    rw [(cancel_fields c id).2.1]
    exact hc.first
  called := by
    rintro e (he | he)
    · exact hc.called e (.inl (hc.mem_cancel.mp he).1)
    · rw [(cancel_fields c id).2.2.1] at he
      exact hc.called e (.inr he)

theorem Ahead.cancel (hc : c.Ahead) (hok : c.Ok) (id : Nat) :
    (c.cancel id).Ahead := fun e he => hc e (hok.mem_cancel.mp he).1

/-! ## The turns of the queue -/

theorem turn_spec {l : Turn} (h : c.turn l = some c') :
    watch c.timers l.label = some c'.timers ∧
      TimerQueue.Stepped c.queue l.label c'.queue ∧
      c'.captured = c.captured := by
  obtain ⟨w, hw, rfl⟩ := Option.map_eq_some_iff.mp h
  refine ⟨hw, ?_, rfl⟩
  obtain ⟨q, hq, rfl⟩ := Option.map_eq_some_iff.mp hw
  exact TimerQueue.step_stepped hq

/-- Timers go from the set into the batch, and no others come. -/
theorem live_turn {l : Turn} (h : c.turn l = some c') (e : Entry) :
    c'.Live e ↔ c.Live e := by
  obtain ⟨-, hstep, -⟩ := turn_spec h
  rw [Live, Live]
  cases l with
  | clock t =>
      generalize c'.queue = q' at hstep ⊢
      cases hstep with
      | clock _ hle => exact Iff.rfl
  | read =>
      generalize c'.queue = q' at hstep ⊢
      cases hstep with
      | read hpc =>
          rw [hpc]
          exact Iff.rfl
  | collect =>
      generalize c'.queue = q' at hstep ⊢
      cases hstep with
      | collect hpc =>
          rw [hpc]
          refine or_comm.trans (OrderedSet.mem_popWhile.trans ?_)
          exact (or_iff_left List.not_mem_nil).symm
  | «return» =>
      generalize c'.queue = q' at hstep ⊢
      cases hstep with
      | returned rest hpc =>
          rw [hpc]
          exact Iff.rfl
  | finish =>
      generalize c'.queue = q' at hstep ⊢
      cases hstep with
      | finish hpc =>
          obtain ⟨armed, unread, heq⟩ :=
            TimerQueue.resetToBegin_eq { c.queue with pc := .idle }
          rw [heq, hpc]
          exact Iff.rfl

theorem outstanding_turn {l : Turn} (h : c.turn l = some c') {id : Nat}
    {due : Int} {k : κ} :
    c'.Outstanding id due k ↔ c.Outstanding id due k := by
  simp only [Outstanding, live_turn h, (turn_spec h).2.2]

theorem turn_nextId {l : Turn} (h : c.turn l = some c') :
    c'.queue.nextId = c.queue.nextId := by
  obtain ⟨-, hstep, -⟩ := turn_spec h
  generalize c'.queue = q' at hstep ⊢
  cases l with
  | clock t =>
      cases hstep
      rfl
  | read =>
      cases hstep
      rfl
  | collect =>
      cases hstep
      rfl
  | «return» =>
      cases hstep
      rfl
  | finish =>
      cases hstep
      obtain ⟨armed, unread, heq⟩ :=
        TimerQueue.resetToBegin_eq { c.queue with pc := .idle }
      rw [heq]

/-- There is room for the times, whatever the clock says. -/
theorem Ok.turn_room (hc : c.Ok) {l : Turn} (h : c.turn l = some c') :
    Awake c'.queue ∧
      (0 ≤ c'.queue.now ∧ c'.queue.now < 4611686018427387904) ∧
      ∀ e ∈ c'.queue.timers,
        0 ≤ e.expiration ∧ e.expiration ≤ 9223372036854775807 := by
  obtain ⟨w, hw, rfl⟩ := Option.map_eq_some_iff.mp h
  obtain ⟨q, hq, rfl⟩ := Option.map_eq_some_iff.mp hw
  have hok : c.queue.TimeOk l.label := by
    cases l with
    | finish => exact fun b hb => hc.fits (OrderedSet.mem_of_begin? hb)
    | clock | read | collect | «return» => exact trivial
  have hawake : Awake q :=
    TimerQueue.awake_step hc.passing.once.inv hc.awake hok hq
  have hstep := TimerQueue.step_stepped hq
  show Awake q ∧ (0 ≤ q.now ∧ q.now < 4611686018427387904) ∧
    ∀ e ∈ q.timers, 0 ≤ e.expiration ∧ e.expiration ≤ 9223372036854775807
  refine ⟨hawake, ?_⟩
  cases l with
  | clock t =>
      cases hstep
      have hlt := t.isLt
      refine ⟨?_, hc.room⟩
      show 0 ≤ (t.val : Int) ∧ (t.val : Int) < 4611686018427387904
      omega
  | read =>
      cases hstep
      exact ⟨hc.up, hc.room⟩
  | collect =>
      cases hstep
      refine ⟨hc.up, fun e he => hc.room e ?_⟩
      exact OrderedSet.mem_popWhile.mp (.inr he)
  | «return» =>
      cases hstep
      exact ⟨hc.up, hc.room⟩
  | finish =>
      cases hstep
      obtain ⟨armed, unread, heq⟩ :=
        TimerQueue.resetToBegin_eq { c.timers.queue with pc := .idle }
      rw [heq]
      exact ⟨hc.up, hc.room⟩

/-- The clock goes on, and the one of the last pass with it. -/
theorem Ok.turn_clock (hc : c.Ok) {l : Turn} (h : c.turn l = some c') :
    c.queue.now ≤ c'.queue.now ∧ c'.passed ≤ c'.queue.now := by
  have hclock := hc.clock
  obtain ⟨w, hw, rfl⟩ := Option.map_eq_some_iff.mp h
  obtain ⟨q, hq, rfl⟩ := Option.map_eq_some_iff.mp hw
  have hstep := TimerQueue.step_stepped hq
  show c.queue.now ≤ q.now ∧ (c.timers.pass.after c.queue l.label).clock ≤ q.now
  cases l with
  | clock t =>
      cases hstep with
      | clock _ hle => exact ⟨hle, Int.le_trans hclock hle⟩
  | read =>
      cases hstep
      exact ⟨Int.le_refl _, hclock⟩
  | collect =>
      cases hstep
      exact ⟨Int.le_refl _, Int.le_refl _⟩
  | «return» =>
      cases hstep
      exact ⟨Int.le_refl _, hclock⟩
  | finish =>
      cases hstep
      obtain ⟨armed, unread, heq⟩ :=
        TimerQueue.resetToBegin_eq { c.timers.queue with pc := .idle }
      rw [heq]
      exact ⟨Int.le_refl _, hclock⟩

theorem Ok.turn (hc : c.Ok) {l : Turn} (h : c.turn l = some c') : c'.Ok where
  passing := TimerQueue.passing_step hc.passing (turn_spec h).1
  awake := (hc.turn_room h).1
  up := (hc.turn_room h).2.1
  room := (hc.turn_room h).2.2
  clock := (hc.turn_clock h).2
  first := turn_nextId h ▸ hc.first
  called := by
    intro e he
    rw [(turn_spec h).2.2]
    exact hc.called e ((live_turn h e).mp he)

theorem Ahead.turn (hc : c.Ahead) {l : Turn} (h : c.turn l = some c') :
    c'.Ahead := by
  obtain ⟨w, hw, rfl⟩ := Option.map_eq_some_iff.mp h
  obtain ⟨q, hq, rfl⟩ := Option.map_eq_some_iff.mp hw
  have hstep := TimerQueue.step_stepped hq
  show ∀ e ∈ q.timers, (c.timers.pass.after c.queue l.label).clock <
    e.expiration
  cases l with
  | clock t =>
      cases hstep
      exact hc
  | read =>
      cases hstep
      exact hc
  | collect =>
      cases hstep
      intro e he
      have hlate := OrderedSet.not_of_mem_popWhile (fun a b hlt hb => by
        have hle : a.expiration ≤ b.expiration := by
          rcases Prod.Lex.toLex_lt_toLex.mp hlt with h | h
          · exact Int.le_of_lt h
          · exact Int.le_of_eq h.1
        simp only [decide_eq_true_eq] at hb ⊢
        omega) he
      have hlate : ¬ e.expiration ≤ c.queue.now := of_decide_eq_false hlate
      exact Int.not_le.mp hlate
  | «return» =>
      cases hstep
      exact hc
  | finish =>
      cases hstep
      obtain ⟨armed, unread, heq⟩ :=
        TimerQueue.resetToBegin_eq { c.timers.queue with pc := .idle }
      rw [heq]
      exact hc

/-! ## The call -/

/-- The head of the batch leaves it, and what it has captured is called. -/
structure Called (c : TimerCalls κ) (e : Entry) (rest : List Entry) (k : κ)
    (c' : TimerCalls κ) : Prop where
  batch : c.queue.pc = .batch (e :: rest)
  took : c.captured e.id = some k
  queue : c'.queue = { c.queue with
    pc := .callback rest, started := c.queue.started ++ [e.id] }
  captured : c'.captured = c.captured
  passed : c'.passed = c.passed
  ok : c'.Ok

theorem Ok.call (hc : c.Ok) {k : κ} (h : c.call = some (k, c')) :
    ∃ e rest, Called c e rest k c' := by
  rw [TimerCalls.call] at h
  split at h
  · next e rest hpc =>
      have hpc' : c.timers.queue.pc = .batch (e :: rest) := hpc
      have hcb : e.cb = true := by
        refine (hc.called e (.inr ?_)).1
        rw [hpc]
        exact List.mem_cons_self
      obtain ⟨w, hw, h⟩ := Option.bind_eq_some_iff.mp h
      obtain ⟨k', hk, h⟩ := Option.bind_eq_some_iff.mp h
      cases h
      have hstep : c.timers.queue.step .call = some { c.queue with
          pc := .callback rest, started := c.queue.started ++ [e.id] } := by
        simp only [TimerQueue.step, hpc', hcb, if_true]
        rfl
      have hpassing := TimerQueue.passing_step hc.passing hw
      rw [watch, hstep] at hw
      cases hw
      have hawake : TimerPc.callback rest ≠ .idle := by
        intro h
        cases h
      refine ⟨e, rest, ⟨hpc, hk, rfl, rfl, ?_, ⟨hpassing,
        fun h => absurd h hawake, hc.up, hc.room, ?_, hc.first, ?_⟩⟩⟩
      · show (c.timers.pass.after c.timers.queue .call).clock = _
        simp only [TimerQueue.Pass.after, hpc', hcb, if_true]
        rfl
      · show (c.timers.pass.after c.timers.queue .call).clock ≤ c.queue.now
        simp only [TimerQueue.Pass.after, hpc', hcb, if_true]
        exact hc.clock
      · rintro x (hx | hx)
        · exact hc.called x (.inl hx)
        · refine hc.called x (.inr ?_)
          rw [hpc]
          exact List.mem_cons_of_mem e hx
  · cases h

variable {e : Entry} {rest : List Entry} {k : κ}

theorem Called.outstanding (h : Called c e rest k c') :
    c.Outstanding e.id e.expiration k := by
  refine ⟨e, .inr ?_, rfl, rfl, h.took⟩
  rw [h.batch]
  exact List.mem_cons_self

/-- What is called was due. -/
theorem Called.due (h : Called c e rest k c') (hc : c.Ok) :
    e.expiration ≤ c.passed := by
  refine hc.rest_due ?_
  rw [h.batch]
  exact List.mem_cons_self

/-- And is not outstanding any more. -/
theorem Called.outstanding_iff (h : Called c e rest k c') (hc : c.Ok)
    {id : Nat} {due : Int} {k' : κ} :
    c'.Outstanding id due k' ↔ c.Outstanding id due k' ∧ id ≠ e.id := by
  have hids := hc.passing.once.restIds
  have hout := hc.passing.once.restOut
  have hpc : c.timers.queue.pc = .batch (e :: rest) := h.batch
  rw [hpc] at hids hout
  have hlive : ∀ x, c'.Live x ↔ c.Live x ∧ x.id ≠ e.id := by
    intro x
    rw [Live, Live, h.queue, h.batch]
    constructor
    · rintro (hx | hx)
      · exact ⟨.inl hx, hout e List.mem_cons_self x hx⟩
      · refine ⟨.inr (List.mem_cons_of_mem e hx), fun hid => ?_⟩
        exact (List.nodup_cons.mp hids).1 (hid ▸ List.mem_map_of_mem hx)
    · rintro ⟨hx | hx, hne⟩
      · exact .inl hx
      · rcases List.mem_cons.mp hx with rfl | hx
        · exact absurd rfl hne
        · exact .inr hx
  simp only [Outstanding, hlive, h.captured]
  constructor
  · rintro ⟨x, ⟨hx, hne⟩, rfl, rfl, hk⟩
    exact ⟨⟨x, hx, rfl, rfl, hk⟩, hne⟩
  · rintro ⟨⟨x, hx, rfl, rfl, hk⟩, hne⟩
    exact ⟨x, ⟨hx, hne⟩, rfl, rfl, hk⟩

theorem Called.ahead (h : Called c e rest k c') (hc : c.Ahead) : c'.Ahead := by
  intro x hx
  rw [h.queue] at hx
  rw [h.passed]
  exact hc x hx

theorem Called.nextId (h : Called c e rest k c') :
    c'.queue.nextId = c.queue.nextId := by rw [h.queue]

theorem Called.now (h : Called c e rest k c') :
    c'.queue.now = c.queue.now := by rw [h.queue]

end TimerCalls

end GameFrame
