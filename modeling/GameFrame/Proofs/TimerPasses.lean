import GameFrame.Proofs.TimerCancel

/-!
# What one pass runs

`handle_read` takes the expired timers out of the set first and runs them
afterwards, while their callbacks add and cancel timers. The batch it runs is
settled by then: it is what was in the set and due when the clock was read, in
the order of the set. A callback cannot get anything into it, for it adds to
the set, and not out of it, for a timer that is in the batch is not in the
index.

A pass is watched from outside (`watch`), which tells what it read from the
clock, what was due, what its callbacks added and what it has run. What has
run and what is still to run is together what was due (`Passing`).
-/

namespace GameFrame.TimerQueue

/-- The last pass, as it was seen. -/
structure Pass where
  /-- what `handle_read` read from the clock -/
  clock : Int := 0
  /-- the timers in the set that had expired by then -/
  due : List Entry := []
  /-- the ids given out since -/
  added : List Nat := []
  /-- the timers whose callback was called -/
  ran : List Entry := []

def Pass.after (p : Pass) (q : TimerQueue) : Label → Pass
  | .collect =>
      { clock := q.now
        due := q.timers.elems.filter fun e => e.expiration ≤ q.now }
  | .runAt .. | .runAfter .. => { p with added := p.added ++ [q.nextId] }
  | .call =>
      match q.pc with
      | .batch (e :: _) => if e.cb then { p with ran := p.ran ++ [e] } else p
      | _ => p
  | .clock _ | .cancel _ | .read | .return | .finish => p

structure Watched where
  queue : TimerQueue
  pass : Pass := {}

def watch (w : Watched) (l : Label) : Option Watched :=
  (w.queue.step l).map fun q => ⟨q, w.pass.after w.queue l⟩

/-- What is said of a pass, at any moment of it and behind it. -/
structure Exact (w : Watched) : Prop where
  /-- no timer has been run twice, in this pass or before -/
  once : w.queue.started.Nodup
  calls : w.pass.ran.map Entry.id <:+ w.queue.started
  onTime : ∀ e ∈ w.pass.ran, e.expiration ≤ w.pass.clock
  ordered : w.pass.ran.Pairwise fun a b => a.key < b.key
  /-- only what was due has been run, and all of it when the batch is empty -/
  wasDue : w.pass.ran <+: w.pass.due.filter (·.cb)
  complete : w.queue.pc.rest = [] → w.pass.ran = w.pass.due.filter (·.cb)
  notAdded : ∀ e ∈ w.pass.ran, e.id ∉ w.pass.added

/-- Watching does not keep the queue from anything. -/
theorem watch_of_run {ls : List Label} : ∀ {q q' : TimerQueue} (p : Pass),
    Machine.run step q ls = some q' →
    ∃ p', Machine.run watch ⟨q, p⟩ ls = some ⟨q', p'⟩ := by
  induction ls with
  | nil =>
      intro q q' p h
      obtain rfl : q = q' := by simpa using h
      exact ⟨p, rfl⟩
  | cons l ls ih =>
      intro q q' p h
      obtain ⟨q₁, hstep, h⟩ := Machine.run_cons_some.mp h
      obtain ⟨p', hrun⟩ := ih (p.after q l) h
      refine ⟨p', Machine.run_cons_some.mpr ⟨_, ?_, hrun⟩⟩
      rw [watch, hstep]
      rfl

/-! ## The batch -/

theorem Indexed.ids_nodup {q : TimerQueue} (hq : q.Indexed) {l : List Entry}
    (hl : l.Sublist q.timers.elems) : (l.map Entry.id).Nodup := by
  have hsorted := q.timers.sorted.sublist hl
  rw [List.Nodup, List.pairwise_map]
  refine hsorted.imp_of_mem fun {a b} ha hb hlt hid => ?_
  obtain rfl := hq.sole (hl.subset ha) (hl.subset hb) hid
  exact lt_irrefl _ hlt

/-- `collect` takes out what is due. -/
theorem collect_rest (q : TimerQueue) :
    q.collect.pc.rest =
      q.timers.elems.filter fun e => e.expiration ≤ q.now := by
  refine OrderedSet.popWhile_eq_filter q.timers fun a b hlt hb => ?_
  have hle : a.expiration ≤ b.expiration := by
    rcases Prod.Lex.toLex_lt_toLex.mp hlt with h | h
    · exact Int.le_of_lt h
    · exact Int.le_of_eq h.1
  simp only [decide_eq_true_eq] at hb ⊢
  omega

/-- What is in the batch is out of the set, and what was run is out of both. -/
structure Once (q : TimerQueue) : Prop where
  inv : q.Inv
  nodup : q.started.Nodup
  gone : ∀ id ∈ q.started, q.Gone id
  restIds : (q.pc.rest.map Entry.id).Nodup
  restLt : ∀ e ∈ q.pc.rest, e.id < q.nextId
  restOut : ∀ e ∈ q.pc.rest, ∀ x ∈ q.timers, x.id ≠ e.id

theorem once_init (t : Int) : Once { now := t } where
  inv := inv_init t
  nodup := .nil
  gone := nofun
  restIds := .nil
  restLt := nofun
  restOut := nofun

/-- A timer that moves as it may, with an empty or a shorter batch. -/
theorem Once.moves {q q' : TimerQueue} (hq : q.Once) (h : Moves q q')
    (hinv : q'.Inv) (hstarted : q'.started = q.started)
    (hrest : q'.pc.rest.Sublist q.pc.rest) : q'.Once where
  inv := hinv
  nodup := hstarted ▸ hq.nodup
  gone := by
    intro id hid
    rw [hstarted] at hid
    exact (h.gone (hq.gone id hid)).1
  restIds := hq.restIds.sublist (hrest.map _)
  restLt := by
    intro e he
    have := hq.restLt e (hrest.subset he)
    have := h.nextId
    omega
  restOut := by
    intro e he x hx
    have hlt := hq.restLt e (hrest.subset he)
    rcases h.timers x hx with hx | ⟨hid, -⟩
    · exact hq.restOut e (hrest.subset he) x hx
    · omega

/-- Another callback is called. -/
theorem Once.call {q : TimerQueue} (hq : q.Once) {e : Entry}
    {rest : List Entry} (hpc : q.pc = .batch (e :: rest)) (hcb : e.cb = true) :
    Once { q with pc := .callback rest, started := q.started ++ [e.id] } := by
  have hids := hq.restIds
  have hlt := hq.restLt
  have hout := hq.restOut
  have hgone := hq.gone
  rw [hpc] at hids hlt hout
  obtain ⟨hnew, hids⟩ := List.nodup_cons.mp hids
  have hpop : ∀ x ∈ e :: rest, x ∈ q.pc.rest := by
    intro x hx
    rw [hpc]
    exact hx
  have hfresh : e.id ∉ q.started := by
    intro hid
    have hnone := (hgone e.id hid).rest e (hpop e List.mem_cons_self) rfl
    rw [hcb] at hnone
    cases hnone
  refine ⟨⟨hq.inv.indexed, hq.inv.idsLt⟩, ?_, ?_, hids, ?_, ?_⟩
  · refine List.nodup_append.mpr ⟨hq.nodup, by simp, ?_⟩
    intro id hid id' hid' heq
    rw [List.mem_singleton] at hid'
    rw [heq, hid'] at hid
    exact hfresh hid
  · intro id hid
    rcases List.mem_append.mp hid with hid | hid
    · refine ⟨(hgone id hid).lt, (hgone id hid).timers, fun x hx => ?_⟩
      exact (hgone id hid).rest x (hpop x (List.mem_cons_of_mem e hx))
    · obtain rfl := List.mem_singleton.mp hid
      refine ⟨hlt e List.mem_cons_self, hout e List.mem_cons_self, ?_⟩
      intro x hx hid
      exact absurd (hid ▸ List.mem_map_of_mem hx) hnew
  · exact fun x hx => hlt x (List.mem_cons_of_mem e hx)
  · exact fun x hx => hout x (List.mem_cons_of_mem e hx)

theorem runAt_rest (q : TimerQueue) (expiration : Int) (cb : Bool) :
    (q.runAt expiration cb).pc = q.pc ∧
      (q.runAt expiration cb).started = q.started := by
  obtain ⟨armed, unread, heq⟩ := addTimerInLoop_eq
    { q with nextId := q.nextId + 1 } ⟨expiration, q.nextId, cb⟩
  rw [runAt, heq]
  exact ⟨rfl, rfl⟩

theorem cancel_rest (q : TimerQueue) (id : Nat) :
    (q.cancel id).pc = q.pc ∧ (q.cancel id).started = q.started := by
  obtain ⟨timers, armed, unread, heq⟩ := cancelInLoop_eq q id
  rw [cancel, heq]
  exact ⟨rfl, rfl⟩

theorem resetToBegin_rest (q : TimerQueue) :
    q.resetToBegin.pc = q.pc ∧ q.resetToBegin.started = q.started := by
  obtain ⟨armed, unread, heq⟩ := resetToBegin_eq q
  rw [heq]
  exact ⟨rfl, rfl⟩

theorem once_step {q q' : TimerQueue} {l : Label} (hq : q.Once)
    (h : q.step l = some q') : q'.Once := by
  have hinv := inv_step hq.inv h
  have hmoves := moves_step hq.inv.indexed h
  cases step_stepped h with
  | clock t => exact hq.moves hmoves hinv rfl (.refl _)
  | runAt expiration cb =>
      obtain ⟨hpc, hstarted⟩ := runAt_rest q expiration cb
      exact hq.moves hmoves hinv hstarted (hpc ▸ .refl _)
  | runAfter delayMs cb =>
      obtain ⟨hpc, hstarted⟩ := runAt_rest q _ cb
      exact hq.moves hmoves hinv hstarted (hpc ▸ .refl _)
  | cancel id =>
      obtain ⟨hpc, hstarted⟩ := cancel_rest q id
      exact hq.moves hmoves hinv hstarted (hpc ▸ .refl _)
  | read => exact hq.moves hmoves hinv rfl (List.nil_sublist _)
  | collect hpc =>
      have hsub : q.collect.pc.rest.Sublist q.timers.elems := by
        rw [collect_rest]
        exact List.filter_sublist
      refine ⟨hinv, hq.nodup, ?_, hq.inv.indexed.ids_nodup hsub, ?_, ?_⟩
      · exact fun id hid => (hmoves.gone (hq.gone id hid)).1
      · exact fun e he => hq.inv.idsLt e (hsub.subset he)
      · intro e he x hx hid
        have hmem : x ∈ q.timers := OrderedSet.mem_popWhile.mp (.inr hx)
        obtain rfl := hq.inv.indexed.sole hmem (hsub.subset he) hid
        exact lt_irrefl _ (OrderedSet.key_lt_of_popWhile he hx)
  | call e rest hpc hcb => exact hq.call hpc hcb
  | callNothing e rest hpc =>
      refine hq.moves hmoves hinv rfl ?_
      rw [hpc]
      exact List.sublist_cons_self e rest
  | returned rest hpc =>
      refine hq.moves hmoves hinv rfl ?_
      rw [hpc]
      exact .refl _
  | finish =>
      obtain ⟨hpc, hstarted⟩ := resetToBegin_rest { q with pc := .idle }
      refine hq.moves hmoves hinv hstarted ?_
      rw [hpc]
      exact List.nil_sublist _

/-! ## The pass -/

/-- What has run and what is still to run is what was due. -/
structure Passing (w : Watched) : Prop where
  once : w.queue.Once
  calls : w.pass.ran.map Entry.id <:+ w.queue.started
  all : w.pass.ran ++ w.queue.pc.rest.filter (·.cb) = w.pass.due.filter (·.cb)
  onTime : ∀ e ∈ w.pass.due, e.expiration ≤ w.pass.clock
  ordered : w.pass.due.Pairwise fun a b => a.key < b.key
  dueLt : ∀ e ∈ w.pass.due, e.id < w.queue.nextId
  notAdded : ∀ e ∈ w.pass.due, e.id ∉ w.pass.added

theorem passing_init (t : Int) : Passing { queue := { now := t } } where
  once := once_init t
  calls := List.nil_suffix
  all := rfl
  onTime := nofun
  ordered := .nil
  dueLt := nofun
  notAdded := nofun

/-- A step that does not concern the pass. -/
theorem Passing.same {w : Watched} (hw : Passing w) {q : TimerQueue}
    (hq : q.Once) (hstarted : q.started = w.queue.started)
    (hrest : q.pc.rest.filter (·.cb) = w.queue.pc.rest.filter (·.cb))
    (hnext : w.queue.nextId ≤ q.nextId) : Passing ⟨q, w.pass⟩ where
  once := hq
  calls := hstarted ▸ hw.calls
  all := by rw [hrest]; exact hw.all
  onTime := hw.onTime
  ordered := hw.ordered
  dueLt := fun e he => Nat.lt_of_lt_of_le (hw.dueLt e he) hnext
  notAdded := hw.notAdded

theorem Passing.add {w : Watched} (hw : Passing w) {q : TimerQueue}
    (hq : Passing ⟨q, w.pass⟩) :
    Passing ⟨q, { w.pass with added := w.pass.added ++ [w.queue.nextId] }⟩ where
  once := hq.once
  calls := hq.calls
  all := hq.all
  onTime := hq.onTime
  ordered := hq.ordered
  dueLt := hq.dueLt
  notAdded := by
    intro e he hid
    have := hw.dueLt e he
    rcases List.mem_append.mp hid with hid | hid
    · exact hw.notAdded e he hid
    · rw [List.mem_singleton] at hid
      omega

theorem passing_step {w w' : Watched} {l : Label} (hw : Passing w)
    (h : watch w l = some w') : Passing w' := by
  obtain ⟨q', hstep, rfl⟩ := Option.map_eq_some_iff.mp h
  have honce := once_step hw.once hstep
  have hnext := (moves_step hw.once.inv.indexed hstep).nextId
  cases step_stepped hstep with
  | clock t => exact hw.same honce rfl rfl hnext
  | read hpc =>
      refine hw.same honce rfl ?_ hnext
      rw [hpc]
      rfl
  | cancel id =>
      obtain ⟨hpc, hstarted⟩ := cancel_rest w.queue id
      exact hw.same honce hstarted (by rw [hpc]) hnext
  | runAt expiration cb =>
      obtain ⟨hpc, hstarted⟩ := runAt_rest w.queue expiration cb
      exact hw.add (hw.same honce hstarted (by rw [hpc]) hnext)
  | runAfter delayMs cb =>
      obtain ⟨hpc, hstarted⟩ := runAt_rest w.queue _ cb
      exact hw.add (hw.same honce hstarted (by rw [runAfter, hpc]) hnext)
  | collect hpc =>
      have hidle : ∀ e ∈ w.queue.timers.elems.filter
          (fun e => e.expiration ≤ w.queue.now), e ∈ w.queue.timers ∧
            e.expiration ≤ w.queue.now := by
        intro e he
        obtain ⟨he, hle⟩ := List.mem_filter.mp he
        exact ⟨he, of_decide_eq_true hle⟩
      exact {
        once := honce
        calls := List.nil_suffix
        all := by
          show w.queue.collect.pc.rest.filter _ = _
          rw [collect_rest]
          rfl
        onTime := fun e he => (hidle e he).2
        ordered := w.queue.timers.sorted.filter _
        dueLt := fun e he => hw.once.inv.idsLt e (hidle e he).1
        notAdded := fun e _ => List.not_mem_nil }
  | call e rest hpc hcb =>
      have hafter : w.pass.after w.queue .call =
          { w.pass with ran := w.pass.ran ++ [e] } := by
        simp [Pass.after, hpc, hcb]
      rw [hafter]
      have hall := hw.all
      rw [hpc] at hall
      exact {
        once := honce
        calls := by
          obtain ⟨before, hbefore⟩ := hw.calls
          refine ⟨before, ?_⟩
          show before ++ (w.pass.ran ++ [e]).map Entry.id = _
          rw [List.map_append, ← List.append_assoc, hbefore]
          rfl
        all := by
          show w.pass.ran ++ [e] ++ rest.filter _ = _
          rw [← hall, List.append_assoc]
          simp [TimerPc.rest, hcb]
        onTime := hw.onTime
        ordered := hw.ordered
        dueLt := hw.dueLt
        notAdded := hw.notAdded }
  | callNothing e rest hpc hcb =>
      have hafter : w.pass.after w.queue .call = w.pass := by
        simp [Pass.after, hpc, hcb]
      rw [hafter]
      refine hw.same honce rfl ?_ hnext
      rw [hpc]
      simp [TimerPc.rest, hcb]
  | returned rest hpc =>
      refine hw.same honce rfl ?_ hnext
      rw [hpc]
      rfl
  | finish hpc =>
      obtain ⟨hidle, hstarted⟩ := resetToBegin_rest { w.queue with pc := .idle }
      refine hw.same honce hstarted ?_ hnext
      rw [hidle, hpc]
      rfl

/-- In every run, at every moment. -/
theorem passes_exact {t : Int} {ls : List Label} {w : Watched}
    (hrun : Machine.run watch { queue := { now := t } } ls = some w) :
    Exact w := by
  have hw := Machine.run_preserves passing_step (passing_init t) hrun
  have hfirst : w.pass.ran <+: w.pass.due.filter (·.cb) := ⟨_, hw.all⟩
  have hdue : ∀ e ∈ w.pass.ran, e ∈ w.pass.due := fun e he =>
    (List.mem_filter.mp (hfirst.subset he)).1
  exact {
    once := hw.once.nodup
    calls := hw.calls
    onTime := fun e he => hw.onTime e (hdue e he)
    ordered := (hw.ordered.filter _).sublist hfirst.sublist
    wasDue := hfirst
    complete := by
      intro hnil
      have hall := hw.all
      rwa [hnil, List.filter_nil, List.append_nil] at hall
    notAdded := fun e he => hw.notAdded e (hdue e he) }

/-- Two timers with the same expiration, and one behind them. The callback of
the first cancels the second, which is too late, and adds a timer that is due
already and is run in the next pass. -/
theorem passes_exact_nested :
    ∃ w : Watched, Machine.run watch { queue := {} }
        [.runAt 5 true, .runAt 5 true, .runAt 9 true, .clock 6, .read, .collect,
          .call, .cancel 2, .runAt 1 true, .return, .call, .return, .finish] =
          some w ∧
      w.pass.ran = [⟨5, 1, true⟩, ⟨5, 2, true⟩] ∧ w.pass.added = [4] ∧
      w.queue.timers.elems = [⟨1, 4, true⟩, ⟨9, 3, true⟩] ∧ Exact w := by
  have hany : (Machine.run watch { queue := {} } [.runAt 5 true, .runAt 5 true,
      .runAt 9 true, .clock 6, .read, .collect, .call, .cancel 2, .runAt 1 true,
      .return, .call, .return, .finish]).any
      (fun w => w.pass.ran = [⟨5, 1, true⟩, ⟨5, 2, true⟩] ∧
        w.pass.added = [4] ∧
        w.queue.timers.elems = [⟨1, 4, true⟩, ⟨9, 3, true⟩]) = true := by
    decide +kernel
  obtain ⟨w, hrun, hw⟩ := (Option.any_eq_true _ _).mp hany
  obtain ⟨hran, hadded, helems⟩ := of_decide_eq_true hw
  exact ⟨w, hrun, hran, hadded, helems, passes_exact hrun⟩

end GameFrame.TimerQueue
