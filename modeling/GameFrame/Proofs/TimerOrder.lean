import GameFrame.Net.TimerThreads
import GameFrame.Proofs.TimerCancel

/-!
# A `cancel` that overtakes its timer

The comment in `run_at` says that a `cancel` is executed behind the add it
belongs to, for both are queued. They are, from other threads, and the queue
is in order. But the loop thread does not queue: its `cancel` is executed on
the spot, and if the add is still in the queue there is nothing to cancel. The
timer is added behind it and runs (`cancel_overtakes`).

`CallOk` says that the loop thread does not do this. Then behind every
`cancel` that is queued, no add of its timer follows (`fifo`), so once it is
executed the timer is `Gone`, and no task brings it back.
-/

namespace GameFrame.TimerThreads

open TimerQueue

/-- When both the add and the `cancel` have been executed, the timer is not in
the set, and its callback has not run, unless it had when the `cancel` was
executed. -/
def Settled (w : TimerThreads) : Prop :=
  ∀ id ∈ w.settled, (∀ e, .add e ∈ w.pending → e.id ≠ id) →
    (∀ e ∈ w.queue.timers, e.id ≠ id) ∧
      (id ∈ w.queue.started → id ∈ w.late)

/-- The loop thread does not cancel, outside of a timer's callback, a timer
whose add is still queued. -/
def CallOk (w : TimerThreads) : Label → Prop
  | .own (.cancel id) => w.queue.pc = .idle →
      ∀ t ∈ w.pending, t.adds ≠ some id
  | _ => True

instance (w : TimerThreads) : ∀ l, Decidable (CallOk w l)
  | .own (.cancel _) => inferInstanceAs (Decidable (_ → _))
  | .own (.clock _) | .own (.runAt _ _) | .own (.runAfter _ _) | .own .read
  | .own .collect | .own .call | .own .return | .own .finish | .allocate _ _
  | .queueAdd _ | .cancel _ | .runTask => .isTrue trivial

/-- Another thread adds a timer, hands on the id it got, and the loop thread
cancels it. -/
theorem cancel_overtakes :
    ¬ ∀ (t : Int) (ls : List Label) (w : TimerThreads),
      Machine.run step { queue := { now := t } } ls = some w → Settled w := by
  intro hall
  have hany : (Machine.run step { queue := { now := 0 } } [.allocate 5 true,
      .queueAdd ⟨5, 1, true⟩, .own (.cancel 1), .runTask, .own (.clock 5),
      .own .read, .own .collect, .own .call]).any
      (fun w => w.settled == [1] && w.pending == [] &&
        w.queue.started == [1] && w.late == []) = true := by
    decide +kernel
  obtain ⟨w, hrun, hw⟩ := (Option.any_eq_true _ _).mp hany
  simp only [Bool.and_eq_true, beq_iff_eq] at hw
  obtain ⟨⟨⟨hsettled, hpending⟩, hstarted⟩, hlate⟩ := hw
  have hbad := (hall 0 _ w hrun 1 (by simp [hsettled]) (by simp [hpending])).2
  rw [hstarted, hlate] at hbad
  exact absurd (hbad (List.mem_singleton_self 1)) List.not_mem_nil

/-! ## The invariant -/

/-- The timers that are still to be added. -/
def waiting (w : TimerThreads) : List Nat :=
  w.allocated.map Entry.id ++ w.pending.filterMap TimerTask.adds

/-- A `cancel` that counts has no add of its timer behind it. -/
def Behind (a b : TimerTask) : Prop :=
  ∀ id, a = .cancel id true → b.adds ≠ some id

structure Ordered (w : TimerThreads) : Prop where
  inv : w.queue.Inv
  nodup : w.waiting.Nodup
  fresh : ∀ id ∈ w.waiting, id < w.queue.nextId ∧
    ∀ e ∈ w.queue.timers, e.id ≠ id
  asked : ∀ id, .cancel id true ∈ w.pending →
    id < w.queue.nextId ∧ ∀ e ∈ w.allocated, e.id ≠ id
  fifo : w.pending.Pairwise Behind
  settled : ∀ id ∈ w.settled, w.queue.Gone id ∧ id ∉ w.waiting ∧
    (id ∈ w.queue.started → id ∈ w.late)

theorem ordered_init (t : Int) : Ordered { queue := { now := t } } where
  inv := inv_init t
  nodup := List.nodup_nil
  fresh := fun _ h => absurd h List.not_mem_nil
  asked := fun _ h => absurd h List.not_mem_nil
  fifo := List.Pairwise.nil
  settled := fun _ h => absurd h List.not_mem_nil

theorem Ordered.ok {w : TimerThreads} (hw : w.Ordered) : w.Settled := by
  intro id hid _
  obtain ⟨hgone, -, hstarted⟩ := hw.settled id hid
  exact ⟨hgone.timers, hstarted⟩

theorem returned_iff {w : TimerThreads} {id : Nat} (h : w.due id = true) :
    id < w.queue.nextId ∧ (∀ e ∈ w.allocated, e.id ≠ id) ∧
      id ∉ w.queue.started := by
  simp only [due, returned, issued, Bool.and_eq_true, decide_eq_true_eq,
    List.all_eq_true, bne_iff_ne, Bool.not_eq_true', List.contains_eq_mem,
    decide_eq_false_iff_not] at h
  exact ⟨h.1.1.2, h.1.2, h.2⟩

/-- The queue moves, and the tasks stay. -/
theorem Ordered.moves {w : TimerThreads} (hw : w.Ordered) {q : TimerQueue}
    (hinv : q.Inv) (h : Moves w.queue q) : { w with queue := q }.Ordered := by
  refine ⟨hinv, hw.nodup, fun id hid => ?_, fun id hid => ?_, hw.fifo,
    fun id hid => ?_⟩
  · obtain ⟨hlt, hnot⟩ := hw.fresh id hid
    refine ⟨Nat.lt_of_lt_of_le hlt h.nextId, fun e he => ?_⟩
    rcases h.timers e he with he | ⟨heq, -⟩
    · exact hnot e he
    · omega
  · obtain ⟨hlt, hnot⟩ := hw.asked id hid
    exact ⟨Nat.lt_of_lt_of_le hlt h.nextId, hnot⟩
  · obtain ⟨hgone, hwait, hlate⟩ := hw.settled id hid
    obtain ⟨hgone', hstarted⟩ := h.gone hgone
    exact ⟨hgone', hwait, fun hin => hlate (hstarted hin)⟩

/-- A `cancel` has been executed, and the timer is gone. -/
theorem Ordered.settle {w : TimerThreads} (hw : w.Ordered) {id : Nat}
    (hgone : w.queue.Gone id) (hwait : id ∉ w.waiting) :
    (w.settle id).Ordered := by
  refine ⟨hw.inv, hw.nodup, hw.fresh, hw.asked, hw.fifo, fun i hi => ?_⟩
  have hlate : id ∈ w.queue.started → id ∈ (w.settle id).late := by
    intro hin
    rw [TimerThreads.settle, if_pos (List.contains_iff_mem.mpr hin)]
    exact List.mem_cons_self
  have hkeep : ∀ i ∈ w.late, i ∈ (w.settle id).late := by
    intro i hi
    rw [TimerThreads.settle]
    split
    · exact List.mem_cons_of_mem id hi
    · exact hi
  rcases List.mem_cons.mp hi with rfl | hi
  · exact ⟨hgone, hwait, hlate⟩
  · obtain ⟨hgone', hwait', hlate'⟩ := hw.settled i hi
    exact ⟨hgone', hwait', fun hin => hkeep i (hlate' hin)⟩

/-! ## The step -/

theorem Ordered.own {w w' : TimerThreads} (hw : w.Ordered)
    {l : TimerQueue.Label} (hok : w.CallOk (.own l))
    (h : w.own l = some w') : w'.Ordered := by
  obtain ⟨q, hq, rfl⟩ := Option.map_eq_some_iff.mp h
  have hmoved := hw.moves (inv_step hw.inv hq) (moves_step hw.inv.indexed hq)
  cases hs : w.settles l with
  | none => exact hmoved
  | some id =>
      -- A `cancel` outside of any callback, with no add of the timer queued.
      cases l <;> simp only [settles, reduceCtorEq] at hs
      split at hs
      · next hdue =>
          obtain rfl := Option.some.inj hs
          obtain ⟨hidle, hdue⟩ := hdue
          obtain ⟨hlt, halloc, -⟩ := returned_iff hdue
          have hcalls : TimerQueue.callsOut w.queue.pc = true := by
            rw [hidle]
            rfl
          rw [TimerQueue.step, if_pos hcalls] at hq
          cases hq
          have hgone := gone_cancel hw.inv.indexed hlt (by
            simp [hidle, TimerPc.rest])
          refine hmoved.settle ⟨hgone.lt, hgone.timers, hgone.rest⟩ ?_
          intro hwait
          rcases List.mem_append.mp hwait with hin | hin
          · obtain ⟨e, he, heq⟩ := List.mem_map.mp hin
            exact halloc e he heq
          · obtain ⟨t, ht, heq⟩ := List.mem_filterMap.mp hin
            exact hok hidle t ht heq
      · cases hs

theorem Ordered.allocate {w : TimerThreads} (hw : w.Ordered)
    (expiration : Int) (cb : Bool) :
    ({ w with
      queue := { w.queue with nextId := w.queue.nextId + 1 }
      allocated := ⟨expiration, w.queue.nextId, cb⟩ :: w.allocated } :
        TimerThreads).Ordered := by
  have hinv : { w.queue with nextId := w.queue.nextId + 1 }.Inv :=
    ⟨hw.inv.indexed, fun e he => Nat.lt_succ_of_lt (hw.inv.idsLt e he)⟩
  have hmoves : Moves w.queue { w.queue with nextId := w.queue.nextId + 1 } :=
    ⟨Nat.le_succ _, fun e he => .inl he, fun e he => .inl he,
      fun id hid => .inl hid⟩
  have hmoved := hw.moves hinv hmoves
  refine ⟨hinv, ?_, fun id hid => ?_, fun id hid => ?_, hw.fifo,
    fun id hid => ?_⟩
  · refine List.nodup_cons.mpr ⟨fun hin => ?_, hw.nodup⟩
    exact Nat.lt_irrefl _ (hw.fresh _ hin).1
  · rcases List.mem_cons.mp hid with rfl | hid
    · exact ⟨Nat.lt_succ_self _, fun e he => Nat.ne_of_lt (hw.inv.idsLt e he)⟩
    · exact hmoved.fresh id hid
  · obtain ⟨hlt, hnot⟩ := hmoved.asked id hid
    refine ⟨hlt, fun e he => ?_⟩
    rcases List.mem_cons.mp he with rfl | he
    · exact Ne.symm (Nat.ne_of_lt (hw.asked id hid).1)
    · exact hnot e he
  · obtain ⟨hgone, hwait, hlate⟩ := hmoved.settled id hid
    refine ⟨hgone, fun hin => ?_, hlate⟩
    rcases List.mem_cons.mp hin with rfl | hin
    · exact Nat.lt_irrefl _ (hw.settled _ hid).1.lt
    · exact hwait hin

theorem Ordered.queueAdd {w : TimerThreads} (hw : w.Ordered) {e : Entry}
    (he : e ∈ w.allocated) :
    ({ w with
      allocated := w.allocated.erase e
      pending := w.pending ++ [.add e] } : TimerThreads).Ordered := by
  have hperm : ({ w with
      allocated := w.allocated.erase e
      pending := w.pending ++ [.add e] } : TimerThreads).waiting.Perm
        w.waiting := by
    have hmap := (List.perm_cons_erase he).map Entry.id
    rw [waiting, waiting, List.filterMap_append, ← List.append_assoc]
    refine List.perm_append_comm.trans ?_
    exact (List.Perm.append_right _ hmap).symm
  refine ⟨hw.inv, hperm.nodup_iff.mpr hw.nodup, fun id hid => ?_,
    fun id hid => ?_, ?_, fun id hid => ?_⟩
  · exact hw.fresh id (hperm.mem_iff.mp hid)
  · have hold : .cancel id true ∈ w.pending := by simpa using hid
    obtain ⟨hlt, hnot⟩ := hw.asked id hold
    exact ⟨hlt, fun x hx => hnot x (List.mem_of_mem_erase hx)⟩
  · refine List.pairwise_append.mpr ⟨hw.fifo, List.pairwise_singleton _ _, ?_⟩
    rintro a ha b hb id rfl
    rw [List.mem_singleton.mp hb]
    intro heq
    exact (hw.asked id ha).2 e he (Option.some.inj heq)
  · obtain ⟨hgone, hwait, hlate⟩ := hw.settled id hid
    exact ⟨hgone, fun hin => hwait (hperm.mem_iff.mp hin), hlate⟩

theorem Ordered.cancel {w : TimerThreads} (hw : w.Ordered) (id : Nat) :
    ({ w with pending := w.pending ++ [.cancel id (w.due id)] } :
      TimerThreads).Ordered := by
  have hsame : ({ w with pending := w.pending ++ [.cancel id (w.due id)] } :
      TimerThreads).waiting = w.waiting := by
    rw [waiting, waiting, List.filterMap_append]
    simp [TimerTask.adds]
  refine ⟨hw.inv, ?_, ?_, fun i hi => ?_, ?_, ?_⟩
  · rw [hsame]; exact hw.nodup
  · rw [hsame]; exact hw.fresh
  · rcases List.mem_append.mp hi with hi | hi
    · exact hw.asked i hi
    · have heq := List.mem_singleton.mp hi
      injection heq with hid hdue
      subst hid
      obtain ⟨hlt, hnot, -⟩ := returned_iff hdue.symm
      exact ⟨hlt, hnot⟩
  · refine List.pairwise_append.mpr ⟨hw.fifo, List.pairwise_singleton _ _, ?_⟩
    intro a _ b hb i _
    rw [List.mem_singleton.mp hb]
    nofun
  · rw [hsame]; exact hw.settled

section

variable {w : TimerThreads} {ts : List TimerTask}

theorem waiting_sublist {t : TimerTask} (hpending : w.pending = t :: ts) :
    ({ w with pending := ts } : TimerThreads).waiting.Sublist w.waiting := by
  rw [waiting, waiting, hpending]
  refine List.Sublist.append_left ?_ _
  exact (List.sublist_cons_self t ts).filterMap _

/-- A task is taken off the queue. -/
theorem Ordered.pop {t : TimerTask} (hw : w.Ordered)
    (hpending : w.pending = t :: ts) :
    ({ w with pending := ts } : TimerThreads).Ordered := by
  have hsub := waiting_sublist hpending
  have hfifo := hw.fifo
  rw [hpending] at hfifo
  refine ⟨hw.inv, hw.nodup.sublist hsub,
    fun i hi => hw.fresh i (hsub.subset hi), fun i hi => hw.asked i ?_,
    (List.pairwise_cons.mp hfifo).2, fun i hi => ?_⟩
  · rw [hpending]
    exact List.mem_cons_of_mem t hi
  · obtain ⟨hgone, hwait, hlate⟩ := hw.settled i hi
    exact ⟨hgone, fun hin => hwait (hsub.subset hin), hlate⟩

theorem Ordered.runAdd {e : Entry} (hw : w.Ordered)
    (hpending : w.pending = .add e :: ts) :
    ({ w with pending := ts }.runTask (.add e)).Ordered := by
  have hpopped := hw.pop hpending
  have hsub := waiting_sublist hpending
  have hwaiting : w.waiting = w.allocated.map Entry.id ++
      e.id :: ts.filterMap TimerTask.adds := by
    rw [waiting, hpending]
    rfl
  have hin : e.id ∈ w.waiting := by
    rw [hwaiting]
    exact List.mem_append_right _ List.mem_cons_self
  have hout : e.id ∉ ({ w with pending := ts } : TimerThreads).waiting := by
    have hnodup := hw.nodup
    rw [hwaiting] at hnodup
    exact (List.nodup_cons.mp (List.perm_middle.nodup_iff.mp hnodup)).1
  obtain ⟨hlt, hfresh⟩ := hw.fresh e.id hin
  have hinv := hw.inv.addTimerInLoop hfresh hlt
  obtain ⟨armed, unread, heq⟩ := addTimerInLoop_eq w.queue e
  rw [TimerThreads.runTask]
  dsimp only
  rw [heq] at hinv ⊢
  refine ⟨hinv, hpopped.nodup, fun i hi => ⟨(hpopped.fresh i hi).1, ?_⟩,
    hpopped.asked, hpopped.fifo, fun i hi => ?_⟩
  · intro x hx
    rcases OrderedSet.mem_of_mem_insertElems hx with rfl | hx
    · exact fun heq => hout (heq ▸ hi)
    · exact (hpopped.fresh i hi).2 x hx
  · obtain ⟨hgone, hwait, hlate⟩ := hw.settled i hi
    refine ⟨⟨hgone.lt, fun x hx => ?_, hgone.rest⟩,
      fun hin' => hwait (hsub.subset hin'), hlate⟩
    rcases OrderedSet.mem_of_mem_insertElems hx with rfl | hx
    · exact fun heq => hwait (heq ▸ hin)
    · exact hgone.timers x hx

theorem Ordered.runCancel {id : Nat} {due : Bool} (hw : w.Ordered)
    (hidle : w.queue.pc = .idle) (hpending : w.pending = .cancel id due :: ts) :
    ({ w with pending := ts }.runTask (.cancel id due)).Ordered := by
  have hmoved := (hw.pop hpending).moves (hw.inv.cancelInLoop id)
    (moves_cancelInLoop hw.inv.indexed id)
  have hfifo := hw.fifo
  rw [hpending] at hfifo
  have hbehind := (List.pairwise_cons.mp hfifo).1
  rw [TimerThreads.runTask]
  dsimp only
  split
  · next hdue =>
      subst hdue
      have hmem : .cancel id true ∈ w.pending := by
        rw [hpending]
        exact List.mem_cons_self
      obtain ⟨hlt, halloc⟩ := hw.asked id hmem
      refine hmoved.settle (gone_cancel hw.inv.indexed hlt ?_) fun hin => ?_
      · simp [hidle, TimerPc.rest]
      · rcases List.mem_append.mp hin with hin | hin
        · obtain ⟨e, he, heq⟩ := List.mem_map.mp hin
          exact halloc e he heq
        · -- no add of this timer is queued behind its cancel
          obtain ⟨x, hx, heq⟩ := List.mem_filterMap.mp hin
          exact hbehind x hx id rfl heq
  · exact hmoved

theorem Ordered.runTask {t : TimerTask} (hw : w.Ordered)
    (hidle : w.queue.pc = .idle) (hpending : w.pending = t :: ts) :
    ({ w with pending := ts }.runTask t).Ordered := by
  cases t with
  | add e => exact hw.runAdd hpending
  | cancel id due => exact hw.runCancel hidle hpending

end

theorem ordered_step {w w' : TimerThreads} {l : Label} (hw : w.Ordered)
    (hok : w.CallOk l) (h : w.step l = some w') : w'.Ordered := by
  cases l with
  | own l => exact hw.own hok h
  | allocate expiration cb => cases h; exact hw.allocate expiration cb
  | queueAdd e =>
      rw [step] at h
      split at h
      · next he => cases h; exact hw.queueAdd he
      · cases h
  | cancel id => cases h; exact hw.cancel id
  | runTask =>
      rw [step] at h
      split at h
      · next hidle hpending => cases h; exact hw.runTask hidle hpending
      · cases h

/-- In a run where the loop thread cancels no timer that is still to be added,
what was cancelled and added is gone. -/
theorem cancel_ordered {t : Int} {ls : List Label} {w : TimerThreads}
    (hok : Machine.Meets step CallOk { queue := { now := t } } ls)
    (hrun : Machine.run step { queue := { now := t } } ls = some w) :
    Settled w :=
  Ordered.ok (Machine.run_preserves_of_meets ordered_step (ordered_init t) hok
    hrun)

/-- Two timers of other threads. One is cancelled by the loop thread when it
has been added, the other by another thread while it is queued, and a third is
cancelled too late. -/
theorem cancel_ordered_queued :
    ∃ w : TimerThreads, Machine.run step { queue := { now := 0 } }
        [.allocate 5 true, .allocate 4 true, .queueAdd ⟨4, 2, true⟩,
          .queueAdd ⟨5, 1, true⟩, .cancel 1, .runTask, .own (.cancel 2),
          .runTask, .runTask, .own (.runAt 6 true), .cancel 3,
          .own (.clock 6), .own .read, .own .collect, .own .call,
          .own .return, .own .finish, .runTask] = some w ∧
      w.settled = [3, 1, 2] ∧ w.late = [3] ∧ w.queue.started = [3] ∧
      Settled w := by
  have hany : (Machine.run step { queue := { now := 0 } } [.allocate 5 true,
      .allocate 4 true, .queueAdd ⟨4, 2, true⟩, .queueAdd ⟨5, 1, true⟩,
      .cancel 1, .runTask, .own (.cancel 2), .runTask, .runTask,
      .own (.runAt 6 true), .cancel 3, .own (.clock 6), .own .read,
      .own .collect, .own .call, .own .return, .own .finish, .runTask]).any
      (fun w => w.settled == [3, 1, 2] && w.late == [3] &&
        w.queue.started == [3]) = true := by
    decide +kernel
  obtain ⟨w, hrun, hw⟩ := (Option.any_eq_true _ _).mp hany
  simp only [Bool.and_eq_true, beq_iff_eq] at hw
  obtain ⟨⟨hsettled, hlate⟩, hstarted⟩ := hw
  exact ⟨w, hrun, hsettled, hlate, hstarted,
    cancel_ordered (by decide +kernel) hrun⟩

end GameFrame.TimerThreads
