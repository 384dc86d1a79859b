import GameFrame.Util.QueueThreads

/-!
# No wake-up is lost, and none is given twice

The flag is raised by producers outside the lock and lowered by the consumer
inside it, so a drain can fall between a producer's insert and its exchange.
What saves the element then is the producer itself, who still has its exchange
to make. That is the invariant: a queue that is not empty and whose flag is
down has a producer in between (`announced`).

The other half needs no such care. The flag is a summary of the history: it is
up exactly when a wake-up was handed out more recently than the queue was left
empty (`flag`). So a wake-up is only handed out when the last thing in the
history is not one, which is why two of them never come without an emptying
drain between (`alternating`), and as long as the flag is up somebody is still
on the way to answer it (`answered`).
-/

namespace GameFrame.QueueThreads

open MPSCQueue

/-- A wake-up was handed out since the queue was last left empty. The history
is newest first. -/
def WokenSince (marks : List Mark) : Prop :=
  ∃ newer older, marks = newer ++ Mark.wake :: older ∧ Mark.emptied ∉ newer

/-- Between any two wake-ups the queue was left empty. -/
def Alternating (marks : List Mark) : Prop :=
  ∀ newer mid older,
    marks = newer ++ Mark.wake :: (mid ++ Mark.wake :: older) →
      Mark.emptied ∈ mid

theorem wokenSince_of_head? {marks : List Mark}
    (h : marks.head? = some .wake) : WokenSince marks := by
  cases marks with
  | nil => cases h
  | cons m marks =>
      obtain rfl : m = .wake := by simpa using h
      exact ⟨[], marks, rfl, List.not_mem_nil⟩

theorem Alternating.emptied {marks : List Mark} (h : Alternating marks) :
    Alternating (.emptied :: marks) := by
  intro newer mid older heq
  cases newer with
  | nil => cases heq
  | cons m newer => exact h newer mid older (List.cons.inj heq).2

/-- A wake-up may follow anything but a wake-up. -/
theorem Alternating.wake {marks : List Mark} (h : Alternating marks)
    (hlast : marks.head? ≠ some .wake) : Alternating (.wake :: marks) := by
  intro newer mid older heq
  cases newer with
  | nil =>
      have hmarks : marks = mid ++ .wake :: older := (List.cons.inj heq).2
      cases mid with
      | nil => exact absurd (by rw [hmarks]; rfl) hlast
      | cons m mid =>
          cases m with
          | wake => exact absurd (by rw [hmarks]; rfl) hlast
          | emptied => exact List.mem_cons_self
  | cons m newer => exact h newer mid older (List.cons.inj heq).2

variable {α ι : Type _}

structure Announced (w : QueueThreads α ι) : Prop where
  wf : w.queue.Wf
  announced : 0 < w.queue.count → w.queue.hasPending = false →
    ∃ p, w.pc p = .inserted
  flag : w.queue.hasPending = true ↔ w.marks.head? = some .wake
  alternating : Alternating w.marks
  answered : w.queue.hasPending = true →
    0 < w.outstanding ∨ w.draining = true

section

variable [DecidableEq ι]

/-- After the critical section: an element stored is its producer's to
announce, and nothing was stored otherwise. -/
theorem Announced.enter {w : QueueThreads α ι} (hw : Announced w) (p : ι)
    (v : α) (hidle : w.pc p = .idle) : Announced (w.enter p v) := by
  have hflag : (w.enter p v).queue.hasPending = w.queue.hasPending :=
    pushLocked_hasPending _ v
  refine ⟨hw.wf.pushLocked v, fun hcount hdown => ?_, ?_, hw.alternating, ?_⟩
  · by_cases hfull : w.queue.count = w.queue.cap
    · have hsame : (w.enter p v).queue = w.queue := by
        show (w.queue.pushLocked v).2 = w.queue
        rw [pushLocked_full v hfull]
      rw [hsame] at hcount hdown
      obtain ⟨i, hi⟩ := hw.announced hcount hdown
      refine ⟨i, ?_⟩
      show (if i = p then _ else w.pc i) = Pc.inserted
      rw [if_neg, hi]
      intro hip
      rw [hip, hidle] at hi
      cases hi
    · refine ⟨p, ?_⟩
      show w.setPc p _ p = Pc.inserted
      rw [pushLocked, if_neg hfull]
      exact if_pos rfl
  · rw [hflag]
    exact hw.flag
  · rw [hflag]
    exact hw.answered

/-- A refused push only counts itself. -/
theorem Announced.finish_refused {w : QueueThreads α ι} (hw : Announced w)
    {p : ι} (hpc : w.pc p = .refused) : Announced (w.finish p false) := by
  refine ⟨hw.wf.pushUnlocked false, fun hcount hdown => ?_, hw.flag,
    hw.alternating, hw.answered⟩
  obtain ⟨i, hi⟩ := hw.announced hcount hdown
  refine ⟨i, ?_⟩
  show (if i = p then _ else w.pc i) = Pc.inserted
  rw [if_neg, hi]
  intro hip
  rw [hip, hpc] at hi
  cases hi

/-- The exchange raises the flag, and returns true if it was down. -/
theorem Announced.finish_inserted {w : QueueThreads α ι} (hw : Announced w)
    (p : ι) : Announced (w.finish p true) := by
  cases hflag : w.queue.hasPending with
  | true =>
      have hmarks : (w.finish p true).marks = w.marks := by
        simp [finish, pushUnlocked, hflag]
      refine ⟨hw.wf.pushUnlocked true, fun _ => nofun, ?_, ?_, fun _ => ?_⟩
      · rw [hmarks, ← hw.flag, hflag]
        exact Iff.rfl
      · rw [hmarks]
        exact hw.alternating
      · exact (hw.answered hflag).imp_left fun h => Nat.lt_add_right _ h
  | false =>
      have hmarks : (w.finish p true).marks = .wake :: w.marks := by
        simp [finish, pushUnlocked, hflag]
      have hnew : (w.finish p true).outstanding = w.outstanding + 1 := by
        simp [finish, pushUnlocked, hflag]
      refine ⟨hw.wf.pushUnlocked true, fun _ => nofun, ?_, ?_, fun _ => ?_⟩
      · rw [hmarks]
        exact ⟨fun _ => rfl, fun _ => rfl⟩
      · rw [hmarks]
        refine hw.alternating.wake fun h => ?_
        exact absurd (hflag.symm.trans (hw.flag.mpr h)) Bool.false_ne_true
      · rw [hnew]
        exact .inl (Nat.succ_pos _)

end

variable [Inhabited α]

theorem announced_init (capacity : Nat) :
    Announced (init capacity : QueueThreads α ι) where
  wf := wf_new capacity
  announced := fun h => absurd h (Nat.lt_irrefl 0)
  flag := ⟨nofun, nofun⟩
  alternating := fun newer _ _ h => by cases newer <;> cases h
  answered := nofun

/-- A drain that empties the queue takes the flag down and says so; any other
leaves flag and history alone, and something in the queue only if something
was there before. -/
theorem Announced.drain {w : QueueThreads α ι} (hw : Announced w)
    (maxBatch : Nat) : Announced (w.drain maxBatch) := by
  by_cases hmax : maxBatch = 0
  · subst hmax
    refine ⟨hw.wf, hw.announced, hw.flag, hw.alternating, fun h => ?_⟩
    show _ ∨ (w.draining && true) = true
    rw [Bool.and_true]
    exact hw.answered h
  · obtain ⟨taken, -, htakes, hpend⟩ := drain_takes hw.wf w.drained hmax
    have hcount : (w.queue.drain w.drained maxBatch).1.count ≤
        w.queue.count := by
      have := congrArg List.length htakes.contents
      rw [List.length_drop, contents_length, contents_length] at this
      omega
    by_cases hempty : (w.queue.drain w.drained maxBatch).1.count = 0
    · have hmarks : (w.drain maxBatch).marks = .emptied :: w.marks := by
        simp [QueueThreads.drain, hmax, hempty]
      have hdown : (w.drain maxBatch).queue.hasPending = false := by
        show (w.queue.drain w.drained maxBatch).1.hasPending = false
        rw [hpend, hempty]
        exact Bool.and_false _
      refine ⟨htakes.wf, fun h => ?_, ?_, ?_, fun h => ?_⟩
      · exact absurd (hempty ▸ h : 0 < 0) (Nat.lt_irrefl 0)
      · rw [hdown, hmarks]
        exact ⟨nofun, nofun⟩
      · rw [hmarks]
        exact hw.alternating.emptied
      · exact absurd (hdown.symm.trans h) Bool.false_ne_true
    · have hmarks : (w.drain maxBatch).marks = w.marks := by
        simp [QueueThreads.drain, hempty]
      have hsame : (w.drain maxBatch).queue.hasPending = w.queue.hasPending := by
        show (w.queue.drain w.drained maxBatch).1.hasPending = _
        rw [hpend, (bne_iff_ne).mpr hempty, Bool.and_true]
      have hdraining : (w.drain maxBatch).draining = w.draining := by
        simp [QueueThreads.drain, hempty]
      refine ⟨htakes.wf, fun h hdown => ?_, ?_, ?_, fun h => ?_⟩
      · exact hw.announced (Nat.lt_of_lt_of_le h hcount) (hsame ▸ hdown)
      · rw [hsame, hmarks]
        exact hw.flag
      · rw [hmarks]
        exact hw.alternating
      · rw [hdraining]
        exact hw.answered (hsame ▸ h)

variable [DecidableEq ι]

theorem announced_step {w w' : QueueThreads α ι} {l : Label α ι}
    (hw : Announced w) (h : step w l = some w') : Announced w' := by
  cases l with
  | enter p v =>
      rw [step] at h
      split at h
      · next hidle => cases h; exact hw.enter p v hidle
      · cases h
  | finish p =>
      rw [step] at h
      split at h
      · cases h
      · cases h; exact hw.finish_inserted p
      · next hpc => cases h; exact hw.finish_refused hpc
  | drain maxBatch => cases h; exact hw.drain maxBatch
  | takeDropped =>
      cases h
      exact ⟨hw.wf.takeDropped, hw.announced, hw.flag, hw.alternating,
        hw.answered⟩
  | answer =>
      rw [step] at h
      split at h
      · cases h
        exact ⟨hw.wf, hw.announced, hw.flag, hw.alternating, fun _ => .inr rfl⟩
      · cases h

/-- Whatever the schedule: an element that is in the queue and not about to be
announced has its wake-up, the wake-ups and the emptying drains alternate, and
somebody is still going to drain. -/
theorem queue_wakes (capacity : Nat) {ls : List (Label α ι)}
    {w : QueueThreads α ι} (hrun : Machine.run step (init capacity) ls = some w) :
    (w.queue.contents ≠ [] → w.Quiet →
      w.queue.hasPending = true ∧ WokenSince w.marks ∧
        (0 < w.outstanding ∨ w.draining = true)) ∧
      Alternating w.marks := by
  have hw : Announced w :=
    Machine.run_preserves (fun hw h => announced_step hw h)
      (announced_init capacity) hrun
  refine ⟨fun hcontents hquiet => ?_, hw.alternating⟩
  have hcount : 0 < w.queue.count := by
    rw [← contents_length]
    exact List.length_pos_iff.mpr hcontents
  have hflag : w.queue.hasPending = true := by
    cases hflag : w.queue.hasPending with
    | true => rfl
    | false =>
        obtain ⟨p, hp⟩ := hw.announced hcount hflag
        exact absurd hp (hquiet p)
  exact ⟨hflag, wokenSince_of_head? (hw.flag.mp hflag), hw.answered hflag⟩

/-- A drain between insert and exchange: the producer's exchange then wakes
the consumer for an element that is gone already, and the next one does not
wake it again. -/
theorem queue_wakes_between :
    ∃ w : QueueThreads Nat Bool,
      Machine.run step (init 4)
        [.enter false 1, .drain 8, .finish false, .enter true 2,
          .finish true] = some w ∧
      w.marks = [.wake, .emptied] ∧
      w.queue.hasPending = true ∧ WokenSince w.marks ∧
        (0 < w.outstanding ∨ w.draining = true) := by
  have hrun : Machine.run step (init 4 : QueueThreads Nat Bool)
      [.enter false 1, .drain 8, .finish false, .enter true 2,
        .finish true] = some _ := rfl
  refine ⟨_, hrun, rfl, (queue_wakes 4 hrun).1 (by decide) fun p => ?_⟩
  cases p <;> decide

end GameFrame.QueueThreads
