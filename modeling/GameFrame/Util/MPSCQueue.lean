import GameFrame.Lib.Ring
import GameFrame.Lib.Run

/-!
# `MPSCQueue`, the bounded queue in front of a loop

`util/mpsc_queue.h`: any number of producers push into a ring of slots that is
allocated once, one consumer drains it in batches. A push is not atomic. It
has a critical section, in which the element is stored or refused, and what it
does afterwards without the lock: count the loss, or announce the element with
a compare-and-swap on `has_pending_`. A drain is one critical section from
beginning to end, and clears the flag inside it when it leaves the queue
empty. So `push` is kept here in its two halves, `pushLocked` and
`pushUnlocked`, and the interleavings below run other threads between them.

A slot that was moved out of holds the element type's default again. The
counter of lost messages has 64 bits in the source, more than will ever be
counted, and is a number here.
-/

namespace GameFrame

/-- `cap_`, `slots_`, `head_`, `tail_`, `count_`, `dropped_`, `has_pending_`,
in order. -/
structure MPSCQueue (α : Type _) where
  cap : Nat
  slots : List α
  head : Nat
  tail : Nat
  count : Nat
  dropped : Nat
  hasPending : Bool
  deriving DecidableEq, Repr

structure PushResult where
  ok : Bool
  wakeUp : Bool
  deriving DecidableEq, Repr

namespace MPSCQueue

variable {α : Type _}

/-- The critical section of `push(v)`: whether there was room, and the queue
behind it. -/
def pushLocked (q : MPSCQueue α) (v : α) : Bool × MPSCQueue α :=
  if q.count = q.cap then (false, q)
  else
    (true,
      { q with
        slots := q.slots.set q.tail v
        tail := (q.tail + 1) % q.cap
        count := q.count + 1 })

/-- The rest of `push`, without the lock. -/
def pushUnlocked (q : MPSCQueue α) (ok : Bool) : PushResult × MPSCQueue α :=
  if ok then
    -- The exchange succeeds on an expected `false`.
    (⟨true, !q.hasPending⟩, { q with hasPending := true })
  else (⟨false, false⟩, { q with dropped := q.dropped + 1 })

/-- `push(v)`, when nobody is in between. -/
def push (q : MPSCQueue α) (v : α) : PushResult × MPSCQueue α :=
  let (ok, q) := q.pushLocked v
  q.pushUnlocked ok

/-- `take_dropped()`. -/
def takeDropped (q : MPSCQueue α) : Nat × MPSCQueue α :=
  (q.dropped, { q with dropped := 0 })

/-- The end of `drain`'s critical section. -/
def lowerFlag (q : MPSCQueue α) : MPSCQueue α :=
  if q.count = 0 then { q with hasPending := false } else q

section

variable [Inhabited α]

/-- `MPSCQueue(capacity)`. -/
def new (capacity : Nat) : MPSCQueue α where
  cap := if capacity = 0 then 1 else capacity
  slots := List.replicate (if capacity = 0 then 1 else capacity) default
  head := 0
  tail := 0
  count := 0
  dropped := 0
  hasPending := false

/-- One turn of `drain`'s loop, on the queue: the front slot is moved out. -/
def popFront (q : MPSCQueue α) : MPSCQueue α :=
  { q with
    slots := q.slots.set q.head default
    head := (q.head + 1) % q.cap
    count := q.count - 1 }

/-- The loop of `drain`, with `n` more elements to take. -/
def drainLoop : Nat → MPSCQueue α → List α → MPSCQueue α × List α
  | 0, q, out => (q, out)
  | n + 1, q, out =>
      if q.count > 0 then
        drainLoop n q.popFront (out ++ [q.slots.getD q.head default])
      else (q, out)

/-- `drain(out, max_batch)`: the queue, and `out` with the batch behind it. -/
def drain (q : MPSCQueue α) (out : List α) (maxBatch : Nat) :
    MPSCQueue α × List α :=
  if maxBatch = 0 then (q, out)
  else
    let (q, out) := drainLoop maxBatch q out
    (q.lowerFlag, out)

/-- The elements in the queue, oldest first. -/
def contents (q : MPSCQueue α) : List α :=
  Ring.window q.slots q.head q.count

end

/-! ## The ring -/

/-- What the two indices and the count always are. -/
structure Wf (q : MPSCQueue α) : Prop where
  cap_pos : 0 < q.cap
  slots_length : q.slots.length = q.cap
  head_lt : q.head < q.cap
  count_le : q.count ≤ q.cap
  tail_eq : q.tail = (q.head + q.count) % q.cap

theorem pushLocked_full {q : MPSCQueue α} (v : α) (h : q.count = q.cap) :
    q.pushLocked v = (false, q) := if_pos h

@[simp] theorem pushLocked_cap (q : MPSCQueue α) (v : α) :
    (q.pushLocked v).2.cap = q.cap := by
  rw [pushLocked]; split <;> rfl

@[simp] theorem pushLocked_dropped (q : MPSCQueue α) (v : α) :
    (q.pushLocked v).2.dropped = q.dropped := by
  rw [pushLocked]; split <;> rfl

@[simp] theorem pushLocked_hasPending (q : MPSCQueue α) (v : α) :
    (q.pushLocked v).2.hasPending = q.hasPending := by
  rw [pushLocked]; split <;> rfl

theorem Wf.pushLocked {q : MPSCQueue α} (hq : q.Wf) (v : α) :
    (q.pushLocked v).2.Wf := by
  have hle := hq.count_le
  rw [MPSCQueue.pushLocked]
  split
  · exact hq
  · next hroom =>
      refine ⟨hq.cap_pos, ?_, hq.head_lt, ?_, ?_⟩
      · exact List.length_set.trans hq.slots_length
      · show q.count + 1 ≤ q.cap
        omega
      · show (q.tail + 1) % q.cap = (q.head + (q.count + 1)) % q.cap
        rw [hq.tail_eq, Nat.mod_add_mod, Nat.add_assoc]

theorem Wf.pushUnlocked {q : MPSCQueue α} (hq : q.Wf) (ok : Bool) :
    (q.pushUnlocked ok).2.Wf := by
  cases ok with
  | true =>
      exact ⟨hq.cap_pos, hq.slots_length, hq.head_lt, hq.count_le, hq.tail_eq⟩
  | false =>
      exact ⟨hq.cap_pos, hq.slots_length, hq.head_lt, hq.count_le, hq.tail_eq⟩

@[simp] theorem pushUnlocked_cap (q : MPSCQueue α) (ok : Bool) :
    (q.pushUnlocked ok).2.cap = q.cap := by
  cases ok <;> rfl

theorem Wf.takeDropped {q : MPSCQueue α} (hq : q.Wf) :
    q.takeDropped.2.Wf :=
  ⟨hq.cap_pos, hq.slots_length, hq.head_lt, hq.count_le, hq.tail_eq⟩

theorem Wf.lowerFlag {q : MPSCQueue α} (hq : q.Wf) : q.lowerFlag.Wf := by
  rw [MPSCQueue.lowerFlag]
  split
  · exact ⟨hq.cap_pos, hq.slots_length, hq.head_lt, hq.count_le, hq.tail_eq⟩
  · exact hq

@[simp] theorem lowerFlag_cap (q : MPSCQueue α) : q.lowerFlag.cap = q.cap := by
  rw [lowerFlag]; split <;> rfl

@[simp] theorem lowerFlag_count (q : MPSCQueue α) :
    q.lowerFlag.count = q.count := by
  rw [lowerFlag]; split <;> rfl

@[simp] theorem lowerFlag_dropped (q : MPSCQueue α) :
    q.lowerFlag.dropped = q.dropped := by
  rw [lowerFlag]; split <;> rfl

theorem lowerFlag_hasPending (q : MPSCQueue α) :
    q.lowerFlag.hasPending = (q.hasPending && q.count != 0) := by
  rw [lowerFlag]
  by_cases h : q.count = 0
  · rw [if_pos h, h]
    exact (Bool.and_false _).symm
  · rw [if_neg h, (bne_iff_ne).mpr h, Bool.and_true]

variable [Inhabited α]

theorem wf_new (capacity : Nat) : (new capacity : MPSCQueue α).Wf := by
  have hpos : 0 < if capacity = 0 then 1 else capacity := by
    split <;> omega
  exact ⟨hpos, List.length_replicate, hpos, Nat.zero_le _,
    (Nat.zero_mod _).symm⟩

@[simp] theorem contents_length (q : MPSCQueue α) :
    q.contents.length = q.count := Ring.window_length _ _ _

/-- A push that finds room puts its element behind all the others. -/
theorem contents_pushLocked {q : MPSCQueue α} (hq : q.Wf) (v : α) :
    (q.pushLocked v).2.contents =
      q.contents ++ if (q.pushLocked v).1 then [v] else [] := by
  have hle := hq.count_le
  have hlen := hq.slots_length
  rw [MPSCQueue.pushLocked]
  split
  · exact (List.append_nil _).symm
  · next hroom =>
      show Ring.window (q.slots.set q.tail v) q.head (q.count + 1) = _
      rw [hq.tail_eq, ← hlen]
      exact Ring.window_push q.head v (by omega)

@[simp] theorem contents_pushUnlocked (q : MPSCQueue α) (ok : Bool) :
    (q.pushUnlocked ok).2.contents = q.contents := by
  cases ok <;> rfl

@[simp] theorem contents_lowerFlag (q : MPSCQueue α) :
    q.lowerFlag.contents = q.contents := by
  rw [lowerFlag]; split <;> rfl

theorem Wf.popFront {q : MPSCQueue α} (hq : q.Wf) (h : 0 < q.count) :
    q.popFront.Wf := by
  have hle := hq.count_le
  refine ⟨hq.cap_pos, List.length_set.trans hq.slots_length,
    Nat.mod_lt _ hq.cap_pos, ?_, ?_⟩
  · show q.count - 1 ≤ q.cap
    omega
  · show q.tail = ((q.head + 1) % q.cap + (q.count - 1)) % q.cap
    rw [hq.tail_eq, Nat.mod_add_mod, Nat.add_assoc, Nat.add_sub_cancel' h]

/-- The front slot holds the oldest element. -/
theorem contents_eq_cons {q : MPSCQueue α} (hq : q.Wf) (h : 0 < q.count) :
    q.contents = q.slots.getD q.head default :: q.popFront.contents := by
  have hle := hq.count_le
  have hlen := hq.slots_length
  have hhead := hq.head_lt
  have hpop := Ring.window_pop (default : α)
    (show q.head < q.slots.length by omega)
    (show q.count - 1 < q.slots.length by omega)
  rw [Nat.sub_add_cancel h, hlen] at hpop
  exact hpop

/-- All that a drain does to the queue: a prefix of at most `n` elements
leaves it, and the rest stays. -/
structure Takes (n : Nat) (q q' : MPSCQueue α) (taken : List α) : Prop where
  wf : q'.Wf
  cap : q'.cap = q.cap
  dropped : q'.dropped = q.dropped
  taken : taken = q.contents.take n
  contents : q'.contents = q.contents.drop n

theorem drainLoop_takes (n : Nat) : ∀ {q : MPSCQueue α} (out : List α),
    q.Wf → ∃ taken, (drainLoop n q out).2 = out ++ taken ∧
      Takes n q (drainLoop n q out).1 taken ∧
      (drainLoop n q out).1.hasPending = q.hasPending := by
  induction n with
  | zero =>
      intro q out hq
      exact ⟨[], (List.append_nil _).symm, ⟨hq, rfl, rfl, rfl, rfl⟩, rfl⟩
  | succ n ih =>
      intro q out hq
      rw [drainLoop]
      by_cases hcount : q.count > 0
      · obtain ⟨taken, hout, htakes, hpend⟩ := ih
          (out ++ [q.slots.getD q.head default]) (hq.popFront hcount)
        rw [if_pos hcount, hout, List.append_assoc, List.singleton_append]
        refine ⟨_, rfl, ⟨htakes.wf, htakes.cap, htakes.dropped, ?_, ?_⟩, hpend⟩
        · rw [contents_eq_cons hq hcount, List.take_succ_cons, htakes.taken]
        · rw [contents_eq_cons hq hcount, List.drop_succ_cons, htakes.contents]
      · have hnil : q.contents = [] :=
          List.length_eq_zero_iff.mp (by rw [contents_length]; omega)
        rw [if_neg hcount]
        refine ⟨[], (List.append_nil _).symm, ⟨hq, rfl, rfl, ?_, ?_⟩, rfl⟩
        · rw [hnil, List.take_nil]
        · rw [hnil, List.drop_nil]

/-- And the flag is down if the queue was left empty, and as it was if not. -/
theorem drain_takes {q : MPSCQueue α} (hq : q.Wf) (out : List α)
    {maxBatch : Nat} (hmax : maxBatch ≠ 0) :
    ∃ taken, (q.drain out maxBatch).2 = out ++ taken ∧
      Takes maxBatch q (q.drain out maxBatch).1 taken ∧
      (q.drain out maxBatch).1.hasPending =
        (q.hasPending && (q.drain out maxBatch).1.count != 0) := by
  obtain ⟨taken, hout, htakes, hpend⟩ := drainLoop_takes maxBatch out hq
  rw [drain, if_neg hmax]
  refine ⟨taken, hout, ⟨htakes.wf.lowerFlag, ?_, ?_, htakes.taken, ?_⟩, ?_⟩
  · exact (lowerFlag_cap _).trans htakes.cap
  · exact (lowerFlag_dropped _).trans htakes.dropped
  · exact (contents_lowerFlag _).trans htakes.contents
  · rw [← hpend]
    show (lowerFlag _).hasPending = (_ && (lowerFlag _).count != 0)
    rw [lowerFlag_hasPending, lowerFlag_count]

theorem drain_zero (q : MPSCQueue α) (out : List α) :
    q.drain out 0 = (q, out) := rfl

/-- Whatever the size of the batch, what was in the queue is what was taken
and what is left. -/
theorem drain_splits {q : MPSCQueue α} (hq : q.Wf) (out : List α)
    (maxBatch : Nat) :
    ∃ taken, (q.drain out maxBatch).2 = out ++ taken ∧
      (q.drain out maxBatch).1.Wf ∧
      (q.drain out maxBatch).1.cap = q.cap ∧
      (q.drain out maxBatch).1.dropped = q.dropped ∧
      taken ++ (q.drain out maxBatch).1.contents = q.contents ∧
      taken.length = min maxBatch q.count := by
  by_cases hmax : maxBatch = 0
  · rw [hmax, drain_zero]
    exact ⟨[], (List.append_nil _).symm, hq, rfl, rfl, rfl, by simp⟩
  · obtain ⟨taken, hout, htakes, -⟩ := drain_takes hq out hmax
    refine ⟨taken, hout, htakes.wf, htakes.cap, htakes.dropped, ?_, ?_⟩
    · rw [htakes.taken, htakes.contents, List.take_append_drop]
    · rw [htakes.taken, List.length_take, contents_length]

end MPSCQueue

end GameFrame
