import GameFrame.Util.MPSCQueue

/-!
# The queue with its threads

Producers are named by an arbitrary type, so there may be as many as one
likes, and each may push again and again. What is atomic is what the source
makes atomic: the critical section of a push, what a push does after it (one
atomic operation on either path), a whole drain, and `take_dropped`. A
schedule is a list of labels that says whose turn it is.

The consumer is there too, as far as the wake-ups concern it. It owes an
answer to every `wake_up` it was given, and answering means draining until a
drain leaves the queue empty. It may also drain whenever else it likes.

The rest of the state only records what happened: which elements were stored
and which were taken, how many pushes came back, and, newest first, the
wake-ups handed out and the drains that left the queue empty.
-/

namespace GameFrame

/-- Where a producer is: outside of `push`, or between the two halves of it,
with its element stored or refused. -/
inductive Pc where
  | idle
  | inserted
  | refused
  deriving DecidableEq, Repr

/-- The two things the wake-up protocol is about. -/
inductive Mark where
  | wake
  | emptied
  deriving DecidableEq, Repr

structure QueueThreads (α ι : Type _) where
  queue : MPSCQueue α
  pc : ι → Pc
  outstanding : Nat
  draining : Bool
  inserted : List α
  drained : List α
  okPushes : Nat
  completed : Nat
  taken : Nat
  marks : List Mark

namespace QueueThreads

inductive Label (α ι : Type _) where
  | enter (p : ι) (v : α)
  | finish (p : ι)
  | drain (maxBatch : Nat)
  | takeDropped
  | answer
  deriving Repr

variable {α ι : Type _} [Inhabited α]

def init (capacity : Nat) : QueueThreads α ι where
  queue := .new capacity
  pc := fun _ => .idle
  outstanding := 0
  draining := false
  inserted := []
  drained := []
  okPushes := 0
  completed := 0
  taken := 0
  marks := []

variable [DecidableEq ι]

def setPc (w : QueueThreads α ι) (p : ι) (c : Pc) : ι → Pc :=
  fun i => if i = p then c else w.pc i

/-- `p` runs the critical section of `push(v)`. -/
def enter (w : QueueThreads α ι) (p : ι) (v : α) : QueueThreads α ι :=
  { w with
    queue := (w.queue.pushLocked v).2
    pc := w.setPc p (if (w.queue.pushLocked v).1 then .inserted else .refused)
    inserted := w.inserted ++ if (w.queue.pushLocked v).1 then [v] else [] }

/-- `p` comes back from `push`, with its element stored or not. -/
def finish (w : QueueThreads α ι) (p : ι) (ok : Bool) : QueueThreads α ι :=
  let wakeUp := (w.queue.pushUnlocked ok).1.wakeUp
  { w with
    queue := (w.queue.pushUnlocked ok).2
    pc := w.setPc p .idle
    okPushes := w.okPushes + if ok then 1 else 0
    completed := w.completed + 1
    outstanding := w.outstanding + if wakeUp then 1 else 0
    marks := (if wakeUp then [.wake] else []) ++ w.marks }

/-- The consumer drains. -/
def drain (w : QueueThreads α ι) (maxBatch : Nat) : QueueThreads α ι :=
  let out := w.queue.drain w.drained maxBatch
  let emptied := maxBatch ≠ 0 && out.1.count = 0
  { w with
    queue := out.1
    drained := out.2
    draining := w.draining && !emptied
    marks := (if emptied then [.emptied] else []) ++ w.marks }

/-- One atomic section, of whichever thread it is the turn. -/
def step (w : QueueThreads α ι) : Label α ι → Option (QueueThreads α ι)
  | .enter p v =>
      match w.pc p with
      | .idle => some (w.enter p v)
      | _ => none
  | .finish p =>
      match w.pc p with
      | .idle => none
      | .inserted => some (w.finish p true)
      | .refused => some (w.finish p false)
  | .drain maxBatch => some (w.drain maxBatch)
  | .takeDropped =>
      some
        { w with
          queue := w.queue.takeDropped.2
          taken := w.taken + w.queue.takeDropped.1 }
  | .answer =>
      if w.outstanding > 0 && !w.draining then
        some { w with outstanding := w.outstanding - 1, draining := true }
      else none

/-- No push is between its critical section and its exchange. -/
def Quiet (w : QueueThreads α ι) : Prop :=
  ∀ p, w.pc p ≠ .inserted

end QueueThreads

end GameFrame
