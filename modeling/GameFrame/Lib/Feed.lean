/-!
# Decoders fed in chunks

A decoder that is handed a stream piece by piece keeps what it could not use
yet and is called again when more has arrived. Whether the cuts show in what
it produces is a property of one call alone, and it has two halves. If a call
accepts, then calling again on what it left, with more behind it, must give
what one call on all of it would have given; and if a call refuses, more input
behind the place it stopped at must change nothing.

`Resumable` is those two halves. `feed` is the loop around the decoder, and
`feed_eq` is the result: for a resumable decoder the frames, the verdict and
the unused rest do not depend on where the stream was cut. The rest is kept
abstract, so that a decoder with a state of its own fits too; all that is asked
of it is that input can be pushed behind it.
-/

namespace Feed

variable {β : Type _} {φ : Type _} {ρ : Type _}

/-- What a call leaves: its verdict, the frames it found, and the rest. -/
structure Outcome (φ : Type _) (ρ : Type _) where
  ok : Bool
  frames : List φ
  rest : ρ
  deriving DecidableEq, Repr

/-- The same outcome, with frames found earlier put in front. -/
def Outcome.after (o : Outcome φ ρ) (fs : List φ) : Outcome φ ρ :=
  { o with frames := fs ++ o.frames }

@[simp] theorem Outcome.after_ok (o : Outcome φ ρ) (fs : List φ) :
    (o.after fs).ok = o.ok := rfl

@[simp] theorem Outcome.after_rest (o : Outcome φ ρ) (fs : List φ) :
    (o.after fs).rest = o.rest := rfl

@[simp] theorem Outcome.after_frames (o : Outcome φ ρ) (fs : List φ) :
    (o.after fs).frames = fs ++ o.frames := rfl

@[simp] theorem Outcome.after_nil (o : Outcome φ ρ) : o.after [] = o := rfl

theorem Outcome.after_after (o : Outcome φ ρ) (es fs : List φ) :
    (o.after fs).after es = o.after (es ++ fs) := by
  simp [Outcome.after]

/-- How input is put behind what a decoder has kept: pushing nothing does
nothing, and two pushes are one. -/
structure Pushes (push : ρ → List β → ρ) : Prop where
  nil : ∀ r, push r [] = r
  append : ∀ r s t, push (push r s) t = push r (s ++ t)

theorem pushes_append : Pushes (fun r s : List β => r ++ s) :=
  ⟨List.append_nil, fun r s t => List.append_assoc r s t⟩

/-- One call behaves as a first half: an accepting call can be resumed, a
refusing one is final. -/
structure Resumable (push : ρ → List β → ρ) (decode : ρ → Outcome φ ρ) :
    Prop where
  resume : ∀ r t, (decode r).ok = true →
    decode (push r t) =
      (decode (push (decode r).rest t)).after (decode r).frames
  refuse : ∀ r t, (decode r).ok = false →
    decode (push r t) = { decode r with rest := push (decode r).rest t }

/-- The loop around a decoder: push a chunk, call, and go on while it
accepts. Chunks that were not reached are counted into the rest. -/
def feed (push : ρ → List β → ρ) (decode : ρ → Outcome φ ρ) :
    ρ → List (List β) → Outcome φ ρ
  | r, [] => ⟨true, [], r⟩
  | r, c :: cs =>
      let o := decode (push r c)
      if o.ok then (feed push decode o.rest cs).after o.frames
      else { o with rest := push o.rest cs.flatten }

variable {push : ρ → List β → ρ} {decode : ρ → Outcome φ ρ}

/-- A rest the decoder has nothing to take from. -/
def Drained (decode : ρ → Outcome φ ρ) (r : ρ) : Prop :=
  decode r = ⟨true, [], r⟩

/-- An accepting call leaves a drained rest: resume it with nothing. -/
theorem Resumable.drained (hd : Resumable push decode) (hp : Pushes push)
    {r : ρ} (hok : (decode r).ok = true) : Drained decode (decode r).rest := by
  have h := hd.resume r [] hok
  rw [hp.nil, hp.nil] at h
  have hok' : (decode (decode r).rest).ok = true := by
    rw [h, Outcome.after_ok] at hok; exact hok
  have hfr : (decode (decode r).rest).frames = [] := by
    have := congrArg Outcome.frames h
    simpa using this
  have hrest : (decode (decode r).rest).rest = (decode r).rest := by
    have := congrArg Outcome.rest h
    simpa using this.symm
  rw [Drained, ← hok', ← hfr]
  exact congrArg (Outcome.mk _ _) hrest

/-- The cuts do not show: feeding a stream in chunks is one call on all of
it. -/
theorem feed_eq (hd : Resumable push decode) (hp : Pushes push)
    {cs : List (List β)} : ∀ {r : ρ}, Drained decode r →
      feed push decode r cs = decode (push r cs.flatten) := by
  induction cs with
  | nil =>
      intro r hr
      rw [feed, List.flatten_nil, hp.nil, hr]
  | cons c cs ih =>
      intro r hr
      rw [feed, List.flatten_cons, ← hp.append]
      split
      · next hok =>
          rw [ih (hd.drained hp hok)]
          exact (hd.resume _ _ hok).symm
      · next hok =>
          exact (hd.refuse _ _ (by simpa using hok)).symm

end Feed
