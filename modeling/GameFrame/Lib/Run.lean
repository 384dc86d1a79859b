/-!
# Runs of a partial step function

A system is given here by one function `σ → ℓ → Option σ`. The label says
which of the things that could happen next does happen, together with
everything the environment decides about it, and `none` says that this thing
cannot happen in this state. A run is then nothing but a list of labels, and
what holds along every run is proved once, from what one step preserves.

The second half is about runs on their good behaviour: `Meets` says that every
step of a run satisfied some condition in the state it started from, which is
how a law that holds only away from a defect is stated over whole runs.
-/

namespace Machine

variable {σ : Type _} {ℓ : Type _} {step : σ → ℓ → Option σ}

/-- The state a schedule reaches, if each of its labels can be taken. -/
def run (step : σ → ℓ → Option σ) (s : σ) (ls : List ℓ) : Option σ :=
  ls.foldlM step s

@[simp] theorem run_nil (s : σ) : run step s [] = some s := rfl

theorem run_cons (s : σ) (l : ℓ) (ls : List ℓ) :
    run step s (l :: ls) = (step s l).bind fun s' => run step s' ls := rfl

theorem run_cons_some {s t : σ} {l : ℓ} {ls : List ℓ} :
    run step s (l :: ls) = some t ↔
      ∃ s', step s l = some s' ∧ run step s' ls = some t := by
  rw [run_cons, Option.bind_eq_some_iff]

theorem run_append_some {s t : σ} {ls ms : List ℓ} :
    run step s (ls ++ ms) = some t ↔
      ∃ s', run step s ls = some s' ∧ run step s' ms = some t := by
  rw [run, List.foldlM_append]
  exact Option.bind_eq_some_iff

/-- A run, and one step behind it. -/
theorem run_snoc_some {s t : σ} {l : ℓ} {ls : List ℓ} :
    run step s (ls ++ [l]) = some t ↔
      ∃ s', run step s ls = some s' ∧ step s' l = some t := by
  rw [run_append_some]
  simp [run_cons]

/-- Every step of the schedule satisfies `ok` in the state it starts from. -/
def Meets (step : σ → ℓ → Option σ) (ok : σ → ℓ → Prop) : σ → List ℓ → Prop
  | _, [] => True
  | s, l :: ls => ok s l ∧ ∀ s', step s l = some s' → Meets step ok s' ls

theorem meets_cons {ok : σ → ℓ → Prop} {s s' : σ} {l : ℓ} {ls : List ℓ}
    (h : step s l = some s') :
    Meets step ok s (l :: ls) ↔ ok s l ∧ Meets step ok s' ls := by
  refine and_congr_right fun _ => ⟨fun hall => hall s' h, ?_⟩
  intro hmeets t ht
  cases h.symm.trans ht
  exact hmeets

theorem meets_cons_stuck {ok : σ → ℓ → Prop} {s : σ} {l : ℓ} {ls : List ℓ}
    (h : step s l = none) : Meets step ok s (l :: ls) ↔ ok s l :=
  and_iff_left fun _ hs => nomatch h.symm.trans hs

/-- On a given schedule the condition is tested by running it. -/
def decideMeets (ok : σ → ℓ → Prop) [∀ s l, Decidable (ok s l)] :
    ∀ (s : σ) (ls : List ℓ), Decidable (Meets step ok s ls)
  | _, [] => isTrue trivial
  | s, l :: ls =>
      match h : step s l with
      | none => decidable_of_iff _ (meets_cons_stuck h).symm
      | some s' =>
          have := decideMeets ok s' ls
          decidable_of_iff _ (meets_cons h).symm

instance (ok : σ → ℓ → Prop) [∀ s l, Decidable (ok s l)] (s : σ)
    (ls : List ℓ) : Decidable (Meets step ok s ls) :=
  decideMeets ok s ls

/-- What every well-behaved step preserves, a well-behaved run preserves. -/
theorem run_preserves_of_meets {ok : σ → ℓ → Prop} {P : σ → Prop}
    (hstep : ∀ {s l s'}, P s → ok s l → step s l = some s' → P s')
    {ls : List ℓ} : ∀ {s t : σ}, P s → Meets step ok s ls →
      run step s ls = some t → P t := by
  induction ls with
  | nil =>
      intro s t hs _ hrun
      obtain rfl : s = t := by simpa using hrun
      exact hs
  | cons l ls ih =>
      intro s t hs hok hrun
      obtain ⟨s', hs', hrest⟩ := run_cons_some.mp hrun
      exact ih (hstep hs hok.1 hs') (hok.2 s' hs') hrest

/-- A condition on steps that keeps a property, and that every step meets which
does not break it, is met by the runs that have the property all the way. -/
theorem meets_iff {ok : σ → ℓ → Prop} {I P : σ → Prop}
    (hstep : ∀ {s l s'}, I s → ok s l → step s l = some s' → I s')
    (hgood : ∀ {s}, I s → P s)
    (hbad : ∀ {s l s'}, I s → step s l = some s' → P s' → ok s l)
    {ls : List ℓ} : ∀ {s t : σ}, I s → run step s ls = some t →
      (Meets step ok s ls ↔
        ∀ k u, run step s (ls.take k) = some u → P u) := by
  induction ls with
  | nil =>
      intro s t hs _
      refine iff_of_true trivial fun k u hu => ?_
      rw [List.take_nil] at hu
      obtain rfl : s = u := by simpa using hu
      exact hgood hs
  | cons l ls ih =>
      intro s t hs hrun
      obtain ⟨s', hs', hrest⟩ := run_cons_some.mp hrun
      rw [meets_cons hs']
      constructor
      · rintro ⟨hok, hmeets⟩ k u hu
        cases k with
        | zero =>
            obtain rfl : s = u := by simpa using hu
            exact hgood hs
        | succ k =>
            obtain ⟨s₁, hs₁, hu⟩ := run_cons_some.mp hu
            cases hs'.symm.trans hs₁
            exact (ih (hstep hs hok hs') hrest).mp hmeets k u hu
      · intro hall
        have hok : ok s l := by
          refine hbad hs hs' (hall 1 s' ?_)
          exact run_cons_some.mpr ⟨s', hs', rfl⟩
        refine ⟨hok, (ih (hstep hs hok hs') hrest).mpr fun k u hu => ?_⟩
        exact hall (k + 1) u (run_cons_some.mpr ⟨s', hs', hu⟩)

/-- What the steps of a schedule preserve, each with its own label, the run
preserves. -/
theorem run_preserves_of_mem {P : σ → Prop} {ls : List ℓ}
    (hstep : ∀ {s l s'}, l ∈ ls → P s → step s l = some s' → P s')
    {s t : σ} (hs : P s) (hrun : run step s ls = some t) : P t := by
  induction ls generalizing s with
  | nil =>
      obtain rfl : s = t := by simpa using hrun
      exact hs
  | cons l ls ih =>
      obtain ⟨s', hs', hrest⟩ := run_cons_some.mp hrun
      exact ih (fun hm => hstep (List.mem_cons_of_mem l hm))
        (hstep List.mem_cons_self hs hs') hrest

/-- What every step preserves, every run preserves. -/
theorem run_preserves {P : σ → Prop}
    (hstep : ∀ {s l s'}, P s → step s l = some s' → P s')
    {s t : σ} (hs : P s) {ls : List ℓ} (hrun : run step s ls = some t) :
    P t :=
  run_preserves_of_mem (fun _ hs hl => hstep hs hl) hs hrun

/-- What is a step or several of another machine, seen through `f`, makes runs
of that one out of runs. -/
theorem run_simulates {τ : Type _} {m : Type _} {step' : τ → m → Option τ}
    {f : σ → τ}
    (hstep : ∀ {s l s'}, step s l = some s' →
      ∃ ms, run step' (f s) ms = some (f s'))
    {s t : σ} {ls : List ℓ} (hrun : run step s ls = some t) :
    ∃ ms, run step' (f s) ms = some (f t) := by
  induction ls generalizing s with
  | nil =>
      obtain rfl : s = t := by simpa using hrun
      exact ⟨[], rfl⟩
  | cons l ls ih =>
      obtain ⟨s', hs', hrest⟩ := run_cons_some.mp hrun
      obtain ⟨ms, hfirst⟩ := hstep hs'
      obtain ⟨ms', hlater⟩ := ih hrest
      exact ⟨ms ++ ms', run_append_some.mpr ⟨f s', hfirst, hlater⟩⟩

/-- The machine with a memory of one bit: whether the step of a `hit` has been
taken since the last one of a `mark`, that one included. -/
def since (step : σ → ℓ → Option σ) (mark hit : σ → ℓ → Bool) (s : σ × Bool)
    (l : ℓ) : Option (σ × Bool) :=
  (step s.1 l).map fun t => (t, !mark s.1 l && s.2 || hit s.1 l)

theorem since_some {mark hit : σ → ℓ → Bool} {s s' : σ × Bool} {l : ℓ} :
    since step mark hit s l = some s' ↔ step s.1 l = some s'.1 ∧
      s'.2 = (!mark s.1 l && s.2 || hit s.1 l) := by
  rw [since, Option.map_eq_some_iff]
  refine ⟨?_, fun ⟨hs, hb⟩ => ⟨s'.1, hs, ?_⟩⟩
  · rintro ⟨t, hs, rfl⟩
    exact ⟨hs, rfl⟩
  · rw [← hb]

/-- One schedule that ends badly. -/
theorem not_forall_of_run {P : σ → Prop} [DecidablePred P] {s : σ}
    (ls : List ℓ) (h : (run step s ls).any (fun t => !decide (P t)) = true) :
    ¬ ∀ (ls : List ℓ) (t : σ), run step s ls = some t → P t := by
  intro hall
  obtain ⟨t, ht, hbad⟩ := (Option.any_eq_true _ _).mp h
  exact absurd (hall ls t ht) (by simpa using hbad)

end Machine
