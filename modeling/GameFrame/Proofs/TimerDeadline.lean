import GameFrame.Net.TimerQueue

/-!
# Deadlines in 64 bits

Nothing in `run_after` or `to_itimerspec` looks at the size of what it
computes. So all that can be said of a deadline is said of the integers, as
long as these fit (`runAfter_eq`, `toItimerspec_eq`), and past the end of the
64 bits nothing can (`punctual_iff`). Within, it is what a `TimerQueue` computes
(`runAfter_queue`, `resetTimerfd_queue`).
-/

namespace GameFrame.TimerSpec

/-! ## The time point -/

/-- The delay in nanoseconds fits, and the sum does. -/
def DelayFits (now delayMs : Int64) : Prop :=
  -9223372036854 ≤ delayMs.toInt ∧ delayMs.toInt ≤ 9223372036854 ∧
    Fits (now.toInt + delayMs.toInt * 1000000)

theorem DelayFits.product {now delayMs : Int64} (h : DelayFits now delayMs) :
    Fits (delayMs.toInt * 1000000) := by
  obtain ⟨hlow, hhigh, -⟩ := h
  constructor
  · omega
  · omega

theorem runAfter_eq {now delayMs : Int64} (h : DelayFits now delayMs) :
    ∃ at', runAfter now delayMs = some at' ∧
      at'.toInt = now.toInt + delayMs.toInt * 1000000 := by
  have hns := h.product
  obtain ⟨hlow, hhigh, hsum⟩ := h
  refine ⟨Int64.ofInt (now.toInt + delayMs.toInt * 1000000), ?_,
    toInt_ofInt hsum⟩
  rw [runAfter, int64?_fits hns, Option.bind_some, toInt_ofInt hns,
    int64?_fits hsum]

theorem runAfter_none {now delayMs : Int64} (h : ¬ DelayFits now delayMs) :
    runAfter now delayMs = none := by
  by_cases hns : Fits (delayMs.toInt * 1000000)
  · have hsum : ¬ Fits (now.toInt + delayMs.toInt * 1000000) := by
      intro hsum
      obtain ⟨hlow, hhigh⟩ := hns
      refine h ⟨?_, ?_, hsum⟩
      · omega
      · omega
    rw [runAfter, int64?_fits hns, Option.bind_some, toInt_ofInt hns,
      int64?_not hsum]
  · rw [runAfter, int64?_not hns]
    rfl

/-! ## What the timerfd is set to -/

/-- How long it is from `now` to `expiration`, and one nanosecond at least. -/
def wait (now expiration : Int) : Int :=
  if expiration - now < 1 then 1 else expiration - now

/-- The parts of an `itimerspec` are in their ranges and not both zero, and
they make up that many nanoseconds. -/
structure Sets (spec : Itimerspec) (ns : Int) : Prop where
  sec : 0 ≤ spec.tvSec.toInt
  nsec : 0 ≤ spec.tvNsec.toInt ∧ spec.tvNsec.toInt < 1000000000
  nonzero : spec.tvSec.toInt ≠ 0 ∨ spec.tvNsec.toInt ≠ 0
  total : spec.tvSec.toInt * 1000000000 + spec.tvNsec.toInt = ns

theorem toItimerspec_eq {now expiration : Int64}
    (h : Fits (expiration.toInt - now.toInt)) :
    ∃ spec, toItimerspec now expiration = some spec ∧
      Sets spec (wait now.toInt expiration.toInt) := by
  have hdiff := toInt_ofInt h
  obtain ⟨remaining, hrem, hwait⟩ : ∃ remaining : Int64,
      remaining = (if (Int64.ofInt (expiration.toInt - now.toInt)).toInt < 1
        then 1 else Int64.ofInt (expiration.toInt - now.toInt)) ∧
      remaining.toInt = wait now.toInt expiration.toInt := by
    refine ⟨_, rfl, ?_⟩
    rw [wait, hdiff]
    split
    · rfl
    · exact hdiff
  have hpos : 1 ≤ remaining.toInt := by
    rw [hwait, wait]
    split
    · omega
    · omega
  have hhigh := (fits_toInt remaining).2
  have hsec : seconds remaining = remaining.toInt / 1000000000 :=
    Int.tdiv_eq_ediv_of_nonneg (by omega)
  have hsecs : Fits (seconds remaining) := by
    rw [hsec]
    constructor
    · omega
    · omega
  have hrest : Fits (remaining.toInt - seconds remaining * 1000000000) := by
    rw [hsec]
    constructor
    · omega
    · omega
  refine ⟨⟨Int64.ofInt (seconds remaining),
    Int64.ofInt (remaining.toInt - seconds remaining * 1000000000)⟩, ?_, ?_⟩
  · rw [toItimerspec, int64?_fits h, Option.map_some, ← hrem]
  · refine ⟨?_, ?_, ?_, ?_⟩
    · rw [toInt_ofInt hsecs, hsec]
      omega
    · rw [toInt_ofInt hrest, hsec]
      omega
    · rw [toInt_ofInt hrest, toInt_ofInt hsecs, hsec]
      omega
    · rw [toInt_ofInt hrest, toInt_ofInt hsecs, ← hwait]
      omega

theorem toItimerspec_none {now expiration : Int64}
    (h : ¬ Fits (expiration.toInt - now.toInt)) :
    toItimerspec now expiration = none := by
  rw [toItimerspec, int64?_not h]
  rfl

/-! ## Both -/

/-- The timerfd is set for a time point, read at `now`. -/
def Armed (now expiration : Int64) : Prop :=
  ∃ spec, resetTimerfd now expiration = some spec ∧
    Sets spec (wait now.toInt expiration.toInt)

/-- `run_after` of a delay, called when the clock says `now`, for a timerfd
that is set when it says `later`; and `run_at` of a time point. -/
structure Punctual (now later delayMs expiration : Int64) : Prop where
  after : ∃ at', runAfter now delayMs = some at' ∧
    at'.toInt = now.toInt + delayMs.toInt * 1000000 ∧ Armed later at'
  at' : Armed later expiration
  mono : ∀ longer at₁ at₂, delayMs ≤ longer →
    runAfter now delayMs = some at₁ → runAfter now longer = some at₂ →
    at₁ ≤ at₂

/-- The delay leaves room for the sum, and the clock for both differences. -/
structure Room (now later delayMs expiration : Int64) : Prop where
  delay : DelayFits now delayMs
  after : Fits (now.toInt + delayMs.toInt * 1000000 - later.toInt)
  at' : Fits (expiration.toInt - later.toInt)

theorem armed_iff {now expiration : Int64} :
    Armed now expiration ↔ Fits (expiration.toInt - now.toInt) := by
  constructor
  · rintro ⟨spec, hspec, -⟩
    by_cases h : Fits (expiration.toInt - now.toInt)
    · exact h
    · rw [resetTimerfd, toItimerspec_none h] at hspec
      cases hspec
  · exact toItimerspec_eq

/-- A longer delay, as far as there is a time point for it. -/
theorem runAfter_mono {now delayMs longer at₁ at₂ : Int64}
    (hle : delayMs ≤ longer) (h₁ : runAfter now delayMs = some at₁)
    (h₂ : runAfter now longer = some at₂) : at₁ ≤ at₂ := by
  have hvalue : ∀ {d a : Int64}, runAfter now d = some a →
      a.toInt = now.toInt + d.toInt * 1000000 := by
    intro d a h
    by_cases hfits : DelayFits now d
    · obtain ⟨a', ha', hval⟩ := runAfter_eq hfits
      cases h.symm.trans ha'
      exact hval
    · rw [runAfter_none hfits] at h
      cases h
  have hle' := Int64.le_iff_toInt_le.mp hle
  rw [Int64.le_iff_toInt_le, hvalue h₁, hvalue h₂]
  omega

theorem room_of_punctual {now later delayMs expiration : Int64}
    (h : Punctual now later delayMs expiration) :
    Room now later delayMs expiration := by
  obtain ⟨at', hat, hval, harmed⟩ := h.after
  refine ⟨?_, ?_, armed_iff.mp h.at'⟩
  · by_cases hfits : DelayFits now delayMs
    · exact hfits
    · rw [runAfter_none hfits] at hat
      cases hat
  · rw [← hval]
    exact armed_iff.mp harmed

/-- The longest delay there is, a millisecond after the machine has been
started. -/
theorem deadline_overflows :
    ¬ ∀ now later delayMs expiration : Int64,
      Punctual now later delayMs expiration := by
  intro hall
  have hroom := room_of_punctual
    (hall 1000000 1000000 9223372036854775807 2000000)
  exact absurd hroom.delay.2.1 (by decide)

/-- Deadlines are what they ought to be if and only if there is room for the
numbers. -/
theorem punctual_iff (now later delayMs expiration : Int64) :
    Punctual now later delayMs expiration ↔
      Room now later delayMs expiration := by
  constructor
  · exact room_of_punctual
  · intro h
    obtain ⟨at', hat, hval⟩ := runAfter_eq h.delay
    refine ⟨⟨at', hat, hval, ?_⟩, armed_iff.mpr h.at', ?_⟩
    · rw [armed_iff, hval]
      exact h.after
    · intro longer at₁ at₂ hle h₁ h₂
      exact runAfter_mono hle h₁ h₂

/-! ## The same of the queue -/

theorem runAfter_queue {q : TimerQueue} {now delayMs at' : Int64}
    (hnow : q.now = now.toInt) (h : runAfter now delayMs = some at')
    (cb : Bool) : q.runAfter delayMs.toInt cb = q.runAt at'.toInt cb := by
  by_cases hfits : DelayFits now delayMs
  · obtain ⟨a, ha, hval⟩ := runAfter_eq hfits
    cases h.symm.trans ha
    rw [TimerQueue.runAfter, hval, hnow, wrap64_fits hfits.product,
      wrap64_fits hfits.2.2]
  · rw [runAfter_none hfits] at h
    cases h

theorem resetTimerfd_queue {q : TimerQueue} {now earliest : Int64}
    (hnow : q.now = now.toInt) {spec : Itimerspec}
    (h : resetTimerfd now earliest = some spec) :
    (q.resetTimerfd earliest.toInt).armed =
      some (q.now + (spec.tvSec.toInt * 1000000000 + spec.tvNsec.toInt)) := by
  by_cases hfits : Fits (earliest.toInt - now.toInt)
  · obtain ⟨spec', hspec, hsets⟩ := toItimerspec_eq hfits
    cases h.symm.trans hspec
    rw [hsets.total, TimerQueue.resetTimerfd, wait, hnow, wrap64_fits hfits]
    dsimp only
    congr 2
    split
    · omega
    · omega
  · rw [resetTimerfd, toItimerspec_none hfits] at h
    cases h

end GameFrame.TimerSpec
