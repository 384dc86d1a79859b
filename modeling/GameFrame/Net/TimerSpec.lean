/-!
# The arithmetic of a `TimerQueue`

`run_after`, `to_itimerspec` and `reset_timerfd` of `src/timer_queue.cpp`, on
the 64-bit counts of `std::chrono`. The steady clock counts nanoseconds, so a
delay in milliseconds is multiplied before it is added. A sum, a product or a
difference that does not fit is undefined, and is `none` here. A program goes
on behind one all the same, with what its machine makes of it (`wrap64`).
-/

namespace GameFrame

/-- The result of an operation on `int64_t`, if there is one. -/
def int64? (x : Int) : Option Int64 :=
  if -9223372036854775808 ≤ x ∧ x ≤ 9223372036854775807 then
    some (Int64.ofInt x)
  else none

/-- The result that a machine of two's complement gives. -/
def wrap64 (x : Int) : Int := (Int64.ofInt x).toInt

/-- `it_value` of an `itimerspec`. -/
structure Itimerspec where
  tvSec : Int64
  tvNsec : Int64
  deriving DecidableEq

namespace TimerSpec

/-- The time point of `run_after(delay_ms, cb)` when the clock says `now`: the
milliseconds as nanoseconds, and the sum. -/
def runAfter (now delayMs : Int64) : Option Int64 :=
  (int64? (delayMs.toInt * 1000000)).bind fun ns =>
    int64? (now.toInt + ns.toInt)

/-- `duration_cast<seconds>`, towards zero. -/
def seconds (ns : Int64) : Int := ns.toInt.tdiv 1000000000

/-- `to_itimerspec(expiration)` when the clock says `now`. -/
def toItimerspec (now expiration : Int64) : Option Itimerspec :=
  (int64? (expiration.toInt - now.toInt)).map fun remaining =>
    let remaining := if remaining.toInt < 1 then 1 else remaining
    { tvSec := Int64.ofInt (seconds remaining)
      tvNsec := Int64.ofInt
        (remaining.toInt - seconds remaining * 1000000000) }

/-- `reset_timerfd(earliest)`: what the timerfd is set to, from now on. -/
def resetTimerfd (now earliest : Int64) : Option Itimerspec :=
  toItimerspec now earliest

/-! ## What fits -/

/-- It is an `int64_t`. -/
def Fits (x : Int) : Prop :=
  -9223372036854775808 ≤ x ∧ x ≤ 9223372036854775807

instance (x : Int) : Decidable (Fits x) := inferInstanceAs (Decidable (_ ∧ _))

theorem fits_toInt (x : Int64) : Fits x.toInt := by
  have hlow : -9223372036854775808 ≤ x.toInt := x.le_toInt
  have hhigh : x.toInt < 9223372036854775808 := x.toInt_lt
  constructor
  · exact hlow
  · omega

theorem toInt_ofInt {x : Int} (h : Fits x) : (Int64.ofInt x).toInt = x := by
  obtain ⟨hlow, hhigh⟩ := h
  refine Int64.toInt_ofInt_of_le hlow ?_
  show x < 9223372036854775808
  omega

theorem int64?_fits {x : Int} (h : Fits x) : int64? x = some (Int64.ofInt x) :=
  if_pos h

theorem int64?_not {x : Int} (h : ¬ Fits x) : int64? x = none := if_neg h

/-- What fits is what it would be without a bound. -/
theorem wrap64_fits {x : Int} (h : Fits x) : wrap64 x = x := toInt_ofInt h

end TimerSpec

end GameFrame
