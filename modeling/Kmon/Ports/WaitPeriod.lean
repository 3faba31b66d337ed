import Kmon.Verified.WhileLoop
import Mathlib.Data.BitVec

/-!
# The wait between two exports

Every collector waits for its `period`, in milliseconds, between two exports.  `waitPeriod`
(`src/collector/collector.go`) does so in slices of a second, and polls `done` before each
of them.

An `int` is a word of 64 bits here, and an operation whose result does not fit wraps around
and leaves a mark.  The period comes from the configuration and is not checked:
`period - interval` wraps for the smallest periods, and the conversion to nanoseconds for
many more.

`waitsExactly_iff` says for which periods the wait is right, and `waitPeriod_never_returns`
shows periods that are waited for without an end.
-/

namespace Kmon.Ports.WaitPeriod

open Kmon.Verified

/-- `time.Millisecond`, in nanoseconds. -/
def millisecond : BitVec 64 := 1000000

/-- `interval`. -/
def interval : BitVec 64 := 1000

/-- What `waitPeriod` does: it polls `done`, or calls `time.Sleep`. -/
inductive Event where
  | poll
  | sleep (d : BitVec 64)
  deriving DecidableEq, Repr

/-- `waitPeriod` under way: its counter, what it has done, and whether an operation has
wrapped around. -/
structure Progress where
  passTime : BitVec 64
  events : List Event
  overflow : Bool
  deriving DecidableEq, Repr

namespace Progress

/-- The number of times `done` was polled. -/
def polls (c : Progress) : Nat := c.events.count .poll

/-- `select { case <-done: ... default: ... }`. -/
def poll (c : Progress) : Progress := { c with events := c.events ++ [.poll] }

/-- A mark, if an operation has wrapped around. -/
def mark (c : Progress) (wrapped : Bool) : Progress := { c with overflow := c.overflow || wrapped }

/-- `time.Sleep(time.Duration(n) * time.Millisecond)`. -/
def sleep (c : Progress) (n : BitVec 64) : Progress :=
  { (c.mark (n.smulOverflow millisecond)) with
    events := c.events ++ [.sleep (n * millisecond)] }

/-- `passTime += interval`. -/
def advance (c : Progress) : Progress :=
  { (c.mark (c.passTime.saddOverflow interval)) with passTime := c.passTime + interval }

/-- The body of the loop without a signal, and what follows it. -/
def slice (c : Progress) : Progress := (c.poll.sleep interval).advance

/-- The wait behind the loop without a signal. -/
def last (c : Progress) (period : BitVec 64) : Progress :=
  (c.poll.mark (period.ssubOverflow c.passTime)).sleep (period - c.passTime)

end Progress

/-- One round of the loop, or what follows the loop.  `done k` says whether the poll after
`k` others finds a signal. -/
def round (period : BitVec 64) (done : Nat → Bool) (c : Progress) :
    Progress ⊕ (Bool × Progress) :=
  let c := c.mark (period.ssubOverflow interval)
  if c.passTime.slt (period - interval) then
    if done c.polls then .inr (true, c.poll)
    else .inl c.slice
  else
    if done c.polls then .inr (true, c.poll)
    else .inr (false, c.last period)

/-- `waitPeriod`, in a bounded number of rounds. -/
def waitPeriod (fuel : Nat) (period : BitVec 64) (done : Nat → Bool) : Option (Bool × Progress) :=
  WhileLoop.run (round period done) fuel ⟨0, [], false⟩

/-- A channel that is never signalled. -/
def never (_ : Nat) : Bool := false

/-- The arguments of `time.Sleep`. -/
def sleeps : List Event → List (BitVec 64)
  | [] => []
  | .poll :: events => sleeps events
  | .sleep d :: events => d :: sleeps events

/-- The nanoseconds that `time.Sleep` takes: none for an argument below zero. -/
def slept (d : BitVec 64) : Int := max d.toInt 0

/-- The time slept. -/
def total (events : List Event) : Int := ((sleeps events).map slept).sum

/-- A poll before every slice, and no slice longer than a second. -/
structure Sliced (events : List Event) : Prop where
  polled : events = (sleeps events).flatMap fun d => [.poll, .sleep d]
  short : ∀ d ∈ sleeps events, slept d ≤ 1000 * 1000000

/-- The wait was right: not interrupted, sliced, as long as the period, and without an
operation that wrapped around. -/
structure Waited (period : BitVec 64) (r : Bool × Progress) : Prop where
  completed : r.1 = false
  sliced : Sliced r.2.events
  total : total r.2.events = max period.toInt 0 * 1000000
  exact : r.2.overflow = false

/-- The wait ends, and is right. -/
def WaitsExactly (period : BitVec 64) : Prop :=
  ∃ fuel r, waitPeriod fuel period never = some r ∧ Waited period r

/-! ## Slices -/

theorem sleeps_append (events events' : List Event) :
    sleeps (events ++ events') = sleeps events ++ sleeps events' := by
  induction events with
  | nil => rfl
  | cons e events ih =>
      cases e with
      | poll => exact ih
      | sleep d => exact congrArg (d :: ·) ih

theorem sliced_nil : Sliced [] := ⟨rfl, fun d hd => by cases hd⟩

/-- One more slice. -/
theorem Sliced.append {events : List Event} (h : Sliced events) {d : BitVec 64}
    (hd : slept d ≤ 1000 * 1000000) : Sliced (events ++ [.poll, .sleep d]) := by
  have hsleeps : sleeps (events ++ [.poll, .sleep d]) = sleeps events ++ [d] :=
    sleeps_append _ _
  refine ⟨?_, fun d' hd' => ?_⟩
  · rw [hsleeps, List.flatMap_append, ← h.polled]
    rfl
  · rw [hsleeps, List.mem_append, List.mem_singleton] at hd'
    rcases hd' with hold | rfl
    · exact h.short d' hold
    · exact hd

theorem total_append (events : List Event) (d : BitVec 64) :
    total (events ++ [.poll, .sleep d]) = total events + slept d := by
  rw [total, sleeps_append, List.map_append, List.sum_append]
  simp [sleeps, total]

/-! ## Operations that do not wrap around -/

theorem toInt_interval : interval.toInt = 1000 := by decide

theorem toInt_millisecond : millisecond.toInt = 1000000 := by decide

theorem ssubOverflow_eq_false_iff (a b : BitVec 64) :
    a.ssubOverflow b = false ↔ -2 ^ 63 ≤ a.toInt - b.toInt ∧ a.toInt - b.toInt < 2 ^ 63 := by
  unfold BitVec.ssubOverflow
  simp only [Bool.or_eq_false_iff, decide_eq_false_iff_not]
  omega

theorem saddOverflow_eq_false_iff (a b : BitVec 64) :
    a.saddOverflow b = false ↔ -2 ^ 63 ≤ a.toInt + b.toInt ∧ a.toInt + b.toInt < 2 ^ 63 := by
  unfold BitVec.saddOverflow
  simp only [Bool.or_eq_false_iff, decide_eq_false_iff_not]
  omega

/-- The milliseconds that can be converted. -/
theorem smulOverflow_eq_false_iff (n : BitVec 64) :
    n.smulOverflow millisecond = false ↔
      -9223372036854 ≤ n.toInt ∧ n.toInt ≤ 9223372036854 := by
  unfold BitVec.smulOverflow
  rw [toInt_millisecond]
  simp only [Bool.or_eq_false_iff, decide_eq_false_iff_not]
  omega

theorem toInt_sub {a b : BitVec 64} (h : a.ssubOverflow b = false) :
    (a - b).toInt = a.toInt - b.toInt :=
  BitVec.toInt_sub_of_not_ssubOverflow (Bool.eq_false_iff.1 h)

/-- A wait of `n` milliseconds, if they can be converted. -/
theorem slept_mul_millisecond {n : BitVec 64} (h : n.smulOverflow millisecond = false) :
    slept (n * millisecond) = max n.toInt 0 * 1000000 := by
  have hmul := BitVec.toInt_mul_of_not_smulOverflow (Bool.eq_false_iff.1 h)
  rw [slept, hmul, toInt_millisecond]
  omega

/-- A period that is not too small for the bound of the loop. -/
theorem interval_fits {period : BitVec 64} (h : -9223372036854 ≤ period.toInt) :
    period.ssubOverflow interval = false := by
  have hlt := period.toInt_lt
  rw [ssubOverflow_eq_false_iff, toInt_interval]
  omega

/-! ## One round -/

namespace Progress

variable (c : Progress) (period : BitVec 64)

theorem slice_events : c.slice.events = c.events ++ [.poll, .sleep (interval * millisecond)] :=
  List.append_assoc _ _ _

theorem slice_passTime : c.slice.passTime = c.passTime + interval := rfl

theorem slice_overflow : c.slice.overflow = (c.overflow || c.passTime.saddOverflow interval) :=
  congrArg (· || _) (Bool.or_false _)

theorem last_events :
    (c.last period).events =
      c.events ++ [.poll, .sleep ((period - c.passTime) * millisecond)] :=
  List.append_assoc _ _ _

theorem last_overflow :
    (c.last period).overflow =
      ((c.overflow || period.ssubOverflow c.passTime) ||
        (period - c.passTime).smulOverflow millisecond) := rfl

end Progress

/-- The loop, after some slices of a second. -/
structure Underway (period : BitVec 64) (c : Progress) : Prop where
  nonneg : 0 ≤ c.passTime.toInt
  left : c.passTime.toInt = 0 ∨ c.passTime.toInt < period.toInt
  sliced : Sliced c.events
  total : total c.events = c.passTime.toInt * 1000000
  exact : c.overflow = false

theorem underway_start (period : BitVec 64) : Underway period ⟨0, [], false⟩ :=
  ⟨by decide, .inl rfl, sliced_nil, rfl, rfl⟩

variable {period : BitVec 64} {c : Progress}

/-- The bound of the loop is not reached. -/
theorem toInt_passTime_slice (hc : Underway period c)
    (hbound : c.passTime.toInt < period.toInt - 1000) :
    c.passTime.saddOverflow interval = false ∧
      c.slice.passTime.toInt = c.passTime.toInt + 1000 := by
  have hadd : c.passTime.saddOverflow interval = false := by
    have hlt := period.toInt_lt
    have hnonneg := hc.nonneg
    rw [saddOverflow_eq_false_iff, toInt_interval]
    omega
  refine ⟨hadd, ?_⟩
  rw [Progress.slice_passTime, BitVec.toInt_add_of_not_saddOverflow (Bool.eq_false_iff.1 hadd),
    toInt_interval]

/-- A slice in the loop. -/
theorem Underway.slice (hc : Underway period c)
    (hbound : c.passTime.toInt < period.toInt - 1000) : Underway period c.slice := by
  obtain ⟨hadd, hpass⟩ := toInt_passTime_slice hc hbound
  have hnonneg := hc.nonneg
  have hslept : slept (interval * millisecond) = 1000 * 1000000 := by decide
  constructor
  · omega
  · omega
  · rw [Progress.slice_events]
    exact hc.sliced.append (by rw [hslept])
  · rw [Progress.slice_events, total_append, hc.total, hslept, hpass]
    omega
  · rw [Progress.slice_overflow, hc.exact, hadd]
    rfl

/-- The wait behind the loop. -/
theorem Underway.last (hc : Underway period c) (hperiod : -9223372036854 ≤ period.toInt)
    (hbound : period.toInt - 1000 ≤ c.passTime.toInt) : Waited period (false, c.last period) := by
  have hnonneg := hc.nonneg
  have hleft := hc.left
  have hsub : period.ssubOverflow c.passTime = false := by
    rw [ssubOverflow_eq_false_iff]
    omega
  have hrest := toInt_sub hsub
  have hmul : (period - c.passTime).smulOverflow millisecond = false := by
    rw [smulOverflow_eq_false_iff, hrest]
    omega
  have hslept := slept_mul_millisecond hmul
  rw [hrest] at hslept
  constructor
  · rfl
  · dsimp only
    rw [Progress.last_events]
    apply hc.sliced.append
    rw [hslept]
    omega
  · dsimp only
    rw [Progress.last_events, total_append, hc.total, hslept]
    omega
  · dsimp only
    rw [Progress.last_overflow, hc.exact, hsub, hmul]
    rfl

/-- A round without a signal, if the bound of the loop does not wrap around. -/
theorem round_never (hfits : period.ssubOverflow interval = false) (c : Progress) :
    round period never c =
      if c.passTime.toInt < period.toInt - 1000 then .inl c.slice
      else .inr (false, c.last period) := by
  have hmark : c.mark (period.ssubOverflow interval) = c := by
    rw [hfits, Progress.mark, Bool.or_false]
  have hslt : c.passTime.slt (period - interval) = true ↔
      c.passTime.toInt < period.toInt - 1000 := by
    rw [BitVec.slt_iff_toInt_lt, toInt_sub hfits, toInt_interval]
  unfold round
  rw [hmark]
  exact if_congr hslt rfl rfl

/-! ## The wait -/

/-- A period that can be converted is waited for. -/
theorem waitsExactly_of_le (hperiod : -9223372036854 ≤ period.toInt) : WaitsExactly period := by
  have hround := round_never (interval_fits hperiod)
  apply WhileLoop.exists_run (fun c => (period.toInt - c.passTime.toInt).toNat) ?_
    (underway_start period)
  intro c hc
  rw [hround]
  by_cases hbound : c.passTime.toInt < period.toInt - 1000
  · obtain ⟨-, hpass⟩ := toInt_passTime_slice hc hbound
    refine .inl ⟨_, if_pos hbound, hc.slice hbound, ?_⟩
    omega
  · exact .inr ⟨_, if_neg hbound, hc.last hperiod (Int.not_lt.1 hbound)⟩

/-- A period for which the bound of the loop wraps around leaves its mark on every result. -/
theorem overflow_of_bound (hwraps : period.ssubOverflow interval = true) {fuel : Nat}
    {done : Nat → Bool} {r : Bool × Progress} (hrun : waitPeriod fuel period done = some r) :
    r.2.overflow = true := by
  have hmark : ∀ c : Progress, (c.mark (period.ssubOverflow interval)).overflow = true := by
    intro c
    rw [hwraps]
    exact Bool.or_true _
  have hleave : ∀ (c : Progress) (r : Bool × Progress), True →
      round period done c = .inr r → r.2.overflow = true := by
    intro c r _ hround
    unfold round at hround
    dsimp only at hround
    split at hround
    · split at hround
      · cases hround
        exact hmark c
      · cases hround
    · split at hround
      · cases hround
        exact hmark c
      · cases hround
        rw [Progress.last_overflow, hmark]
        rfl
  have hkeep : ∀ c c' : Progress, True → round period done c = .inl c' → True :=
    fun _ _ _ _ => trivial
  exact WhileLoop.run_post hkeep hleave trivial hrun

/-- So does one that cannot be converted: the loop is left at once. -/
theorem overflow_of_conversion (hfits : period.ssubOverflow interval = false)
    (hperiod : period.toInt < -9223372036854) {fuel : Nat} {r : Bool × Progress}
    (hrun : waitPeriod fuel period never = some r) : r.2.overflow = true := by
  have hbound : ¬(0 : BitVec 64).toInt < period.toInt - 1000 := by
    have hzero : (0 : BitVec 64).toInt = 0 := by decide
    omega
  have hleave : round period never ⟨0, [], false⟩ =
      .inr (false, Progress.last ⟨0, [], false⟩ period) :=
    (round_never hfits _).trans (if_neg hbound)
  have hmul : period.smulOverflow millisecond = true := by
    by_contra hno
    have := (smulOverflow_eq_false_iff period).1 (Bool.eq_false_iff.2 hno)
    omega
  cases fuel with
  | zero => cases hrun
  | succ fuel =>
      rw [waitPeriod, WhileLoop.run_of_inr hleave] at hrun
      cases hrun
      have hrest : period - (0 : BitVec 64) = period := BitVec.sub_zero period
      rw [Progress.last_overflow, hrest, hmul]
      exact Bool.or_true _

/-- A smaller period is not waited for. -/
theorem not_waitsExactly (hperiod : period.toInt < -9223372036854) : ¬WaitsExactly period := by
  rintro ⟨fuel, r, hrun, hwaited⟩
  have hoverflow : r.2.overflow = true := by
    cases hfits : period.ssubOverflow interval with
    | true => exact overflow_of_bound hfits hrun
    | false => exact overflow_of_conversion hfits hperiod hrun
  rw [hwaited.exact] at hoverflow
  cases hoverflow

/-- **A wait is exact unless its period is below zero and cannot be converted to
nanoseconds.** -/
theorem waitsExactly_iff (period : BitVec 64) :
    WaitsExactly period ↔ -9223372036854 ≤ period.toInt := by
  constructor
  · intro hexact
    by_contra hsmall
    exact not_waitsExactly (Int.not_le.1 hsmall) hexact
  · exact waitsExactly_of_le

/-- A period below zero that becomes a sleep of 292 years. -/
theorem sleeps_for_negative_period :
    let period : BitVec 64 := BitVec.ofInt 64 (-9223372036855)
    waitPeriod 1 period never =
        some (false, ⟨0, [.poll, .sleep 9223372036854551616], true⟩) ∧
      slept 9223372036854551616 = 9223372036854551616 ∧ ¬WaitsExactly period :=
  ⟨by decide, by decide, not_waitsExactly (by decide)⟩

/-! ## Waits without an end -/

/-- The bound of the loop for the smallest periods: it is above every multiple of eight. -/
theorem bound_of_smallest (hsmall : -2 ^ 63 + 993 ≤ period.toInt)
    (hlarge : period.toInt < -2 ^ 63 + 1000) :
    (period - interval).toInt = period.toInt - 1000 + 2 ^ 64 := by
  rw [BitVec.toInt_sub, toInt_interval, Int.bmod_def]
  omega

/-- The counter is a multiple of eight, also after it has wrapped around. -/
theorem passTime_slice_mod (hc : c.passTime.toNat % 8 = 0) :
    c.slice.passTime.toNat % 8 = 0 := by
  have hinterval : interval.toNat = 1000 := rfl
  rw [Progress.slice_passTime, BitVec.toNat_add, hinterval]
  omega

/-- **Some periods are waited for without an end**: the counter wraps around before it
reaches the bound of the loop. -/
theorem waitPeriod_never_returns (hsmall : -2 ^ 63 + 993 ≤ period.toInt)
    (hlarge : period.toInt < -2 ^ 63 + 1000) (fuel : Nat) :
    waitPeriod fuel period never = none := by
  have hround : ∀ c : Progress, c.passTime.toNat % 8 = 0 →
      ∃ c', round period never c = .inl c' ∧ c'.passTime.toNat % 8 = 0 := by
    intro c hc
    refine ⟨(c.mark (period.ssubOverflow interval)).slice, ?_, passTime_slice_mod hc⟩
    have hslt : c.passTime.slt (period - interval) = true := by
      rw [BitVec.slt_iff_toInt_lt, bound_of_smallest hsmall hlarge,
        BitVec.toInt_eq_toNat_cond]
      have hlt := c.passTime.isLt
      split <;> omega
    exact if_pos hslt
  exact WhileLoop.run_eq_none hround fuel rfl

end Kmon.Ports.WaitPeriod
