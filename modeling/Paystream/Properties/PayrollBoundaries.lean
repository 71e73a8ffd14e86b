import Paystream.Properties.PayrollWindows
import Paystream.Properties.Periods

/-!
# The boundaries of the payroll report

The loop of `buildPeriods` in rounded numbers.  Its cursor goes from one `boundary`
to the next (`cursorAt_cases`), and there are three ways for it to go on
(`loop_cases`).

* It comes to the end of the interval.
* It comes to a boundary past the last date, and is `NaN` from there on.
* It never ends: a boundary is so large that the period added to it is rounded away.
  Boundaries that are moved forward reach every end.
-/

namespace Paystream
namespace Properties

open Library
open Library.Format
open Services.BalanceService (DurationType LoopError)
open Services.PayrollReport

/-! ## Boundaries -/

/-- The duration types for which there is a period to add. -/
def HasPeriod (customPeriodSecs : Option JsNumber) : DurationType → Prop
  | .custom => ∃ period, customPeriodSecs = some period ∧ 0 < period
  | .unknown _ => False
  | _ => True

/-- The seconds that are added to the cursor where no date is used. -/
def periodSecs (durationType : DurationType) (customPeriodSecs : Option JsNumber) :
    JsNumber :=
  match durationType with
  | .weekly => JsNumber.ofInt (7 * 86400)
  | .custom => customPeriodSecs.getD 0
  | _ => 0

/-- The boundary behind the first `k` periods, whether it is a date or not. -/
def boundary (durationType : DurationType) (customPeriodSecs : Option JsNumber)
    (start : JsNumber) (k : Nat) : ℚ :=
  if usesDates durationType then
    ((boundaryAfter durationType none)^[k] ⌊start.val⌋ : Int)
  else
    ((· + periodSecs durationType customPeriodSecs)^[k] start).val

/-- The value of `nextCursor` where it does not throw. -/
def nextOf (durationType : DurationType) (customPeriodSecs : Option JsNumber)
    (cursor : JsNumber) : Option JsNumber :=
  if usesDates durationType then
    (cursorAfter durationType none ⌊cursor.val⌋).map JsNumber.ofInt
  else
    some (cursor + periodSecs durationType customPeriodSecs)

/-- The cursor after `k` iterations. -/
def cursorAt (durationType : DurationType) (customPeriodSecs : Option JsNumber)
    (start : JsNumber) : Nat → Option JsNumber
  | 0 => some start
  | k + 1 =>
      (cursorAt durationType customPeriodSecs start k).bind
        (nextOf durationType customPeriodSecs)

/-! ## Dates -/

section Dates

/-- A whole second makes a date unless it is past the last one. -/
theorem newDate_of_whole {cursor : JsNumber} {n : ℕ} (hcursor : cursor.val = n) :
    newDate (cursor * JsNumber.ofInt 1000) = Calendar.timeClip ((n : ℤ) * 1000) := by
  have hthousand : (JsNumber.ofInt 1000).val = 1000 := by
    exact_mod_cast val_ofInt (n := 1000) (by decide)
  have hval : (cursor * JsNumber.ofInt 1000).val = binary64.round ((n : ℚ) * 1000) := by
    rw [← hcursor, ← hthousand]
    rfl
  unfold newDate Calendar.timeClip
  rw [hval]
  by_cases hdate : (n : ℤ) * 1000 ≤ Calendar.maxTime
  · have hmax : Calendar.maxTime ≤ 2 ^ 53 := by decide
    have hnumber : binary64.IsNumber (((n : ℤ) * 1000 : ℤ) : ℚ) := by
      refine isNumber_intCast ?_
      rw [abs_of_nonneg (by positivity)]
      exact hdate.trans hmax
    have hround : binary64.round ((n : ℚ) * 1000) = (((n : ℤ) * 1000 : ℤ) : ℚ) := by
      rw [← round_of_isNumber hnumber]
      push_cast
      rfl
    rw [hround, if_pos ?_, if_pos ?_]
    · rw [Rat.num_intCast, Rat.den_intCast, Nat.cast_one, Int.tdiv_one]
    · exact ⟨by unfold Calendar.maxTime; omega, hdate⟩
    · rw [abs_of_nonneg (by positivity)]
      exact_mod_cast hdate
  · -- the product is at least the first whole number past the range
    have hlarge : Calendar.maxTime + 1 ≤ (n : ℤ) * 1000 := by omega
    have hnumber : binary64.IsNumber ((Calendar.maxTime + 1 : ℤ) : ℚ) :=
      isNumber_intCast (by decide)
    have hround : ((Calendar.maxTime + 1 : ℤ) : ℚ) ≤ binary64.round ((n : ℚ) * 1000) :=
      le_round hnumber (by exact_mod_cast hlarge)
    rw [if_neg ?_, if_neg (fun h => hdate h.2)]
    push_cast at hround
    intro hle
    have habs := le_abs_self (binary64.round ((n : ℚ) * 1000))
    linarith

theorem secondsOf_whole {m : ℤ} (h : |m| ≤ maxDate) :
    secondsOf (m * 1000) = JsNumber.ofInt m := by
  have hthousand : (JsNumber.ofInt 1000).val = 1000 := by
    exact_mod_cast val_ofInt (n := 1000) (by decide)
  have htime : (JsNumber.ofInt (m * 1000)).val = (m : ℚ) * 1000 := by
    have hsmall : |m * 1000| ≤ 2 ^ 53 := by
      unfold maxDate at h
      rw [abs_mul]
      have hconst : |(1000 : ℤ)| = 1000 := by decide
      rw [hconst]
      omega
    rw [val_ofInt hsmall]
    push_cast
    rfl
  have hsmall : |m| ≤ 2 ^ 53 := h.trans (by decide)
  have hquotient : (JsNumber.ofInt (m * 1000) / JsNumber.ofInt 1000).val = m := by
    show binary64.round ((JsNumber.ofInt (m * 1000)).val / (JsNumber.ofInt 1000).val) = m
    rw [htime, hthousand, mul_div_assoc, div_self (by norm_num), mul_one]
    exact round_of_isNumber (isNumber_intCast hsmall)
  unfold secondsOf JsNumber.floor
  rw [hquotient, Int.floor_intCast]

/-- The step of a date by whole seconds. -/
theorem date_step {n m : ℤ} (move : Int → Option Int)
    (hmove : move (n * 1000) = Calendar.timeClip (m * 1000)) :
    ((Calendar.timeClip (n * 1000)).bind fun d => (move d).bind fun d =>
        some (secondsOf d)) =
      (if IsDate n ∧ IsDate m then some m else none).map JsNumber.ofInt := by
  rw [timeClip_seconds]
  by_cases hnow : IsDate n
  · rw [if_pos hnow, Option.bind_some, hmove, timeClip_seconds]
    by_cases hnext : IsDate m
    · rw [if_pos hnext, if_pos ⟨hnow, hnext⟩, Option.bind_some,
        secondsOf_whole (abs_le.mpr hnext)]
      rfl
    · rw [if_neg hnext, if_neg (fun h => hnext h.2)]
      rfl
  · rw [if_neg hnow, if_neg (fun h => hnow h.1)]
    rfl

end Dates

/-- The next cursor from a whole second, where dates are used. -/
theorem nextCursor_eq {durationType : DurationType} {customPeriodSecs : Option JsNumber}
    (h : HasPeriod customPeriodSecs durationType) {cursor : JsNumber}
    (hwhole : usesDates durationType = true → ∃ n : ℕ, cursor.val = n) :
    nextCursor durationType customPeriodSecs cursor =
      .ok (nextOf durationType customPeriodSecs cursor) := by
  cases durationType with
  | daily =>
      obtain ⟨n, hn⟩ := hwhole rfl
      have hstep := date_step
        (fun d => Calendar.setUTCDate d (Calendar.getUTCDate d + 1)) (setUTCDate_seconds n)
      unfold nextCursor nextOf
      rw [newDate_of_whole hn, hn]
      refine congrArg Except.ok ?_
      simp only [usesDates, cursorAfter, boundaryAfter, true_imp_iff, if_true,
        Int.floor_natCast, Option.bind_eq_bind, Option.pure_def]
      exact hstep
  | weekly => rfl
  | monthly =>
      obtain ⟨n, hn⟩ := hwhole rfl
      have hstep := date_step
        (fun d => Calendar.setUTCMonth d (Calendar.getUTCMonth d + 1))
        (setUTCMonth_seconds n)
      unfold nextCursor nextOf
      rw [newDate_of_whole hn, hn]
      refine congrArg Except.ok ?_
      simp only [usesDates, cursorAfter, boundaryAfter, true_imp_iff, if_true,
        Int.floor_natCast, Option.bind_eq_bind, Option.pure_def]
      exact hstep
  | custom =>
      obtain ⟨period, rfl, hpos⟩ := h
      unfold nextCursor
      simp only [Option.getD_some, if_neg (not_le.mpr hpos)]
      rfl
  | unknown name => exact absurd h id

/-! ## The cursor -/

section Cursor

variable {durationType : DurationType} {customPeriodSecs : Option JsNumber}
  {start : JsNumber}

theorem supported_of_usesDates (h : usesDates durationType = true) :
    Supported none durationType := by
  cases durationType with
  | daily => trivial
  | monthly => trivial
  | weekly => cases h
  | custom => cases h
  | unknown name => cases h

theorem boundary_of_dates (h : usesDates durationType = true) (k : Nat) :
    boundary durationType customPeriodSecs start k =
      ((boundaryAfter durationType none)^[k] ⌊start.val⌋ : Int) := if_pos h

theorem boundary_of_seconds (h : ¬ usesDates durationType = true) (k : Nat) :
    boundary durationType customPeriodSecs start k =
      ((· + periodSecs durationType customPeriodSecs)^[k] start).val := if_neg h

theorem periodSecs_nonneg (h : HasPeriod customPeriodSecs durationType) :
    0 ≤ periodSecs durationType customPeriodSecs := by
  cases durationType with
  | weekly => exact round_nonneg (by norm_num)
  | custom =>
      obtain ⟨period, rfl, hpos⟩ := h
      exact hpos.le
  | daily => exact le_rfl
  | monthly => exact le_rfl
  | unknown name => exact absurd h id

theorem periodSecs_pos (h : HasPeriod customPeriodSecs durationType)
    (hdates : ¬ usesDates durationType = true) :
    0 < (periodSecs durationType customPeriodSecs).val := by
  cases durationType with
  | weekly =>
      have hval : (JsNumber.ofInt (7 * 86400)).val = (7 * 86400 : ℤ) :=
        val_ofInt (by decide)
      show (0 : ℚ) < (JsNumber.ofInt (7 * 86400)).val
      rw [hval]
      norm_num
  | custom =>
      obtain ⟨period, rfl, hpos⟩ := h
      exact hpos
  | daily => exact absurd rfl hdates
  | monthly => exact absurd rfl hdates
  | unknown name => exact absurd h id

theorem le_add_period (h : HasPeriod customPeriodSecs durationType) (cursor : JsNumber) :
    cursor ≤ cursor + periodSecs durationType customPeriodSecs := by
  have hperiod : (0 : ℚ) ≤ (periodSecs durationType customPeriodSecs).val :=
    periodSecs_nonneg h
  exact le_round cursor.property (le_add_of_nonneg_right hperiod)

variable (durationType customPeriodSecs) in
theorem boundary_zero (hwhole : ∃ n : ℕ, start.val = n) :
    boundary durationType customPeriodSecs start 0 = start.val := by
  obtain ⟨n, hn⟩ := hwhole
  by_cases hdates : usesDates durationType = true
  · rw [boundary_of_dates hdates, Function.iterate_zero_apply, hn, Int.floor_natCast,
      Int.cast_natCast]
  · rw [boundary_of_seconds hdates, Function.iterate_zero_apply]

variable (customPeriodSecs start) in
theorem boundary_lt_succ_of_dates (h : usesDates durationType = true) (k : Nat) :
    boundary durationType customPeriodSecs start k <
      boundary durationType customPeriodSecs start (k + 1) := by
  rw [boundary_of_dates h, boundary_of_dates h, Function.iterate_succ_apply']
  exact_mod_cast boundaryAfter_gt (supported_of_usesDates h) _

variable (start) in
theorem boundary_mono (h : HasPeriod customPeriodSecs durationType) :
    Monotone (boundary durationType customPeriodSecs start) := by
  refine monotone_nat_of_le_succ ?_
  intro k
  by_cases hdates : usesDates durationType = true
  · exact (boundary_lt_succ_of_dates customPeriodSecs start hdates k).le
  · rw [boundary_of_seconds hdates, boundary_of_seconds hdates,
      Function.iterate_succ_apply']
    exact le_add_period h _

variable (customPeriodSecs start) in
theorem boundary_succ_of_seconds (h : ¬ usesDates durationType = true) (k : Nat) :
    boundary durationType customPeriodSecs start (k + 1) =
      binary64.round (boundary durationType customPeriodSecs start k +
        (periodSecs durationType customPeriodSecs).val) := by
  rw [boundary_of_seconds h, boundary_of_seconds h, Function.iterate_succ_apply',
    Number.coe_add]

theorem start_le_boundary (h : HasPeriod customPeriodSecs durationType)
    (hwhole : ∃ n : ℕ, start.val = n) (k : Nat) :
    start.val ≤ boundary durationType customPeriodSecs start k := by
  rw [← boundary_zero durationType customPeriodSecs hwhole]
  exact boundary_mono start h (Nat.zero_le k)

theorem boundary_nonneg (h : HasPeriod customPeriodSecs durationType)
    (hwhole : ∃ n : ℕ, start.val = n) (k : Nat) :
    0 ≤ boundary durationType customPeriodSecs start k := by
  have hstart := start_le_boundary h hwhole k
  obtain ⟨n, hn⟩ := hwhole
  rw [hn] at hstart
  exact (Nat.cast_nonneg n).trans hstart

/-- From the second boundary on a period is not longer than the time before it. -/
theorem boundary_le_double (h : HasPeriod customPeriodSecs durationType)
    (hwhole : ∃ n : ℕ, start.val = n) (hdates : ¬ usesDates durationType = true)
    (k : Nat) :
    boundary durationType customPeriodSecs start (k + 2) ≤
      2 * boundary durationType customPeriodSecs start (k + 1) := by
  have hstep := boundary_succ_of_seconds customPeriodSecs start hdates
  have hperiod : (periodSecs durationType customPeriodSecs).val ≤
      boundary durationType customPeriodSecs start (k + 1) := by
    rw [hstep k]
    exact le_round (periodSecs durationType customPeriodSecs).property
      (le_add_of_nonneg_left (boundary_nonneg h hwhole k))
  have hnumber : binary64.IsNumber
      (boundary durationType customPeriodSecs start (k + 1)) := by
    rw [hstep k]
    exact isNumber_round _
  have hdouble : boundary durationType customPeriodSecs start (k + 1) +
      (periodSecs durationType customPeriodSecs).val ≤
        2 * boundary durationType customPeriodSecs start (k + 1) := by
    linarith
  have hrounded := round_le (isNumber_double hnumber) hdouble
  rwa [← hstep (k + 1)] at hrounded

/-- A boundary that is not moved forward is the last one. -/
theorem boundary_eq_of_stuck (h : ¬ usesDates durationType = true) {k : Nat}
    (hstuck : boundary durationType customPeriodSecs start (k + 1) =
      boundary durationType customPeriodSecs start k) (m : Nat) :
    boundary durationType customPeriodSecs start (m + k) =
      boundary durationType customPeriodSecs start k := by
  rw [boundary_of_seconds h, boundary_of_seconds h, Function.iterate_succ_apply'] at hstuck
  rw [boundary_of_seconds h, boundary_of_seconds h, Function.iterate_add_apply]
  exact congrArg Subtype.val (Function.iterate_fixed (Subtype.ext hstuck) m)

/-- A step from a whole second is exact, or goes past the last date. -/
theorem nextOf_of_dates (h : usesDates durationType = true) {cursor : JsNumber} {t : ℤ}
    (hcursor : cursor.val = t) (hnonneg : 0 ≤ t) :
    (∃ next, nextOf durationType customPeriodSecs cursor = some next ∧
      next.val = boundaryAfter durationType none t ∧
      boundaryAfter durationType none t ≤ maxDate) ∨
    (nextOf durationType customPeriodSecs cursor = none ∧
      maxDate < boundaryAfter durationType none t) := by
  have hforward := boundaryAfter_gt (supported_of_usesDates h) t
  unfold nextOf
  rw [if_pos h, hcursor, Int.floor_intCast]
  rcases cursorAfter_cases durationType none t with ⟨hsome, hboth⟩ | ⟨hnone, _, hnot⟩
  · have hdate := (hboth h).2
    have hexact : |boundaryAfter durationType none t| ≤ 2 ^ 53 :=
      (abs_le.mpr hdate).trans (by decide)
    rw [hsome, Option.map_some]
    exact Or.inl ⟨_, rfl, val_ofInt hexact, hdate.2⟩
  · rw [hnone, Option.map_none]
    refine Or.inr ⟨rfl, ?_⟩
    have hleast : -maxDate ≤ 0 := by decide
    by_contra hle
    exact hnot ⟨⟨by omega, by omega⟩, by omega, by omega⟩

/-- Dates that start at a whole second are not before the epoch. -/
theorem iterate_nonneg_of_dates (hwhole : ∃ n : ℕ, start.val = n)
    (hdates : usesDates durationType = true) (k : Nat) :
    0 ≤ (boundaryAfter durationType none)^[k] ⌊start.val⌋ := by
  obtain ⟨n, hn⟩ := hwhole
  have hstart : (0 : ℤ) ≤ ⌊start.val⌋ := by
    rw [hn, Int.floor_natCast]
    exact Int.natCast_nonneg n
  exact hstart.trans (le_iterate_boundaryAfter (supported_of_usesDates hdates) _ k)

/-- The cursor is the boundary, and is `NaN` from the first one that is no date. -/
theorem cursorAt_cases (hwhole : ∃ n : ℕ, start.val = n) (k : Nat) :
    (∃ cursor, cursorAt durationType customPeriodSecs start k = some cursor ∧
      cursor.val = boundary durationType customPeriodSecs start k ∧
      (usesDates durationType = true → k ≠ 0 →
        boundary durationType customPeriodSecs start k ≤ maxDate)) ∨
    (cursorAt durationType customPeriodSecs start k = none ∧
      usesDates durationType = true ∧
      maxDate < boundary durationType customPeriodSecs start k) := by
  induction k with
  | zero =>
      refine Or.inl ⟨start, rfl, (boundary_zero durationType customPeriodSecs hwhole).symm, ?_⟩
      intro _ hzero
      exact absurd rfl hzero
  | succ k ih =>
      -- only a date can fail to exist; a sum is always a number
      by_cases hdates : usesDates durationType = true
      · have hnonneg := iterate_nonneg_of_dates hwhole hdates k
        have hforward := boundary_lt_succ_of_dates customPeriodSecs start hdates k
        rw [boundary_of_dates hdates] at ih hforward
        rw [boundary_of_dates hdates, Function.iterate_succ_apply'] at hforward ⊢
        unfold cursorAt
        rcases ih with ⟨cursor, hcursor, hval, _⟩ | ⟨hnan, _, hpast⟩
        · rw [hcursor, Option.bind_some]
          rcases nextOf_of_dates hdates hval hnonneg with
            ⟨next, hnext, hexact, hdate⟩ | ⟨hnone, hlate⟩
          · exact Or.inl ⟨next, hnext, hexact, fun _ _ => by exact_mod_cast hdate⟩
          · exact Or.inr ⟨hnone, hdates, by exact_mod_cast hlate⟩
        · rw [hnan, Option.bind_none]
          exact Or.inr ⟨rfl, hdates, hpast.trans hforward⟩
      · rw [boundary_of_seconds hdates] at ih
        rw [boundary_of_seconds hdates, Function.iterate_succ_apply']
        unfold cursorAt
        rcases ih with ⟨cursor, hcursor, hval, _⟩ | ⟨_, huses, _⟩
        · have hsame : cursor =
              (· + periodSecs durationType customPeriodSecs)^[k] start := Subtype.ext hval
          rw [hcursor, Option.bind_some, hsame]
          unfold nextOf
          rw [if_neg hdates]
          exact Or.inl ⟨_, rfl, rfl, fun huses => absurd huses hdates⟩
        · exact absurd huses hdates

theorem val_cursorAt (hwhole : ∃ n : ℕ, start.val = n) {k : Nat} {cursor : JsNumber}
    (hcursor : cursorAt durationType customPeriodSecs start k = some cursor) :
    cursor.val = boundary durationType customPeriodSecs start k := by
  rcases cursorAt_cases hwhole k with ⟨_, hsome, hval, _⟩ | ⟨hnone, _⟩
  · obtain rfl := Option.some.inj (hcursor.symm.trans hsome)
    exact hval
  · rw [hcursor] at hnone
    cases hnone

variable (customPeriodSecs) in
/-- Where dates are used all boundaries are whole seconds. -/
theorem whole_boundary (hwhole : ∃ n : ℕ, start.val = n)
    (hdates : usesDates durationType = true) (k : Nat) :
    ∃ n : ℕ, boundary durationType customPeriodSecs start k = n := by
  obtain ⟨m, hm⟩ := Int.eq_ofNat_of_zero_le (iterate_nonneg_of_dates hwhole hdates k)
  exact ⟨m, by rw [boundary_of_dates hdates, hm]; rfl⟩

end Cursor

/-! ## The loop -/

section Loop

variable {durationType : DurationType} {customPeriodSecs : Option JsNumber}
  {start stop : JsNumber}

/-- The iteration from the `k`-th cursor on. -/
def iterationAt (durationType : DurationType) (customPeriodSecs : Option JsNumber)
    (start : JsNumber) (k : Nat) : Iteration :=
  ⟨(cursorAt durationType customPeriodSecs start k).getD 0,
    cursorAt durationType customPeriodSecs start (k + 1)⟩

theorem iterations_succ (h : HasPeriod customPeriodSecs durationType)
    (hwhole : ∃ n : ℕ, start.val = n) {k : Nat} {cursor : JsNumber}
    (hcursor : cursorAt durationType customPeriodSecs start k = some cursor)
    (hbefore : cursor < stop) (fuel : Nat) :
    iterations stop durationType customPeriodSecs (fuel + 1)
        (cursorAt durationType customPeriodSecs start k) =
      (iterations stop durationType customPeriodSecs fuel
          (cursorAt durationType customPeriodSecs start (k + 1))).map
        (iterationAt durationType customPeriodSecs start k :: ·) := by
  have hnext : cursorAt durationType customPeriodSecs start (k + 1) =
      nextOf durationType customPeriodSecs cursor := by
    rw [cursorAt, hcursor, Option.bind_some]
  unfold iterationAt
  rw [hcursor, hnext, iterations, if_pos hbefore,
    nextCursor_eq h (fun hdates => by
      rw [val_cursorAt hwhole hcursor]
      exact whole_boundary customPeriodSecs hwhole hdates k)]
  cases hlater : iterations stop durationType customPeriodSecs fuel
    (nextOf durationType customPeriodSecs cursor) with
  | error e => simp only [hlater, bind, Except.bind, Except.map]
  | ok later => simp only [hlater, bind, Except.bind, Except.map, Option.getD_some, pure,
      Except.pure]

/-- The loop ends with the first cursor that is not before the end. -/
theorem iterations_of_reached (h : HasPeriod customPeriodSecs durationType)
    (hwhole : ∃ n : ℕ, start.val = n) {n : Nat}
    (hbefore : ∀ k < n, ∃ cursor,
      cursorAt durationType customPeriodSecs start k = some cursor ∧ cursor < stop)
    (hreached : ∀ cursor,
      cursorAt durationType customPeriodSecs start n = some cursor → stop ≤ cursor)
    (m : Nat) {k : Nat} (hk : k + m = n) {fuel : Nat} (hfuel : m < fuel) :
    iterations stop durationType customPeriodSecs fuel
        (cursorAt durationType customPeriodSecs start k) =
      .ok ((List.range' k m).map (iterationAt durationType customPeriodSecs start)) := by
  obtain ⟨fuel, rfl⟩ := Nat.exists_eq_add_of_le' (by omega : 1 ≤ fuel)
  -- on the number of iterations that are left
  induction m generalizing k fuel with
  | zero =>
      obtain rfl : k = n := by omega
      cases hcursor : cursorAt durationType customPeriodSecs start k with
      | none => rfl
      | some cursor =>
          rw [iterations, if_neg (not_lt.mpr (hreached cursor hcursor))]
          rfl
  | succ m ih =>
      obtain ⟨cursor, hcursor, hlt⟩ := hbefore k (by omega)
      obtain ⟨fuel, rfl⟩ := Nat.exists_eq_add_of_le' (by omega : 1 ≤ fuel)
      rw [iterations_succ h hwhole hcursor hlt, ih (by omega) fuel (by omega)]
      rfl

/-- The loop does not end while all cursors are before the end. -/
theorem iterations_outOfFuel (h : HasPeriod customPeriodSecs durationType)
    (hwhole : ∃ n : ℕ, start.val = n)
    (hbefore : ∀ k, ∃ cursor,
      cursorAt durationType customPeriodSecs start k = some cursor ∧ cursor < stop)
    (fuel k : Nat) :
    iterations stop durationType customPeriodSecs fuel
        (cursorAt durationType customPeriodSecs start k) = .error .outOfFuel := by
  induction fuel generalizing k with
  | zero => rfl
  | succ fuel ih =>
      obtain ⟨cursor, hcursor, hlt⟩ := hbefore k
      rw [iterations_succ h hwhole hcursor hlt, ih]
      rfl

/-- A loop that has ended stays as it is with more fuel. -/
theorem iterations_of_le {fuel : Nat} {cursor : Option JsNumber} {made : List Iteration}
    (h : iterations stop durationType customPeriodSecs fuel cursor = .ok made) {more : Nat}
    (hle : fuel ≤ more) :
    iterations stop durationType customPeriodSecs more cursor = .ok made := by
  induction fuel generalizing cursor made more with
  | zero => cases h
  | succ fuel ih =>
      obtain ⟨more, rfl⟩ := Nat.exists_eq_add_of_le' (by omega : 1 ≤ more)
      cases cursor with
      | none => exact h
      | some cursor =>
          rw [iterations] at h ⊢
          by_cases hbefore : cursor < stop
          · rw [if_pos hbefore] at h ⊢
            cases hnext : nextCursor durationType customPeriodSecs cursor with
            | error e =>
                rw [hnext] at h
                cases h
            | ok next =>
                rw [hnext] at h
                cases hlater : iterations stop durationType customPeriodSecs fuel next with
                | error e =>
                    simp only [bind, Except.bind, hlater] at h
                    cases h
                | ok later =>
                    have hmore := ih hlater (by omega : fuel ≤ more)
                    simp only [bind, Except.bind, hlater] at h
                    simp only [bind, Except.bind, hmore]
                    exact h
          · rw [if_neg hbefore] at h ⊢
            exact h

end Loop

/-! ## The end of the interval -/

/-- Where dates are used, the first boundary that is not before the end of the
interval is one. -/
def EndsInDates (durationType : DurationType) (customPeriodSecs : Option JsNumber)
    (start stop : JsNumber) : Prop :=
  usesDates durationType = true → start < stop → ∃ k,
    stop.val ≤ boundary durationType customPeriodSecs start k ∧
      boundary durationType customPeriodSecs start k ≤ maxDate

/-- Adding the period moves every boundary before the end forward. -/
def BoundariesAdvance (durationType : DurationType)
    (customPeriodSecs : Option JsNumber) (start stop : JsNumber) : Prop :=
  ∀ k, boundary durationType customPeriodSecs start k < stop.val →
    boundary durationType customPeriodSecs start k <
      boundary durationType customPeriodSecs start (k + 1)

/-- The first `n` periods cover the interval. -/
structure Covers (durationType : DurationType) (customPeriodSecs : Option JsNumber)
    (start stop : JsNumber) (n : Nat) : Prop where
  cursor : ∀ k ≤ n, ∃ cursor,
    cursorAt durationType customPeriodSecs start k = some cursor ∧
      cursor.val = boundary durationType customPeriodSecs start k
  before : ∀ k < n, boundary durationType customPeriodSecs start k < stop.val
  reached : stop.val ≤ boundary durationType customPeriodSecs start n

section End

variable {durationType : DurationType} {customPeriodSecs : Option JsNumber}
  {start stop : JsNumber} {n : Nat}

theorem Covers.lt_of_before (h : HasPeriod customPeriodSecs durationType)
    (hcovers : Covers durationType customPeriodSecs start stop n) {k : Nat}
    (hbefore : boundary durationType customPeriodSecs start k < stop.val) : k < n := by
  by_contra hle
  have hmono := boundary_mono start h (not_lt.mp hle)
  exact absurd (hcovers.reached.trans hmono) (not_le.mpr hbefore)

theorem Covers.endsInDates (hwhole : ∃ n : ℕ, start.val = n)
    (hcovers : Covers durationType customPeriodSecs start stop n) :
    EndsInDates durationType customPeriodSecs start stop := by
  intro hdates hlt
  have hsome : n ≠ 0 := by
    rintro rfl
    have hreached := hcovers.reached
    rw [boundary_zero durationType customPeriodSecs hwhole] at hreached
    exact absurd hreached (not_le.mpr hlt)
  refine ⟨n, hcovers.reached, ?_⟩
  rcases cursorAt_cases hwhole n with ⟨_, _, _, hdate⟩ | ⟨hnone, _⟩
  · exact hdate hdates hsome
  · obtain ⟨_, hcursor, _⟩ := hcovers.cursor n le_rfl
    rw [hcursor] at hnone
    cases hnone

theorem Covers.advance (h : HasPeriod customPeriodSecs durationType)
    (hcovers : Covers durationType customPeriodSecs start stop n) :
    BoundariesAdvance durationType customPeriodSecs start stop := by
  intro k hbefore
  by_cases hdates : usesDates durationType = true
  · exact boundary_lt_succ_of_dates customPeriodSecs start hdates k
  refine lt_of_le_of_ne (boundary_mono start h (Nat.le_succ k)) ?_
  intro hstuck
  -- then the end would not have been reached
  have hk := hcovers.lt_of_before h hbefore
  have hlast := boundary_eq_of_stuck hdates hstuck.symm (n - k)
  rw [Nat.sub_add_cancel hk.le] at hlast
  have hreached := hcovers.reached
  rw [hlast] at hreached
  exact absurd hreached (not_le.mpr hbefore)

/-- The boundary behind the last date is the first that is not before the end. -/
theorem not_endsInDates_of_nan (h : HasPeriod customPeriodSecs durationType)
    (hwhole : ∃ n : ℕ, start.val = n)
    (hbefore : ∀ k < n, ∃ cursor,
      cursorAt durationType customPeriodSecs start k = some cursor ∧ cursor < stop)
    (hnan : cursorAt durationType customPeriodSecs start n = none) :
    ¬ EndsInDates durationType customPeriodSecs start stop := by
  rcases cursorAt_cases hwhole n with ⟨_, hsome, _⟩ | ⟨_, hdates, hpast⟩
  · rw [hnan] at hsome
    cases hsome
  intro hdated
  have hfirst : 0 < n := by
    rcases Nat.eq_zero_or_pos n with rfl | hpos
    · cases hnan
    · exact hpos
  obtain ⟨_, hcursor, hstart⟩ := hbefore 0 hfirst
  obtain rfl := Option.some.inj hcursor
  obtain ⟨k, hreached, hdate⟩ := hdated hdates hstart
  rcases lt_or_ge k n with hk | hk
  · obtain ⟨cursor, hcursor, hlt⟩ := hbefore k hk
    rw [← val_cursorAt hwhole hcursor] at hreached
    exact absurd hreached (not_le.mpr hlt)
  · have hmono := boundary_mono start h hk
    linarith

/-- Boundaries that are moved forward reach every end. -/
theorem not_boundariesAdvance_of_forever (hwhole : ∃ n : ℕ, start.val = n)
    (hbefore : ∀ k, ∃ cursor,
      cursorAt durationType customPeriodSecs start k = some cursor ∧ cursor < stop) :
    ¬ BoundariesAdvance durationType customPeriodSecs start stop := by
  intro hadvance
  choose cursor hcursor hlt using hbefore
  have hval := fun k => val_cursorAt hwhole (hcursor k)
  have hincreasing : ∀ k, cursor k < cursor (k + 1) := by
    intro k
    have hless := hadvance k ((hval k).symm.trans_lt (hlt k))
    rw [← hval, ← hval] at hless
    exact hless
  have hstart : 0 ≤ cursor 0 := by
    obtain ⟨n, hn⟩ := hwhole
    have hzero : cursor 0 = start := (Option.some.inj (hcursor 0)).symm
    show (0 : ℚ) ≤ (cursor 0).val
    rw [hzero, hn]
    exact Nat.cast_nonneg n
  obtain ⟨k, hk⟩ := Number.exists_lt_of_increasing hstart hincreasing stop.val
  exact absurd hk (not_lt.mpr (hlt k).le)

/-- The loop comes to the end, or to `NaN`, or it goes on for ever. -/
theorem loop_cases (durationType : DurationType) (customPeriodSecs : Option JsNumber)
    (stop : JsNumber) (hwhole : ∃ n : ℕ, start.val = n) :
    (∃ n, Covers durationType customPeriodSecs start stop n) ∨
    (∃ n, (∀ k < n, ∃ cursor,
        cursorAt durationType customPeriodSecs start k = some cursor ∧ cursor < stop) ∧
      cursorAt durationType customPeriodSecs start n = none) ∨
    (∀ k, ∃ cursor,
      cursorAt durationType customPeriodSecs start k = some cursor ∧ cursor < stop) := by
  classical
  by_cases hends : ∃ n, ¬ ∃ cursor,
      cursorAt durationType customPeriodSecs start n = some cursor ∧ cursor < stop
  · have hbefore : ∀ k < Nat.find hends, ∃ cursor,
        cursorAt durationType customPeriodSecs start k = some cursor ∧ cursor < stop :=
      fun k hk => not_not.mp (Nat.find_min hends hk)
    have hlast := Nat.find_spec hends
    generalize Nat.find hends = n at hbefore hlast
    cases hcursor : cursorAt durationType customPeriodSecs start n with
    | none => exact Or.inr (Or.inl ⟨n, hbefore, hcursor⟩)
    | some cursor =>
        refine Or.inl ⟨n, ?_, ?_, ?_⟩
        · intro k hk
          rcases hk.lt_or_eq with hless | rfl
          · obtain ⟨c, hc, _⟩ := hbefore k hless
            exact ⟨c, hc, val_cursorAt hwhole hc⟩
          · exact ⟨cursor, hcursor, val_cursorAt hwhole hcursor⟩
        · intro k hk
          obtain ⟨c, hc, hlt⟩ := hbefore k hk
          rw [← val_cursorAt hwhole hc]
          exact hlt
        · rw [← val_cursorAt hwhole hcursor]
          exact not_lt.mp fun hlt => hlast ⟨cursor, hcursor, hlt⟩
  · push Not at hends
    exact Or.inr (Or.inr hends)

end End

end Properties
end Paystream
