import Paystream.Properties.PayrollBoundaries

/-!
# The payroll report

`calculateBalanceByDuration` evaluates each period as a stream of its own: with its
own window, its own pauses, and its own cap.  The windows and the pauses add up
over the periods.  The cap does not: it is the whole deposit for every period, so a
report may show more earnings than were deposited.

`payroll_adds_up_iff` says when the report adds up to what the stream has earned.
The loop must come to the end of the interval: no boundary before it is past the
last date, and every one is moved forward by adding the period.  Where no amount
has to be rounded, the report then adds up exactly when the deposit covers all
unpaused seconds, when these lie in one period, and when there is no deposit.
-/

namespace Paystream
namespace Properties

open Library
open Library.Format
open Contract
open Services.BalanceService (DurationType)
open Services.PayrollReport

/-! ## The sum of the report -/

/-- The earnings of the report, added up in its order; `NaN` if one of them is. -/
def earnedTotal (report : List PeriodEarnings) : Option JsNumber :=
  (report.map PeriodEarnings.earned).foldl
    (fun total earned => do return (← total) + (← earned)) (some 0)

theorem earnedTotal_of_numbers {report : List PeriodEarnings} {amounts : List JsNumber}
    (h : report.map PeriodEarnings.earned = amounts.map some) :
    earnedTotal report = some (Number.sum amounts) := by
  have hfold : ∀ (others : List JsNumber) (total : JsNumber), (others.map some).foldl
      (fun total earned => do return (← total) + (← earned)) (some total) =
        some (others.foldl (· + ·) total) := by
    intro others
    induction others with
    | nil => exact fun _ => rfl
    | cons amount later ih => exact fun total => ih (total + amount)
  unfold earnedTotal
  rw [h]
  exact hfold amounts 0

theorem earnedTotal_of_nan {report : List PeriodEarnings}
    (h : none ∈ report.map PeriodEarnings.earned) : earnedTotal report = none := by
  have hstays : ∀ amounts : List (Option JsNumber), amounts.foldl
      (fun total earned => do return (← total) + (← earned)) none = none := by
    intro amounts
    induction amounts with
    | nil => rfl
    | cons amount later ih => exact ih
  obtain ⟨before, later, hsplit⟩ := List.append_of_mem h
  unfold earnedTotal
  rw [hsplit, List.foldl_append, List.foldl_cons]
  cases before.foldl (fun total earned => do return (← total) + (← earned))
      (some (0 : JsNumber)) with
  | none => exact hstays later
  | some total => exact hstays later

/-- The end of the interval a report is about. -/
def reportEnd (stream : StreamState) (now : JsNumber) : JsNumber :=
  if 0 < stream.stopTime ∧ stream.stopTime < now then stream.stopTime else now

/-- What the stream has earned up to there. -/
def streamEarned (stream : StreamState) (now : JsNumber) : ℚ :=
  min stream.deposit.val (stream.ratePerSecond.val *
    unpausedTime stream.pauseHistory stream.startTime.val (reportEnd stream now).val)

/-- The report is made, and its earnings add up to what the stream has earned. -/
def AddsUp (dateNow : Int) (stream : StreamState) (durationType : DurationType)
    (customPeriodSecs : Option JsNumber) (now : JsNumber) : Prop :=
  ∃ report, (∃ n, ∀ fuel, n < fuel → calculateBalanceByDuration fuel dateNow stream
      durationType customPeriodSecs (some now) = .ok report) ∧
    ∃ total, earnedTotal report = some total ∧ total.val = streamEarned stream now

/-- The line of the report for a period. -/
def earningsOf (dateNow : Int) (stream : StreamState) (period : Period) :
    PeriodEarnings :=
  ⟨period.start, period.stop, sliceEarned dateNow stream period⟩

section Report

variable {stream : StreamState} {durationType : DurationType}
  {customPeriodSecs : Option JsNumber} {now : JsNumber}

theorem calculateBalanceByDuration_eq (fuel : Nat) (dateNow : Int) :
    calculateBalanceByDuration fuel dateNow stream durationType customPeriodSecs
        (some now) =
      if reportEnd stream now ≤ stream.startTime then .ok []
      else (iterations (reportEnd stream now) durationType customPeriodSecs fuel
        (some stream.startTime)).map fun made =>
          (made.map (Iteration.period (reportEnd stream now))).map
            (earningsOf dateNow stream) := by
  by_cases hempty : reportEnd stream now ≤ stream.startTime
  · rw [if_pos hempty]
    exact if_pos hempty
  · rw [if_neg hempty]
    refine (if_neg hempty).trans ?_
    show (buildPeriods fuel stream.startTime (reportEnd stream now) durationType
      customPeriodSecs >>= fun periods => pure (periods.map (earningsOf dateNow stream))) = _
    unfold buildPeriods
    cases iterations (reportEnd stream now) durationType customPeriodSecs fuel
        (some stream.startTime) with
    | error e => rfl
    | ok made => rfl

theorem calculateBalanceByDuration_of_le {fuel : Nat} {dateNow : Int}
    {report : List PeriodEarnings}
    (h : calculateBalanceByDuration fuel dateNow stream durationType customPeriodSecs
      (some now) = .ok report) {more : Nat} (hle : fuel ≤ more) :
    calculateBalanceByDuration more dateNow stream durationType customPeriodSecs
      (some now) = .ok report := by
  rw [calculateBalanceByDuration_eq] at h ⊢
  by_cases hempty : reportEnd stream now ≤ stream.startTime
  · rwa [if_pos hempty] at h ⊢
  · rw [if_neg hempty] at h ⊢
    cases hmade : iterations (reportEnd stream now) durationType customPeriodSecs fuel
        (some stream.startTime) with
    | error e =>
        rw [hmade] at h
        cases h
    | ok made =>
        rw [iterations_of_le hmade hle]
        rwa [hmade] at h

/-- The report over the first `n` cursors, when the loop ends with them. -/
theorem report_of_reached (h : HasPeriod customPeriodSecs durationType)
    (hwhole : ∃ n : ℕ, stream.startTime.val = n) {n : Nat}
    (hbefore : ∀ k < n, ∃ cursor,
      cursorAt durationType customPeriodSecs stream.startTime k = some cursor ∧
        cursor < reportEnd stream now)
    (hreached : ∀ cursor,
      cursorAt durationType customPeriodSecs stream.startTime n = some cursor →
        reportEnd stream now ≤ cursor)
    (dateNow : Int) {fuel : Nat} (hfuel : n < fuel) :
    calculateBalanceByDuration fuel dateNow stream durationType customPeriodSecs
        (some now) =
      .ok ((((List.range n).map (iterationAt durationType customPeriodSecs
        stream.startTime)).map (Iteration.period (reportEnd stream now))).map
          (earningsOf dateNow stream)) := by
  rw [calculateBalanceByDuration_eq]
  by_cases hempty : reportEnd stream now ≤ stream.startTime
  · obtain rfl : n = 0 := by
      by_contra hsome
      obtain ⟨_, hcursor, hlt⟩ := hbefore 0 (Nat.pos_of_ne_zero hsome)
      obtain rfl := Option.some.inj hcursor
      exact absurd hempty (not_le.mpr hlt)
    rw [if_pos hempty]
    rfl
  · have hmade := iterations_of_reached h hwhole hbefore hreached n (Nat.zero_add n) hfuel
    rw [if_neg hempty, List.range_eq_range']
    exact congrArg (Except.map _) hmade

theorem addsUp_iff_of_report {dateNow : Int} {report : List PeriodEarnings} {n : Nat}
    (h : ∀ fuel, n < fuel → calculateBalanceByDuration fuel dateNow stream durationType
      customPeriodSecs (some now) = .ok report) :
    AddsUp dateNow stream durationType customPeriodSecs now ↔
      ∃ total, earnedTotal report = some total ∧ total.val = streamEarned stream now := by
  constructor
  · rintro ⟨other, ⟨m, hother⟩, htotal⟩
    have hsame := (hother (n + m + 1) (by omega)).symm.trans (h (n + m + 1) (by omega))
    obtain rfl := Except.ok.inj hsame
    exact htotal
  · intro htotal
    exact ⟨report, ⟨n, h⟩, htotal⟩

/-- A period without an end leaves the report without a sum. -/
theorem not_addsUp_of_nan (h : HasPeriod customPeriodSecs durationType)
    (hlive : stream.status = .active ∨ stream.status = .paused)
    (hwhole : ∃ n : ℕ, stream.startTime.val = n) {n : Nat}
    (hbefore : ∀ k < n, ∃ cursor,
      cursorAt durationType customPeriodSecs stream.startTime k = some cursor ∧
        cursor < reportEnd stream now)
    (hnan : cursorAt durationType customPeriodSecs stream.startTime n = none)
    (dateNow : Int) : ¬ AddsUp dateNow stream durationType customPeriodSecs now := by
  obtain ⟨m, rfl⟩ : ∃ m, n = m + 1 := by
    cases n with
    | zero => cases hnan
    | succ m => exact ⟨m, rfl⟩
  have hreport := fun fuel (hfuel : m + 1 < fuel) =>
    report_of_reached h hwhole hbefore
      (fun cursor hcursor => by rw [hnan] at hcursor; cases hcursor) dateNow hfuel
  rw [addsUp_iff_of_report hreport, earnedTotal_of_nan]
  · rintro ⟨total, htotal, _⟩
    cases htotal
  have hearned : sliceEarned dateNow stream (Iteration.period (reportEnd stream now)
      (iterationAt durationType customPeriodSecs stream.startTime m)) = none := by
    unfold iterationAt Iteration.period sliceEarned
    rw [hnan]
    rcases hlive with hactive | hpaused
    · simp [hactive]
    · simp [hpaused]
  simp only [List.map_map, List.mem_map, List.mem_range]
  exact ⟨m, Nat.lt_succ_self m, hearned⟩

/-- While no cursor reaches the end there is no report. -/
theorem not_addsUp_of_forever (h : HasPeriod customPeriodSecs durationType)
    (hwhole : ∃ n : ℕ, stream.startTime.val = n)
    (hbefore : ∀ k, ∃ cursor,
      cursorAt durationType customPeriodSecs stream.startTime k = some cursor ∧
        cursor < reportEnd stream now)
    (dateNow : Int) : ¬ AddsUp dateNow stream durationType customPeriodSecs now := by
  rintro ⟨report, ⟨n, hreport⟩, _⟩
  have hmade := hreport (n + 1) (Nat.lt_succ_self n)
  obtain ⟨_, hstart, hlt⟩ := hbefore 0
  obtain rfl := Option.some.inj hstart
  have hnever := iterations_outOfFuel h hwhole hbefore (n + 1) 0
  rw [calculateBalanceByDuration_eq, if_neg (not_le.mpr hlt)] at hmade
  rw [cursorAt] at hnever
  rw [hnever] at hmade
  cases hmade

end Report

/-! ## The periods of a covered interval -/

/-- The stream counts in whole seconds. -/
structure WholeSeconds (stream : StreamState) : Prop where
  start : ∃ n : ℕ, stream.startTime.val = n
  events : WholeEvents stream.pauseHistory

/-- No amount of the report has to be rounded: neither what a period earns nor what
is earned up to its end. -/
def NothingRounded (stream : StreamState) (durationType : DurationType)
    (customPeriodSecs : Option JsNumber) (stop : JsNumber) : Prop :=
  stop.val ≤ 2 ^ 53 ∧ ∀ k,
    boundary durationType customPeriodSecs stream.startTime k < stop.val →
      binary64.IsNumber (stream.ratePerSecond.val * unpausedTime stream.pauseHistory
        (boundary durationType customPeriodSecs stream.startTime k)
        (min (boundary durationType customPeriodSecs stream.startTime (k + 1)) stop.val)) ∧
      binary64.IsNumber (stream.ratePerSecond.val * unpausedTime stream.pauseHistory
        stream.startTime.val
        (min (boundary durationType customPeriodSecs stream.startTime (k + 1)) stop.val))

/-- All unpaused seconds of the interval lie in one of its periods. -/
def InOnePeriod (stream : StreamState) (durationType : DurationType)
    (customPeriodSecs : Option JsNumber) (stop : JsNumber) : Prop :=
  ∃ k, boundary durationType customPeriodSecs stream.startTime k < stop.val ∧
    unpausedTime stream.pauseHistory
        (boundary durationType customPeriodSecs stream.startTime k)
        (min (boundary durationType customPeriodSecs stream.startTime (k + 1)) stop.val) =
      unpausedTime stream.pauseHistory stream.startTime.val stop.val

/-- What the period between two boundaries earns without a cap. -/
def partAt (stream : StreamState) (durationType : DurationType)
    (customPeriodSecs : Option JsNumber) (stop : JsNumber) (k : Nat) : JsNumber :=
  windowEarned stream (boundary durationType customPeriodSecs stream.startTime k)
    (min (boundary durationType customPeriodSecs stream.startTime (k + 1)) stop.val)

section Covered

variable {stream : StreamState} {durationType : DurationType}
  {customPeriodSecs : Option JsNumber} {stop : JsNumber} {n : Nat}

/-- A period starts at a whole second, or is not longer than the time before it. -/
theorem period_short (h : HasPeriod customPeriodSecs durationType)
    (hseconds : WholeSeconds stream) (k : Nat) :
    (∃ m : ℤ, boundary durationType customPeriodSecs stream.startTime k = m) ∨
      boundary durationType customPeriodSecs stream.startTime (k + 1) ≤
        2 * boundary durationType customPeriodSecs stream.startTime k := by
  by_cases hdates : usesDates durationType = true
  · obtain ⟨m, hm⟩ := whole_boundary customPeriodSecs hseconds.start hdates k
    exact Or.inl ⟨m, by rw [hm]; rfl⟩
  -- every later boundary has had the period added to it
  cases k with
  | zero =>
      obtain ⟨m, hm⟩ := hseconds.start
      refine Or.inl ⟨m, ?_⟩
      rw [boundary_zero durationType customPeriodSecs hseconds.start, hm]
      rfl
  | succ k => exact Or.inr (boundary_le_double h hseconds.start hdates k)

/-- The earnings of a period, as the report has them. -/
theorem earned_of_covers (h : HasPeriod customPeriodSecs durationType)
    (hlive : stream.status = .active ∨ stream.status = .paused)
    (hcliff : stream.cliffTime = 0) (hwithdrawn : stream.withdrawn = 0)
    (halternates : Alternating PauseEntry.isPause true stream.pauseHistory)
    (hordered : (stream.pauseHistory.map eventTime).Pairwise (· ≤ ·))
    (hseconds : WholeSeconds stream)
    (hcovers : Covers durationType customPeriodSecs stream.startTime stop n)
    (hexact : stop.val ≤ 2 ^ 53) (dateNow : Int) {k : Nat} (hk : k < n) :
    (earningsOf dateNow stream (Iteration.period stop
      (iterationAt durationType customPeriodSecs stream.startTime k))).earned =
      some (min (partAt stream durationType customPeriodSecs stop k)
        (max 0 stream.deposit)) := by
  obtain ⟨first, hfirst, hfirstval⟩ := hcovers.cursor k hk.le
  obtain ⟨next, hnext, hnextval⟩ := hcovers.cursor (k + 1) hk
  have hbefore := hcovers.before k hk
  have hforward := hcovers.advance h k hbefore
  have hperiod : Iteration.period stop
      (iterationAt durationType customPeriodSecs stream.startTime k) =
        ⟨first, some (min next stop)⟩ := by
    unfold iterationAt
    rw [hfirst, hnext]
    rfl
  have hlt : first < min next stop := by
    refine lt_min ?_ ?_
    · show first.val < next.val
      rw [hfirstval, hnextval]
      exact hforward
    · show first.val < stop.val
      rw [hfirstval]
      exact hbefore
  have hwindow : (∃ m : ℤ, first.val = m) ∨ (min next stop).val ≤ 2 * first.val := by
    rw [hfirstval, Number.val_min, hnextval]
    exact (period_short h hseconds k).imp_right (min_le_left _ _).trans
  have hnonneg : 0 ≤ first := by
    show (0 : ℚ) ≤ first.val
    rw [hfirstval]
    exact boundary_nonneg h hseconds.start k
  have hend : (min next stop).val ≤ 2 ^ 53 := by
    rw [Number.val_min]
    exact (min_le_right _ _).trans hexact
  -- the pauses and the window lie on one grid, so no difference of times is rounded
  obtain ⟨e, hgrid⟩ := exists_onCommonGrid hseconds.events hnonneg hlt.le hend hwindow
  unfold earningsOf partAt
  rw [hperiod]
  refine (sliceEarned_eq hlive hcliff hwithdrawn halternates hordered dateNow hlt
    hgrid).trans ?_
  rw [hfirstval, Number.val_min, hnextval]

theorem val_partAt (hnumbers : NothingRounded stream durationType customPeriodSecs stop)
    {k : Nat}
    (hbefore : boundary durationType customPeriodSecs stream.startTime k < stop.val) :
    (partAt stream durationType customPeriodSecs stop k).val =
      stream.ratePerSecond.val * unpausedTime stream.pauseHistory
        (boundary durationType customPeriodSecs stream.startTime k)
        (min (boundary durationType customPeriodSecs stream.startTime (k + 1)) stop.val) :=
  Number.val_ofRat (hnumbers.2 k hbefore).1

/-- The parts add up to what is earned from the start on. -/
theorem exactSum_parts (h : HasPeriod customPeriodSecs durationType)
    (hseconds : WholeSeconds stream)
    (hcovers : Covers durationType customPeriodSecs stream.startTime stop n)
    (hnumbers : NothingRounded stream durationType customPeriodSecs stop) {k : Nat}
    (hk : k ≤ n) :
    Number.exactSum ((List.range k).map (partAt stream durationType customPeriodSecs stop)) =
      stream.ratePerSecond.val * unpausedTime stream.pauseHistory stream.startTime.val
        (min (boundary durationType customPeriodSecs stream.startTime k) stop.val) := by
  induction k with
  | zero =>
      rw [boundary_zero durationType customPeriodSecs hseconds.start,
        unpausedTime_eq_zero _ (min_le_left _ _), mul_zero]
      rfl
  | succ k ih =>
      have hbefore := hcovers.before k hk
      have hfirst := start_le_boundary h hseconds.start k
      have hmiddle : boundary durationType customPeriodSecs stream.startTime k ≤
          min (boundary durationType customPeriodSecs stream.startTime (k + 1)) stop.val :=
        le_min (boundary_mono stream.startTime h (Nat.le_succ k)) hbefore.le
      have hadd := unpausedTime_add stream.pauseHistory hfirst hmiddle
      rw [List.range_succ, List.map_append, List.map_singleton,
        Number.exactSum_append_singleton, ih (Nat.le_of_succ_le hk),
        min_eq_left hbefore.le, val_partAt hnumbers hbefore, hadd, mul_add]

theorem sumsAreNumbers_parts (h : HasPeriod customPeriodSecs durationType)
    (hseconds : WholeSeconds stream)
    (hcovers : Covers durationType customPeriodSecs stream.startTime stop n)
    (hnumbers : NothingRounded stream durationType customPeriodSecs stop) :
    Number.SumsAreNumbers
      ((List.range n).map (partAt stream durationType customPeriodSecs stop)) := by
  intro before hbefore
  rw [List.prefix_iff_eq_take, ← List.map_take, List.take_range] at hbefore
  rw [hbefore]
  have hle := Nat.min_le_right before.length n
  rw [exactSum_parts h hseconds hcovers hnumbers hle]
  generalize hk : min before.length n = k at hle
  cases k with
  | zero =>
      rw [boundary_zero durationType customPeriodSecs hseconds.start,
        unpausedTime_eq_zero _ (min_le_left _ _), mul_zero]
      exact isNumber_zero
  | succ k => exact (hnumbers.2 k (hcovers.before k hle)).2

section Parts

variable (hordered : (stream.pauseHistory.map eventTime).Pairwise (· ≤ ·))
  (hcovers : Covers durationType customPeriodSecs stream.startTime stop n)
  (hnumbers : NothingRounded stream durationType customPeriodSecs stop)

include hcovers hnumbers

theorem val_of_mem_parts {part : JsNumber}
    (hpart : part ∈ (List.range n).map (partAt stream durationType customPeriodSecs stop)) :
    ∃ k < n, part.val = stream.ratePerSecond.val * unpausedTime stream.pauseHistory
      (boundary durationType customPeriodSecs stream.startTime k)
      (min (boundary durationType customPeriodSecs stream.startTime (k + 1)) stop.val) := by
  obtain ⟨k, hk, rfl⟩ := List.mem_map.mp hpart
  have hlt := List.mem_range.mp hk
  exact ⟨k, hlt, val_partAt hnumbers (hcovers.before k hlt)⟩

/-- One part is all there is exactly if the unpaused seconds lie in its period. -/
theorem part_eq_whole_iff (h : HasPeriod customPeriodSecs durationType)
    (hrate : 0 < stream.ratePerSecond.val) :
    (∃ part ∈ (List.range n).map (partAt stream durationType customPeriodSecs stop),
        part.val = stream.ratePerSecond.val *
          unpausedTime stream.pauseHistory stream.startTime.val stop.val) ↔
      InOnePeriod stream durationType customPeriodSecs stop := by
  constructor
  · rintro ⟨part, hpart, hequal⟩
    obtain ⟨k, hk, hval⟩ := val_of_mem_parts hcovers hnumbers hpart
    rw [hval, mul_right_inj' hrate.ne'] at hequal
    exact ⟨k, hcovers.before k hk, hequal⟩
  · rintro ⟨k, hbefore, hequal⟩
    have hk := hcovers.lt_of_before h hbefore
    refine ⟨_, List.mem_map_of_mem (List.mem_range.mpr hk), ?_⟩
    rw [val_partAt hnumbers hbefore, hequal]

include hordered

theorem parts_nonneg (hrate : 0 ≤ stream.ratePerSecond.val) :
    ∀ part ∈ (List.range n).map (partAt stream durationType customPeriodSecs stop),
      0 ≤ part := by
  intro part hpart
  obtain ⟨k, _, hval⟩ := val_of_mem_parts hcovers hnumbers hpart
  show 0 ≤ part.val
  rw [hval]
  exact mul_nonneg hrate (unpausedTime_nonneg hordered _ _)

/-- Without a rate nothing is cut off. -/
theorem capped_parts_of_rate_nonpos (hrate : stream.ratePerSecond.val ≤ 0) :
    Number.capped (max 0 stream.deposit)
        ((List.range n).map (partAt stream durationType customPeriodSecs stop)) =
      (List.range n).map (partAt stream durationType customPeriodSecs stop) := by
  refine Number.capped_eq_self ?_
  intro part hpart
  obtain ⟨k, _, hval⟩ := val_of_mem_parts hcovers hnumbers hpart
  have hnone : part ≤ 0 := by
    show part.val ≤ 0
    rw [hval]
    exact mul_nonpos_of_nonpos_of_nonneg hrate (unpausedTime_nonneg hordered _ _)
  exact hnone.trans (le_max_left _ _)

/-- When the capped parts add up to the capped whole. -/
theorem sum_parts_iff (h : HasPeriod customPeriodSecs durationType)
    (hseconds : WholeSeconds stream) :
    (Number.sum (Number.capped (max 0 stream.deposit)
        ((List.range n).map (partAt stream durationType customPeriodSecs stop)))).val =
      min stream.deposit.val (stream.ratePerSecond.val *
        unpausedTime stream.pauseHistory stream.startTime.val stop.val) ↔
    stream.ratePerSecond.val *
        unpausedTime stream.pauseHistory stream.startTime.val stop.val ≤
          stream.deposit.val ∨
      0 ≤ stream.deposit ∧ (stream.deposit = 0 ∨
        InOnePeriod stream durationType customPeriodSecs stop) := by
  have hsums := sumsAreNumbers_parts h hseconds hcovers hnumbers
  have htotal := exactSum_parts h hseconds hcovers hnumbers le_rfl
  rw [min_eq_right hcovers.reached] at htotal
  have hunpaused := unpausedTime_nonneg hordered stream.startTime.val stop.val
  -- without a positive rate no period comes near its cap
  rcases le_or_gt stream.ratePerSecond.val 0 with hrate | hrate
  · have hnothing := mul_nonpos_of_nonpos_of_nonneg hrate hunpaused
    rw [capped_parts_of_rate_nonpos hordered hcovers hnumbers hrate, Number.val_sum hsums,
      htotal, eq_comm, min_eq_right_iff]
    refine ⟨Or.inl, ?_⟩
    rintro (hle | ⟨hdeposit, _⟩)
    · exact hle
    · exact hnothing.trans hdeposit
  have hnonneg := parts_nonneg hordered hcovers hnumbers hrate.le
  rcases lt_or_ge stream.deposit 0 with hdebt | hdeposit
  · -- the cap of a period is never negative, that of the stream is
    have hnegative : stream.deposit.val < 0 := hdebt
    have hwhole := mul_nonneg hrate.le hunpaused
    rw [max_eq_left hdebt.le, Number.sum_capped_zero hnonneg]
    refine iff_of_false ?_ ?_
    · intro hzero
      have hle := min_le_left stream.deposit.val (stream.ratePerSecond.val *
        unpausedTime stream.pauseHistory stream.startTime.val stop.val)
      linarith
    · rintro (hle | ⟨hpositive, _⟩)
      · linarith
      · exact absurd hdebt (not_lt.mpr hpositive)
  · rw [max_eq_right hdeposit, ← htotal, Number.sum_capped_iff hdeposit hnonneg hsums,
      htotal, part_eq_whole_iff hcovers hnumbers h hrate]
    tauto

end Parts

end Covered

/-! ## Reports without rounding -/

/-- Period, end and amounts lie on a grid that is fine enough for them, at whole
rates. -/
structure OnReportGrid (e : ℤ) (stream : StreamState) (durationType : DurationType)
    (customPeriodSecs : Option JsNumber) (stop : JsNumber) : Prop where
  fine : binary64.minExponent ≤ e
  seconds : e ≤ 0
  period : OnGrid e (periodSecs durationType customPeriodSecs).val
  last : OnGrid e stop.val
  rate : ∃ n : ℤ, stream.ratePerSecond.val = n
  times_le : stop.val ≤ 2 ^ 53 * 2 ^ e
  amounts_le : |stream.ratePerSecond.val| * (stop.val - stream.startTime.val) ≤
    2 ^ 53 * 2 ^ e

section Grid

variable {e : ℤ} {stream : StreamState} {durationType : DurationType}
  {customPeriodSecs : Option JsNumber} {stop : JsNumber}

/-- A boundary is exact, or the end is behind. -/
theorem boundary_succ_cases (h : HasPeriod customPeriodSecs durationType)
    (hseconds : WholeSeconds stream)
    (hgrid : OnReportGrid e stream durationType customPeriodSecs stop)
    (hdates : ¬ usesDates durationType = true) {k : Nat}
    (hexact : OnGrid e (boundary durationType customPeriodSecs stream.startTime k)) :
    boundary durationType customPeriodSecs stream.startTime (k + 1) =
        boundary durationType customPeriodSecs stream.startTime k +
          (periodSecs durationType customPeriodSecs).val ∨
      stop.val ≤ boundary durationType customPeriodSecs stream.startTime (k + 1) := by
  have hsum := hexact.add hgrid.period
  have hnonneg : 0 ≤ boundary durationType customPeriodSecs stream.startTime k +
      (periodSecs durationType customPeriodSecs).val := by
    have hperiod : (0 : ℚ) ≤ (periodSecs durationType customPeriodSecs).val :=
      periodSecs_nonneg h
    exact add_nonneg (boundary_nonneg h hseconds.start k) hperiod
  rw [boundary_succ_of_seconds _ _ hdates]
  rcases le_or_gt (boundary durationType customPeriodSecs stream.startTime k +
      (periodSecs durationType customPeriodSecs).val) (2 ^ 53 * 2 ^ e) with hle | hlarge
  · left
    refine round_of_isNumber (isNumber_of_onGrid hsum hgrid.fine ?_)
    rw [abs_of_nonneg hnonneg]
    exact hle
  · right
    have hnumber : binary64.IsNumber (2 ^ 53 * 2 ^ e) :=
      ⟨2 ^ 53, e, by decide, hgrid.fine, by norm_num⟩
    exact hgrid.times_le.trans (le_round hnumber hlarge.le)

theorem onGrid_boundary (h : HasPeriod customPeriodSecs durationType)
    (hseconds : WholeSeconds stream)
    (hgrid : OnReportGrid e stream durationType customPeriodSecs stop) {k : Nat}
    (hbefore : boundary durationType customPeriodSecs stream.startTime k < stop.val) :
    OnGrid e (boundary durationType customPeriodSecs stream.startTime k) := by
  by_cases hdates : usesDates durationType = true
  · obtain ⟨m, hm⟩ := whole_boundary customPeriodSecs hseconds.start hdates k
    rw [hm]
    exact_mod_cast OnGrid.intCast m hgrid.seconds
  induction k with
  | zero =>
      obtain ⟨m, hm⟩ := hseconds.start
      rw [boundary_zero durationType customPeriodSecs hseconds.start, hm]
      exact_mod_cast OnGrid.intCast m hgrid.seconds
  | succ k ih =>
      have hexact := ih ((boundary_mono stream.startTime h (Nat.le_succ k)).trans_lt hbefore)
      rcases boundary_succ_cases h hseconds hgrid hdates hexact with hsum | hpast
      · rw [hsum]
        exact hexact.add hgrid.period
      · exact absurd hpast (not_le.mpr hbefore)

theorem onGrid_periodEnd (h : HasPeriod customPeriodSecs durationType)
    (hseconds : WholeSeconds stream)
    (hgrid : OnReportGrid e stream durationType customPeriodSecs stop) (k : Nat) :
    OnGrid e (min (boundary durationType customPeriodSecs stream.startTime k) stop.val) := by
  rcases lt_or_ge (boundary durationType customPeriodSecs stream.startTime k) stop.val with
    hbefore | hpast
  · rw [min_eq_left hbefore.le]
    exact onGrid_boundary h hseconds hgrid hbefore
  · rw [min_eq_right hpast]
    exact hgrid.last

theorem boundariesAdvance_of_onGrid (h : HasPeriod customPeriodSecs durationType)
    (hseconds : WholeSeconds stream)
    (hgrid : OnReportGrid e stream durationType customPeriodSecs stop) :
    BoundariesAdvance durationType customPeriodSecs stream.startTime stop := by
  intro k hbefore
  by_cases hdates : usesDates durationType = true
  · exact boundary_lt_succ_of_dates customPeriodSecs stream.startTime hdates k
  rcases boundary_succ_cases h hseconds hgrid hdates
      (onGrid_boundary h hseconds hgrid hbefore) with hsum | hpast
  · rw [hsum]
    exact lt_add_of_pos_right _ (periodSecs_pos h hdates)
  · exact hbefore.trans_le hpast

theorem nothingRounded_of_onGrid (h : HasPeriod customPeriodSecs durationType)
    (hordered : (stream.pauseHistory.map eventTime).Pairwise (· ≤ ·))
    (hseconds : WholeSeconds stream)
    (hgrid : OnReportGrid e stream durationType customPeriodSecs stop) :
    NothingRounded stream durationType customPeriodSecs stop := by
  have hevent : ∀ entry ∈ stream.pauseHistory, OnGrid e (eventTime entry) := by
    intro entry hentry
    obtain ⟨t, ht⟩ := hseconds.events entry hentry
    rw [ht]
    exact OnGrid.intCast t hgrid.seconds
  obtain ⟨rate, hrate⟩ := hgrid.rate
  -- no window earns more than the whole interval would without a pause
  have hamount : ∀ {a b : ℚ}, OnGrid e a → OnGrid e b → stream.startTime.val ≤ a →
      a ≤ b → b ≤ stop.val → binary64.IsNumber
        (stream.ratePerSecond.val * unpausedTime stream.pauseHistory a b) := by
    intro a b ha hb hfirst hab hlast
    have hproduct := (onGrid_unpausedTime hevent ha hb).intCast_mul rate
    rw [← hrate] at hproduct
    refine isNumber_of_onGrid hproduct hgrid.fine (le_trans ?_ hgrid.amounts_le)
    rw [abs_mul, abs_of_nonneg (unpausedTime_nonneg hordered a b)]
    have hle := unpausedTime_le stream.pauseHistory hab
    exact mul_le_mul_of_nonneg_left (by linarith) (abs_nonneg _)
  refine ⟨hgrid.times_le.trans ?_, ?_⟩
  · have hone : (2 : ℚ) ^ e ≤ 1 := zpow_le_one_of_nonpos₀ one_le_two hgrid.seconds
    linarith
  · intro k hbefore
    have hfirst := start_le_boundary h hseconds.start k
    have hmiddle : boundary durationType customPeriodSecs stream.startTime k ≤
        min (boundary durationType customPeriodSecs stream.startTime (k + 1)) stop.val :=
      le_min (boundary_mono stream.startTime h (Nat.le_succ k)) hbefore.le
    have hstart : OnGrid e stream.startTime.val := by
      obtain ⟨n, hn⟩ := hseconds.start
      rw [hn]
      exact_mod_cast OnGrid.intCast n hgrid.seconds
    have hend := onGrid_periodEnd h hseconds hgrid (k + 1)
    exact ⟨hamount (onGrid_boundary h hseconds hgrid hbefore) hend hfirst hmiddle
        (min_le_right _ _),
      hamount hstart hend le_rfl (hfirst.trans hmiddle) (min_le_right _ _)⟩

end Grid

/-! ## The report -/

/-- The deposit covers all unpaused seconds, or there is none, or these seconds lie
in one period. -/
def CapsAgree (stream : StreamState) (durationType : DurationType)
    (customPeriodSecs : Option JsNumber) (stop : JsNumber) : Prop :=
  stream.ratePerSecond.val *
      unpausedTime stream.pauseHistory stream.startTime.val stop.val ≤
        stream.deposit.val ∨
    0 ≤ stream.deposit ∧ (stream.deposit = 0 ∨
      InOnePeriod stream durationType customPeriodSecs stop)

section AddsUp

variable {stream : StreamState}
  (hstatus : stream.status = .active ∨ stream.status = .paused)
  (hcliff : stream.cliffTime = 0) (hwithdrawn : stream.withdrawn = 0)
  (halternates : Alternating PauseEntry.isPause true stream.pauseHistory)
  (hordered : (stream.pauseHistory.map eventTime).Pairwise (· ≤ ·))
  (hseconds : WholeSeconds stream) {durationType : DurationType}
  {customPeriodSecs : Option JsNumber} (h : HasPeriod customPeriodSecs durationType)
  {now : JsNumber}

include hstatus hcliff hwithdrawn halternates hordered hseconds h

/-- The report over a covered interval. -/
theorem addsUp_iff_of_covers {n : Nat}
    (hcovers : Covers durationType customPeriodSecs stream.startTime
      (reportEnd stream now) n)
    (hnumbers : NothingRounded stream durationType customPeriodSecs (reportEnd stream now))
    (dateNow : Int) :
    AddsUp dateNow stream durationType customPeriodSecs now ↔
      CapsAgree stream durationType customPeriodSecs (reportEnd stream now) := by
  have hbefore : ∀ k < n, ∃ cursor,
      cursorAt durationType customPeriodSecs stream.startTime k = some cursor ∧
        cursor < reportEnd stream now := by
    intro k hk
    obtain ⟨cursor, hcursor, hval⟩ := hcovers.cursor k hk.le
    refine ⟨cursor, hcursor, ?_⟩
    show cursor.val < (reportEnd stream now).val
    rw [hval]
    exact hcovers.before k hk
  have hreached : ∀ cursor,
      cursorAt durationType customPeriodSecs stream.startTime n = some cursor →
        reportEnd stream now ≤ cursor := by
    intro cursor hcursor
    show (reportEnd stream now).val ≤ cursor.val
    rw [val_cursorAt hseconds.start hcursor]
    exact hcovers.reached
  have hreport := fun fuel (hfuel : n < fuel) =>
    report_of_reached h hseconds.start hbefore hreached dateNow hfuel
  have hearned : ((((List.range n).map (iterationAt durationType customPeriodSecs
      stream.startTime)).map (Iteration.period (reportEnd stream now))).map
        (earningsOf dateNow stream)).map PeriodEarnings.earned =
      (Number.capped (max 0 stream.deposit) ((List.range n).map
        (partAt stream durationType customPeriodSecs (reportEnd stream now)))).map
          some := by
    simp only [Number.capped, List.map_map]
    refine List.map_congr_left ?_
    intro k hk
    exact earned_of_covers h hstatus hcliff hwithdrawn halternates hordered hseconds hcovers
      hnumbers.1 dateNow (List.mem_range.mp hk)
  -- what remains is about the capped parts and the capped whole
  rw [addsUp_iff_of_report hreport, earnedTotal_of_numbers hearned]
  refine Iff.trans ?_ (sum_parts_iff hordered hcovers hnumbers h hseconds)
  constructor
  · rintro ⟨total, htotal, hval⟩
    obtain rfl := Option.some.inj htotal
    exact hval
  · intro hval
    exact ⟨_, rfl, hval⟩

end AddsUp

/-- A stream of one token a second that starts at 1000. -/
def steadyStream (deposit : Int) (pauseHistory : List PauseEntry) : StreamState where
  deposit := JsNumber.ofInt deposit
  withdrawn := 0
  ratePerSecond := JsNumber.ofInt 1
  startTime := JsNumber.ofInt 1000
  stopTime := 0
  lastWithdrawTime := JsNumber.ofInt 1000
  cliffTime := 0
  status := .active
  pauseHistory := pauseHistory

theorem reportEnd_steadyStream (deposit : Int) (pauseHistory : List PauseEntry)
    (now : JsNumber) : reportEnd (steadyStream deposit pauseHistory) now = now := by
  unfold reportEnd steadyStream
  simp only [lt_self_iff_false, false_and, if_false]

/-- A pause from 1050 to 1080. -/
def halfMinutePause : List PauseEntry :=
  [⟨JsNumber.ofInt 1050, true⟩, ⟨JsNumber.ofInt 1080, false⟩]

theorem wholeSeconds_steadyStream (deposit : Int) :
    WholeSeconds (steadyStream deposit halfMinutePause) := by
  refine ⟨⟨1000, val_ofInt (by decide)⟩, ?_⟩
  intro entry hentry
  rcases List.mem_pair.mp hentry with rfl | rfl
  · exact ⟨1050, val_ofInt (by decide)⟩
  · exact ⟨1080, val_ofInt (by decide)⟩

/-- The report on a deposit of 100 over three minutes. -/
def threeMinutes : List PeriodEarnings :=
  [⟨JsNumber.ofInt 1000, some (JsNumber.ofInt 1060), some (JsNumber.ofInt 60)⟩,
    ⟨JsNumber.ofInt 1060, some (JsNumber.ofInt 1120), some (JsNumber.ofInt 60)⟩,
    ⟨JsNumber.ofInt 1120, some (JsNumber.ofInt 1180), some (JsNumber.ofInt 60)⟩]

end Properties
end Paystream
