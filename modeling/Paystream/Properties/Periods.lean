import Mathlib.Logic.Function.Iterate
import Paystream.Services.Balance

/-!
# Reporting periods

`buildPeriods` cuts an interval at the boundaries it reaches by adding days,
weeks, months or a fixed number of seconds to the start, again and again.  Every
step goes forward, by a day at least or by the custom period, so the loop ends
(`iterations_of_supported`).  Two things can go wrong with what it returns.

* A boundary past the range of `Date` is `NaN`: the last period then has no end.
  `periods_partition_iff` says that the periods partition the interval exactly
  when the first boundary that is not before its end still is a date.
* `setUTCMonth` keeps the day of the month as a number, so from the 29th on a short
  month is run over and skipped.  `monthly_periods_iff` says that the monthly
  boundaries follow the calendar exactly when all the months they have to reach
  have the day on which the interval starts.
-/

namespace Paystream
namespace Properties

open Library
open Library.Calendar
open Services
open Services.BalanceService

/-! ## One step forward -/

/-- The duration types for which a step is defined. -/
def Supported (customPeriodSecs : Option Int) : DurationType → Prop
  | .custom => ∃ period, customPeriodSecs = some period ∧ 0 < period
  | .unknown _ => False
  | _ => True

/-- The types whose boundaries are computed with `Date`. -/
def usesDates : DurationType → Bool
  | .daily => true
  | .monthly => true
  | _ => false

/-- The last second that is a date. -/
def maxDate : Int := 8640000000000

/-- The seconds that are dates. -/
def IsDate (t : Int) : Prop := -maxDate ≤ t ∧ t ≤ maxDate

instance (t : Int) : Decidable (IsDate t) :=
  inferInstanceAs (Decidable (_ ∧ _))

/-- The month, counted from January 1970, in which a second lies. -/
def monthAt (t : Int) : Int := monthOf (t / 86400)

/-- The day of the month of a second. -/
def dateAt (t : Int) : Int := dateFromDay (t / 86400)

/-- The boundary after `cursor`, whether it is a date or not. -/
def boundaryAfter (durationType : DurationType) (customPeriodSecs : Option Int)
    (cursor : Int) : Int :=
  match durationType with
  | .daily => cursor + 86400
  | .weekly => cursor + 7 * 86400
  | .monthly => cursor + monthLength (monthAt cursor) * 86400
  | .custom => cursor + customPeriodSecs.getD 0
  | .unknown _ => cursor

theorem boundaryAfter_gt {durationType : DurationType}
    {customPeriodSecs : Option Int}
    (h : Supported customPeriodSecs durationType) (cursor : Int) :
    cursor < boundaryAfter durationType customPeriodSecs cursor := by
  cases durationType with
  | daily => exact Int.lt_add_of_pos_right cursor (by decide)
  | weekly => exact Int.lt_add_of_pos_right cursor (by decide)
  | monthly =>
      have hlength := monthLength_ge (monthAt cursor)
      show cursor < cursor + monthLength (monthAt cursor) * 86400
      omega
  | custom =>
      obtain ⟨period, rfl, hpos⟩ := h
      exact Int.lt_add_of_pos_right cursor hpos
  | unknown name => exact absurd h id

/-- The value of `nextCursor` where it does not throw. -/
def cursorAfter (durationType : DurationType) (customPeriodSecs : Option Int)
    (cursor : Int) : Option Int :=
  if usesDates durationType = true → IsDate cursor ∧
      IsDate (boundaryAfter durationType customPeriodSecs cursor) then
    some (boundaryAfter durationType customPeriodSecs cursor)
  else
    none

theorem timeClip_seconds (t : Int) :
    timeClip (t * 1000) = if IsDate t then some (t * 1000) else none := by
  have hiff : (-maxTime ≤ t * 1000 ∧ t * 1000 ≤ maxTime) ↔ IsDate t := by
    unfold IsDate maxDate maxTime
    omega
  unfold timeClip
  simp only [hiff]

theorem day_of_seconds (t : Int) : t * 1000 / msPerDay = t / 86400 := by
  unfold msPerDay
  omega

/-- The next day, in seconds. -/
theorem setUTCDate_seconds (t : Int) :
    setUTCDate (t * 1000) (getUTCDate (t * 1000) + 1) = timeClip ((t + 86400) * 1000) := by
  have hlater : t * 1000 + msPerDay = (t + 86400) * 1000 := by
    unfold msPerDay
    omega
  rw [setUTCDate_succ, hlater]

/-- The next month, in seconds. -/
theorem setUTCMonth_seconds (t : Int) :
    setUTCMonth (t * 1000) (getUTCMonth (t * 1000) + 1) =
      timeClip ((t + monthLength (monthAt t) * 86400) * 1000) := by
  have hlater : t * 1000 + monthLength (monthOf (t * 1000 / msPerDay)) * msPerDay =
      (t + monthLength (monthAt t) * 86400) * 1000 := by
    rw [day_of_seconds]
    unfold msPerDay monthAt
    omega
  rw [setUTCMonth_succ, hlater]

theorem nextCursor_of_supported {durationType : DurationType}
    {customPeriodSecs : Option Int}
    (h : Supported customPeriodSecs durationType) (cursor : Int) :
    nextCursor durationType customPeriodSecs cursor =
      .ok (cursorAfter durationType customPeriodSecs cursor) := by
  cases durationType with
  | daily =>
      unfold nextCursor cursorAfter
      simp only [timeClip_seconds, usesDates, boundaryAfter, true_imp_iff]
      by_cases hnow : IsDate cursor
      · simp only [hnow, if_true, true_and, Option.bind_eq_bind, Option.bind_some,
          setUTCDate_seconds, timeClip_seconds]
        by_cases hnext : IsDate (cursor + 86400)
        · simp [hnext]
        · simp [hnext]
      · simp [hnow]
  | weekly => rfl
  | monthly =>
      unfold nextCursor cursorAfter
      simp only [timeClip_seconds, usesDates, boundaryAfter, true_imp_iff]
      by_cases hnow : IsDate cursor
      · simp only [hnow, if_true, true_and, Option.bind_eq_bind, Option.bind_some,
          setUTCMonth_seconds, timeClip_seconds]
        by_cases hnext : IsDate (cursor + monthLength (monthAt cursor) * 86400)
        · simp [hnext]
        · simp [hnext]
      · simp [hnow]
  | custom =>
      obtain ⟨period, rfl, hpos⟩ := h
      unfold nextCursor
      simp only [Option.getD_some, if_neg (not_le.mpr hpos)]
      rfl
  | unknown name => exact absurd h id

/-! ## The loop -/

/-- The iterations of the loop from a cursor on. -/
inductive Iterated (endSecs : Int) (durationType : DurationType)
    (customPeriodSecs : Option Int) : Option Int → List Iteration → Prop
  | nan : Iterated endSecs durationType customPeriodSecs none []
  | reached {cursor : Int} (hend : endSecs ≤ cursor) :
      Iterated endSecs durationType customPeriodSecs (some cursor) []
  | step {cursor : Int} {later : List Iteration} (hbefore : cursor < endSecs)
      (hlater : Iterated endSecs durationType customPeriodSecs
        (cursorAfter durationType customPeriodSecs cursor) later) :
      Iterated endSecs durationType customPeriodSecs (some cursor)
        (⟨cursor, cursorAfter durationType customPeriodSecs cursor⟩ :: later)

section Loop

variable {durationType : DurationType} {customPeriodSecs : Option Int}
  {endSecs : Int}

theorem cursorAfter_cases (durationType : DurationType)
    (customPeriodSecs : Option Int) (cursor : Int) :
    (cursorAfter durationType customPeriodSecs cursor =
        some (boundaryAfter durationType customPeriodSecs cursor) ∧
      (usesDates durationType = true → IsDate cursor ∧
        IsDate (boundaryAfter durationType customPeriodSecs cursor))) ∨
    (cursorAfter durationType customPeriodSecs cursor = none ∧
      usesDates durationType = true ∧ ¬ (IsDate cursor ∧
        IsDate (boundaryAfter durationType customPeriodSecs cursor))) := by
  unfold cursorAfter
  by_cases hdates : usesDates durationType = true → IsDate cursor ∧
      IsDate (boundaryAfter durationType customPeriodSecs cursor)
  · exact Or.inl ⟨if_pos hdates, hdates⟩
  · exact Or.inr ⟨if_neg hdates, Classical.not_imp.mp hdates⟩

theorem iterations_step (h : Supported customPeriodSecs durationType)
    {cursor : Int} (hbefore : cursor < endSecs) {fuel : Nat}
    {later : List Iteration}
    (hlater : iterations endSecs durationType customPeriodSecs fuel
      (cursorAfter durationType customPeriodSecs cursor) = .ok later) :
    iterations endSecs durationType customPeriodSecs (fuel + 1) (some cursor) =
      .ok (⟨cursor, cursorAfter durationType customPeriodSecs cursor⟩ ::
        later) := by
  simp only [iterations, if_pos hbefore, nextCursor_of_supported h]
  show (iterations endSecs durationType customPeriodSecs fuel
    (cursorAfter durationType customPeriodSecs cursor) >>= fun later => pure _) = _
  rw [hlater]
  rfl

/-- The loop ends, with the same iterations whenever there is fuel for one
iteration a second. -/
theorem iterations_of_supported (h : Supported customPeriodSecs durationType)
    (cursor : Int) :
    ∃ made, Iterated endSecs durationType customPeriodSecs (some cursor) made ∧
      ∀ fuel, (endSecs - cursor).toNat < fuel →
        iterations endSecs durationType customPeriodSecs fuel (some cursor) =
          .ok made := by
  -- what is left of the interval shrinks with every step
  generalize hleft : (endSecs - cursor).toNat = left
  induction left using Nat.strong_induction_on generalizing cursor with
  | _ left ih =>
      by_cases hbefore : cursor < endSecs
      · rcases cursorAfter_cases durationType customPeriodSecs cursor with
          ⟨hnext, _⟩ | ⟨hnan, _⟩
        · have hforward := boundaryAfter_gt h cursor
          obtain ⟨later, hlater, hfuel⟩ :=
            ih (endSecs - boundaryAfter durationType customPeriodSecs cursor).toNat
              (by omega) _ rfl
          rw [← hnext] at hlater hfuel
          refine ⟨_, .step hbefore hlater, ?_⟩
          intro fuel hmore
          obtain ⟨fuel, rfl⟩ := Nat.exists_eq_add_of_le' (by omega : 1 ≤ fuel)
          exact iterations_step h hbefore (hfuel fuel (by omega))
        · have hlater : Iterated endSecs durationType customPeriodSecs
              (cursorAfter durationType customPeriodSecs cursor) [] := by
            rw [hnan]
            exact .nan
          refine ⟨_, .step hbefore hlater, ?_⟩
          intro fuel hmore
          obtain ⟨fuel, rfl⟩ := Nat.exists_eq_add_of_le' (by omega : 2 ≤ fuel)
          refine iterations_step h hbefore ?_
          rw [hnan]
          rfl
      · refine ⟨[], .reached (not_lt.mp hbefore), ?_⟩
        intro fuel hmore
        obtain ⟨fuel, rfl⟩ := Nat.exists_eq_add_of_le' (by omega : 1 ≤ fuel)
        simp only [iterations, if_neg hbefore]

theorem Iterated.of_before {cursor : Int} {made : List Iteration}
    (h : Iterated endSecs durationType customPeriodSecs (some cursor) made)
    (hbefore : cursor < endSecs) :
    ∃ later, made =
        ⟨cursor, cursorAfter durationType customPeriodSecs cursor⟩ :: later ∧
      Iterated endSecs durationType customPeriodSecs
        (cursorAfter durationType customPeriodSecs cursor) later := by
  cases h with
  | reached hend => omega
  | step _ hlater => exact ⟨_, rfl, hlater⟩

theorem Iterated.of_reached {cursor : Int} {made : List Iteration}
    (h : Iterated endSecs durationType customPeriodSecs (some cursor) made)
    (hend : endSecs ≤ cursor) : made = [] := by
  cases h with
  | reached _ => rfl
  | step hbefore _ => omega

end Loop

/-! ## Partitions -/

/-- The periods cover the interval one after the other, without a gap. -/
structure Partitions (start stop : Int) (periods : List Period) : Prop where
  ne_nil : periods ≠ []
  first : ∀ p, periods.head? = some p → p.start = start
  last : ∀ p, periods.getLast? = some p → p.stop = some stop
  nonempty : ∀ p ∈ periods, ∃ e, p.stop = some e ∧ p.start < e
  consecutive : periods.IsChain fun p q => p.stop = some q.start

theorem partitions_singleton_iff (start stop : Int) (e : Option Int) :
    Partitions start stop [⟨start, e⟩] ↔ e = some stop ∧ start < stop := by
  constructor
  · intro h
    obtain rfl : e = some stop := h.last _ rfl
    obtain ⟨_, hstop, hlt⟩ := h.nonempty _ List.mem_cons_self
    cases hstop
    exact ⟨rfl, hlt⟩
  · rintro ⟨rfl, hlt⟩
    refine ⟨by simp, ?_, ?_, ?_, by simp⟩
    · rintro p hp
      cases hp
      rfl
    · rintro p hp
      cases hp
      rfl
    · intro p hp
      obtain rfl := List.mem_singleton.mp hp
      exact ⟨stop, rfl, hlt⟩

/-- A first period in front of others. -/
theorem partitions_cons_iff {start stop middle : Int} {periods : List Period}
    (hsome : periods ≠ []) :
    Partitions start stop (⟨start, some middle⟩ :: periods) ↔
      start < middle ∧ Partitions middle stop periods := by
  obtain ⟨p, rest, rfl⟩ := List.exists_cons_of_ne_nil hsome
  constructor
  · intro h
    have hchain := h.consecutive
    rw [List.isChain_cons_cons] at hchain
    obtain ⟨_, hmiddle, hlt⟩ := h.nonempty _ List.mem_cons_self
    cases hmiddle
    refine ⟨hlt, by simp, ?_, ?_, ?_, hchain.2⟩
    · intro q hq
      cases hq
      exact (Option.some.inj hchain.1).symm
    · intro q hq
      exact h.last q (by rw [List.getLast?_cons_cons]; exact hq)
    · intro q hq
      exact h.nonempty q (List.mem_cons_of_mem _ hq)
  · rintro ⟨hlt, h⟩
    refine ⟨by simp, ?_, ?_, ?_, ?_⟩
    · intro q hq
      cases hq
      rfl
    · intro q hq
      rw [List.getLast?_cons_cons] at hq
      exact h.last q hq
    · intro q hq
      rcases List.mem_cons.mp hq with rfl | hlater
      · exact ⟨middle, rfl, hlt⟩
      · exact h.nonempty q hlater
    · rw [List.isChain_cons_cons, h.first p rfl]
      exact ⟨rfl, h.consecutive⟩

/-- A partition of one period, or a first period before a partition. -/
theorem Partitions.cases {start stop : Int} {periods : List Period}
    (h : Partitions start stop periods) :
    (periods = [⟨start, some stop⟩] ∧ start < stop) ∨
      ∃ middle rest, periods = ⟨start, some middle⟩ :: rest ∧ start < middle ∧
        Partitions middle stop rest := by
  obtain ⟨⟨first, e⟩, rest, rfl⟩ := List.exists_cons_of_ne_nil h.ne_nil
  obtain rfl : first = start := h.first _ rfl
  by_cases hrest : rest = []
  · subst hrest
    obtain ⟨rfl, hlt⟩ := (partitions_singleton_iff _ _ _).mp h
    exact Or.inl ⟨rfl, hlt⟩
  · obtain ⟨middle, hmiddle, _⟩ := h.nonempty _ List.mem_cons_self
    obtain rfl : e = some middle := hmiddle
    obtain ⟨hlt, hlater⟩ := (partitions_cons_iff hrest).mp h
    exact Or.inr ⟨middle, rest, rfl, hlt, hlater⟩

theorem Partitions.start_le {start stop : Int} {periods : List Period}
    (h : Partitions start stop periods) {p : Period} (hp : p ∈ periods) :
    start ≤ p.start := by
  induction periods generalizing start with
  | nil => cases hp
  | cons first others ih =>
      rcases h.cases with ⟨hone, _⟩ | ⟨middle, rest, hcons, hlt, hlater⟩
      · rw [hone] at hp
        obtain rfl := List.mem_singleton.mp hp
        exact le_rfl
      · obtain ⟨rfl, rfl⟩ := List.cons.inj hcons
        rcases List.mem_cons.mp hp with rfl | hmem
        · exact le_rfl
        · exact hlt.le.trans (ih hlater hmem)

/-- What is additive over consecutive intervals adds up over the periods. -/
theorem sum_of_partitions {M : Type} [AddMonoid M] {f : Int → Int → M}
    {start stop : Int} {periods : List Period}
    (hadd : ∀ a b c, start ≤ a → a ≤ b → b ≤ c → f a c = f a b + f b c)
    (h : Partitions start stop periods) :
    (periods.map fun p => f p.start (p.stop.getD 0)).sum = f start stop ∧
      start < stop := by
  induction periods generalizing start with
  | nil => exact absurd rfl h.ne_nil
  | cons p others ih =>
      rcases h.cases with ⟨hone, hlt⟩ | ⟨middle, rest, hcons, hlt, hlater⟩
      · rw [hone]
        simp [hlt]
      · obtain ⟨rfl, rfl⟩ := List.cons.inj hcons
        obtain ⟨hsum, hstop⟩ := ih (fun a b c ha => hadd a b c (hlt.le.trans ha)) hlater
        rw [List.map_cons, List.sum_cons, hsum]
        exact ⟨(hadd start middle stop le_rfl hlt.le hstop.le).symm, hlt.trans hstop⟩

/-- Where dates are used, the first boundary that is not before the end of the
interval is one. -/
def LastBoundaryIsDate (durationType : DurationType)
    (customPeriodSecs : Option Int) (start stop : Int) : Prop :=
  usesDates durationType = true → ∃ k,
    stop ≤ (boundaryAfter durationType customPeriodSecs)^[k] start ∧
      (boundaryAfter durationType customPeriodSecs)^[k] start ≤ maxDate

section Partition

variable {durationType : DurationType} {customPeriodSecs : Option Int}
  {cursor endSecs : Int}

theorem lastBoundaryIsDate_step (hbefore : cursor < endSecs) :
    LastBoundaryIsDate durationType customPeriodSecs cursor endSecs ↔
      LastBoundaryIsDate durationType customPeriodSecs
        (boundaryAfter durationType customPeriodSecs cursor) endSecs := by
  unfold LastBoundaryIsDate
  refine imp_congr_right fun _ => ⟨?_, ?_⟩
  · rintro ⟨k, hreached, hdate⟩
    cases k with
    | zero => exact absurd hreached (not_le.mpr hbefore)
    | succ k => exact ⟨k, hreached, hdate⟩
  · rintro ⟨k, hreached, hdate⟩
    exact ⟨k + 1, hreached, hdate⟩

theorem le_iterate_boundaryAfter (h : Supported customPeriodSecs durationType)
    (cursor : Int) (k : Nat) :
    cursor ≤ (boundaryAfter durationType customPeriodSecs)^[k] cursor := by
  induction k with
  | zero => exact le_rfl
  | succ k ih =>
      rw [Function.iterate_succ_apply']
      exact ih.trans (boundaryAfter_gt h _).le

/-- No boundary from a time past the last date on is a date. -/
theorem not_lastBoundaryIsDate (h : Supported customPeriodSecs durationType)
    (hdates : usesDates durationType = true) (hpast : maxDate < cursor) :
    ¬ LastBoundaryIsDate durationType customPeriodSecs cursor endSecs := by
  intro hlast
  obtain ⟨k, _, hdate⟩ := hlast hdates
  have hle := le_iterate_boundaryAfter h cursor k
  omega

/-- A step to `NaN` is a step past the last date. -/
theorem not_lastBoundaryIsDate_of_nan
    (h : Supported customPeriodSecs durationType) (hbefore : cursor < endSecs)
    (hdate : -maxDate ≤ cursor)
    (hnan : cursorAfter durationType customPeriodSecs cursor = none) :
    ¬ LastBoundaryIsDate durationType customPeriodSecs cursor endSecs := by
  have hforward := boundaryAfter_gt h cursor
  rw [lastBoundaryIsDate_step hbefore]
  rcases cursorAfter_cases durationType customPeriodSecs cursor with
    ⟨hnext, _⟩ | ⟨_, hdates, hnot⟩
  · rw [hnan] at hnext
    cases hnext
  · refine not_lastBoundaryIsDate h hdates ?_
    by_contra hle
    exact hnot ⟨⟨hdate, by omega⟩, by omega, by omega⟩

/-- The period of an iteration whose next cursor is a number. -/
theorem period_of_boundary (cursor next endSecs : Int) :
    Iteration.period endSecs ⟨cursor, some next⟩ =
      ⟨cursor, some (min next endSecs)⟩ := rfl

/-- The periods partition the interval where the last boundary is a date, and
one of them has no end where it is none. -/
theorem periods_of_iterated (h : Supported customPeriodSecs durationType)
    {made : List Iteration}
    (hmade : Iterated endSecs durationType customPeriodSecs (some cursor) made)
    (hbefore : cursor < endSecs) (hdate : -maxDate ≤ cursor) :
    (LastBoundaryIsDate durationType customPeriodSecs cursor endSecs ∧
        Partitions cursor endSecs (made.map (Iteration.period endSecs))) ∨
      (¬ LastBoundaryIsDate durationType customPeriodSecs cursor endSecs ∧
        ∃ p ∈ made.map (Iteration.period endSecs), p.stop = none) := by
  -- along the iterations, the cursor going forward
  generalize hcursor : some cursor = start at hmade
  induction hmade generalizing cursor with
  | nan => cases hcursor
  | reached hreached =>
      cases hcursor
      omega
  | @step c later _ hlater ih =>
      obtain rfl : cursor = c := Option.some.inj hcursor
      have hforward := boundaryAfter_gt h cursor
      rw [List.map_cons]
      rcases cursorAfter_cases durationType customPeriodSecs cursor with
        ⟨hnext, hboth⟩ | ⟨hnan, _⟩
      · rw [lastBoundaryIsDate_step hbefore]
        rw [hnext] at hlater ih
        by_cases hmore : boundaryAfter durationType customPeriodSecs cursor < endSecs
        · rw [hnext, period_of_boundary, min_eq_left hmore.le]
          obtain ⟨rest, rfl, _⟩ := hlater.of_before hmore
          rcases ih hmore (hdate.trans hforward.le) rfl with
            ⟨hlast, hpartition⟩ | ⟨hlast, p, hmem, hstop⟩
          · exact Or.inl ⟨hlast, (partitions_cons_iff (by simp)).mpr
              ⟨hforward, hpartition⟩⟩
          · exact Or.inr ⟨hlast, p, List.mem_cons_of_mem _ hmem, hstop⟩
        · have hreached := not_lt.mp hmore
          rw [hnext, period_of_boundary, min_eq_right hreached,
            hlater.of_reached hreached]
          refine Or.inl ⟨?_, (partitions_singleton_iff _ _ _).mpr ⟨rfl, hbefore⟩⟩
          intro hdates
          exact ⟨0, hreached, (hboth hdates).2.2⟩
      · exact Or.inr ⟨not_lastBoundaryIsDate_of_nan h hbefore hdate hnan, _,
          List.mem_cons_self, by rw [hnan]; rfl⟩

/-- The periods are those between a boundary before the end and the next one. -/
theorem mem_periods_iff (h : Supported customPeriodSecs durationType)
    {made : List Iteration}
    (hmade : Iterated endSecs durationType customPeriodSecs (some cursor) made)
    (hdate : -maxDate ≤ cursor)
    (hlast : LastBoundaryIsDate durationType customPeriodSecs cursor endSecs)
    (p : Period) :
    p ∈ made.map (Iteration.period endSecs) ↔ ∃ k,
      (boundaryAfter durationType customPeriodSecs)^[k] cursor < endSecs ∧
      p = ⟨(boundaryAfter durationType customPeriodSecs)^[k] cursor,
        some (min ((boundaryAfter durationType customPeriodSecs)^[k + 1] cursor)
          endSecs)⟩ := by
  generalize hcursor : some cursor = start at hmade
  induction hmade generalizing cursor with
  | nan => cases hcursor
  | @reached c hreached =>
      obtain rfl : cursor = c := Option.some.inj hcursor
      constructor
      · intro hp
        cases hp
      · rintro ⟨k, hbefore, _⟩
        have hle := le_iterate_boundaryAfter h cursor k
        omega
  | @step c later hbefore hlater ih =>
      obtain rfl : cursor = c := Option.some.inj hcursor
      have hforward := boundaryAfter_gt h cursor
      rcases cursorAfter_cases durationType customPeriodSecs cursor with
        ⟨hnext, _⟩ | ⟨hnan, _⟩
      · rw [lastBoundaryIsDate_step hbefore] at hlast
        have hrest := ih (hdate.trans hforward.le) hlast hnext.symm
        rw [List.map_cons, hnext, period_of_boundary, List.mem_cons, hrest]
        constructor
        · rintro (rfl | ⟨k, hk, rfl⟩)
          · exact ⟨0, hbefore, rfl⟩
          · exact ⟨k + 1, hk, rfl⟩
        · rintro ⟨k, hk, rfl⟩
          cases k with
          | zero => exact Or.inl rfl
          | succ k => exact Or.inr ⟨k, hk, rfl⟩
      · exact absurd hlast (not_lastBoundaryIsDate_of_nan h hbefore hdate hnan)

theorem buildPeriods_of_iterations {start stop : Int} {made : List Iteration}
    {fuel : Nat}
    (h : iterations stop durationType customPeriodSecs fuel (some start) =
      .ok made) :
    buildPeriods fuel start stop durationType customPeriodSecs =
      .ok (made.map (Iteration.period stop)) := by
  unfold buildPeriods
  rw [h]
  rfl

/-- For every interval that starts at a date and every duration type
`buildPeriods` returns, and its periods partition the interval exactly when the
first boundary that is not before the end is still a date. -/
theorem periods_partition_iff (h : Supported customPeriodSecs durationType)
    {start stop : Int} (hlt : start < stop) (hstart : IsDate start) :
    ∃ periods, (∀ fuel, (stop - start).toNat < fuel →
        buildPeriods fuel start stop durationType customPeriodSecs =
          .ok periods) ∧
      (Partitions start stop periods ↔
        LastBoundaryIsDate durationType customPeriodSecs start stop) := by
  obtain ⟨made, hmade, hfuel⟩ := iterations_of_supported h start
  refine ⟨made.map (Iteration.period stop), ?_, ?_⟩
  · intro fuel hmore
    exact buildPeriods_of_iterations (hfuel fuel hmore)
  · rcases periods_of_iterated h hmade hlt hstart.1 with
      ⟨hlast, hpartition⟩ | ⟨hlast, p, hmem, hnone⟩
    · exact iff_of_true hpartition hlast
    · refine iff_of_false ?_ hlast
      intro hpartition
      obtain ⟨_, hstop, _⟩ := hpartition.nonempty p hmem
      rw [hnone] at hstop
      cases hstop

end Partition

/-- January and February 2024, in months. -/
theorem periods_partition_of_two_months :
    ∃ periods, (∀ fuel, 5184000 < fuel →
        buildPeriods fuel 1704067200 1709251200 .monthly none = .ok periods) ∧
      Partitions 1704067200 1709251200 periods := by
  obtain ⟨periods, hfuel, hiff⟩ := periods_partition_iff
    (show Supported none .monthly from trivial)
    (show (1704067200 : Int) < 1709251200 by decide) (by decide)
  exact ⟨periods, hfuel, hiff.mpr fun _ => ⟨2, by decide, by decide⟩⟩

/-- Five seconds before the last date, in days: the boundary after the start is
no date, and the only period has no end. -/
theorem last_period_without_end :
    IsDate 8639999999990 ∧ IsDate 8639999999995 ∧
      (∀ fuel, buildPeriods (fuel + 2) 8639999999990 8639999999995 .daily none =
        .ok [⟨8639999999990, none⟩]) ∧
      ¬ Partitions 8639999999990 8639999999995 [⟨8639999999990, none⟩] := by
  refine ⟨by decide, by decide, fun fuel => rfl, ?_⟩
  intro h
  cases h.last _ rfl

/-! ## Months -/

/-- The second in the `i`-th month after that of `start` with the same day of the
month and the same time; past the end of a shorter month it is counted on. -/
def sameDay (start i : Int) : Int :=
  (firstDay (monthAt start + i) + dateAt start - 1) * 86400 + start % 86400

/-- The boundary of each iteration lies in the month that follows the one
before, starting from that of `start`. -/
def FollowsCalendar (start : Int) (made : List Iteration) : Prop :=
  ∀ (i : Nat) iteration, made[i]? = some iteration →
    ∃ b, iteration.nextCursor = some b ∧ monthAt b = monthAt start + (i + 1)

/-- Every month in which a boundary is needed has the day of the month of
`start`, and the boundary is a date. -/
def MonthsHaveDay (start stop : Int) : Prop :=
  ∀ i : Nat, sameDay start i < stop →
    dateAt start ≤ monthLength (monthAt start + (i + 1)) ∧
      sameDay start (i + 1) ≤ maxDate

section Monthly

theorem one_le_dateAt (t : Int) : 1 ≤ dateAt t :=
  (firstDay_monthOf (t / 86400)).2.1

theorem sameDay_zero (t : Int) : sameDay t 0 = t := by
  have hfirst := (firstDay_monthOf (t / 86400)).1
  unfold sameDay monthAt dateAt
  rw [add_zero, hfirst]
  omega

theorem day_sameDay (t i : Int) :
    sameDay t i / 86400 = firstDay (monthAt t + i) + dateAt t - 1 := by
  unfold sameDay
  omega

theorem boundaryAfter_monthly (customPeriodSecs : Option Int) (t : Int) :
    boundaryAfter .monthly customPeriodSecs t = sameDay t 1 := by
  have hfirst := (firstDay_monthOf (t / 86400)).1
  simp only [boundaryAfter, sameDay, firstDay_succ]
  unfold monthAt dateAt
  rw [hfirst]
  omega

/-- A boundary lies in its month exactly when the month has the day. -/
theorem monthAt_sameDay_iff (t i : Int) :
    monthAt (sameDay t i) = monthAt t + i ↔
      dateAt t ≤ monthLength (monthAt t + i) := by
  rw [monthAt, day_sameDay]
  exact monthOf_makeDay_iff _ (one_le_dateAt t)

/-- From a boundary that lies in its month the later ones are the same as from
the start. -/
theorem sameDay_sameDay {t : Int}
    (hlength : dateAt t ≤ monthLength (monthAt t + 1)) (i : Int) :
    dateAt (sameDay t 1) = dateAt t ∧
      sameDay (sameDay t 1) i = sameDay t (i + 1) := by
  have hmonth := (monthAt_sameDay_iff t 1).mpr hlength
  have hdate : dateAt (sameDay t 1) = dateAt t := by
    rw [dateAt, day_sameDay]
    exact dateFromDay_makeDay (one_le_dateAt t) hlength
  have htime : sameDay t 1 % 86400 = t % 86400 := by
    unfold sameDay
    omega
  refine ⟨hdate, ?_⟩
  rw [sameDay, hmonth, hdate, htime, add_assoc, add_comm 1 i]
  rfl

theorem followsCalendar_cons_iff (start : Int) (next : Option Int)
    (later : List Iteration) :
    FollowsCalendar start (⟨start, next⟩ :: later) ↔
      ∃ b, next = some b ∧ monthAt b = monthAt start + 1 ∧
        FollowsCalendar b later := by
  constructor
  · intro h
    obtain ⟨b, hb, hmonth⟩ := h 0 _ rfl
    simp only [Nat.cast_zero, zero_add] at hmonth
    refine ⟨b, hb, hmonth, ?_⟩
    intro i iteration hi
    obtain ⟨c, hc, hlater⟩ := h (i + 1) iteration hi
    refine ⟨c, hc, ?_⟩
    rw [hlater, hmonth]
    push_cast
    omega
  · rintro ⟨b, rfl, hmonth, h⟩ i iteration hi
    cases i with
    | zero =>
        obtain rfl := Option.some.inj hi
        refine ⟨b, rfl, ?_⟩
        rw [hmonth]
        simp
    | succ i =>
        obtain ⟨c, hc, hlater⟩ := h i iteration hi
        refine ⟨c, hc, ?_⟩
        rw [hlater, hmonth]
        push_cast
        omega

theorem monthsHaveDay_step {start stop : Int} (hlt : start < stop) :
    MonthsHaveDay start stop ↔
      dateAt start ≤ monthLength (monthAt start + 1) ∧
        sameDay start 1 ≤ maxDate ∧ MonthsHaveDay (sameDay start 1) stop := by
  have hzero := sameDay_zero start
  constructor
  · intro h
    obtain ⟨hlength, hdate⟩ := h 0 (by rw [Nat.cast_zero, hzero]; exact hlt)
    simp only [Nat.cast_zero, zero_add] at hlength hdate
    refine ⟨hlength, hdate, ?_⟩
    intro i hi
    obtain ⟨hsame, hlater⟩ := sameDay_sameDay hlength i
    have hmonth := (monthAt_sameDay_iff start 1).mpr hlength
    have hnext := (sameDay_sameDay hlength (i + 1)).2
    rw [hlater] at hi
    obtain ⟨hlong, hin⟩ := h (i + 1) (by push_cast; exact hi)
    push_cast at hlong hin
    refine ⟨?_, ?_⟩
    · rw [hsame, hmonth, add_assoc, add_comm 1 ((i : Int) + 1)]
      exact hlong
    · rw [hnext]
      exact hin
  · rintro ⟨hlength, hdate, h⟩ i hi
    cases i with
    | zero =>
        simp only [Nat.cast_zero, zero_add]
        exact ⟨hlength, hdate⟩
    | succ i =>
        obtain ⟨hsame, hlater⟩ := sameDay_sameDay hlength i
        have hmonth := (monthAt_sameDay_iff start 1).mpr hlength
        have hnext := (sameDay_sameDay hlength (i + 1)).2
        push_cast at hi ⊢
        rw [← hlater] at hi
        obtain ⟨hlong, hin⟩ := h i hi
        rw [hsame, hmonth, add_assoc, add_comm 1 ((i : Int) + 1)] at hlong
        rw [hnext] at hin
        exact ⟨hlong, hin⟩

/-- The start of the interval lies before its end, or there is nothing to
reach. -/
theorem monthsHaveDay_of_le {start stop : Int} (hle : stop ≤ start) :
    MonthsHaveDay start stop := by
  intro i hi
  have hmono : sameDay start 0 ≤ sameDay start i := by
    have hfirst := firstDay_strictMono.monotone
      (show monthAt start + 0 ≤ monthAt start + i by omega)
    unfold sameDay
    omega
  rw [sameDay_zero] at hmono
  omega

theorem followsCalendar_of_iterated {customPeriodSecs : Option Int}
    {cursor stop : Int} {made : List Iteration}
    (hmade : Iterated stop .monthly customPeriodSecs (some cursor) made)
    (hdate : IsDate cursor) :
    FollowsCalendar cursor made ↔ MonthsHaveDay cursor stop := by
  generalize hcursor : some cursor = start at hmade
  induction hmade generalizing cursor with
  | nan => cases hcursor
  | @reached c hreached =>
      obtain rfl : cursor = c := Option.some.inj hcursor
      refine iff_of_true ?_ (monthsHaveDay_of_le hreached)
      intro i iteration hi
      simp at hi
  | @step c later hbefore hlater ih =>
      obtain rfl : cursor = c := Option.some.inj hcursor
      have hboundary := boundaryAfter_monthly customPeriodSecs cursor
      have hforward : cursor < sameDay cursor 1 := by
        rw [← hboundary]
        exact boundaryAfter_gt (show Supported customPeriodSecs .monthly from trivial)
          cursor
      rw [followsCalendar_cons_iff, monthsHaveDay_step hbefore]
      rcases cursorAfter_cases .monthly customPeriodSecs cursor with
        ⟨hnext, hboth⟩ | ⟨hnan, _, hnot⟩
      · rw [hboundary] at hnext hboth
        have hinside := (hboth rfl).2
        have hrest := ih hinside hnext.symm
        rw [hnext, ← monthAt_sameDay_iff, ← hrest, and_iff_right hinside.2]
        constructor
        · rintro ⟨b, hb, hmonth, hfollows⟩
          obtain rfl := Option.some.inj hb
          exact ⟨hmonth, hfollows⟩
        · rintro ⟨hmonth, hfollows⟩
          exact ⟨_, rfl, hmonth, hfollows⟩
      · -- the boundary is past the last date
        rw [hnan]
        constructor
        · rintro ⟨b, hb, _⟩
          cases hb
        · rintro ⟨_, hin, _⟩
          rw [hboundary] at hnot
          exact absurd ⟨hdate, hdate.1.trans hforward.le, hin⟩ hnot

/-- Up to the 28th every month has the day; the last boundary is at most one month
behind the end. -/
theorem monthsHaveDay_of_date_le {start stop : Int} (hdate : dateAt start ≤ 28)
    (hstop : stop + 31 * 86400 ≤ maxDate) : MonthsHaveDay start stop := by
  intro i hi
  refine ⟨hdate.trans (monthLength_ge _), ?_⟩
  have hmonth := monthLength_le (monthAt start + i)
  have hnext : sameDay start (i + 1) =
      sameDay start i + monthLength (monthAt start + i) * 86400 := by
    unfold sameDay
    rw [← add_assoc, firstDay_succ]
    omega
  omega

/-- From every date and up to every end, the boundaries of the monthly periods
follow the calendar exactly when every month in which one is needed has the day
of the month on which the interval starts. -/
theorem monthly_periods_iff (customPeriodSecs : Option Int) {start : Int}
    (hstart : IsDate start) (stop : Int) :
    ∃ made, (∀ fuel, (stop - start).toNat < fuel →
        iterations stop .monthly customPeriodSecs fuel (some start) =
          .ok made) ∧
      (FollowsCalendar start made ↔ MonthsHaveDay start stop) := by
  obtain ⟨made, hmade, hfuel⟩ := iterations_of_supported
    (show Supported customPeriodSecs .monthly from trivial) start
  exact ⟨made, hfuel, followsCalendar_of_iterated hmade hstart⟩

end Monthly

/-- From January 15, 2024 up to March 1: the boundaries are February 15 and
March 15. -/
theorem monthly_periods_of_mid_month :
    ∃ made, (∀ fuel, 3974400 < fuel →
        iterations 1709251200 .monthly none fuel (some 1705276800) = .ok made) ∧
      FollowsCalendar 1705276800 made := by
  obtain ⟨made, hfuel, hiff⟩ := monthly_periods_iff none
    (show IsDate 1705276800 by decide) 1709251200
  exact ⟨made, hfuel, hiff.mpr (monthsHaveDay_of_date_le (by decide) (by decide))⟩

/-- From January 31, 2024: the next boundary is March 2, and no boundary lies in
February. -/
theorem monthly_periods_skip_february :
    IsDate 1706659200 ∧ monthAt 1706659200 = 648 ∧ dateAt 1706659200 = 31 ∧
      (∀ fuel, iterations 1706659300 .monthly none (fuel + 2) (some 1706659200) =
        .ok [⟨1706659200, some 1709337600⟩]) ∧
      monthAt 1709337600 = 650 ∧ dateAt 1709337600 = 2 ∧
      ¬ FollowsCalendar 1706659200 [⟨1706659200, some 1709337600⟩] := by
  refine ⟨by decide, by decide, by decide, fun fuel => rfl, by decide, by decide,
    ?_⟩
  intro h
  obtain ⟨b, hb, hmonth⟩ := h 0 _ rfl
  obtain rfl := Option.some.inj hb
  exact absurd hmonth (by decide)

end Properties
end Paystream
