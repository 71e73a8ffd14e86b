import Paystream.Library.Rounding
import Paystream.Services.Balance

/-!
# The payroll report

`calculateBalanceByDuration` of `services/balance/balance.js` and what it calls, in
the numbers of JavaScript: every sum, difference, product and quotient is rounded to
53 binary digits.  A custom period may be any part of a second, so the boundaries of
the periods are rounded too.

There is no largest number here; the amounts and times of a stream come nowhere near
the one of JavaScript.  `NaN`, which a boundary can be, is `none`.
-/

namespace Paystream
namespace Services
namespace PayrollReport

open Library
open Library.Format
open Contract
open BalanceService (DurationType LoopError)

/-- The format of a JavaScript number. -/
def binary64 : Format := ⟨53, -1074, by decide⟩

abbrev JsNumber := binary64.Number

namespace JsNumber

def ofInt (n : Int) : JsNumber := Number.ofRat n

/-- `Math.floor`. -/
def floor (x : JsNumber) : JsNumber := ofInt ⌊x.val⌋

end JsNumber

/-- An entry of `pause_history`. -/
structure PauseEntry where
  timestamp : JsNumber
  isPause : Bool
  deriving DecidableEq

/-- The stream state the service is given. -/
structure StreamState where
  deposit : JsNumber
  withdrawn : JsNumber
  ratePerSecond : JsNumber
  startTime : JsNumber
  /-- `0` means there is none -/
  stopTime : JsNumber
  lastWithdrawTime : JsNumber
  /-- `0` means there is no cliff -/
  cliffTime : JsNumber
  status : StreamStatus
  pauseHistory : List PauseEntry
  deriving DecidableEq

/-! ## The balance of a window -/

/-- The variables of the loop in `calcPausedSeconds`. -/
structure PauseScan where
  paused : JsNumber
  pauseStart : Option JsNumber
  deriving DecidableEq

/-- The body of that loop. -/
def PauseScan.step (fromTime toTime : JsNumber) (scan : PauseScan)
    (event : PauseEntry) : PauseScan :=
  if event.isPause then
    if event.timestamp < toTime then
      { scan with pauseStart := some (max event.timestamp fromTime) }
    else
      scan
  else
    match scan.pauseStart with
    | some pauseStart =>
        let resumeAt := min event.timestamp toTime
        { paused :=
            if pauseStart < resumeAt then scan.paused + (resumeAt - pauseStart)
            else scan.paused
          pauseStart := none }
    | none => scan

/-- What the loop adds up, with a pause that is still open at `toTime`. -/
def PauseScan.total (toTime : JsNumber) (scan : PauseScan) : JsNumber :=
  match scan.pauseStart with
  | some pauseStart => scan.paused + (toTime - pauseStart)
  | none => scan.paused

/-- `calcPausedSeconds`. -/
def calcPausedSeconds (pauseHistory : List PauseEntry) (fromTime toTime : JsNumber) :
    JsNumber :=
  (pauseHistory.foldl (PauseScan.step fromTime toTime) ⟨0, none⟩).total toTime

/-- What `calculateBalance` returns. -/
structure Balance where
  claimable : JsNumber
  accruedTotal : JsNumber
  activeElapsed : JsNumber
  pausedElapsed : JsNumber
  deriving DecidableEq

/-- The answer for a stream that has nothing to claim. -/
def Balance.zero : Balance := ⟨0, 0, 0, 0⟩

/-- `Math.floor(Date.now() / 1000)`. -/
def currentSecs (dateNow : Int) : JsNumber :=
  JsNumber.floor (JsNumber.ofInt dateNow / JsNumber.ofInt 1000)

/-- `calculateBalance`; `dateNow` is the clock in milliseconds, read when no
`nowSecs` is given. -/
def calculateBalance (dateNow : Int) (stream : StreamState)
    (nowSecs : Option JsNumber) : Balance :=
  if stream.status = .cancelled ∨ stream.status = .exhausted then
    Balance.zero
  else
    let now := nowSecs.getD (currentSecs dateNow)
    if 0 < stream.cliffTime ∧ now < stream.cliffTime then
      Balance.zero
    else
      let windowStart := stream.lastWithdrawTime
      let windowEnd :=
        if 0 < stream.stopTime ∧ stream.stopTime < now then stream.stopTime
        else now
      if windowEnd ≤ windowStart then
        Balance.zero
      else
        let totalElapsed := windowEnd - windowStart
        let pausedSecs :=
          calcPausedSeconds stream.pauseHistory windowStart windowEnd
        let activeElapsed := max 0 (totalElapsed - pausedSecs)
        let accrued := activeElapsed * stream.ratePerSecond
        let remaining := max 0 (stream.deposit - stream.withdrawn)
        ⟨min accrued remaining, accrued, activeElapsed, pausedSecs⟩

/-! ## Reporting periods -/

/-- `new Date(time)`: the time value, a whole number of milliseconds. -/
def newDate (time : JsNumber) : Option Int :=
  if |time.val| ≤ Calendar.maxTime then some (time.val.num.tdiv time.val.den)
  else none

/-- `Math.floor(d.getTime() / 1000)`. -/
def secondsOf (d : Int) : JsNumber :=
  JsNumber.floor (JsNumber.ofInt d / JsNumber.ofInt 1000)

/-- The `nextCursor` of an iteration, `NaN` past the range of `Date`. -/
def nextCursor (durationType : DurationType) (customPeriodSecs : Option JsNumber)
    (cursor : JsNumber) : Except LoopError (Option JsNumber) :=
  match durationType with
  | .daily => .ok do
      let d ← newDate (cursor * JsNumber.ofInt 1000)
      let d ← Calendar.setUTCDate d (Calendar.getUTCDate d + 1)
      return secondsOf d
  | .weekly => .ok (some (cursor + JsNumber.ofInt (7 * 86400)))
  | .monthly => .ok do
      let d ← newDate (cursor * JsNumber.ofInt 1000)
      let d ← Calendar.setUTCMonth d (Calendar.getUTCMonth d + 1)
      return secondsOf d
  | .custom =>
      let period := customPeriodSecs.getD 0
      if period ≤ 0 then
        .error (.thrown
          "customPeriodSecs must be a positive number for custom duration type")
      else
        .ok (some (cursor + period))
  | .unknown name => .error (.thrown s!"Unknown duration type: {name}")

/-- The two cursors of an iteration of `buildPeriods`. -/
structure Iteration where
  cursor : JsNumber
  nextCursor : Option JsNumber
  deriving DecidableEq

/-- The loop of `buildPeriods`, from the cursor on.  No comparison with `NaN`
holds. -/
def iterations (endSecs : JsNumber) (durationType : DurationType)
    (customPeriodSecs : Option JsNumber) :
    Nat → Option JsNumber → Except LoopError (List Iteration)
  | 0, _ => .error .outOfFuel
  | _ + 1, none => .ok []
  | fuel + 1, some cursor =>
      if cursor < endSecs then do
        let next ← nextCursor durationType customPeriodSecs cursor
        let later ← iterations endSecs durationType customPeriodSecs fuel next
        return ⟨cursor, next⟩ :: later
      else
        .ok []

/-- A period of the report. -/
structure Period where
  start : JsNumber
  stop : Option JsNumber
  deriving DecidableEq

/-- The period an iteration pushes: `Math.min(nextCursor, endSecs)` is `NaN`
when one of the two is. -/
def Iteration.period (endSecs : JsNumber) (iteration : Iteration) : Period where
  start := iteration.cursor
  stop := iteration.nextCursor.map fun next => min next endSecs

/-- `buildPeriods`. -/
def buildPeriods (fuel : Nat) (startSecs endSecs : JsNumber)
    (durationType : DurationType) (customPeriodSecs : Option JsNumber) :
    Except LoopError (List Period) := do
  let made ← iterations endSecs durationType customPeriodSecs fuel
    (some startSecs)
  return made.map (Iteration.period endSecs)

/-! ## The report -/

/-- A line of the report. -/
structure PeriodEarnings where
  periodStart : JsNumber
  periodEnd : Option JsNumber
  earned : Option JsNumber
  deriving DecidableEq

/-- The `claimable` of the synthetic slice of a period.  With a period end of
`NaN` the slice has a `stop_time` and a `now` of `NaN`: a stream that has ended is
answered before either is read, any other passes all comparisons and earns
`NaN`. -/
def sliceEarned (dateNow : Int) (stream : StreamState) (period : Period) :
    Option JsNumber :=
  match period.stop with
  | some stop =>
      let slice := { stream with lastWithdrawTime := period.start, stopTime := stop }
      some (calculateBalance dateNow slice (some stop)).claimable
  | none =>
      if stream.status = .cancelled ∨ stream.status = .exhausted then some 0
      else none

/-- `calculateBalanceByDuration`. -/
def calculateBalanceByDuration (fuel : Nat) (dateNow : Int) (stream : StreamState)
    (durationType : DurationType) (customPeriodSecs nowSecs : Option JsNumber) :
    Except LoopError (List PeriodEarnings) :=
  let now := nowSecs.getD (currentSecs dateNow)
  let effectiveEnd :=
    if 0 < stream.stopTime ∧ stream.stopTime < now then stream.stopTime else now
  if effectiveEnd ≤ stream.startTime then
    .ok []
  else do
    let periods ← buildPeriods fuel stream.startTime effectiveEnd durationType
      customPeriodSecs
    return periods.map fun period =>
      ⟨period.start, period.stop, sliceEarned dateNow stream period⟩

end PayrollReport
end Services
end Paystream
