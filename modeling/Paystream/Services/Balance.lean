import Paystream.Library.Calendar
import Paystream.Contract.Types

/-!
# The balance service

The functions of `services/balance/balance.js`, which compute off the chain what a
stream pays: `calcPausedSeconds`, `calculateBalance`, and `buildPeriods`.  The
service is given the fields of the stream and its pause history.

Its numbers are those of JavaScript.  They are integers here, which is what they
are as long as every value stays within the exact range, `maxSafeInteger`.
`Services.Payroll` has the same functions, and the payroll report, in the rounded
numbers themselves.  A boundary of a period comes out of a `Date` and may also be
`NaN`; it is an `Option`, with `none` for `NaN`.
-/

namespace Paystream
namespace Services
namespace BalanceService

open Library
open Contract

/-- `Number.MAX_SAFE_INTEGER`. -/
def maxSafeInteger : Nat := 2 ^ 53 - 1

/-- An entry of `pause_history`. -/
structure PauseEntry where
  timestamp : Int
  isPause : Bool
  deriving DecidableEq, Repr

/-- The stream state the service is given. -/
structure StreamState where
  deposit : Int
  withdrawn : Int
  ratePerSecond : Int
  /-- `0` means there is none -/
  stopTime : Int
  lastWithdrawTime : Int
  /-- `0` means there is no cliff -/
  cliffTime : Int
  status : StreamStatus
  pauseHistory : List PauseEntry
  deriving DecidableEq, Repr

/-- The variables of the loop in `calcPausedSeconds`. -/
structure PauseScan where
  paused : Int
  pauseStart : Option Int
  deriving DecidableEq, Repr

/-- The body of that loop. -/
def PauseScan.step (fromTime toTime : Int) (scan : PauseScan)
    (event : PauseEntry) : PauseScan :=
  if event.isPause then
    -- a pause that starts behind the window leaves the variables alone
    if event.timestamp < toTime then
      { scan with pauseStart := some (max event.timestamp fromTime) }
    else
      scan
  else
    match scan.pauseStart with
    | some pauseStart =>
        let resumeAt := min event.timestamp toTime
        { paused :=
            if pauseStart < resumeAt then scan.paused + (resumeAt - pauseStart)
            else scan.paused
          pauseStart := none }
    | none => scan

/-- What the loop adds up, with a pause that is still open at `toTime`. -/
def PauseScan.total (toTime : Int) (scan : PauseScan) : Int :=
  match scan.pauseStart with
  | some pauseStart => scan.paused + (toTime - pauseStart)
  | none => scan.paused

/-- `calcPausedSeconds`. -/
def calcPausedSeconds (pauseHistory : List PauseEntry) (fromTime toTime : Int) :
    Int :=
  (pauseHistory.foldl (PauseScan.step fromTime toTime) ⟨0, none⟩).total toTime

/-- What `calculateBalance` returns. -/
structure Balance where
  claimable : Int
  accruedTotal : Int
  activeElapsed : Int
  pausedElapsed : Int
  deriving DecidableEq, Repr

/-- The answer for a stream that has nothing to claim. -/
def Balance.zero : Balance := ⟨0, 0, 0, 0⟩

/-- `calculateBalance`; `dateNow` is the clock in milliseconds, read when no
`nowSecs` is given. -/
def calculateBalance (dateNow : Int) (stream : StreamState)
    (nowSecs : Option Int) : Balance :=
  if stream.status = .cancelled ∨ stream.status = .exhausted then
    Balance.zero
  else
    let now := nowSecs.getD (dateNow / 1000)
    if 0 < stream.cliffTime ∧ now < stream.cliffTime then
      Balance.zero
    else
      let windowStart := stream.lastWithdrawTime
      let windowEnd :=
        if 0 < stream.stopTime ∧ stream.stopTime < now then stream.stopTime
        else now
      if windowEnd ≤ windowStart then
        Balance.zero
      else
        let totalElapsed := windowEnd - windowStart
        let pausedSecs :=
          calcPausedSeconds stream.pauseHistory windowStart windowEnd
        let activeElapsed := max 0 (totalElapsed - pausedSecs)
        let accrued := activeElapsed * stream.ratePerSecond
        let remaining := max 0 (stream.deposit - stream.withdrawn)
        ⟨min accrued remaining, accrued, activeElapsed, pausedSecs⟩

/-- The fields of a stored stream, with its pause history, as the service reads
them. -/
def StreamState.ofStream (stream : Stream) (history : List PauseEvent) :
    StreamState where
  deposit := stream.deposit
  withdrawn := stream.withdrawn
  ratePerSecond := stream.ratePerSecond
  stopTime := stream.stopTime
  lastWithdrawTime := stream.lastWithdrawTime
  cliffTime := stream.cliffTime
  status := stream.status
  pauseHistory := history.map fun event => ⟨event.timestamp, event.isPause⟩

/-! ## Reporting periods -/

/-- `DURATION_TYPES`, and what else a caller may pass. -/
inductive DurationType
  | daily
  | weekly
  | monthly
  | custom
  | unknown (name : String)
  deriving DecidableEq, Repr

/-- Why there is no list of periods. -/
inductive LoopError
  | thrown (message : String)
  /-- the loop of `buildPeriods` has not ended yet -/
  | outOfFuel
  deriving DecidableEq, Repr

/-- The `nextCursor` of an iteration, `NaN` past the range of `Date`. -/
def nextCursor (durationType : DurationType) (customPeriodSecs : Option Int)
    (cursor : Int) : Except LoopError (Option Int) :=
  match durationType with
  | .daily => .ok do
      let d ← Calendar.timeClip (cursor * 1000)
      let d ← Calendar.setUTCDate d (Calendar.getUTCDate d + 1)
      return d / 1000
  | .weekly => .ok (some (cursor + 7 * 86400))
  | .monthly => .ok do
      let d ← Calendar.timeClip (cursor * 1000)
      let d ← Calendar.setUTCMonth d (Calendar.getUTCMonth d + 1)
      return d / 1000
  | .custom =>
      let period := customPeriodSecs.getD 0
      if period ≤ 0 then
        .error (.thrown
          "customPeriodSecs must be a positive number for custom duration type")
      else
        .ok (some (cursor + period))
  | .unknown name => .error (.thrown s!"Unknown duration type: {name}")

/-- The two cursors of an iteration of `buildPeriods`. -/
structure Iteration where
  cursor : Int
  nextCursor : Option Int
  deriving DecidableEq, Repr

/-- The loop of `buildPeriods`, from the cursor on.  No comparison with `NaN`
holds. -/
def iterations (endSecs : Int) (durationType : DurationType)
    (customPeriodSecs : Option Int) :
    Nat → Option Int → Except LoopError (List Iteration)
  | 0, _ => .error .outOfFuel
  | _ + 1, none => .ok []
  | fuel + 1, some cursor =>
      if cursor < endSecs then do
        let next ← nextCursor durationType customPeriodSecs cursor
        let later ← iterations endSecs durationType customPeriodSecs fuel next
        return ⟨cursor, next⟩ :: later
      else
        .ok []

/-- A period of the report. -/
structure Period where
  start : Int
  stop : Option Int
  deriving DecidableEq, Repr

/-- The period an iteration pushes: `Math.min(nextCursor, endSecs)` is `NaN`
when one of the two is. -/
def Iteration.period (endSecs : Int) (iteration : Iteration) : Period where
  start := iteration.cursor
  stop := iteration.nextCursor.map fun next => min next endSecs

/-- `buildPeriods`. -/
def buildPeriods (fuel : Nat) (startSecs endSecs : Int)
    (durationType : DurationType) (customPeriodSecs : Option Int) :
    Except LoopError (List Period) := do
  let made ← iterations endSecs durationType customPeriodSecs fuel
    (some startSecs)
  return made.map (Iteration.period endSecs)

end BalanceService
end Services
end Paystream
