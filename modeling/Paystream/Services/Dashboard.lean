import Paystream.Contract.Types

/-!
# What the demo shows

The live counters of `demo/src/useClaimableCounter.ts` and `useBalanceTicker.ts`, and
the scan of `demo/src/useEmployerDashboard.ts`.

The SDK's `Stream` has the fields of the stored one.  Times and counts are JavaScript
numbers, which are integers here, as they are within the exact range.
-/

namespace Paystream
namespace Services
namespace Dashboard

open Contract

/-! ## Live counters -/

/-- The polled amount with what is added to it for the time since `lastWithdrawTime`. -/
def extrapolate (stream : Stream) (baseClaimable : Int) (currentTime : Nat) : Int :=
  if stream.status ≠ .active then
    baseClaimable
  else if 0 < stream.startTime ∧ currentTime < stream.startTime then
    baseClaimable
  else if 0 < stream.stopTime ∧ stream.stopTime ≤ currentTime then
    baseClaimable
  else
    baseClaimable +
      ((currentTime : Int) - stream.lastWithdrawTime) * stream.ratePerSecond

/-- `calculateClaimableAtTime` of `useClaimableCounter`. -/
def calculateClaimableAtTime (stream : Stream) (baseClaimable : Int)
    (currentTime : Nat) : Int :=
  extrapolate stream baseClaimable currentTime

/-- `calculateCurrentClaimable` of `useBalanceTicker`. -/
def calculateCurrentClaimable (stream : Stream) (baseClaimable : Int)
    (currentTimeSeconds : Nat) : Int :=
  extrapolate stream baseClaimable currentTimeSeconds

/-! ## The scan -/

/-- `MAX_SCAN`. -/
def maxScan : Nat := 200

/-- The state that `loadDashboard` sets. -/
structure DashboardState where
  streams : List Stream
  scanned : Nat
  chainTotal : Nat
  error : Option String

section LoadDashboard

variable (streamCount : Except String Nat) (getStream : Nat → Option Stream)
  (employerKey : Address)

/-- The body of the loop over the ids; a read that throws is skipped. -/
def scanId (total : Nat) (dashboard : DashboardState) (i : Nat) : DashboardState :=
  let streams := match getStream i with
    | some stream =>
        if stream.employer = employerKey then dashboard.streams ++ [stream]
        else dashboard.streams
    | none => dashboard.streams
  { dashboard with streams := streams, scanned := total - i }

/-- The ids from `total - 1` down to `start`. -/
def scanIds (total start : Nat) : List Nat :=
  (List.range' start (total - start)).reverse

/-- `loadDashboard`; `streamCount` and `getStream` are the reads of the client. -/
def loadDashboard (dashboard : DashboardState) : DashboardState :=
  let dashboard := { dashboard with error := none, streams := [], scanned := 0 }
  match streamCount with
  | .error message => { dashboard with error := some message }
  | .ok total =>
      let dashboard := { dashboard with chainTotal := total }
      if total = 0 then dashboard
      else
        (scanIds total (total - maxScan)).foldl
          (scanId getStream employerKey total) dashboard

end LoadDashboard

end Dashboard
end Services
end Paystream
