import Paystream.Contract.Storage

/-!
# The balance module

The functions of `balance.rs`: what an employee can claim, what is vested and
what is not, and for how long the deposit lasts.  The module repeats the accrual
rule of `claimable_amount` with branches of its own; no entry point calls it.
-/

namespace Paystream
namespace Contract
namespace Balance

open Library

/-- A balance snapshot of a stream. -/
structure BalanceSnapshot where
  /-- what the employee can withdraw right now -/
  claimable : Int
  /-- earned since the start, with what is withdrawn already -/
  vested : Int
  unvested : Int
  withdrawn : Int
  remainingDeposit : Int
  /-- until the deposit is fully streamed -/
  remainingSeconds : Nat
  deriving DecidableEq, Repr

/-- `effective_time`: frozen when paused, and capped at `stop_time`. -/
def effectiveTime (stream : Stream) (now : Nat) : Nat :=
  if stream.status = .paused then
    stream.lastWithdrawTime
  else if 0 < stream.stopTime ∧ stream.stopTime < now then
    stream.stopTime
  else
    now

/-- `claimable_at`. -/
def claimableAt (stream : Stream) (now : Nat) : Except String Int :=
  match stream.status with
  | .cancelled | .exhausted => .ok 0
  | .active | .paused => do
      let elapsed := effectiveTime stream now - stream.lastWithdrawTime
      let earned ← expect
        (checkedMul (elapsed : Int) stream.ratePerSecond) errOverflow
      let remaining := max (saturatingSub stream.deposit stream.withdrawn) 0
      return max (min earned remaining) 0

/-- `remaining_duration`. -/
def remainingDuration (stream : Stream) (now : Nat) : Except String Nat :=
  match stream.status with
  | .cancelled | .exhausted => .ok 0
  | .active | .paused =>
      if stream.ratePerSecond ≤ 0 then
        .ok 0
      else do
        let claimable ← claimableAt stream now
        let unstreamed := castU64 (saturatingSub
          (max (saturatingSub stream.deposit stream.withdrawn) 0) claimable)
        return unstreamed / max (castU64 stream.ratePerSecond) 1

/-- `balance_snapshot`. -/
def balanceSnapshot (stream : Stream) (now : Nat) :
    Except String BalanceSnapshot :=
  match stream.status with
  | .cancelled | .exhausted =>
      .ok
        { claimable := 0
          vested := stream.withdrawn
          unvested := 0
          withdrawn := stream.withdrawn
          remainingDeposit := 0
          remainingSeconds := 0 }
  | .active | .paused => do
      let claimable ← claimableAt stream now
      let vested := (checkedAdd stream.withdrawn claimable).getD i128Max
      let remainingDeposit :=
        max (saturatingSub stream.deposit stream.withdrawn) 0
      let unvested := max (saturatingSub remainingDeposit claimable) 0
      let remainingSeconds ← remainingDuration stream now
      return {
        claimable := claimable
        vested := vested
        unvested := unvested
        withdrawn := stream.withdrawn
        remainingDeposit := remainingDeposit
        remainingSeconds := remainingSeconds }

end Balance
end Contract
end Paystream
