import Paystream.Contract.Types
import Paystream.Library.Json

/-!
# The published events

`events.rs` as the services see it: every event has a symbol in its first topic,
most have a number in the second, and the rest is data.  Six of the publishers
are called by no entry point.
-/

namespace Paystream
namespace Services

open Library
open Contract

/-- The XDR values an event is made of. -/
inductive ScVal
  | void
  | bool (value : Bool)
  | u32 (value : Nat)
  | u64 (value : Nat)
  | i128 (hi : Int) (lo : Nat)
  | bytes (value : BitVec 256)
  | symbol (name : Text)
  | address (address : Address)
  | vec (items : List ScVal)

/-- What a publisher of `events.rs` publishes: the events the entry points use,
and those of the publishers that none of them calls. -/
inductive Published
  | ofContract (event : Event)
  | streamStatusChanged (id : Nat) (status : StreamStatus)
  | adminActionProposed (id : Nat)
  | adminActionExecuted (id : Nat)
  | globalPaused (paused : Bool)
  | upgradeScheduled (newWasmHash : BitVec 256) (scheduledAt : Nat)
  | upgradeExecuted (newWasmHash : BitVec 256)

def contractEventName : Event → String
  | .streamCreated .. => "created"
  | .streamTransferred .. => "transfer"
  | .withdrawn .. => "withdraw"
  | .protocolFeeCollected .. => "fee_col"
  | .protocolFeesWithdrawn .. => "fee_wdr"
  | .streamCancelled .. => "cancelled"
  | .streamPaused .. => "paused"
  | .streamResumed .. => "resumed"
  | .toppedUp .. => "topup"
  | .contractPaused .. => "paused"
  | .employerTransferProposed .. => "emp_prop"
  | .employerTransferAccepted .. => "emp_acc"
  | .nearExhaustion .. => "nearexhst"
  | .rateChanged .. => "ratechng"
  | .delegateSet .. => "delegate"
  | .proposalCreated .. => "propcreat"
  | .proposalExecuted .. => "propexec"

/-- The symbol in the first topic. -/
def Published.name : Published → Text
  | .ofContract event => (contractEventName event).toList
  | .streamStatusChanged .. => "status".toList
  | .adminActionProposed .. => "admprop".toList
  | .adminActionExecuted .. => "admexec".toList
  | .globalPaused .. => "glb_pause".toList
  | .upgradeScheduled .. => "upg_sched".toList
  | .upgradeExecuted .. => "upg_exec".toList

/-- The number in the second topic, of a stream or of a proposal, if there is
one. -/
def Published.number : Published → Option Nat
  | .ofContract event =>
      match event with
      | .streamCreated id _ _ _ _ => some id
      | .streamTransferred id _ _ => some id
      | .withdrawn id _ _ => some id
      | .protocolFeeCollected id _ _ => some id
      | .protocolFeesWithdrawn _ _ _ => none
      | .streamCancelled id _ _ _ _ => some id
      | .streamPaused id _ _ _ => some id
      | .streamResumed id _ _ _ => some id
      | .toppedUp id _ _ => some id
      | .contractPaused _ => none
      | .employerTransferProposed id _ _ => some id
      | .employerTransferAccepted id _ _ => some id
      | .nearExhaustion id _ _ => some id
      | .rateChanged id _ _ => some id
      | .delegateSet id _ => some id
      | .proposalCreated id => some id
      | .proposalExecuted id => some id
  | .streamStatusChanged id _ => some id
  | .adminActionProposed id => some id
  | .adminActionExecuted id => some id
  | .globalPaused _ => none
  | .upgradeScheduled _ _ => none
  | .upgradeExecuted _ => none

/-- The topics of an event. -/
def Published.topic (event : Published) : List ScVal :=
  .symbol event.name :: event.number.toList.map .u64

/-- An `i128` as the host splits it. -/
def ScVal.ofI128 (value : Int) : ScVal :=
  .i128 (value / 2 ^ 64) (value % 2 ^ 64).toNat

/-- The variants of a contract enumeration are vectors of one symbol. -/
def ScVal.ofStatus : StreamStatus → ScVal
  | .active => .vec [.symbol "Active".toList]
  | .paused => .vec [.symbol "Paused".toList]
  | .cancelled => .vec [.symbol "Cancelled".toList]
  | .exhausted => .vec [.symbol "Exhausted".toList]

/-- The data of an event. -/
def Published.value : Published → ScVal
  | .ofContract event =>
      match event with
      | .streamCreated _ employer employee rate feeBps =>
          .vec [.address employer, .address employee, .ofI128 rate, .u32 feeBps]
      | .streamTransferred _ previousEmployee newEmployee =>
          .vec [.address previousEmployee, .address newEmployee]
      | .withdrawn _ employee amount => .vec [.address employee, .ofI128 amount]
      | .protocolFeeCollected _ feeAmount recipient =>
          .vec [.ofI128 feeAmount, .address recipient]
      | .protocolFeesWithdrawn token amount recipient =>
          .vec [.address token, .ofI128 amount, .address recipient]
      | .streamCancelled _ employer employee refund employeePayout =>
          .vec [.address employer, .address employee, .ofI128 refund,
            .ofI128 employeePayout]
      | .streamPaused _ employer employee pausedAt =>
          .vec [.address employer, .address employee, .u64 pausedAt]
      | .streamResumed _ employer employee resumedAt =>
          .vec [.address employer, .address employee, .u64 resumedAt]
      | .toppedUp _ employer amount => .vec [.address employer, .ofI128 amount]
      | .contractPaused paused => .bool paused
      | .employerTransferProposed _ oldEmployer newEmployer =>
          .vec [.address oldEmployer, .address newEmployer]
      | .employerTransferAccepted _ oldEmployer newEmployer =>
          .vec [.address oldEmployer, .address newEmployer]
      | .nearExhaustion _ employer thresholdDays =>
          .vec [.address employer, .u32 thresholdDays]
      | .rateChanged _ oldRate newRate => .vec [.ofI128 oldRate, .ofI128 newRate]
      | .delegateSet _ delegate => (delegate.map ScVal.address).getD .void
      | .proposalCreated id => .u64 id
      | .proposalExecuted id => .u64 id
  | .streamStatusChanged _ status => .ofStatus status
  | .adminActionProposed id => .u64 id
  | .adminActionExecuted id => .u64 id
  | .globalPaused paused => .bool paused
  | .upgradeScheduled newWasmHash scheduledAt =>
      .vec [.bytes newWasmHash, .u64 scheduledAt]
  | .upgradeExecuted newWasmHash => .bytes newWasmHash

end Services
end Paystream
