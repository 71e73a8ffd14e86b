import Mathlib.Tactic

/-!
# Data of the stream contract

The records of `types.rs`, the events of `events.rs` that the entry points
publish, and the panic messages.  Addresses are opaque identities, token
amounts are integers and timestamps are natural numbers; the machine bounds are
imposed where the code computes with them.
-/

namespace Paystream
namespace Contract

/-- An account or contract address. -/
structure Address where
  key : Nat
  deriving DecidableEq, Repr

/-- Status of a salary stream. -/
inductive StreamStatus
  | active
  | paused
  | cancelled
  | exhausted
  deriving DecidableEq, Repr

/-- A salary stream: the employer deposits funds, the employee withdraws per
second. -/
structure Stream where
  id : Nat
  employer : Address
  employee : Address
  token : Address
  deposit : Int
  withdrawn : Int
  ratePerSecond : Int
  startTime : Nat
  /-- No accrual after this time; `0` means there is none. -/
  stopTime : Nat
  lastWithdrawTime : Nat
  cooldownPeriod : Nat
  status : StreamStatus
  locked : Bool
  /-- Nothing is claimable before this time; `0` means there is no cliff. -/
  cliffTime : Nat
  /-- Time of the last pause, `0` if the stream is not paused. -/
  pausedAt : Nat
  delegate : Option Address
  deriving DecidableEq, Repr

/-- One entry of a stream's pause history. -/
structure PauseEvent where
  streamId : Nat
  timestamp : Nat
  isPause : Bool
  deriving DecidableEq, Repr

/-- Parameters of one stream of a batch.  `types.rs` declares the record
twice; this is the later declaration, the one whose `cliff_time` the batch
reads. -/
structure StreamParams where
  employee : Address
  token : Address
  deposit : Int
  ratePerSecond : Int
  stopTime : Nat
  cliffTime : Nat
  deriving DecidableEq, Repr

/-! ## Governance and multi-signature records -/

/-- Which protocol parameter a governance proposal targets. -/
inductive GovParam
  | minDeposit
  | maxDuration
  | feeBps
  deriving DecidableEq, Repr

inductive ProposalStatus
  | active
  | passed
  | executed
  | rejected
  deriving DecidableEq, Repr

structure Proposal where
  id : Nat
  param : GovParam
  newValue : Nat
  votesFor : Nat
  votesAgainst : Nat
  status : ProposalStatus
  executableAfter : Nat
  deriving DecidableEq, Repr

/-- The packed scalar configuration. -/
@[ext] structure ContractConfig where
  minDeposit : Int
  feeBps : Nat
  maxStreams : Nat
  adminNonce : Nat
  paused : Bool
  deriving DecidableEq, Repr

/-- `ContractConfig::default`. -/
def ContractConfig.default : ContractConfig where
  minDeposit := 0
  feeBps := 0
  maxStreams := 100
  adminNonce := 0
  paused := false

structure MultisigConfig where
  admins : List Address
  threshold : Nat
  deriving DecidableEq, Repr

/-- A sensitive operation pending multi-signature approval. -/
inductive AdminOp
  | upgrade (wasmHash : BitVec 256)
  | emergencyPause
  deriving DecidableEq, Repr

structure PendingAdminOp where
  id : Nat
  op : AdminOp
  approvals : List Address
  expiresAt : Nat
  executed : Bool
  deriving DecidableEq, Repr

/-! ## Events and transfer purposes -/

/-- The events the entry points publish, one constructor for each publisher
of `events.rs` that `lib.rs` calls. -/
inductive Event
  | streamCreated (id : Nat) (employer employee : Address) (rate : Int)
      (feeBps : Nat)
  | streamTransferred (id : Nat) (previousEmployee newEmployee : Address)
  | withdrawn (id : Nat) (employee : Address) (amount : Int)
  | protocolFeeCollected (id : Nat) (feeAmount : Int) (recipient : Address)
  | protocolFeesWithdrawn (token : Address) (amount : Int) (recipient : Address)
  | streamCancelled (id : Nat) (employer employee : Address)
      (refund employeePayout : Int)
  | streamPaused (id : Nat) (employer employee : Address) (pausedAt : Nat)
  | streamResumed (id : Nat) (employer employee : Address) (resumedAt : Nat)
  | toppedUp (id : Nat) (employer : Address) (amount : Int)
  | contractPaused (paused : Bool)
  | employerTransferProposed (id : Nat) (oldEmployer newEmployer : Address)
  | employerTransferAccepted (id : Nat) (oldEmployer newEmployer : Address)
  | nearExhaustion (id : Nat) (employer : Address) (thresholdDays : Nat)
  | rateChanged (id : Nat) (oldRate newRate : Int)
  | delegateSet (id : Nat) (delegate : Option Address)
  | proposalCreated (id : Nat)
  | proposalExecuted (id : Nat)
  deriving DecidableEq, Repr

/-- What a token transfer is made for.  No code reads it: it is the
bookkeeping that lets a log of transfers be read per stream. -/
inductive Purpose
  /-- the net deposit of a stream being created -/
  | deposit (id : Nat)
  /-- the protocol fee on that deposit, paid by the employer directly -/
  | creationFee (id : Nat)
  | topUp (id : Nat)
  /-- the employee's share of a withdrawal or of a settlement -/
  | salary (id : Nat)
  /-- the protocol fee on a withdrawal -/
  | withdrawalFee (id : Nat)
  /-- the employer's share of a settlement -/
  | refund (id : Nat)
  /-- a payout of `withdraw_protocol_fees` -/
  | feePayout
  /-- a transfer made on the token contract directly -/
  | direct
  deriving DecidableEq, Repr

/-- The stream a transfer is booked under, if it is one of a stream. -/
def Purpose.streamId : Purpose → Option Nat
  | .deposit id => some id
  | .creationFee id => some id
  | .topUp id => some id
  | .salary id => some id
  | .withdrawalFee id => some id
  | .refund id => some id
  | .feePayout => none
  | .direct => none

/-! ## Panic messages -/

def errZeroRate : String := "E001: rate_per_second must be greater than zero"
def errZeroDeposit : String := "E002: deposit must be positive"
def errReentrant : String := "E003: reentrant withdraw detected"
def errOverflow : String := "E004: arithmetic overflow in claimable calculation"
def errStreamCancelled : String := "E005: cannot top up a cancelled stream"
def errStreamExhausted : String := "E006: cannot top up an exhausted stream"
def errBelowMinDeposit : String := "E007: deposit below minimum"
def errInvalidRate : String := "E008: rate_per_second exceeds maximum"
def errBadNonce : String := "E009: invalid admin nonce"
def errSameParty : String := "E010: employer and employee must differ"
def errFeeTooHigh : String := "E011: fee_bps exceeds maximum of 100"
def errInvalidToken : String := "E012: token address is not a valid SEP-41 contract"
def errUnauthorizedTransfer : String := "E013: not the pending employer for this stream"
def errDurationTooLong : String := "E014: stream duration exceeds maximum allowed"
def errMaxStreamsReached : String := "E015: maximum streams per employer reached"
def errStopTimePast : String := "E016: stop_time must be in the future"
def errWithdrawCooldown : String := "E010: withdraw cooldown not expired"
def errAlreadyPaused : String := "E016: stream is already paused"
def errNotPaused : String := "E017: stream is not paused"
def errTokenNotAllowed : String := "E018: token is not on the allowlist"
def errCliffAfterStop : String := "E019: cliff time must be before or equal to stop time"
def errDepositTooLow : String := "E020: deposit too low for given rate"
def errMultisigNotConfigured : String := "E021: multisig admin not configured"
def errNotMultisigAdmin : String := "E022: caller is not a multisig admin"
def errAlreadyApproved : String := "E023: caller already approved this operation"
def errOpExpired : String := "E024: pending operation has expired"
def errOpAlreadyExecuted : String := "E025: pending operation already executed"
def errOpNotFound : String := "E027: pending operation not found"
def errInvalidTransition : String := "E028: invalid state transition"
def errTerminalState : String := "E029: stream is in a terminal state"
def errNotAdmin : String := "not the admin"
def errNotPendingAdmin : String := "not the pending admin"
def errNotEmployer : String := "not the employer"
def errNotEmployee : String := "not the employee"

end Contract
end Paystream
