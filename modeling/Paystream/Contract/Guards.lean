import Paystream.Contract.Storage

/-!
# Guards

The three modules of pure checks an entry point starts with: the declared
stream state machine (`state_machine.rs`), the role checks
(`access_control.rs`) and the argument checks (`validate.rs`).  Each guard that
panics comes with the exact condition under which it does not.
-/

namespace Paystream
namespace Contract

open Library
open Storage

/-! ## State machine -/

/-- `is_valid_transition`: the declared table. -/
def isValidTransition : StreamStatus → StreamStatus → Bool
  | .active, .paused => true
  | .active, .cancelled => true
  | .active, .exhausted => true
  | .paused, .active => true
  | .paused, .cancelled => true
  | _, _ => false

/-- `is_terminal`. -/
def isTerminal : StreamStatus → Bool
  | .cancelled => true
  | .exhausted => true
  | _ => false

/-- The `{:?}` rendering of a status. -/
def StreamStatus.debug : StreamStatus → String
  | .active => "Active"
  | .paused => "Paused"
  | .cancelled => "Cancelled"
  | .exhausted => "Exhausted"

/-- `require_transition`. -/
def requireTransition (source target : StreamStatus) : Except String Unit :=
  ensure (isValidTransition source target)
    (errInvalidTransition ++ ": " ++ source.debug ++ " -> " ++ target.debug)

/-- `require_not_terminal`. -/
def requireNotTerminal (status : StreamStatus) : Except String Unit :=
  ensure (!isTerminal status) errTerminalState

@[simp] theorem requireTransition_eq_ok_iff (source target : StreamStatus)
    (result : Unit) :
    requireTransition source target = .ok result ↔
      isValidTransition source target = true := by
  simp [requireTransition]

@[simp] theorem requireNotTerminal_eq_ok_iff (status : StreamStatus)
    (result : Unit) :
    requireNotTerminal status = .ok result ↔ isTerminal status = false := by
  simp [requireNotTerminal]

/-- The statuses that are not terminal. -/
theorem isTerminal_eq_false_iff (status : StreamStatus) :
    isTerminal status = false ↔ status = .active ∨ status = .paused := by
  cases status <;> simp [isTerminal]

/-! ## Roles -/

/-- `require_admin`. -/
def requireAdmin (w : World) (caller : Address) : Except String Unit := do
  let admin ← getAdmin w
  ensure (decide (caller = admin)) errNotAdmin

/-- `require_pending_admin`. -/
def requirePendingAdmin (w : World) (caller : Address) : Except String Unit := do
  let pending ← expect w.pendingAdmin "no pending admin"
  ensure (decide (caller = pending)) errNotPendingAdmin

/-- `require_employer_by_id`. -/
def requireEmployerById (w : World) (caller : Address) (streamId : Nat) :
    Except String Stream := do
  let stream ← loadStream w streamId
  ensure (decide (caller = stream.employer)) errNotEmployer
  return stream

/-- `require_pending_employer`. -/
def requirePendingEmployer (w : World) (caller : Address) (streamId : Nat) :
    Except String Unit := do
  let pending ← expect (w.pendingEmployer streamId) "no pending employer transfer"
  ensure (decide (caller = pending)) errUnauthorizedTransfer

/-- `require_employee_by_id`. -/
def requireEmployeeById (w : World) (caller : Address) (streamId : Nat) :
    Except String Stream := do
  let stream ← loadStream w streamId
  ensure (decide (caller = stream.employee)) errNotEmployee
  return stream

/-- `is_employer`. -/
def isEmployer (address : Address) (stream : Stream) : Bool :=
  decide (address = stream.employer)

/-- `is_delegate`. -/
def isDelegate (address : Address) (stream : Stream) : Bool :=
  match stream.delegate with
  | some delegate => decide (address = delegate)
  | none => false

@[simp] theorem loadStream_eq_ok_iff (w : World) (id : Nat) (stream : Stream) :
    loadStream w id = .ok stream ↔ w.streams id = some stream := by
  simp [loadStream]

@[simp] theorem requireAdmin_eq_ok_iff (w : World) (caller : Address)
    (result : Unit) :
    requireAdmin w caller = .ok result ↔ w.admin = some caller := by
  simp [requireAdmin, getAdmin]

@[simp] theorem requirePendingAdmin_eq_ok_iff (w : World) (caller : Address)
    (result : Unit) :
    requirePendingAdmin w caller = .ok result ↔
      w.pendingAdmin = some caller := by
  simp [requirePendingAdmin]

@[simp] theorem requireEmployerById_eq_ok_iff (w : World) (caller : Address)
    (streamId : Nat) (stream : Stream) :
    requireEmployerById w caller streamId = .ok stream ↔
      w.streams streamId = some stream ∧ caller = stream.employer := by
  simp only [requireEmployerById, bind_eq_ok_iff, loadStream_eq_ok_iff,
    ensure_eq_ok_iff, decide_eq_true_eq, pure_eq_ok_iff]
  constructor
  · rintro ⟨found, hfound, _, hcaller, rfl⟩
    exact ⟨hfound, hcaller⟩
  · rintro ⟨hfound, hcaller⟩
    exact ⟨stream, hfound, (), hcaller, rfl⟩

@[simp] theorem requireEmployeeById_eq_ok_iff (w : World) (caller : Address)
    (streamId : Nat) (stream : Stream) :
    requireEmployeeById w caller streamId = .ok stream ↔
      w.streams streamId = some stream ∧ caller = stream.employee := by
  simp only [requireEmployeeById, bind_eq_ok_iff, loadStream_eq_ok_iff,
    ensure_eq_ok_iff, decide_eq_true_eq, pure_eq_ok_iff]
  constructor
  · rintro ⟨found, hfound, _, hcaller, rfl⟩
    exact ⟨hfound, hcaller⟩
  · rintro ⟨hfound, hcaller⟩
    exact ⟨stream, hfound, (), hcaller, rfl⟩

@[simp] theorem requirePendingEmployer_eq_ok_iff (w : World) (caller : Address)
    (streamId : Nat) (result : Unit) :
    requirePendingEmployer w caller streamId = .ok result ↔
      w.pendingEmployer streamId = some caller := by
  simp [requirePendingEmployer]

/-! ## Arguments -/

def maxRatePerSecond : Int := 1000000000

/-- Ten years in seconds. -/
def maxStreamDuration : Nat := 10 * 365 * 24 * 60 * 60

/-- `validate_create_stream`.  The duration check casts the quotient to `u64`
before it compares. -/
def validateCreateStream (deposit minDeposit ratePerSecond : Int)
    (stopTime cliffTime now : Nat) (employer employee : Address) :
    Except String Unit := do
  ensure (decide (0 < deposit)) errZeroDeposit
  ensure (decide (minDeposit ≤ deposit)) errBelowMinDeposit
  ensure (decide (0 < ratePerSecond)) errZeroRate
  ensure (decide (ratePerSecond ≤ maxRatePerSecond)) errInvalidRate
  ensure (decide (saturatingMul ratePerSecond 60 ≤ deposit)) errDepositTooLow
  ensure (decide (castU64 (deposit.tdiv ratePerSecond) ≤ maxStreamDuration))
    errDurationTooLong
  ensure (decide (0 < stopTime → now < stopTime)) errStopTimePast
  ensure (decide (0 < stopTime → stopTime - now ≤ maxStreamDuration))
    errDurationTooLong
  ensure (decide (0 < cliffTime ∧ 0 < stopTime → cliffTime ≤ stopTime))
    errCliffAfterStop
  ensure (decide (employer ≠ employee)) errSameParty

/-- `validate_top_up`. -/
def validateTopUp (amount : Int) : Except String Unit :=
  ensure (decide (0 < amount)) "amount must be positive"

/-- `validate_max_streams`. -/
def validateMaxStreams (currentCount maxLimit : Nat) : Except String Unit :=
  ensure (decide (currentCount < maxLimit)) errMaxStreamsReached

@[simp] theorem validateTopUp_eq_ok_iff (amount : Int) (result : Unit) :
    validateTopUp amount = .ok result ↔ 0 < amount := by
  simp [validateTopUp]

/-- What later proofs need of a validated creation. -/
theorem validateCreateStream_ok {deposit minDeposit ratePerSecond : Int}
    {stopTime cliffTime now : Nat} {employer employee : Address} {result : Unit}
    (h : validateCreateStream deposit minDeposit ratePerSecond stopTime
      cliffTime now employer employee = .ok result) :
    0 < deposit ∧ 0 < ratePerSecond ∧ ratePerSecond ≤ maxRatePerSecond ∧
      (0 < stopTime → now < stopTime) ∧
      (0 < cliffTime → 0 < stopTime → cliffTime ≤ stopTime) := by
  simp only [validateCreateStream, bind_eq_ok_iff, ensure_eq_ok_iff,
    decide_eq_true_eq] at h
  obtain ⟨_, hdeposit, _, _, _, hrate, _, hmax, _, _, _, _, _, hstop, _, _, _,
    hcliff, _⟩ := h
  exact ⟨hdeposit, hrate, hmax, hstop, fun hc hs => hcliff ⟨hc, hs⟩⟩

theorem validateCreateStream_parties {deposit minDeposit ratePerSecond : Int}
    {stopTime cliffTime now : Nat} {employer employee : Address} {result : Unit}
    (h : validateCreateStream deposit minDeposit ratePerSecond stopTime
      cliffTime now employer employee = .ok result) : employer ≠ employee := by
  simp only [validateCreateStream, bind_eq_ok_iff, ensure_eq_ok_iff,
    decide_eq_true_eq] at h
  obtain ⟨_, _, _, _, _, _, _, _, _, _, _, _, _, _, _, _, _, _, hparties⟩ := h
  exact hparties

end Contract
end Paystream
