import Paystream.Contract.Guards

/-!
# Stream entry points

Creation (single and batch), the withdrawal with its protocol fee, the
employer's and the delegate's management calls, the two settlements
(`cancel_stream`, `reclaim_expired`), and the queries.  `get_stream` is among
the entry points that write: it may mark an expired stream exhausted.
-/

namespace Paystream
namespace Contract
namespace StreamContract

open Library
open Storage

/-! ## Creation -/

/-- A stream as creation stores it. -/
def newStream (id : Nat) (employer employee token : Address)
    (netDeposit ratePerSecond : Int) (now stopTime cooldownPeriod cliffTime : Nat) :
    Stream where
  id := id
  employer := employer
  employee := employee
  token := token
  deposit := netDeposit
  withdrawn := 0
  ratePerSecond := ratePerSecond
  startTime := now
  stopTime := stopTime
  lastWithdrawTime := now
  cooldownPeriod := cooldownPeriod
  status := .active
  locked := false
  cliffTime := cliffTime
  pausedAt := 0
  delegate := none

/-- The funding part the two creation entry points share: the employer pays
the net deposit to the contract and the fee to the recipient.  Returns the fee
rate to report and the net deposit.  The stream has no id yet; the transfers are
booked under the one `next_id` is about to return. -/
def collectDeposit (host : Host) (employer token : Address) (deposit : Int)
    (feeBps : Nat) (feeRecipient : Option Address) (w : World) :
    Except String ((Nat × Int) × World) := do
  let id := w.streamCount + 1
  if 0 < feeBps then
    match feeRecipient with
    | some recipient =>
        let product ← expect (checkedMul deposit (feeBps : Int)) errOverflow
        -- `/` on `i128` rounds towards zero
        let fee := product.tdiv 10000
        let net := deposit - fee
        let w ← tokenTransfer host
          ⟨.deposit id, token, employer, host.self, net⟩ w
        let w ← tokenTransfer host
          ⟨.creationFee id, token, employer, recipient, fee⟩ w
        return ((feeBps, net), w)
    | none =>
        let w ← tokenTransfer host
          ⟨.deposit id, token, employer, host.self, deposit⟩ w
        return ((0, deposit), w)
  else
    let w ← tokenTransfer host
      ⟨.deposit id, token, employer, host.self, deposit⟩ w
    return ((0, deposit), w)

/-- `create_stream`. -/
def createStream (host : Host) (ctx : Context)
    (employer employee tokenAddress : Address) (deposit ratePerSecond : Int)
    (stopTime cooldownPeriod cliffTime : Nat) (w : World) :
    Except String (Nat × World) := do
  requireAuth ctx employer
  ensure (!w.config.paused) "contract is paused"
  validateMaxStreams (w.employerStreams employer).length w.config.maxStreams
  validateCreateStream deposit w.config.minDeposit ratePerSecond stopTime
    cliffTime ctx.now employer employee
  requireToken host tokenAddress
  ensure (isTokenAllowed w tokenAddress) errTokenNotAllowed
  let ((feeAmount, netDeposit), w) ← collectDeposit host employer tokenAddress
    deposit w.config.feeBps w.feeRecipient w
  let (id, w) ← nextId w
  let w := saveStream w (newStream id employer employee tokenAddress netDeposit
    ratePerSecond ctx.now stopTime cooldownPeriod cliffTime)
  let w := indexEmployerStream w employer id
  let w := indexEmployeeStream w employee id
  return (id, w.emit (.streamCreated id employer employee ratePerSecond feeAmount))

/-- `check_and_bump_rate`.  The batch calls it, and nothing in the crate
defines it: it is the limiter of the host, with a state of its own. -/
def checkAndBumpRate (host : Host) (ctx : Context) (employer : Address)
    (w : World) : Except String World := do
  let rateState ← host.rateLimit ctx.now employer w.rateState
  return { w with rateState }

/-- The values `create_streams_batch` reads once, before its loop. -/
structure BatchSetup where
  minDeposit : Int
  feeBps : Nat
  feeRecipient : Option Address
  allowedTokens : List Address

/-- One iteration of the batch loop.  A batch stream has no cooldown, and its
employer index is written after the loop. -/
def createBatchItem (host : Host) (ctx : Context) (employer : Address)
    (setup : BatchSetup) (p : StreamParams) (w : World) :
    Except String (Nat × World) := do
  validateCreateStream p.deposit setup.minDeposit p.ratePerSecond p.stopTime
    p.cliffTime ctx.now employer p.employee
  ensure (setup.allowedTokens.isEmpty || decide (p.token ∈ setup.allowedTokens))
    errTokenNotAllowed
  let w ← checkAndBumpRate host ctx employer w
  requireToken host p.token
  let ((streamFeeBps, netDeposit), w) ← collectDeposit host employer p.token
    p.deposit setup.feeBps setup.feeRecipient w
  let (id, w) ← nextId w
  let w := saveStream w (newStream id employer p.employee p.token netDeposit
    p.ratePerSecond ctx.now p.stopTime 0 p.cliffTime)
  let w := indexEmployeeStream w p.employee id
  return (id, w.emit
    (.streamCreated id employer p.employee p.ratePerSecond streamFeeBps))

/-- The loop of `create_streams_batch`, returning the ids in order. -/
def createBatchLoop (host : Host) (ctx : Context) (employer : Address)
    (setup : BatchSetup) : List StreamParams → World →
      Except String (List Nat × World)
  | [], w => .ok ([], w)
  | p :: rest, w => do
      let (id, w) ← createBatchItem host ctx employer setup p w
      let (ids, w) ← createBatchLoop host ctx employer setup rest w
      return (id :: ids, w)

/-- `create_streams_batch`. -/
def createStreamsBatch (host : Host) (ctx : Context) (employer : Address)
    (params : List StreamParams) (w : World) :
    Except String (List Nat × World) := do
  requireAuth ctx employer
  ensure (!w.config.paused) "contract is paused"
  ensure (!params.isEmpty) "params must not be empty"
  let total ← expect
    (checkedAddU32 (w.employerStreams employer).length params.length)
    "attempt to add with overflow"
  ensure (decide (total ≤ w.config.maxStreams)) errMaxStreamsReached
  let (ids, w) ← createBatchLoop host ctx employer
    ⟨w.config.minDeposit, w.config.feeBps, w.feeRecipient, w.allowedTokens⟩
    params w
  return (ids, indexEmployerStreamsBatch w employer ids)

/-! ## Withdrawal -/

/-- The `near_exhaustion` warning, one day or seven days ahead. -/
def maybeWarnExhaustion (stream : Stream) (w : World) : World :=
  if stream.status ≠ .active ∨ stream.ratePerSecond = 0 then
    w
  else
    let remaining := max (saturatingSub stream.deposit stream.withdrawn) 0
    let secondsLeft := castU64 (remaining.tdiv stream.ratePerSecond)
    if secondsLeft ≤ 24 * 3600 then
      w.emit (.nearExhaustion stream.id stream.employer 1)
    else if secondsLeft ≤ 7 * 24 * 3600 then
      w.emit (.nearExhaustion stream.id stream.employer 7)
    else
      w

/-- The protocol fee on a gross withdrawal. -/
def withdrawalFee (feeBps : Nat) (gross : Int) : Except String Int :=
  if 0 < feeBps then do
    let product ← expect (checkedMul gross (feeBps : Int)) errOverflow
    return product.tdiv 10000
  else
    .ok 0

/-- The fee part of `withdraw`: a positive fee goes to the recipient, if one is
set, and is added to the fee ledger in the same breath. -/
def payWithdrawalFee (host : Host) (stream : Stream) (streamId : Nat)
    (fee : Int) (w : World) : Except String World :=
  if 0 < fee then
    match w.feeRecipient with
    | some recipient => do
        let w ← tokenTransfer host
          ⟨.withdrawalFee stream.id, stream.token, host.self, recipient, fee⟩ w
        return (addFeeBalance w stream.token fee).emit
          (.protocolFeeCollected streamId fee recipient)
    | none => .ok w
  else
    .ok w

/-- The status a withdrawal leaves: `Exhausted` once everything is
withdrawn. -/
def statusAfterWithdraw (stream : Stream) : Except String StreamStatus :=
  if stream.deposit ≤ stream.withdrawn then do
    requireTransition .active .exhausted
    return .exhausted
  else
    .ok stream.status

/-- `withdraw`. -/
def withdraw (host : Host) (ctx : Context) (employee : Address) (streamId : Nat)
    (w : World) : Except String (Int × World) := do
  requireAuth ctx employee
  ensure (!w.config.paused) "contract is paused"
  let stream ← requireEmployeeById w employee streamId
  ensure (decide (stream.status = .active ∨ stream.status = .exhausted))
    "stream not active"
  ensure (decide (stream.status = .active ∧ 0 < stream.cooldownPeriod →
    saturatingAddU64 stream.lastWithdrawTime stream.cooldownPeriod ≤ ctx.now))
    errWithdrawCooldown
  let gross ← claimableAmount stream ctx.now
  if gross = 0 then
    return (0, w)
  else
    ensure (!stream.locked) errReentrant
    -- the lock is stored before the first transfer and lifted with the last write
    let w := saveStream w { stream with locked := true }
    let fee ← withdrawalFee w.config.feeBps gross
    let netAmount := max (saturatingSub gross fee) 0
    let withdrawn ← expect (checkedAdd stream.withdrawn gross)
      "withdrawn overflow"
    let stream := { stream with withdrawn, lastWithdrawTime := ctx.now }
    let status ← statusAfterWithdraw stream
    let w ← payWithdrawalFee host stream streamId fee w
    let w ← tokenTransfer host
      ⟨.salary stream.id, stream.token, host.self, employee, netAmount⟩ w
    let stream := { stream with status, locked := false }
    let w := (saveStream w stream).emit (.withdrawn streamId employee netAmount)
    return (netAmount, maybeWarnExhaustion stream w)

/-! ## Management -/

/-- The caller check of the calls a delegate may make too. -/
def requireManager (w : World) (caller : Address) (streamId : Nat) :
    Except String Stream := do
  let stream ← loadStream w streamId
  ensure (isEmployer caller stream || isDelegate caller stream) errNotEmployer
  return stream

/-- `transfer_stream`. -/
def transferStream (ctx : Context) (employee : Address) (streamId : Nat)
    (newEmployee : Address) (w : World) : Except String World := do
  requireAuth ctx employee
  let stream ← requireEmployeeById w employee streamId
  ensure (decide (stream.status = .active ∨ stream.status = .paused))
    "stream not active"
  return (saveStream w { stream with employee := newEmployee }).emit
    (.streamTransferred streamId employee newEmployee)

/-- `top_up`. -/
def topUp (host : Host) (ctx : Context) (caller : Address) (streamId : Nat)
    (amount : Int) (w : World) : Except String World := do
  requireAuth ctx caller
  validateTopUp amount
  let stream ← requireManager w caller streamId
  ensure (decide (stream.status ≠ .cancelled)) errStreamCancelled
  ensure (decide (stream.status ≠ .exhausted)) errStreamExhausted
  requireNotTerminal stream.status
  let w ← tokenTransfer host
    ⟨.topUp stream.id, stream.token, caller, host.self, amount⟩ w
  let deposit ← expect (checkedAdd stream.deposit amount) "deposit overflow"
  return (saveStream w { stream with deposit }).emit
    (.toppedUp streamId stream.employer amount)

/-- `pause_stream`. -/
def pauseStream (ctx : Context) (caller : Address) (streamId : Nat) (w : World) :
    Except String World := do
  requireAuth ctx caller
  let stream ← requireManager w caller streamId
  ensure (decide (stream.status ≠ .paused)) errAlreadyPaused
  ensure (decide (stream.status = .active)) "stream not active"
  requireTransition stream.status .paused
  let stream := { stream with pausedAt := ctx.now, status := .paused }
  return (addPauseEvent (saveStream w stream) streamId ctx.now true).emit
    (.streamPaused streamId stream.employer stream.employee ctx.now)

/-- `resume_stream`: the clock of the stream moves forward by the paused
duration. -/
def resumeStream (ctx : Context) (caller : Address) (streamId : Nat)
    (w : World) : Except String World := do
  requireAuth ctx caller
  let stream ← requireManager w caller streamId
  ensure (decide (stream.status ≠ .active)) errNotPaused
  ensure (decide (stream.status = .paused)) "stream not paused"
  requireTransition stream.status .active
  let pausedDuration := ctx.now - stream.pausedAt
  let stream := { stream with
    lastWithdrawTime := saturatingAddU64 stream.lastWithdrawTime pausedDuration
    pausedAt := 0
    status := .active }
  return (addPauseEvent (saveStream w stream) streamId ctx.now false).emit
    (.streamResumed streamId stream.employer stream.employee ctx.now)

/-- `set_delegate`. -/
def setDelegate (ctx : Context) (employer : Address) (streamId : Nat)
    (delegate : Option Address) (w : World) : Except String World := do
  requireAuth ctx employer
  let stream ← requireEmployerById w employer streamId
  return (saveStream w { stream with delegate }).emit
    (.delegateSet streamId delegate)

/-- `propose_employer_transfer`. -/
def proposeEmployerTransfer (ctx : Context) (employer : Address) (streamId : Nat)
    (newEmployer : Address) (w : World) : Except String World := do
  requireAuth ctx employer
  let _ ← requireEmployerById w employer streamId
  return (setPendingEmployer w streamId newEmployer).emit
    (.employerTransferProposed streamId employer newEmployer)

/-- `accept_employer_transfer`. -/
def acceptEmployerTransfer (ctx : Context) (newEmployer : Address)
    (streamId : Nat) (w : World) : Except String World := do
  requireAuth ctx newEmployer
  requirePendingEmployer w newEmployer streamId
  let stream ← loadStream w streamId
  let w := saveStream w { stream with employer := newEmployer }
  return (clearPendingEmployer w streamId).emit
    (.employerTransferAccepted streamId stream.employer newEmployer)

/-- `update_rate`: the accrued amount is added to `withdrawn`, and no token
moves. -/
def updateRate (ctx : Context) (employer : Address) (streamId : Nat)
    (newRate : Int) (w : World) : Except String World := do
  requireAuth ctx employer
  ensure (decide (0 < newRate)) errZeroRate
  ensure (decide (newRate ≤ maxRatePerSecond)) errInvalidRate
  let stream ← requireEmployerById w employer streamId
  ensure (decide (stream.status = .active)) "stream not active"
  let accrued ← claimableAmount stream ctx.now
  let withdrawn ← expect (checkedAdd stream.withdrawn accrued)
    "withdrawn overflow"
  let w := saveStream w { stream with
    withdrawn, lastWithdrawTime := ctx.now, ratePerSecond := newRate }
  return w.emit (.rateChanged streamId stream.ratePerSecond newRate)

/-! ## Settlement -/

/-- Pay the employee what a settlement owes, and count it as withdrawn. -/
def payOwed (host : Host) (stream : Stream) (owed : Int) (w : World) :
    Except String (Stream × World) :=
  if 0 < owed then do
    let w ← tokenTransfer host
      ⟨.salary stream.id, stream.token, host.self, stream.employee, owed⟩ w
    let withdrawn ← expect (checkedAdd stream.withdrawn owed)
      "withdrawn overflow"
    return ({ stream with withdrawn }, w)
  else
    .ok (stream, w)

/-- What a settlement returns to the employer. -/
def refundOf (stream : Stream) : Int :=
  max ((checkedSub stream.deposit stream.withdrawn).getD 0) 0

/-- Return the rest of the deposit to the employer. -/
def payRefund (host : Host) (stream : Stream) (employer : Address) (refund : Int)
    (w : World) : Except String World :=
  if 0 < refund then
    tokenTransfer host
      ⟨.refund stream.id, stream.token, host.self, employer, refund⟩ w
  else
    .ok w

/-- The closing part `cancel_stream` and `reclaim_expired` share: pay the
employee what is owed, refund the rest to the employer, and store the final
status. -/
def settleStream (host : Host) (stream : Stream) (streamId : Nat)
    (employer : Address) (owed : Int) (final : StreamStatus) (w : World) :
    Except String World := do
  let (stream, w) ← payOwed host stream owed w
  let refund := refundOf stream
  let w ← payRefund host stream employer refund w
  return (saveStream w { stream with status := final }).emit
    (.streamCancelled streamId employer stream.employee refund owed)

/-- `cancel_stream`. -/
def cancelStream (host : Host) (ctx : Context) (employer : Address)
    (streamId : Nat) (w : World) : Except String World := do
  requireAuth ctx employer
  let stream ← requireEmployerById w employer streamId
  ensure (decide (stream.status = .active ∨ stream.status = .paused))
    "stream already ended"
  requireTransition stream.status .cancelled
  let claimable ← claimableAmount stream ctx.now
  settleStream host stream streamId employer claimable .cancelled w

/-- `reclaim_expired`: no transition check, and the final status is
`Exhausted`. -/
def reclaimExpired (host : Host) (ctx : Context) (employer : Address)
    (streamId : Nat) (w : World) : Except String World := do
  requireAuth ctx employer
  let stream ← requireEmployerById w employer streamId
  ensure (decide (stream.status = .active ∨ stream.status = .paused))
    "stream already ended"
  ensure (decide (0 < stream.stopTime ∧ stream.stopTime ≤ ctx.now))
    "stream has not expired"
  let earned ← claimableAmount stream ctx.now
  settleStream host stream streamId employer earned .exhausted w

/-! ## Queries -/

/-- `get_stream`: an active stream past its stop time is stored as exhausted
when its deposit is fully streamed, paid out or not. -/
def getStream (ctx : Context) (streamId : Nat) (w : World) :
    Except String (Stream × World) := do
  let stream ← loadStream w streamId
  if stream.status = .active ∧ 0 < stream.stopTime ∧ stream.stopTime ≤ ctx.now then
    let exhausted := { stream with status := .exhausted }
    let claimable ← claimableAmount stream ctx.now
    if claimable = 0 ∧ stream.deposit ≤ stream.withdrawn then
      return (exhausted, saveStream w exhausted)
    else
      -- `stop_time > 0 && now >= stop_time` is tested again here and holds
      let earnedAtStop ← claimableAmount stream stream.stopTime
      let totalStreamed :=
        (checkedAdd stream.withdrawn earnedAtStop).getD stream.deposit
      if stream.deposit ≤ totalStreamed then
        return (exhausted, saveStream w exhausted)
      else
        return (stream, w)
  else
    return (stream, w)

/-- `claimable`. -/
def claimable (ctx : Context) (streamId : Nat) (w : World) :
    Except String Int := do
  let stream ← loadStream w streamId
  claimableAmount stream ctx.now

/-- `claimable_at`. -/
def claimableAt (streamId timestamp : Nat) (w : World) : Except String Int := do
  let stream ← loadStream w streamId
  claimableAmount stream timestamp

end StreamContract
end Contract
end Paystream
