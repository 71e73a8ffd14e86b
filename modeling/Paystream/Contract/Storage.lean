import Paystream.Contract.World

/-!
# Storage accessors

The functions of `storage.rs` under their own names.  A missing entry reads as
the default the code passes to `unwrap_or`; the readers of single fields are
the record projections themselves, so only the ones that compute something are
listed here.
-/

namespace Paystream
namespace Contract
namespace Storage

open Library

/-! ## Streams -/

/-- `save_stream`: the record is stored under its own id. -/
def saveStream (w : World) (stream : Stream) : World :=
  { w with streams := Function.update w.streams stream.id (some stream) }

/-- `load_stream(..).expect("stream not found")`. -/
def loadStream (w : World) (id : Nat) : Except String Stream :=
  expect (w.streams id) "stream not found"

/-- `next_id`. -/
def nextId (w : World) : Except String (Nat × World) := do
  let next ← expect (checkedAddU64 w.streamCount 1) "stream count overflow"
  return (next, { w with streamCount := next })

/-! ## Administrator -/

def setAdmin (w : World) (admin : Address) : World :=
  { w with admin := some admin }

/-- `get_admin`. -/
def getAdmin (w : World) : Except String Address :=
  expect w.admin "admin not set"

def setPendingAdmin (w : World) (pending : Address) : World :=
  { w with pendingAdmin := some pending }

def clearPendingAdmin (w : World) : World :=
  { w with pendingAdmin := none }

/-! ## Packed configuration -/

/-- `save_config` applied to the loaded configuration: every setter below
changes one field of it. -/
def saveConfig (w : World) (config : ContractConfig) : World :=
  { w with config := config }

def setMinDeposit (w : World) (amount : Int) : World :=
  saveConfig w { w.config with minDeposit := amount }

/-- `consume_admin_nonce`. -/
def consumeAdminNonce (w : World) (nonce : Nat) : Except String World := do
  ensure (decide (nonce = w.config.adminNonce)) errBadNonce
  let next ← expect (checkedAddU64 w.config.adminNonce 1)
    "attempt to add with overflow"
  return saveConfig w { w.config with adminNonce := next }

def setFeeBps (w : World) (bps : Nat) : World :=
  saveConfig w { w.config with feeBps := bps }

def setFeeRecipient (w : World) (recipient : Address) : World :=
  { w with feeRecipient := some recipient }

def setFeeBalance (w : World) (token : Address) (amount : Int) : World :=
  { w with feeBalance := Function.update w.feeBalance token amount }

/-- `add_fee_balance`: an overflowing sum leaves the balance as it was. -/
def addFeeBalance (w : World) (token : Address) (amount : Int) : World :=
  let current := w.feeBalance token
  setFeeBalance w token ((checkedAdd current amount).getD current)

def setMaxStreamsPerEmployer (w : World) (limit : Nat) : World :=
  saveConfig w { w.config with maxStreams := limit }

def setPausedCfg (w : World) (paused : Bool) : World :=
  saveConfig w { w.config with paused := paused }

/-! ## Employer transfers and indexes -/

def setPendingEmployer (w : World) (streamId : Nat) (pending : Address) :
    World :=
  { w with
    pendingEmployer := Function.update w.pendingEmployer streamId (some pending) }

def clearPendingEmployer (w : World) (streamId : Nat) : World :=
  { w with pendingEmployer := Function.update w.pendingEmployer streamId none }

/-- `index_employer_streams_batch`; `index_employer_stream` is the case of one
id. -/
def indexEmployerStreamsBatch (w : World) (employer : Address)
    (streamIds : List Nat) : World :=
  { w with
    employerStreams := Function.update w.employerStreams employer
      (w.employerStreams employer ++ streamIds) }

def indexEmployerStream (w : World) (employer : Address) (streamId : Nat) :
    World :=
  indexEmployerStreamsBatch w employer [streamId]

def indexEmployeeStream (w : World) (employee : Address) (streamId : Nat) :
    World :=
  { w with
    employeeStreams := Function.update w.employeeStreams employee
      (w.employeeStreams employee ++ [streamId]) }

/-! ## Claimable amount -/

/-- The time accrual is counted up to: `now`, or `stop_time` once that has
passed. -/
def effectiveEnd (stream : Stream) (now : Nat) : Nat :=
  if 0 < stream.stopTime ∧ stream.stopTime < now then stream.stopTime else now

/-- `claimable_amount`: tokens earned up to `now` and not yet withdrawn. -/
def claimableAmount (stream : Stream) (now : Nat) : Except String Int :=
  match stream.status with
  | .cancelled | .exhausted => .ok 0
  | .active | .paused =>
      if 0 < stream.cliffTime ∧ now < stream.cliffTime then
        .ok 0
      else
        -- saturating: a clock ahead of `now` counts nothing
        let elapsed := effectiveEnd stream now - stream.lastWithdrawTime
        if elapsed = 0 then
          .ok 0
        else do
          let earned ← expect
            (checkedMul (elapsed : Int) stream.ratePerSecond) errOverflow
          let remaining :=
            max ((checkedSub stream.deposit stream.withdrawn).getD 0) 0
          return max (min earned remaining) 0

/-! ## Pause history -/

/-- `add_pause_event`. -/
def addPauseEvent (w : World) (streamId timestamp : Nat) (isPause : Bool) :
    World :=
  { w with
    pauseHistory := Function.update w.pauseHistory streamId
      (w.pauseHistory streamId ++ [⟨streamId, timestamp, isPause⟩]) }

/-! ## Token allowlist -/

/-- `is_token_allowed`: an empty list admits every token. -/
def isTokenAllowed (w : World) (token : Address) : Bool :=
  w.allowedTokens.isEmpty || decide (token ∈ w.allowedTokens)

def addAllowedToken (w : World) (token : Address) : World :=
  if token ∈ w.allowedTokens then
    w
  else
    { w with allowedTokens := w.allowedTokens ++ [token] }

def removeAllowedToken (w : World) (token : Address) : World :=
  { w with allowedTokens := w.allowedTokens.filter (fun t => decide (t ≠ token)) }

/-! ## Governance -/

/-- `next_proposal_id`. -/
def nextProposalId (w : World) : Except String (Nat × World) := do
  let next ← expect (checkedAddU64 w.proposalCount 1) "proposal count overflow"
  return (next, { w with proposalCount := next })

def saveProposal (w : World) (proposal : Proposal) : World :=
  { w with proposals := Function.update w.proposals proposal.id (some proposal) }

/-- `load_proposal(..).expect("proposal not found")`. -/
def loadProposal (w : World) (id : Nat) : Except String Proposal :=
  expect (w.proposals id) "proposal not found"

def markVoted (w : World) (proposalId : Nat) (voter : Address) : World :=
  { w with
    voted := Function.update w.voted proposalId
      (Function.update (w.voted proposalId) voter true) }

/-- `apply_proposal`: `new_value` is cast to the parameter's type. -/
def applyProposal (w : World) (proposal : Proposal) : World :=
  match proposal.param with
  | .minDeposit => setMinDeposit w (proposal.newValue : Int)
  -- the source writes the stream limit here; it has no duration setting
  | .maxDuration => setMaxStreamsPerEmployer w (castU32 proposal.newValue)
  | .feeBps => setFeeBps w (castU32 proposal.newValue)

/-- `tally_proposal`. -/
def tallyProposal (w : World) (proposal : Proposal) : World :=
  if proposal.votesAgainst < proposal.votesFor then
    saveProposal w { proposal with status := .passed }
  else
    saveProposal w { proposal with status := .rejected }

/-! ## Multi-signature operations -/

def setMultisigConfig (w : World) (config : MultisigConfig) : World :=
  { w with multisigConfig := some config }

/-- `next_pending_op_id`. -/
def nextPendingOpId (w : World) : Except String (Nat × World) := do
  let next ← expect (checkedAddU64 w.pendingOpCount 1)
    "pending op count overflow"
  return (next, { w with pendingOpCount := next })

def savePendingOp (w : World) (op : PendingAdminOp) : World :=
  { w with pendingOps := Function.update w.pendingOps op.id (some op) }

/-- `load_pending_op(..).expect(ERR_OP_NOT_FOUND)`. -/
def loadPendingOp (w : World) (id : Nat) : Except String PendingAdminOp :=
  expect (w.pendingOps id) errOpNotFound

end Storage
end Contract
end Paystream
