import Paystream.Contract.Guards

/-!
# Governance and multi-signature entry points

Proposals are open to any signer: `propose_parameter`, `vote`, `tally`,
`execute_proposal`.  Sensitive administrator operations can be gathered under an
M-of-N configuration: `multisig_propose` records the proposer as the first
approver, `multisig_approve` adds one approval and executes at the threshold.
-/

namespace Paystream
namespace Contract
namespace StreamContract

open Library
open Storage

/-- Two days in seconds. -/
def govTimelock : Nat := 2 * 24 * 3600

/-- Seven days in seconds. -/
def multisigOpTtl : Nat := 7 * 24 * 3600

/-! ## Governance -/

/-- `propose_parameter`. -/
def proposeParameter (ctx : Context) (proposer : Address) (param : GovParam)
    (newValue : Nat) (w : World) : Except String (Nat × World) := do
  requireAuth ctx proposer
  let (id, w) ← nextProposalId w
  let executableAfter ← expect (checkedAddU64 ctx.now govTimelock)
    "attempt to add with overflow"
  let proposal : Proposal :=
    { id, param, newValue, votesFor := 0, votesAgainst := 0,
      status := .active, executableAfter }
  return (id, (saveProposal w proposal).emit (.proposalCreated id))

/-- `vote`. -/
def vote (ctx : Context) (voter : Address) (proposalId : Nat) (support : Bool)
    (w : World) : Except String World := do
  requireAuth ctx voter
  let proposal ← loadProposal w proposalId
  ensure (decide (proposal.status = .active)) "proposal not active"
  ensure (!w.voted proposalId voter) "already voted"
  let w := markVoted w proposalId voter
  if support then
    let votesFor ← expect (checkedAddU64 proposal.votesFor 1)
      "attempt to add with overflow"
    return saveProposal w { proposal with votesFor }
  else
    let votesAgainst ← expect (checkedAddU64 proposal.votesAgainst 1)
      "attempt to add with overflow"
    return saveProposal w { proposal with votesAgainst }

/-- `tally`. -/
def tally (proposalId : Nat) (w : World) : Except String World := do
  let proposal ← loadProposal w proposalId
  ensure (decide (proposal.status = .active)) "proposal not active"
  return tallyProposal w proposal

/-- `execute_proposal`. -/
def executeProposal (ctx : Context) (proposalId : Nat) (w : World) :
    Except String World := do
  let proposal ← loadProposal w proposalId
  ensure (decide (proposal.status = .passed)) "proposal not passed"
  ensure (decide (proposal.executableAfter ≤ ctx.now)) "timelock not elapsed"
  let w := applyProposal w proposal
  return (saveProposal w { proposal with status := .executed }).emit
    (.proposalExecuted proposalId)

/-! ## Multi-signature administration -/

/-- `configure_multisig`. -/
def configureMultisig (ctx : Context) (caller : Address) (admins : List Address)
    (threshold : Nat) (w : World) : Except String World := do
  requireAuth ctx caller
  requireAdmin w caller
  ensure (decide (0 < threshold)) "threshold must be > 0"
  ensure (decide (threshold ≤ admins.length))
    "threshold cannot exceed number of admins"
  return setMultisigConfig w { admins, threshold }

/-- The configuration, after checking that the caller signed and is one of its
members. -/
def requireMultisigAdmin (ctx : Context) (caller : Address) (w : World) :
    Except String MultisigConfig := do
  requireAuth ctx caller
  let config ← expect w.multisigConfig errMultisigNotConfigured
  ensure (decide (caller ∈ config.admins)) errNotMultisigAdmin
  return config

/-- `multisig_propose`. -/
def multisigPropose (ctx : Context) (caller : Address) (op : AdminOp)
    (w : World) : Except String (Nat × World) := do
  let _ ← requireMultisigAdmin ctx caller w
  let (id, w) ← nextPendingOpId w
  let expiresAt ← expect (checkedAddU64 ctx.now multisigOpTtl)
    "attempt to add with overflow"
  let pending : PendingAdminOp :=
    { id, op, approvals := [caller], expiresAt, executed := false }
  return (id, savePendingOp w pending)

/-- What a fully approved operation does: an upgrade is left to be carried out
off-chain, an emergency pause sets the flag. -/
def executeAdminOp (op : AdminOp) (w : World) : World :=
  match op with
  | .upgrade _ => w
  | .emergencyPause => setPausedCfg w true

/-- `multisig_approve`. -/
def multisigApprove (ctx : Context) (caller : Address) (opId : Nat)
    (w : World) : Except String World := do
  let config ← requireMultisigAdmin ctx caller w
  let pending ← loadPendingOp w opId
  ensure (!pending.executed) errOpAlreadyExecuted
  ensure (decide (ctx.now < pending.expiresAt)) errOpExpired
  ensure (decide (caller ∉ pending.approvals)) errAlreadyApproved
  let approvals := pending.approvals ++ [caller]
  if config.threshold ≤ approvals.length then
    return savePendingOp (executeAdminOp pending.op w)
      { pending with approvals, executed := true }
  else
    return savePendingOp w { pending with approvals }

end StreamContract
end Contract
end Paystream
