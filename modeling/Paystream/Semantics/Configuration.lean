import Paystream.Semantics.Steps

/-!
# The packed configuration

Ten calls write the five scalars of `ContractConfig`, each by loading the whole
record, changing one field and saving it; the nonce-guarded ones do that twice.
`configNext` lists what each of them leaves, and `config_of_succeeds` says that
nothing else happens to the record.
-/

namespace Paystream
namespace Semantics

open Library
open Contract
open Contract.Storage
open Contract.StreamContract

/-- What executing a proposal makes of the configuration. -/
def ContractConfig.applied (config : ContractConfig) (proposal : Proposal) :
    ContractConfig :=
  match proposal.param with
  | .minDeposit => { config with minDeposit := (proposal.newValue : Int) }
  | .maxDuration => { config with maxStreams := castU32 proposal.newValue }
  | .feeBps => { config with feeBps := castU32 proposal.newValue }

/-- The approval `opId` is about to get completes an emergency pause. -/
def completesPause (w : World) (opId : Nat) : Bool :=
  match w.multisigConfig, w.pendingOps opId with
  | some config, some pending =>
      decide (config.threshold ≤ pending.approvals.length + 1) &&
        decide (pending.op = .emergencyPause)
  | _, _ => false

/-- The configuration a call leaves when it returns. -/
def configNext (w : World) : Call → ContractConfig
  | .admin (.pauseContract _ _) =>
      { w.config with adminNonce := w.config.adminNonce + 1, paused := true }
  | .admin (.unpauseContract _ _) =>
      { w.config with adminNonce := w.config.adminNonce + 1, paused := false }
  | .admin (.emergencyPause _) => { w.config with paused := true }
  | .admin (.setMinDeposit _ _ amount) =>
      { w.config with
        adminNonce := w.config.adminNonce + 1, minDeposit := amount }
  | .admin (.setProtocolFee _ _ feeBps _) =>
      { w.config with adminNonce := w.config.adminNonce + 1, feeBps := feeBps }
  | .admin (.setMaxStreamsPerEmployer _ _ limit) =>
      { w.config with
        adminNonce := w.config.adminNonce + 1, maxStreams := limit }
  | .admin (.upgrade _ _ _) =>
      { w.config with adminNonce := w.config.adminNonce + 1 }
  | .governance (.executeProposal proposalId) =>
      match w.proposals proposalId with
      | some proposal => ContractConfig.applied w.config proposal
      | none => w.config
  | .governance (.multisigApprove _ opId) =>
      if completesPause w opId then { w.config with paused := true }
      else w.config
  | _ => w.config

theorem config_adminNext (w : World) (call : AdminCall) :
    (adminNext w call).config = configNext w (.admin call) := by
  cases call with
  | addAllowedToken admin token =>
      simp only [adminNext, Storage.addAllowedToken, configNext]
      split <;> rfl
  | _ => rfl

theorem executeProposal_config {ctx : Context} {proposalId : Nat} {w w' : World}
    (h : executeProposal ctx proposalId w = .ok w') :
    w'.config = configNext w (.governance (.executeProposal proposalId)) := by
  simp only [executeProposal, loadProposal, bind_eq_ok_iff, expect_eq_ok_iff,
    pure_eq_ok_iff] at h
  obtain ⟨proposal, hproposal, _, _, _, _, rfl⟩ := h
  simp only [configNext, hproposal]
  show (applyProposal w proposal).config = _
  unfold applyProposal ContractConfig.applied
  cases proposal.param <;> rfl

theorem multisigApprove_config {ctx : Context} {caller : Address} {opId : Nat}
    {w w' : World} (h : multisigApprove ctx caller opId w = .ok w') :
    w'.config = configNext w (.governance (.multisigApprove caller opId)) := by
  simp only [multisigApprove, requireMultisigAdmin, loadPendingOp,
    bind_eq_ok_iff, expect_eq_ok_iff, pure_eq_ok_iff] at h
  obtain ⟨_, ⟨_, _, config, hconfig, _, _, rfl⟩, pending, hpending, _, _, _, _, _,
    _, h⟩ := h
  have hcompletes : completesPause w opId =
      (decide (config.threshold ≤ pending.approvals.length + 1) &&
        decide (pending.op = .emergencyPause)) := by
    simp only [completesPause, hconfig, hpending]
  simp only [configNext, hcompletes]
  simp only [List.length_append, List.length_singleton] at h
  split at h
  · rename_i hreached
    rw [pure_eq_ok_iff] at h
    subst h
    cases hop : pending.op with
    | upgrade wasmHash => simp [hreached]; rfl
    | emergencyPause => simp [hreached]; rfl
  · rename_i hbelow
    rw [pure_eq_ok_iff] at h
    subst h
    simp [hbelow]
    rfl

/-- The calls of governance and multi-signature, all of them. -/
theorem execGovernance_config {ctx : Context} {call : GovernanceCall}
    {w w' : World} {value : Value}
    (h : execGovernance ctx call w = .ok (value, w')) :
    w'.config = configNext w (.governance call) := by
  cases call with
  | proposeParameter proposer param newValue =>
      simp only [execGovernance, map_eq_ok_iff, proposeParameter, nextProposalId,
        bind_eq_ok_iff, pure_eq_ok_iff] at h
      obtain ⟨_, ⟨_, _, _, ⟨_, _, rfl⟩, _, _, rfl⟩, heq⟩ := h
      cases heq
      rfl
  | vote voter proposalId support =>
      simp only [execGovernance, unitResult_eq_ok_iff, vote, bind_eq_ok_iff] at h
      obtain ⟨⟨_, _, proposal, _, _, _, _, _, h⟩, _⟩ := h
      cases support with
      | false =>
          simp only [Bool.false_eq_true, if_false, bind_eq_ok_iff,
            pure_eq_ok_iff] at h
          obtain ⟨_, _, rfl⟩ := h
          rfl
      | true =>
          simp only [if_true, bind_eq_ok_iff, pure_eq_ok_iff] at h
          obtain ⟨_, _, rfl⟩ := h
          rfl
  | tally proposalId =>
      simp only [execGovernance, unitResult_eq_ok_iff, tally, bind_eq_ok_iff,
        pure_eq_ok_iff] at h
      obtain ⟨⟨proposal, _, _, _, rfl⟩, _⟩ := h
      unfold tallyProposal
      split <;> rfl
  | executeProposal proposalId =>
      exact executeProposal_config ((unitResult_eq_ok_iff _ _ _).mp h).1
  | configureMultisig caller admins threshold =>
      simp only [execGovernance, unitResult_eq_ok_iff, configureMultisig,
        bind_eq_ok_iff, pure_eq_ok_iff] at h
      obtain ⟨⟨_, _, _, _, _, _, _, _, rfl⟩, _⟩ := h
      rfl
  | multisigPropose caller op =>
      simp only [execGovernance, map_eq_ok_iff, multisigPropose, nextPendingOpId,
        bind_eq_ok_iff, pure_eq_ok_iff] at h
      obtain ⟨_, ⟨_, _, _, ⟨_, _, rfl⟩, _, _, rfl⟩, heq⟩ := h
      cases heq
      rfl
  | multisigApprove caller opId =>
      exact multisigApprove_config ((unitResult_eq_ok_iff _ _ _).mp h).1

/-- What a call that returned did to the configuration. -/
theorem config_of_succeeds {host : Host} {w w' : World} {inv : Invocation}
    {value : Value} (h : Succeeds host w inv value w') :
    w'.config = configNext w inv.call := by
  obtain ⟨ctx, call, now_le, inRange⟩ := inv
  have heffect := effect_of_succeeds h
  unfold Succeeds at h
  change exec host ctx call w = .ok (value, w') at h
  change CallEffect host ctx w w' call at heffect
  cases heffect with
  | admin call _ hnext =>
      subst hnext
      exact config_adminNext w call
  | governance call _ => exact execGovernance_config h
  | create call hcreated =>
      exact congrArg Settings.config hcreated.sameSettings
  | onStream streamId call heffect =>
      rcases heffect with ⟨_, _, hsettings⟩ | ⟨_, _, _, _, _, hupdate⟩
      · exact congrArg Settings.config hsettings
      · exact congrArg Settings.config hupdate.sameSettings
  | feePayout admin token amount _ _ hpayout =>
      exact congrArg Settings.config hpayout.sameSettings
  | query query hsame => exact congrArg World.config hsame
  | directTransfer token source target amount hdirect =>
      exact congrArg Settings.config hdirect.sameSettings

end Semantics
end Paystream
