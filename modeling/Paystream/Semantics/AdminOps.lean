import Paystream.Contract.Exec

/-!
# Administration and governance

Three views split the world: `books` are the streams and the money, `settings`
the administrator, the configuration and the governance records, `records` the
maps kept beside the streams.  The calls of this module write settings and
nothing of the other two.

For the administrator's calls `AdminCall.Guard` and `AdminCall.next` say exactly
when a call returns and what it leaves (`execAdmin_eq_ok_iff`).
-/

namespace Paystream
namespace Semantics

open Library
open Contract
open Contract.Storage
open Contract.StreamContract

/-! ## Views of the world -/

/-- Streams and money. -/
structure Books where
  streams : Nat → Option Stream
  streamCount : Nat
  feeBalance : Address → Int
  balances : Balances Address Address
  transfers : List TokenTransfer

/-- Administration, configuration and governance. -/
structure Settings where
  admin : Option Address
  pendingAdmin : Option Address
  config : ContractConfig
  feeRecipient : Option Address
  allowedTokens : List Address
  proposals : Nat → Option Proposal
  proposalCount : Nat
  voted : Nat → Address → Bool
  multisigConfig : Option MultisigConfig
  pendingOps : Nat → Option PendingAdminOp
  pendingOpCount : Nat
  wasmHash : Option (BitVec 256)

/-- Proposed employers, indexes and pause histories. -/
structure Records where
  pendingEmployer : Nat → Option Address
  employerStreams : Address → List Nat
  employeeStreams : Address → List Nat
  pauseHistory : Nat → List PauseEvent

def books (w : World) : Books where
  streams := w.streams
  streamCount := w.streamCount
  feeBalance := w.feeBalance
  balances := w.balances
  transfers := w.transfers

def settings (w : World) : Settings where
  admin := w.admin
  pendingAdmin := w.pendingAdmin
  config := w.config
  feeRecipient := w.feeRecipient
  allowedTokens := w.allowedTokens
  proposals := w.proposals
  proposalCount := w.proposalCount
  voted := w.voted
  multisigConfig := w.multisigConfig
  pendingOps := w.pendingOps
  pendingOpCount := w.pendingOpCount
  wasmHash := w.wasmHash

def records (w : World) : Records where
  pendingEmployer := w.pendingEmployer
  employerStreams := w.employerStreams
  employeeStreams := w.employeeStreams
  pauseHistory := w.pauseHistory

/-! ## The administrator's calls -/

/-- The nonce check and bump of the guarded calls. -/
def NonceFits (w : World) (nonce : Nat) : Prop :=
  nonce = w.config.adminNonce ∧ w.config.adminNonce + 1 ≤ u64Max

def bumpNonce (w : World) : World :=
  saveConfig w { w.config with adminNonce := w.config.adminNonce + 1 }

/-- When an administrator's call returns. -/
def AdminGuard (ctx : Context) (w : World) : AdminCall → Prop
  | .initializeContract admin => admin ∈ ctx.auth
  | .proposeAdmin currentAdmin _ =>
      currentAdmin ∈ ctx.auth ∧ w.admin = some currentAdmin
  | .acceptAdmin newAdmin =>
      newAdmin ∈ ctx.auth ∧ w.pendingAdmin = some newAdmin
  | .pauseContract admin nonce =>
      (admin ∈ ctx.auth ∧ w.admin = some admin) ∧ NonceFits w nonce
  | .unpauseContract admin nonce =>
      (admin ∈ ctx.auth ∧ w.admin = some admin) ∧ NonceFits w nonce
  | .emergencyPause admin => admin ∈ ctx.auth ∧ w.admin = some admin
  | .setMinDeposit admin nonce amount =>
      (admin ∈ ctx.auth ∧ w.admin = some admin) ∧ NonceFits w nonce ∧ 0 < amount
  | .setProtocolFee admin nonce feeBps _ =>
      (admin ∈ ctx.auth ∧ w.admin = some admin) ∧ NonceFits w nonce ∧
        feeBps ≤ 100
  | .setMaxStreamsPerEmployer admin nonce _ =>
      (admin ∈ ctx.auth ∧ w.admin = some admin) ∧ NonceFits w nonce
  | .addAllowedToken admin _ => admin ∈ ctx.auth ∧ w.admin = some admin
  | .removeAllowedToken admin _ => admin ∈ ctx.auth ∧ w.admin = some admin
  | .upgrade admin _ nonce =>
      (admin ∈ ctx.auth ∧ w.admin = some admin) ∧ NonceFits w nonce
  | .migrate admin => admin ∈ ctx.auth ∧ w.admin = some admin

/-- The world an administrator's call leaves. -/
def adminNext (w : World) : AdminCall → World
  | .initializeContract admin => setAdmin w admin
  | .proposeAdmin _ newAdmin => setPendingAdmin w newAdmin
  | .acceptAdmin newAdmin => clearPendingAdmin (setAdmin w newAdmin)
  | .pauseContract _ _ =>
      (setPausedCfg (bumpNonce w) true).emit (.contractPaused true)
  | .unpauseContract _ _ =>
      (setPausedCfg (bumpNonce w) false).emit (.contractPaused false)
  | .emergencyPause _ => (setPausedCfg w true).emit (.contractPaused true)
  | .setMinDeposit _ _ amount => Storage.setMinDeposit (bumpNonce w) amount
  | .setProtocolFee _ _ feeBps feeRecipient =>
      setFeeRecipient (setFeeBps (bumpNonce w) feeBps) feeRecipient
  | .setMaxStreamsPerEmployer _ _ limit =>
      Storage.setMaxStreamsPerEmployer (bumpNonce w) limit
  | .addAllowedToken _ token => Storage.addAllowedToken w token
  | .removeAllowedToken _ token => Storage.removeAllowedToken w token
  | .upgrade _ newWasmHash _ =>
      { bumpNonce w with wasmHash := some newWasmHash }
  | .migrate _ => w

/-- The nonce-guarded prologue in terms of `NonceFits` and `bumpNonce`. -/
theorem authorizeAdminNonce_ok {ctx : Context} {admin : Address} {nonce : Nat}
    {w w' : World} :
    authorizeAdminNonce ctx admin nonce w = .ok w' ↔
      ((admin ∈ ctx.auth ∧ w.admin = some admin) ∧ NonceFits w nonce) ∧
        w' = bumpNonce w := by
  rw [authorizeAdminNonce_eq_ok_iff]
  unfold NonceFits bumpNonce
  tauto

/-- A nonce-guarded call that then only writes. -/
theorem nonceGuarded_eq_ok_iff {ctx : Context} {admin : Address} {nonce : Nat}
    {w w' : World} (write : World → World) :
    (authorizeAdminNonce ctx admin nonce w >>= fun w => pure (write w)) = .ok w' ↔
      ((admin ∈ ctx.auth ∧ w.admin = some admin) ∧ NonceFits w nonce) ∧
        w' = write (bumpNonce w) := by
  simp only [bind_eq_ok_iff, authorizeAdminNonce_ok, pure_eq_ok_iff]
  constructor
  · rintro ⟨_, ⟨hguard, rfl⟩, rfl⟩
    exact ⟨hguard, rfl⟩
  · rintro ⟨hguard, rfl⟩
    exact ⟨_, ⟨hguard, rfl⟩, rfl⟩

/-- A nonce-guarded call with one more check on its argument. -/
theorem nonceGuarded_check_eq_ok_iff {ctx : Context} {admin : Address}
    {nonce : Nat} {w w' : World} (condition : Prop) [Decidable condition]
    (message : String) (write : World → World) :
    (authorizeAdminNonce ctx admin nonce w >>= fun w =>
        ensure (decide condition) message >>= fun _ => pure (write w)) = .ok w' ↔
      ((admin ∈ ctx.auth ∧ w.admin = some admin) ∧ NonceFits w nonce ∧
        condition) ∧ w' = write (bumpNonce w) := by
  simp only [bind_eq_ok_iff, authorizeAdminNonce_ok, ensure_eq_ok_iff,
    decide_eq_true_eq, pure_eq_ok_iff]
  constructor
  · rintro ⟨_, ⟨⟨hadmin, hnonce⟩, rfl⟩, _, hcondition, rfl⟩
    exact ⟨⟨hadmin, hnonce, hcondition⟩, rfl⟩
  · rintro ⟨⟨hadmin, hnonce, hcondition⟩, rfl⟩
    exact ⟨_, ⟨⟨hadmin, hnonce⟩, rfl⟩, (), hcondition, rfl⟩

theorem execAdmin_eq_ok_iff (ctx : Context) (call : AdminCall) (w w' : World) :
    execAdmin ctx call w = .ok w' ↔
      AdminGuard ctx w call ∧ w' = adminNext w call := by
  cases call with
  | initializeContract admin =>
      show (requireAuth ctx admin >>= fun _ => pure (setAdmin w admin)) =
        .ok w' ↔ _
      rw [check_then_return_iff, requireAuth_eq_ok_iff]
      rfl
  | proposeAdmin currentAdmin newAdmin =>
      simp only [execAdmin, proposeAdmin, bind_eq_ok_iff,
        requireAuth_eq_ok_iff, requireAdmin_eq_ok_iff, pure_eq_ok_iff,
        AdminGuard, adminNext, exists_const, and_assoc, @eq_comm World w']
  | acceptAdmin newAdmin =>
      simp only [execAdmin, acceptAdmin, bind_eq_ok_iff,
        requireAuth_eq_ok_iff, requirePendingAdmin_eq_ok_iff, pure_eq_ok_iff,
        AdminGuard, adminNext, exists_const, and_assoc, @eq_comm World w']
  | pauseContract admin nonce => exact nonceGuarded_eq_ok_iff _
  | unpauseContract admin nonce => exact nonceGuarded_eq_ok_iff _
  | emergencyPause admin =>
      simp only [execAdmin, emergencyPause, check_then_return_iff,
        authorizeAdmin_eq_ok_iff, AdminGuard, adminNext]
  | setMinDeposit admin nonce amount =>
      exact nonceGuarded_check_eq_ok_iff (0 < amount) _ _
  | setProtocolFee admin nonce feeBps feeRecipient =>
      exact nonceGuarded_check_eq_ok_iff (feeBps ≤ 100) _
        (fun w => setFeeRecipient (setFeeBps w feeBps) feeRecipient)
  | setMaxStreamsPerEmployer admin nonce limit =>
      exact nonceGuarded_eq_ok_iff
        (fun w => Storage.setMaxStreamsPerEmployer w limit)
  | addAllowedToken admin token =>
      simp only [execAdmin, StreamContract.addAllowedToken,
        check_then_return_iff, authorizeAdmin_eq_ok_iff, AdminGuard, adminNext]
  | removeAllowedToken admin token =>
      simp only [execAdmin, StreamContract.removeAllowedToken,
        check_then_return_iff, authorizeAdmin_eq_ok_iff, AdminGuard, adminNext]
  | upgrade admin newWasmHash nonce => exact nonceGuarded_eq_ok_iff _
  | migrate admin =>
      simp only [execAdmin, migrate, check_then_return_iff,
        authorizeAdmin_eq_ok_iff, AdminGuard, adminNext]

/-- No administrator's call touches the books. -/
theorem books_adminNext (w : World) (call : AdminCall) :
    books (adminNext w call) = books w := by
  cases call with
  | addAllowedToken admin token =>
      simp only [adminNext, Storage.addAllowedToken]
      split <;> rfl
  | _ => rfl

/-! ## Governance and multi-signature calls -/

@[simp] theorem unitResult_eq_ok_iff (result : Except String World)
    (value : Value) (w : World) :
    unitResult result = .ok (value, w) ↔ result = .ok w ∧ value = .unit := by
  cases result with
  | error message => simp [unitResult, Except.map]
  | ok w' =>
      simp only [unitResult, Except.map, Except.ok.injEq, Prod.mk.injEq]
      constructor
      · rintro ⟨rfl, rfl⟩
        exact ⟨rfl, rfl⟩
      · rintro ⟨rfl, rfl⟩
        exact ⟨rfl, rfl⟩

/-- The calls of this section write the configuration, the governance records
and the event log, and nothing else. -/
def GovernanceWrites (w w' : World) : Prop :=
  w' = { w with
    config := w'.config
    proposals := w'.proposals
    proposalCount := w'.proposalCount
    voted := w'.voted
    multisigConfig := w'.multisigConfig
    pendingOps := w'.pendingOps
    pendingOpCount := w'.pendingOpCount
    events := w'.events }

/-- What stays the same through the calls of this section: the books, the
administrator and the fee recipient. -/
structure GovernanceFrame (w w' : World) : Prop where
  books : books w' = books w
  admin : w'.admin = w.admin
  pendingAdmin : w'.pendingAdmin = w.pendingAdmin
  feeRecipient : w'.feeRecipient = w.feeRecipient

theorem GovernanceWrites.frame {w w' : World} (h : GovernanceWrites w w') :
    GovernanceFrame w w' := by
  rw [h]
  exact ⟨rfl, rfl, rfl, rfl⟩

theorem vote_writes {ctx : Context} {voter : Address} {proposalId : Nat}
    {support : Bool} {w w' : World}
    (h : vote ctx voter proposalId support w = .ok w') :
    GovernanceWrites w w' := by
  simp only [vote, bind_eq_ok_iff] at h
  obtain ⟨_, _, proposal, _, _, _, _, _, h⟩ := h
  cases support with
  | false =>
      simp only [Bool.false_eq_true, if_false, bind_eq_ok_iff,
        pure_eq_ok_iff] at h
      obtain ⟨_, _, rfl⟩ := h
      rfl
  | true =>
      simp only [if_true, bind_eq_ok_iff, pure_eq_ok_iff] at h
      obtain ⟨_, _, rfl⟩ := h
      rfl

theorem executeProposal_writes {ctx : Context} {proposalId : Nat} {w w' : World}
    (h : executeProposal ctx proposalId w = .ok w') : GovernanceWrites w w' := by
  simp only [executeProposal, bind_eq_ok_iff, pure_eq_ok_iff] at h
  obtain ⟨proposal, _, _, _, _, _, rfl⟩ := h
  unfold applyProposal
  cases proposal.param <;> rfl

theorem multisigApprove_writes {ctx : Context} {caller : Address} {opId : Nat}
    {w w' : World} (h : multisigApprove ctx caller opId w = .ok w') :
    GovernanceWrites w w' := by
  simp only [multisigApprove, bind_eq_ok_iff] at h
  obtain ⟨config, _, pending, _, _, _, _, _, _, _, h⟩ := h
  split at h
  · simp only [pure_eq_ok_iff] at h
    subst h
    unfold executeAdminOp
    cases pending.op <;> rfl
  · simp only [pure_eq_ok_iff] at h
    subst h
    rfl

theorem execGovernance_writes {ctx : Context} {call : GovernanceCall}
    {w w' : World} {value : Value}
    (h : execGovernance ctx call w = .ok (value, w')) :
    GovernanceWrites w w' := by
  cases call with
  | proposeParameter proposer param newValue =>
      simp only [execGovernance, map_eq_ok_iff, proposeParameter, nextProposalId,
        bind_eq_ok_iff, pure_eq_ok_iff] at h
      obtain ⟨_, ⟨_, _, _, ⟨_, _, rfl⟩, _, _, rfl⟩, heq⟩ := h
      cases heq
      rfl
  | vote voter proposalId support =>
      simp only [execGovernance, unitResult_eq_ok_iff] at h
      exact vote_writes h.1
  | tally proposalId =>
      simp only [execGovernance, unitResult_eq_ok_iff, tally, bind_eq_ok_iff,
        pure_eq_ok_iff] at h
      obtain ⟨⟨proposal, _, _, _, rfl⟩, _⟩ := h
      unfold tallyProposal
      split <;> rfl
  | executeProposal proposalId =>
      simp only [execGovernance, unitResult_eq_ok_iff] at h
      exact executeProposal_writes h.1
  | configureMultisig caller admins threshold =>
      simp only [execGovernance, unitResult_eq_ok_iff, configureMultisig,
        bind_eq_ok_iff, pure_eq_ok_iff] at h
      obtain ⟨⟨_, _, _, _, _, _, _, _, rfl⟩, _⟩ := h
      rfl
  | multisigPropose caller op =>
      simp only [execGovernance, map_eq_ok_iff, multisigPropose, nextPendingOpId,
        bind_eq_ok_iff, pure_eq_ok_iff] at h
      obtain ⟨_, ⟨_, _, _, ⟨_, _, rfl⟩, _, _, rfl⟩, heq⟩ := h
      cases heq
      rfl
  | multisigApprove caller opId =>
      simp only [execGovernance, unitResult_eq_ok_iff] at h
      exact multisigApprove_writes h.1

theorem execGovernance_frame {ctx : Context} {call : GovernanceCall}
    {w w' : World} {value : Value}
    (h : execGovernance ctx call w = .ok (value, w')) : GovernanceFrame w w' :=
  (execGovernance_writes h).frame

end Semantics
end Paystream
