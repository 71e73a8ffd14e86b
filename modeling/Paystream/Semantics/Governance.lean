import Paystream.Library.Registry
import Paystream.Semantics.Steps

/-!
# Proposals and pending operations

`GovernanceEffect` says what each of the seven governance and multi-signature
calls found and what it leaves, and `governance_cases` that no other call writes
these records.

Two views follow from it.  `ProposalChange` is what a call did to the proposal
stored under one id and to the marks of its voters, `PendingOpChange` what it
did to the pending operation stored under one id.  Both need that the records
are stored under their own ids and that ids are given out in order
(`governanceKeyed_of_reaches`).
-/

namespace Paystream
namespace Semantics

open Library
open Contract
open Contract.Storage
open Contract.StreamContract

/-! ## What the calls leave -/

/-- The proposal with one more vote. -/
def countVote (support : Bool) (proposal : Proposal) : Proposal :=
  if support then { proposal with votesFor := proposal.votesFor + 1 }
  else { proposal with votesAgainst := proposal.votesAgainst + 1 }

/-- The proposal after its votes were compared. -/
def tallied (proposal : Proposal) : Proposal :=
  { proposal with
    status :=
      if proposal.votesAgainst < proposal.votesFor then .passed else .rejected }

/-- The proposal `propose_parameter` stores. -/
def freshProposal (id now : Nat) (param : GovParam) (newValue : Nat) :
    Proposal where
  id := id
  param := param
  newValue := newValue
  votesFor := 0
  votesAgainst := 0
  status := .active
  executableAfter := now + govTimelock

/-- The operation `multisig_propose` stores, approved by its proposer. -/
def freshOp (id now : Nat) (caller : Address) (op : AdminOp) :
    PendingAdminOp where
  id := id
  op := op
  approvals := [caller]
  expiresAt := now + multisigOpTtl
  executed := false

/-- The operation with one more approval, executed when that reaches the
threshold. -/
def approvedBy (config : MultisigConfig) (caller : Address)
    (pending : PendingAdminOp) : PendingAdminOp :=
  { pending with
    approvals := pending.approvals ++ [caller]
    executed := decide (config.threshold ≤ pending.approvals.length + 1) }

/-- The world an approval is stored in: an operation that reaches the threshold
has been carried out. -/
def carriedOut (config : MultisigConfig) (pending : PendingAdminOp)
    (w : World) : World :=
  if config.threshold ≤ pending.approvals.length + 1 then
    executeAdminOp pending.op w
  else
    w

/-- What a call of this group found, and the world it leaves. -/
inductive GovernanceEffect (ctx : Context) (w : World) :
    GovernanceCall → World → Prop
  | proposed (proposer : Address) (param : GovParam) (newValue : Nat)
      (hauth : proposer ∈ ctx.auth) :
      GovernanceEffect ctx w (.proposeParameter proposer param newValue)
        ((saveProposal { w with proposalCount := w.proposalCount + 1 }
          (freshProposal (w.proposalCount + 1) ctx.now param newValue)).emit
            (.proposalCreated (w.proposalCount + 1)))
  | voted (voter : Address) (proposalId : Nat) (support : Bool)
      (proposal : Proposal) (hauth : voter ∈ ctx.auth)
      (hfound : w.proposals proposalId = some proposal)
      (hactive : proposal.status = .active)
      (hfirst : w.voted proposalId voter = false) :
      GovernanceEffect ctx w (.vote voter proposalId support)
        (saveProposal (markVoted w proposalId voter) (countVote support proposal))
  | tallied (proposalId : Nat) (proposal : Proposal)
      (hfound : w.proposals proposalId = some proposal)
      (hactive : proposal.status = .active) :
      GovernanceEffect ctx w (.tally proposalId) (saveProposal w (tallied proposal))
  | executed (proposalId : Nat) (proposal : Proposal)
      (hfound : w.proposals proposalId = some proposal)
      (hpassed : proposal.status = .passed)
      (htimelock : proposal.executableAfter ≤ ctx.now) :
      GovernanceEffect ctx w (.executeProposal proposalId)
        ((saveProposal (applyProposal w proposal)
          { proposal with status := .executed }).emit
            (.proposalExecuted proposalId))
  | configured (caller : Address) (admins : List Address) (threshold : Nat)
      (hauth : caller ∈ ctx.auth) (hadmin : w.admin = some caller)
      (hpos : 0 < threshold) (hle : threshold ≤ admins.length) :
      GovernanceEffect ctx w (.configureMultisig caller admins threshold)
        (setMultisigConfig w ⟨admins, threshold⟩)
  | opProposed (caller : Address) (op : AdminOp) (config : MultisigConfig)
      (hauth : caller ∈ ctx.auth) (hconfig : w.multisigConfig = some config)
      (hmember : caller ∈ config.admins) :
      GovernanceEffect ctx w (.multisigPropose caller op)
        (savePendingOp { w with pendingOpCount := w.pendingOpCount + 1 }
          (freshOp (w.pendingOpCount + 1) ctx.now caller op))
  | opApproved (caller : Address) (opId : Nat) (config : MultisigConfig)
      (pending : PendingAdminOp) (hauth : caller ∈ ctx.auth)
      (hconfig : w.multisigConfig = some config)
      (hmember : caller ∈ config.admins)
      (hfound : w.pendingOps opId = some pending)
      (hopen : pending.executed = false) (hbefore : ctx.now < pending.expiresAt)
      (hfirst : caller ∉ pending.approvals) :
      GovernanceEffect ctx w (.multisigApprove caller opId)
        (savePendingOp (carriedOut config pending w)
          (approvedBy config caller pending))

theorem requireMultisigAdmin_eq_ok_iff {ctx : Context} {caller : Address}
    {w : World} {config : MultisigConfig} :
    requireMultisigAdmin ctx caller w = .ok config ↔
      caller ∈ ctx.auth ∧ w.multisigConfig = some config ∧
        caller ∈ config.admins := by
  simp only [requireMultisigAdmin, bind_eq_ok_iff, requireAuth_eq_ok_iff,
    expect_eq_ok_iff, ensure_eq_ok_iff, decide_eq_true_eq, pure_eq_ok_iff]
  constructor
  · rintro ⟨_, hauth, _, hconfig, _, hmember, rfl⟩
    exact ⟨hauth, hconfig, hmember⟩
  · rintro ⟨hauth, hconfig, hmember⟩
    exact ⟨(), hauth, config, hconfig, (), hmember, rfl⟩

theorem vote_effect {ctx : Context} {voter : Address} {proposalId : Nat}
    {support : Bool} {w w' : World}
    (h : vote ctx voter proposalId support w = .ok w') :
    GovernanceEffect ctx w (.vote voter proposalId support) w' := by
  simp only [vote, loadProposal, bind_eq_ok_iff, requireAuth_eq_ok_iff,
    expect_eq_ok_iff, ensure_eq_ok_iff, decide_eq_true_eq,
    Bool.not_eq_true'] at h
  obtain ⟨_, hauth, proposal, hfound, _, hactive, _, hfirst, h⟩ := h
  have heffect := GovernanceEffect.voted voter proposalId support proposal hauth
    hfound hactive hfirst
  cases support with
  | false =>
      simp only [Bool.false_eq_true, if_false, bind_eq_ok_iff, expect_eq_ok_iff,
        checkedAddU64_eq_some_iff, pure_eq_ok_iff] at h
      obtain ⟨_, ⟨_, rfl⟩, rfl⟩ := h
      exact heffect
  | true =>
      simp only [if_true, bind_eq_ok_iff, expect_eq_ok_iff,
        checkedAddU64_eq_some_iff, pure_eq_ok_iff] at h
      obtain ⟨_, ⟨_, rfl⟩, rfl⟩ := h
      exact heffect

theorem tallyProposal_eq (w : World) (proposal : Proposal) :
    tallyProposal w proposal = saveProposal w (tallied proposal) := by
  unfold tallyProposal tallied
  split <;> rfl

theorem multisigApprove_effect {ctx : Context} {caller : Address} {opId : Nat}
    {w w' : World} (h : multisigApprove ctx caller opId w = .ok w') :
    GovernanceEffect ctx w (.multisigApprove caller opId) w' := by
  simp only [multisigApprove, loadPendingOp, bind_eq_ok_iff,
    requireMultisigAdmin_eq_ok_iff, expect_eq_ok_iff, ensure_eq_ok_iff,
    decide_eq_true_eq, Bool.not_eq_true', List.length_append,
    List.length_singleton] at h
  obtain ⟨config, ⟨hauth, hconfig, hmember⟩, pending, hfound, _, hopen, _,
    hbefore, _, hfirst, h⟩ := h
  have heffect := GovernanceEffect.opApproved caller opId config pending hauth
    hconfig hmember hfound hopen hbefore hfirst
  unfold carriedOut approvedBy at heffect
  split at h
  · rename_i hreached
    rw [pure_eq_ok_iff] at h
    subst h
    simpa only [hreached, if_true, decide_true] using heffect
  · rename_i hbelow
    rw [pure_eq_ok_iff] at h
    subst h
    -- below the threshold the operation keeps `executed`, which was false
    simpa only [hbelow, if_false, decide_false, hopen] using heffect

theorem execGovernance_effect {ctx : Context} {call : GovernanceCall}
    {w w' : World} {value : Value}
    (h : execGovernance ctx call w = .ok (value, w')) :
    GovernanceEffect ctx w call w' := by
  cases call with
  | proposeParameter proposer param newValue =>
      simp only [execGovernance, map_eq_ok_iff, proposeParameter, nextProposalId,
        bind_eq_ok_iff, requireAuth_eq_ok_iff, expect_eq_ok_iff,
        checkedAddU64_eq_some_iff, pure_eq_ok_iff] at h
      obtain ⟨_, ⟨_, hauth, _, ⟨_, ⟨_, rfl⟩, rfl⟩, _, ⟨_, rfl⟩, rfl⟩, heq⟩ := h
      cases heq
      exact .proposed proposer param newValue hauth
  | vote voter proposalId support =>
      exact vote_effect ((unitResult_eq_ok_iff _ _ _).mp h).1
  | tally proposalId =>
      have hcall := ((unitResult_eq_ok_iff _ _ _).mp h).1
      simp only [tally, loadProposal, bind_eq_ok_iff, expect_eq_ok_iff,
        ensure_eq_ok_iff, decide_eq_true_eq, pure_eq_ok_iff,
        tallyProposal_eq] at hcall
      obtain ⟨proposal, hfound, _, hactive, rfl⟩ := hcall
      exact .tallied proposalId proposal hfound hactive
  | executeProposal proposalId =>
      have hcall := ((unitResult_eq_ok_iff _ _ _).mp h).1
      simp only [executeProposal, loadProposal, bind_eq_ok_iff,
        expect_eq_ok_iff, ensure_eq_ok_iff, decide_eq_true_eq,
        pure_eq_ok_iff] at hcall
      obtain ⟨proposal, hfound, _, hpassed, _, htimelock, rfl⟩ := hcall
      exact .executed proposalId proposal hfound hpassed htimelock
  | configureMultisig caller admins threshold =>
      have hcall := ((unitResult_eq_ok_iff _ _ _).mp h).1
      simp only [configureMultisig, bind_eq_ok_iff, requireAuth_eq_ok_iff,
        requireAdmin_eq_ok_iff, ensure_eq_ok_iff, decide_eq_true_eq,
        pure_eq_ok_iff] at hcall
      obtain ⟨_, hauth, _, hadmin, _, hpos, _, hle, rfl⟩ := hcall
      exact .configured caller admins threshold hauth hadmin hpos hle
  | multisigPropose caller op =>
      simp only [execGovernance, map_eq_ok_iff, multisigPropose, nextPendingOpId,
        bind_eq_ok_iff, requireMultisigAdmin_eq_ok_iff, expect_eq_ok_iff,
        checkedAddU64_eq_some_iff, pure_eq_ok_iff] at h
      obtain ⟨_, ⟨config, ⟨hauth, hconfig, hmember⟩, _, ⟨_, ⟨_, rfl⟩, rfl⟩, _,
        ⟨_, rfl⟩, rfl⟩, heq⟩ := h
      cases heq
      exact .opProposed caller op config hauth hconfig hmember
  | multisigApprove caller opId =>
      exact multisigApprove_effect ((unitResult_eq_ok_iff _ _ _).mp h).1

/-! ## The other calls -/

/-- What the calls of this module keep. -/
structure GovernanceRecords where
  proposals : Nat → Option Proposal
  proposalCount : Nat
  voted : Nat → Address → Bool
  multisigConfig : Option MultisigConfig
  pendingOps : Nat → Option PendingAdminOp
  pendingOpCount : Nat

def governanceRecords (w : World) : GovernanceRecords where
  proposals := w.proposals
  proposalCount := w.proposalCount
  voted := w.voted
  multisigConfig := w.multisigConfig
  pendingOps := w.pendingOps
  pendingOpCount := w.pendingOpCount

theorem governanceRecords_of_settings {w w' : World}
    (h : settings w' = settings w) :
    governanceRecords w' = governanceRecords w := by
  simp only [settings, Settings.mk.injEq] at h
  obtain ⟨_, _, _, _, _, hproposals, hproposalCount, hvoted, hconfig, hops,
    hopCount, _⟩ := h
  simp only [governanceRecords, hproposals, hproposalCount, hvoted, hconfig, hops,
    hopCount]

theorem governanceRecords_adminNext (w : World) (call : AdminCall) :
    governanceRecords (adminNext w call) = governanceRecords w := by
  cases call with
  | addAllowedToken admin token =>
      simp only [adminNext, Storage.addAllowedToken]
      split <;> rfl
  | _ => rfl

/-- A call that returned is one of this module, or it left these records
alone. -/
theorem governance_cases {host : Host} {w w' : World} {inv : Invocation}
    {value : Value} (h : Succeeds host w inv value w') :
    (∃ call, inv.call = .governance call ∧
        GovernanceEffect inv.toContext w call w') ∨
      ((∀ call, inv.call ≠ .governance call) ∧
        governanceRecords w' = governanceRecords w) := by
  obtain ⟨ctx, call, now_le, inRange⟩ := inv
  have heffect := effect_of_succeeds h
  unfold Succeeds at h
  change exec host ctx call w = .ok (value, w') at h
  change CallEffect host ctx w w' call at heffect
  cases heffect with
  | governance call _ =>
      exact Or.inl ⟨call, rfl, execGovernance_effect h⟩
  | admin call _ hnext =>
      subst hnext
      exact Or.inr ⟨by simp, governanceRecords_adminNext w call⟩
  | create call hcreated =>
      exact Or.inr ⟨by simp, governanceRecords_of_settings hcreated.sameSettings⟩
  | onStream streamId call heffect =>
      refine Or.inr ⟨by simp, governanceRecords_of_settings ?_⟩
      rcases heffect with ⟨_, _, hsettings⟩ | ⟨_, _, _, _, _, hupdate⟩
      · exact hsettings
      · exact hupdate.sameSettings
  | feePayout admin token amount _ _ hpayout =>
      exact Or.inr ⟨by simp, governanceRecords_of_settings hpayout.sameSettings⟩
  | query query hsame =>
      subst hsame
      exact Or.inr ⟨by simp, rfl⟩
  | directTransfer token source target amount hdirect =>
      exact Or.inr ⟨by simp, governanceRecords_of_settings hdirect.sameSettings⟩

/-! ## Records are stored under their own id -/

/-- Proposals and pending operations are numbered from one up to their
counts. -/
structure GovernanceKeyed (w : World) : Prop where
  proposals : Numbered Proposal.id w.proposals w.proposalCount
  pendingOps : Numbered PendingAdminOp.id w.pendingOps w.pendingOpCount

theorem GovernanceKeyed.of_records {w w' : World} (h : GovernanceKeyed w)
    (hrecords : governanceRecords w' = governanceRecords w) :
    GovernanceKeyed w' := by
  simp only [governanceRecords, GovernanceRecords.mk.injEq] at hrecords
  obtain ⟨hproposals, hproposalCount, _, _, hops, hopCount⟩ := hrecords
  refine ⟨?_, ?_⟩
  · rw [hproposals, hproposalCount]
    exact h.proposals
  · rw [hops, hopCount]
    exact h.pendingOps

@[simp] theorem countVote_id (support : Bool) (proposal : Proposal) :
    (countVote support proposal).id = proposal.id := by
  cases support <;> rfl

/-- Carrying out an operation writes the configuration only. -/
theorem governanceRecords_carriedOut (config : MultisigConfig)
    (pending : PendingAdminOp) (w : World) :
    governanceRecords (carriedOut config pending w) = governanceRecords w := by
  unfold carriedOut executeAdminOp
  split
  · cases pending.op <;> rfl
  · rfl

theorem governanceRecords_applyProposal (w : World) (proposal : Proposal) :
    governanceRecords (applyProposal w proposal) = governanceRecords w := by
  unfold applyProposal
  cases proposal.param <;> rfl

/-- Storing a proposal over the one found. -/
theorem GovernanceKeyed.resaved {w w' : World} (h : GovernanceKeyed w)
    (hrecords : governanceRecords w' = governanceRecords w) {id : Nat}
    {old new : Proposal} (hold : w.proposals id = some old)
    (hnew : new.id = old.id) : GovernanceKeyed (saveProposal w' new) := by
  obtain ⟨hproposals, hops⟩ := h.of_records hrecords
  obtain rfl : old.id = id := (h.proposals id old hold).1
  have hold' : w'.proposals old.id = some old :=
    (congrFun (congrArg GovernanceRecords.proposals hrecords) old.id).trans hold
  refine ⟨?_, hops⟩
  show Numbered Proposal.id (Function.update w'.proposals new.id (some new)) _
  rw [hnew]
  exact hproposals.overwrite hold' hnew

theorem GovernanceEffect.keyed {ctx : Context} {call : GovernanceCall}
    {w w' : World} (heffect : GovernanceEffect ctx w call w')
    (h : GovernanceKeyed w) : GovernanceKeyed w' := by
  cases heffect with
  | proposed proposer param newValue _ =>
      exact ⟨h.proposals.push rfl, h.pendingOps⟩
  | voted voter proposalId support proposal _ hfound _ _ =>
      have hmarked : GovernanceKeyed (markVoted w proposalId voter) :=
        ⟨h.proposals, h.pendingOps⟩
      exact hmarked.resaved rfl hfound (countVote_id support proposal)
  | tallied proposalId proposal hfound _ => exact h.resaved rfl hfound rfl
  | executed proposalId proposal hfound _ _ =>
      have hsaved : GovernanceKeyed (saveProposal
          (applyProposal w proposal) { proposal with status := .executed }) :=
        h.resaved (governanceRecords_applyProposal w proposal) hfound rfl
      exact ⟨hsaved.proposals, hsaved.pendingOps⟩
  | configured caller admins threshold _ _ _ _ =>
      exact ⟨h.proposals, h.pendingOps⟩
  | opProposed caller op config _ _ _ =>
      exact ⟨h.proposals, h.pendingOps.push rfl⟩
  | opApproved caller opId config pending _ _ _ hfound _ _ _ =>
      have hcarried := h.of_records (governanceRecords_carriedOut config pending w)
      obtain rfl : pending.id = opId := (h.pendingOps opId pending hfound).1
      have hstored : (carriedOut config pending w).pendingOps pending.id =
          some pending := by
        rw [← hfound]
        exact congrFun (congrArg GovernanceRecords.pendingOps
          (governanceRecords_carriedOut config pending w)) pending.id
      exact ⟨hcarried.proposals, hcarried.pendingOps.overwrite hstored rfl⟩

theorem governanceKeyed_of_reaches {host : Host} {history : History} {w : World}
    (hrun : Reaches host history w) : GovernanceKeyed w := by
  refine Reaches.invariant (P := fun _ w => GovernanceKeyed w) ?_ ?_ ?_ hrun
  · intro balances _
    exact ⟨.empty Proposal.id, .empty PendingAdminOp.id⟩
  · intro history w inv value w' _ _ hkeyed hsucceeds
    rcases governance_cases hsucceeds with ⟨call, _, heffect⟩ | ⟨_, hrecords⟩
    · exact heffect.keyed hkeyed
    · exact hkeyed.of_records hrecords
  · intro history w inv _ _ hkeyed _
    exact hkeyed

/-! ## One proposal -/

/-- The proposal a call votes on, tallies or executes. -/
def Call.proposal? : Call → Option Nat
  | .governance (.vote _ proposalId _) => some proposalId
  | .governance (.tally proposalId) => some proposalId
  | .governance (.executeProposal proposalId) => some proposalId
  | _ => none

/-- What a call that returned did to the proposal stored under `id` and to the
marks of its voters. -/
inductive ProposalChange (ctx : Context) (w w' : World) (id : Nat)
    (call : Call) : Prop
  | same (hother : Call.proposal? call ≠ some id)
      (hproposal : w'.proposals id = w.proposals id)
      (hvoted : w'.voted id = w.voted id)
  | created (proposer : Address) (param : GovParam) (newValue : Nat)
      (hcall : call = .governance (.proposeParameter proposer param newValue))
      (hnone : w.proposals id = none)
      (hproposal : w'.proposals id =
        some (freshProposal id ctx.now param newValue))
      (hvoted : w'.voted id = w.voted id)
  | voted (voter : Address) (support : Bool) (proposal : Proposal)
      (hcall : call = .governance (.vote voter id support))
      (hauth : voter ∈ ctx.auth) (hfound : w.proposals id = some proposal)
      (hactive : proposal.status = .active)
      (hfirst : w.voted id voter = false)
      (hproposal : w'.proposals id = some (countVote support proposal))
      (hvoted : w'.voted id = Function.update (w.voted id) voter true)
  | tallied (proposal : Proposal) (hcall : call = .governance (.tally id))
      (hfound : w.proposals id = some proposal)
      (hactive : proposal.status = .active)
      (hproposal : w'.proposals id = some (tallied proposal))
      (hvoted : w'.voted id = w.voted id)
  | executed (proposal : Proposal)
      (hcall : call = .governance (.executeProposal id))
      (hfound : w.proposals id = some proposal)
      (hpassed : proposal.status = .passed)
      (htimelock : proposal.executableAfter ≤ ctx.now)
      (hproposal : w'.proposals id =
        some { proposal with status := .executed })
      (hvoted : w'.voted id = w.voted id)

theorem ProposalChange.of_records {ctx : Context} {w w' : World} {id : Nat}
    {call : Call} (hother : Call.proposal? call ≠ some id)
    (hrecords : governanceRecords w' = governanceRecords w) :
    ProposalChange ctx w w' id call := by
  refine .same hother ?_ ?_
  · exact congrFun (congrArg GovernanceRecords.proposals hrecords) id
  · exact congrFun (congrArg GovernanceRecords.voted hrecords) id

theorem GovernanceEffect.proposalChange {ctx : Context} {call : GovernanceCall}
    {w w' : World} (heffect : GovernanceEffect ctx w call w')
    (hkeyed : GovernanceKeyed w) (id : Nat) :
    ProposalChange ctx w w' id (.governance call) := by
  cases heffect with
  | proposed proposer param newValue _ =>
      by_cases hid : id = w.proposalCount + 1
      · subst hid
        exact .created proposer param newValue rfl hkeyed.proposals.next_free
          (Function.update_self ..) rfl
      · exact .same (by simp [Call.proposal?]) (Function.update_of_ne hid ..) rfl
  | voted voter proposalId support proposal hauth hfound hactive hfirst =>
      obtain rfl : proposal.id = proposalId :=
        (hkeyed.proposals proposalId proposal hfound).1
      by_cases hid : id = proposal.id
      · subst hid
        refine .voted voter support proposal rfl hauth hfound hactive hfirst ?_ ?_
        · show Function.update w.proposals (countVote support proposal).id _ _ = _
          rw [countVote_id, Function.update_self]
        · exact Function.update_self ..
      · refine .same ?_ ?_ ?_
        · simpa [Call.proposal?] using Ne.symm hid
        · show Function.update w.proposals (countVote support proposal).id _ _ = _
          rw [countVote_id, Function.update_of_ne hid]
        · exact Function.update_of_ne hid ..
  | tallied proposalId proposal hfound hactive =>
      obtain rfl : proposal.id = proposalId :=
        (hkeyed.proposals proposalId proposal hfound).1
      by_cases hid : id = proposal.id
      · subst hid
        exact .tallied proposal rfl hfound hactive (Function.update_self ..) rfl
      · refine .same ?_ (Function.update_of_ne hid ..) rfl
        simpa [Call.proposal?] using Ne.symm hid
  | executed proposalId proposal hfound hpassed htimelock =>
      have hrecords := governanceRecords_applyProposal w proposal
      have hvoted : (applyProposal w proposal).voted = w.voted :=
        congrArg GovernanceRecords.voted hrecords
      obtain rfl : proposal.id = proposalId :=
        (hkeyed.proposals proposalId proposal hfound).1
      by_cases hid : id = proposal.id
      · subst hid
        exact .executed proposal rfl hfound hpassed htimelock
          (Function.update_self ..) (congrFun hvoted _)
      · refine .same ?_ ?_ (congrFun hvoted _)
        · simpa [Call.proposal?] using Ne.symm hid
        · show Function.update (applyProposal w proposal).proposals proposal.id _ _ = _
          rw [Function.update_of_ne hid]
          exact congrFun (congrArg GovernanceRecords.proposals hrecords) id
  | configured caller admins threshold _ _ _ _ =>
      exact .same (by simp [Call.proposal?]) rfl rfl
  | opProposed caller op config _ _ _ =>
      exact .same (by simp [Call.proposal?]) rfl rfl
  | opApproved caller opId config pending _ _ _ _ _ _ _ =>
      have hrecords := governanceRecords_carriedOut config pending w
      refine .same (by simp [Call.proposal?]) ?_ ?_
      · exact congrFun (congrArg GovernanceRecords.proposals hrecords) id
      · exact congrFun (congrArg GovernanceRecords.voted hrecords) id

/-- A call that returned, seen from one proposal. -/
theorem proposalChange_of_succeeds {host : Host} {history : History}
    {w w' : World} {inv : Invocation} {value : Value}
    (hrun : Reaches host history w) (h : Succeeds host w inv value w')
    (id : Nat) : ProposalChange inv.toContext w w' id inv.call := by
  rcases governance_cases h with ⟨call, hcall, heffect⟩ | ⟨hother, hrecords⟩
  · rw [hcall]
    exact heffect.proposalChange (governanceKeyed_of_reaches hrun) id
  · refine .of_records ?_ hrecords
    intro hcall
    revert hother hcall
    cases inv.call with
    | governance call =>
        intro hother
        exact absurd rfl (hother call)
    | _ =>
        intro _ hcall
        cases hcall

/-! ## One pending operation -/

/-- What a call that returned did to the pending operation stored under `id`. -/
inductive PendingOpChange (ctx : Context) (w w' : World) (id : Nat)
    (call : Call) : Prop
  | same (hother : ∀ caller, call ≠ .governance (.multisigApprove caller id))
      (hnext : ∀ caller op, call = .governance (.multisigPropose caller op) →
        id ≠ w.pendingOpCount + 1)
      (hop : w'.pendingOps id = w.pendingOps id)
  | proposed (caller : Address) (op : AdminOp) (config : MultisigConfig)
      (hcall : call = .governance (.multisigPropose caller op))
      (hauth : caller ∈ ctx.auth) (hconfig : w.multisigConfig = some config)
      (hmember : caller ∈ config.admins)
      (hid : id = w.pendingOpCount + 1) (hnone : w.pendingOps id = none)
      (hop : w'.pendingOps id = some (freshOp id ctx.now caller op))
  | approved (caller : Address) (config : MultisigConfig)
      (pending : PendingAdminOp)
      (hcall : call = .governance (.multisigApprove caller id))
      (hauth : caller ∈ ctx.auth) (hconfig : w.multisigConfig = some config)
      (hmember : caller ∈ config.admins)
      (hfound : w.pendingOps id = some pending)
      (hopen : pending.executed = false) (hbefore : ctx.now < pending.expiresAt)
      (hfirst : caller ∉ pending.approvals)
      (hop : w'.pendingOps id = some (approvedBy config caller pending))

/-- Everything but a multi-signature call leaves the operations alone. -/
theorem GovernanceEffect.pendingOpChange {ctx : Context} {call : GovernanceCall}
    {w w' : World} (heffect : GovernanceEffect ctx w call w')
    (hkeyed : GovernanceKeyed w) (id : Nat) :
    PendingOpChange ctx w w' id (.governance call) := by
  cases heffect with
  | proposed proposer param newValue _ => exact .same (by simp) (by simp) rfl
  | voted voter proposalId support proposal _ _ _ _ => exact .same (by simp) (by simp) rfl
  | tallied proposalId proposal _ _ => exact .same (by simp) (by simp) rfl
  | executed proposalId proposal _ _ _ =>
      refine .same (by simp) (by simp) ?_
      exact congrFun (congrArg GovernanceRecords.pendingOps
        (governanceRecords_applyProposal w proposal)) id
  | configured caller admins threshold _ _ _ _ => exact .same (by simp) (by simp) rfl
  | opProposed caller op config hauth hconfig hmember =>
      by_cases hid : id = w.pendingOpCount + 1
      · subst hid
        exact .proposed caller op config rfl hauth hconfig hmember rfl
          hkeyed.pendingOps.next_free (Function.update_self ..)
      · exact .same (by simp) (fun _ _ _ => hid) (Function.update_of_ne hid ..)
  | opApproved caller opId config pending hauth hconfig hmember hfound hopen
      hbefore hfirst =>
      obtain rfl : pending.id = opId := (hkeyed.pendingOps opId pending hfound).1
      by_cases hid : id = pending.id
      · subst hid
        exact .approved caller config pending rfl hauth hconfig hmember hfound
          hopen hbefore hfirst (Function.update_self ..)
      · refine .same ?_ (by simp) ?_
        · intro other hcall
          cases hcall
          exact hid rfl
        · show Function.update (carriedOut config pending w).pendingOps
            pending.id _ _ = _
          rw [Function.update_of_ne hid]
          exact congrFun (congrArg GovernanceRecords.pendingOps
            (governanceRecords_carriedOut config pending w)) id

/-- A call that returned, seen from one pending operation. -/
theorem pendingOpChange_of_succeeds {host : Host} {history : History}
    {w w' : World} {inv : Invocation} {value : Value}
    (hrun : Reaches host history w) (h : Succeeds host w inv value w')
    (id : Nat) : PendingOpChange inv.toContext w w' id inv.call := by
  rcases governance_cases h with ⟨call, hcall, heffect⟩ | ⟨hother, hrecords⟩
  · rw [hcall]
    exact heffect.pendingOpChange (governanceKeyed_of_reaches hrun) id
  · refine .same ?_ ?_ ?_
    · intro caller
      exact hother _
    · intro caller op hcall
      exact absurd hcall (hother _)
    · exact congrFun (congrArg GovernanceRecords.pendingOps hrecords) id

/-! ## The multi-signature configuration -/

/-- Only `configure_multisig`, called by the administrator, writes the
configuration. -/
theorem multisigConfig_of_succeeds {host : Host} {w w' : World}
    {inv : Invocation} {value : Value} (h : Succeeds host w inv value w') :
    w'.multisigConfig = w.multisigConfig ∨
      ∃ caller admins threshold,
        inv.call = .governance (.configureMultisig caller admins threshold) ∧
          0 < threshold ∧ w'.multisigConfig = some ⟨admins, threshold⟩ := by
  rcases governance_cases h with ⟨call, hcall, heffect⟩ | ⟨_, hrecords⟩
  · rw [hcall]
    cases heffect with
    | executed proposalId proposal _ _ _ =>
        exact Or.inl (congrArg GovernanceRecords.multisigConfig
          (governanceRecords_applyProposal w proposal))
    | configured caller admins threshold _ _ hpos _ =>
        exact Or.inr ⟨caller, admins, threshold, rfl, hpos, rfl⟩
    | opApproved caller opId config pending _ _ _ _ _ _ _ =>
        exact Or.inl (congrArg GovernanceRecords.multisigConfig
          (governanceRecords_carriedOut config pending w))
    | _ => exact Or.inl rfl
  · exact Or.inl (congrArg GovernanceRecords.multisigConfig hrecords)

/-- Every other call leaves it. -/
theorem multisigConfig_of_other {host : Host} {w w' : World} {inv : Invocation}
    {value : Value} (h : Succeeds host w inv value w')
    (hother : ∀ caller admins threshold,
      inv.call ≠ .governance (.configureMultisig caller admins threshold)) :
    w'.multisigConfig = w.multisigConfig := by
  rcases multisigConfig_of_succeeds h with hsame | ⟨caller, admins, threshold, hcall, _⟩
  · exact hsame
  · exact absurd hcall (hother caller admins threshold)

end Semantics
end Paystream
