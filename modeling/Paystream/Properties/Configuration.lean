import Paystream.Semantics.Configuration

/-!
# The nonce and the packed configuration over whole runs

The nonce-guarded calls that returned carried the nonces `0, 1, 2, ..`, whoever
was administrator, and every field of the configuration holds what the last
call that is there to set it wrote: no setter loses the write of another
(`nonces_in_order_and_fields_kept`).

The fee rate has two writers.  `set_protocol_fee` checks its limit, the
execution of a proposal does not, so the limit holds in a run exactly when no
proposal above it was executed (`fee_within_limit_iff`).
-/

namespace Paystream
namespace Properties

open Library
open Contract
open Contract.StreamContract
open Semantics

/-! ## What each call is there to set -/

/-- The nonce of a nonce-guarded call. -/
def Call.nonce? : Call → Option Nat
  | .admin (.pauseContract _ nonce) => some nonce
  | .admin (.unpauseContract _ nonce) => some nonce
  | .admin (.setMinDeposit _ nonce _) => some nonce
  | .admin (.setProtocolFee _ nonce _ _) => some nonce
  | .admin (.setMaxStreamsPerEmployer _ nonce _) => some nonce
  | .admin (.upgrade _ _ nonce) => some nonce
  | _ => none

/-- The value of the proposal to be executed, if it is about `param`. -/
def proposedValue (w : World) (proposalId : Nat) (param : GovParam) :
    Option Nat :=
  match w.proposals proposalId with
  | some proposal =>
      if proposal.param = param then some proposal.newValue else none
  | none => none

def minDepositWritten (w : World) : Call → Option Int
  | .admin (.setMinDeposit _ _ amount) => some amount
  | .governance (.executeProposal proposalId) =>
      (proposedValue w proposalId .minDeposit).map fun value => (value : Int)
  | _ => none

def feeBpsWritten (w : World) : Call → Option Nat
  | .admin (.setProtocolFee _ _ feeBps _) => some feeBps
  | .governance (.executeProposal proposalId) =>
      (proposedValue w proposalId .feeBps).map castU32
  | _ => none

/-- A proposal on `MaxDuration` is there to set the stream limit: the API
reference says so of this parameter. -/
def maxStreamsWritten (w : World) : Call → Option Nat
  | .admin (.setMaxStreamsPerEmployer _ _ limit) => some limit
  | .governance (.executeProposal proposalId) =>
      (proposedValue w proposalId .maxDuration).map castU32
  | _ => none

def adminNonceWritten (_ : World) (call : Call) : Option Nat :=
  (Call.nonce? call).map (· + 1)

def pausedWritten (w : World) : Call → Option Bool
  | .admin (.pauseContract _ _) => some true
  | .admin (.unpauseContract _ _) => some false
  | .admin (.emergencyPause _) => some true
  | .governance (.multisigApprove _ opId) =>
      if completesPause w opId then some true else none
  | _ => none

/-! ## One call -/

theorem nonce_of_succeeds {host : Host} {w w' : World} {inv : Invocation}
    {value : Value} (h : Succeeds host w inv value w') {nonce : Nat}
    (hnonce : Call.nonce? inv.call = some nonce) :
    nonce = w.config.adminNonce := by
  cases hcall : inv.call with
  | admin call =>
      have heffect := effect_of_succeeds h
      rw [hcall] at heffect hnonce
      cases heffect with
      | admin _ hguard _ =>
          cases call with
          | pauseContract admin nonce =>
              cases hnonce
              exact hguard.2.1
          | unpauseContract admin nonce =>
              cases hnonce
              exact hguard.2.1
          | setMinDeposit admin nonce amount =>
              cases hnonce
              exact hguard.2.1.1
          | setProtocolFee admin nonce feeBps feeRecipient =>
              cases hnonce
              exact hguard.2.1.1
          | setMaxStreamsPerEmployer admin nonce limit =>
              cases hnonce
              exact hguard.2.1
          | upgrade admin newWasmHash nonce =>
              cases hnonce
              exact hguard.2.1
          | _ => cases hnonce
  | _ =>
      rw [hcall] at hnonce
      cases hnonce

/-- A nonce-guarded call adds one to the nonce and no other call touches it. -/
theorem configNext_adminNonce (w : World) (call : Call) :
    (configNext w call).adminNonce =
      w.config.adminNonce + (Call.nonce? call).toList.length := by
  cases call with
  | admin call => cases call <;> rfl
  | governance call =>
      cases call with
      | executeProposal proposalId =>
          simp only [configNext, Call.nonce?]
          cases w.proposals proposalId with
          | none => rfl
          | some proposal =>
              simp only [ContractConfig.applied]
              cases proposal.param <;> rfl
      | multisigApprove caller opId =>
          simp only [configNext, Call.nonce?]
          split <;> rfl
      | _ => rfl
  | _ => rfl

/-- The other four fields: a call writes the field it is there to set and keeps
the rest. -/
theorem configNext_fields (w : World) (call : Call) :
    (configNext w call).minDeposit =
        (minDepositWritten w call).getD w.config.minDeposit ∧
      (configNext w call).feeBps =
        (feeBpsWritten w call).getD w.config.feeBps ∧
      (configNext w call).maxStreams =
        (maxStreamsWritten w call).getD w.config.maxStreams ∧
      (configNext w call).paused =
        (pausedWritten w call).getD w.config.paused := by
  cases call with
  | admin call => cases call <;> exact ⟨rfl, rfl, rfl, rfl⟩
  | governance call =>
      cases call with
      | executeProposal proposalId =>
          simp only [configNext, minDepositWritten, feeBpsWritten,
            maxStreamsWritten, pausedWritten, proposedValue]
          cases w.proposals proposalId with
          | none => exact ⟨rfl, rfl, rfl, rfl⟩
          | some proposal =>
              simp only [ContractConfig.applied]
              cases proposal.param <;> exact ⟨rfl, rfl, rfl, rfl⟩
      | multisigApprove caller opId =>
          simp only [configNext, pausedWritten]
          split <;> exact ⟨rfl, rfl, rfl, rfl⟩
      | _ => exact ⟨rfl, rfl, rfl, rfl⟩
  | _ => exact ⟨rfl, rfl, rfl, rfl⟩

/-! ## Every run -/

/-- The nonces of the nonce-guarded calls that returned, in order. -/
def acceptedNonces (host : Host) : History → List Nat
  | [] => []
  | entry :: earlier =>
      acceptedNonces host earlier ++
        if returned host entry then (Call.nonce? entry.input.call).toList else []

/-- The value last written by a call that returned, `default` before the first
write. -/
def lastWritten {Field : Type} (host : Host)
    (written : World → Call → Option Field) (default : Field) : History → Field
  | [] => default
  | entry :: earlier =>
      if returned host entry then
        (written entry.before entry.input.call).getD
          (lastWritten host written default earlier)
      else
        lastWritten host written default earlier

/-- The configuration put together from the last writes to its fields. -/
def lastWrittenConfig (host : Host) (history : History) : ContractConfig where
  minDeposit := lastWritten host minDepositWritten
    ContractConfig.default.minDeposit history
  feeBps := lastWritten host feeBpsWritten ContractConfig.default.feeBps history
  maxStreams := lastWritten host maxStreamsWritten
    ContractConfig.default.maxStreams history
  adminNonce := lastWritten host adminNonceWritten
    ContractConfig.default.adminNonce history
  paused := lastWritten host pausedWritten ContractConfig.default.paused history

theorem lastWritten_of_returned {Field : Type} {host : Host}
    (written : World → Call → Option Field) (default : Field)
    {history : History} {w w' : World} {inv : Invocation} {value : Value}
    (h : Succeeds host w inv value w') :
    lastWritten host written default (⟨w, inv, w'⟩ :: history) =
      (written w inv.call).getD (lastWritten host written default history) := by
  simp only [lastWritten, h.returned_eq, if_true]

theorem lastWritten_of_reverted {Field : Type} {host : Host}
    (written : World → Call → Option Field) (default : Field)
    {history : History} {w : World} {inv : Invocation}
    (h : Fails host w inv) :
    lastWritten host written default (⟨w, inv, w⟩ :: history) =
      lastWritten host written default history := by
  simp only [lastWritten, h.returned_eq, Bool.false_eq_true, if_false]

theorem acceptedNonces_of_reaches {host : Host} {history : History} {w : World}
    (hrun : Reaches host history w) :
    acceptedNonces host history = List.range w.config.adminNonce := by
  refine Reaches.invariant (P := fun history w =>
    acceptedNonces host history = List.range w.config.adminNonce) ?_ ?_ ?_ hrun
  · intro balances _
    rfl
  · intro history w inv value w' _ _ ih hsucceeds
    have hnext := configNext_adminNonce w inv.call
    rw [← config_of_succeeds hsucceeds] at hnext
    rw [acceptedNonces, hsucceeds.returned_eq, ih, hnext]
    simp only [if_true]
    cases hnonce : Call.nonce? inv.call with
    | none => simp
    | some nonce =>
        obtain rfl := nonce_of_succeeds hsucceeds hnonce
        simp [List.range_succ]
  · intro history w inv _ _ ih hfails
    rw [acceptedNonces, hfails.returned_eq]
    simpa using ih

theorem config_eq_lastWritten {host : Host} {history : History} {w : World}
    (hrun : Reaches host history w) :
    w.config = lastWrittenConfig host history := by
  refine Reaches.invariant (P := fun history w =>
    w.config = lastWrittenConfig host history) ?_ ?_ ?_ hrun
  · intro balances _
    rfl
  · intro history w inv value w' _ _ ih hsucceeds
    obtain ⟨hminDeposit, hfeeBps, hmaxStreams, hpaused⟩ :=
      configNext_fields w inv.call
    -- a guarded call writes its own nonce plus one, which the guard compared
    have hadminNonce : (configNext w inv.call).adminNonce =
        (adminNonceWritten w inv.call).getD w.config.adminNonce := by
      rw [configNext_adminNonce, adminNonceWritten]
      cases hnonce : Call.nonce? inv.call with
      | none => rfl
      | some nonce =>
          obtain rfl := nonce_of_succeeds hsucceeds hnonce
          rfl
    rw [ih] at hminDeposit hfeeBps hmaxStreams hpaused hadminNonce
    rw [config_of_succeeds hsucceeds]
    simp only [lastWrittenConfig, lastWritten_of_returned _ _ hsucceeds]
    exact ContractConfig.ext hminDeposit hfeeBps hmaxStreams hadminNonce hpaused
  · intro history w inv _ _ ih hfails
    simp only [lastWrittenConfig, lastWritten_of_reverted _ _ hfails]
    exact ih

/-- In every run the accepted nonces are `0, 1, 2, ..` in order, each accepted
once, and every field of the configuration holds the value last written to it by
a call that is there to set it. -/
theorem nonces_in_order_and_fields_kept {host : Host} {history : History}
    {w : World} (hrun : Reaches host history w) :
    acceptedNonces host history = List.range w.config.adminNonce ∧
      (acceptedNonces host history).Nodup ∧
      w.config = lastWrittenConfig host history := by
  have hnonces := acceptedNonces_of_reaches hrun
  refine ⟨hnonces, ?_, config_eq_lastWritten hrun⟩
  rw [hnonces]
  exact List.nodup_range

/-- Three setters, one of them repeated with a stale nonce, across a handover of
the administrator. -/
theorem nonces_in_order_of_handover :
    ∃ history w, Reaches Sample.host history w ∧
      w.config = ⟨500, 50, 100, 3, true⟩ ∧ history.length = 7 ∧
      acceptedNonces Sample.host history = [0, 1, 2] ∧
      w.config = lastWrittenConfig Sample.host history := by
  have hrun := Sample.play_reaches [
    Sample.invoke 1 Sample.admin (.admin (.initializeContract Sample.admin)),
    Sample.invoke 2 Sample.admin
      (.admin (.setProtocolFee Sample.admin 0 50 Sample.treasury)),
    Sample.invoke 3 Sample.admin (.admin (.setMinDeposit Sample.admin 1 500)),
    Sample.invoke 4 Sample.admin (.admin (.setMinDeposit Sample.admin 1 700)),
    Sample.invoke 5 Sample.admin
      (.admin (.proposeAdmin Sample.admin Sample.treasury)),
    Sample.invoke 6 Sample.treasury (.admin (.acceptAdmin Sample.treasury)),
    Sample.invoke 7 Sample.treasury
      (.admin (.pauseContract Sample.treasury 2))] (by decide)
  have hconfig := nonces_in_order_and_fields_kept hrun
  exact ⟨_, _, hrun, by decide, by decide, hconfig.1, hconfig.2.2⟩

/-! ## The limit of the fee rate -/

/-- The call does not execute a fee proposal above the limit of
`set_protocol_fee`. -/
def ExecutesNoHighFee (w : World) (call : Call) : Prop :=
  ∀ proposalId proposal, call = .governance (.executeProposal proposalId) →
    w.proposals proposalId = some proposal → proposal.param = .feeBps →
      castU32 proposal.newValue ≤ 100

/-- From a state within the limit, a call that returned stays there unless it
executed a fee proposal above it. -/
theorem fee_step_iff {host : Host} {w w' : World} {inv : Invocation}
    {value : Value} (h : Succeeds host w inv value w')
    (hw : w.config.feeBps ≤ 100) :
    w'.config.feeBps ≤ 100 ↔ ExecutesNoHighFee w inv.call := by
  rw [config_of_succeeds h, (configNext_fields w inv.call).2.1]
  have heffect := effect_of_succeeds h
  generalize inv.call = call at heffect ⊢
  -- `set_protocol_fee` checked its argument, the other calls keep the rate
  have hplain : (∀ proposalId, call ≠ .governance (.executeProposal proposalId)) →
      (feeBpsWritten w call).getD w.config.feeBps ≤ 100 →
        ((feeBpsWritten w call).getD w.config.feeBps ≤ 100 ↔
          ExecutesNoHighFee w call) := by
    intro hother hle
    refine iff_of_true hle ?_
    intro proposalId proposal hcall
    exact absurd hcall (hother proposalId)
  cases heffect with
  | admin call hguard _ =>
      apply hplain (by simp)
      cases call with
      | setProtocolFee admin nonce feeBps feeRecipient => exact hguard.2.2
      | _ => exact hw
  | governance call _ =>
      cases call with
      | executeProposal proposalId =>
          simp only [feeBpsWritten, proposedValue]
          cases hproposal : w.proposals proposalId with
          | none =>
              refine iff_of_true hw ?_
              rintro id proposal hcall hfound
              cases hcall
              rw [hproposal] at hfound
              cases hfound
          | some proposal =>
              simp only
              by_cases hparam : proposal.param = .feeBps
              · rw [if_pos hparam]
                constructor
                · rintro hle id found hcall hfound _
                  cases hcall
                  rw [hproposal] at hfound
                  cases hfound
                  exact hle
                · intro hkeeps
                  exact hkeeps proposalId proposal rfl hproposal hparam
              · rw [if_neg hparam]
                refine iff_of_true hw ?_
                rintro id found hcall hfound hfee
                cases hcall
                rw [hproposal] at hfound
                cases hfound
                exact absurd hfee hparam
      | _ => exact hplain (by simp) hw
  | _ => exact hplain (by simp) hw

/-- In every run, all states have a fee rate of at most 1% exactly when no fee
proposal above it was executed. -/
theorem fee_within_limit_iff {host : Host} {history : History} {w : World}
    (hrun : Reaches host history w) :
    System.Throughout (fun w => w.config.feeBps ≤ 100) history w ↔
      ∀ entry ∈ history, ExecutesNoHighFee entry.before entry.input.call ∨
        Fails host entry.before entry.input := by
  refine Reaches.throughout_iff (P := fun w => w.config.feeBps ≤ 100)
    (fun w inv => ExecutesNoHighFee w inv.call) ?_ ?_ hrun
  · intro balances
    exact Nat.zero_le 100
  · intro history w inv value w' _ _ hw hsucceeds
    exact fee_step_iff hsucceeds hw

/-- The administrator sets 1%, and a proposal of half a percent is executed. -/
theorem fee_within_limit_of_small_proposal :
    ∃ history w, Reaches Sample.host history w ∧ w.config.feeBps = 50 ∧
      System.Throughout (fun w => w.config.feeBps ≤ 100) history w ∧
      ∀ entry ∈ history, ExecutesNoHighFee entry.before entry.input.call ∨
        Fails Sample.host entry.before entry.input := by
  have hrun := Sample.play_reaches [
    Sample.invoke 1 Sample.admin (.admin (.initializeContract Sample.admin)),
    Sample.invoke 2 Sample.admin
      (.admin (.setProtocolFee Sample.admin 0 100 Sample.treasury)),
    Sample.invoke 10 Sample.employee
      (.governance (.proposeParameter Sample.employee .feeBps 50)),
    Sample.invoke 11 Sample.employee (.governance (.vote Sample.employee 1 true)),
    Sample.invoke 12 Sample.employee (.governance (.tally 1)),
    Sample.invoke 172810 Sample.employee (.governance (.executeProposal 1))]
    (by decide)
  refine ⟨_, _, hrun, by decide, ?_, (fee_within_limit_iff hrun).mp ?_⟩
  · exact ⟨by decide, by decide⟩
  · exact ⟨by decide, by decide⟩

/-- Anybody proposes half of every withdrawal as the fee, votes for it alone,
and executes it two days later. -/
theorem proposal_exceeds_fee_limit :
    ∃ history w, Reaches Sample.host history w ∧ w.config.feeBps = 5000 ∧
      ¬ System.Throughout (fun w => w.config.feeBps ≤ 100) history w := by
  have hrun := Sample.play_reaches [
    Sample.invoke 10 Sample.employee
      (.governance (.proposeParameter Sample.employee .feeBps 5000)),
    Sample.invoke 11 Sample.employee (.governance (.vote Sample.employee 1 true)),
    Sample.invoke 12 Sample.employee (.governance (.tally 1)),
    Sample.invoke 172810 Sample.employee (.governance (.executeProposal 1))]
    (by decide)
  refine ⟨_, _, hrun, by decide, ?_⟩
  rintro ⟨hlast, _⟩
  revert hlast
  decide

/-! ## What was voted is what is stored -/

/-- The type of the parameter has room for the value: `i128` for the minimum
deposit, `u32` for the other two. -/
def fitsParam (value : Nat) : GovParam → Prop
  | .minDeposit => (value : Int) ≤ i128Max
  | .maxDuration => value ≤ u32Max
  | .feeBps => value ≤ u32Max

instance (value : Nat) (param : GovParam) : Decidable (fitsParam value param) :=
  match param with
  | .minDeposit => inferInstanceAs (Decidable ((value : Int) ≤ i128Max))
  | .maxDuration => inferInstanceAs (Decidable (value ≤ u32Max))
  | .feeBps => inferInstanceAs (Decidable (value ≤ u32Max))

/-- The configuration with the value, as an integer, in the parameter's field. -/
def configWith (config : ContractConfig) (value : Nat) :
    GovParam → ContractConfig
  | .minDeposit => { config with minDeposit := value }
  | .maxDuration => { config with maxStreams := value }
  | .feeBps => { config with feeBps := value }

/-- The execution stores exactly what was voted and no other setting, and where
the value does not fit it fails and leaves the proposal passed. -/
structure ExecutesAsVoted (host : Host) (w : World) (inv : Invocation)
    (proposalId : Nat) (proposal : Proposal) : Prop where
  stores : ∀ value w', Succeeds host w inv value w' →
    w'.config = configWith w.config proposal.newValue proposal.param ∧
      w'.feeRecipient = w.feeRecipient ∧ w'.allowedTokens = w.allowedTokens
  refuses : ¬ fitsParam proposal.newValue proposal.param →
    proposal.status = .passed → Fails host w inv ∧
      (step host w inv).proposals proposalId = some proposal

theorem castU32_eq_self_iff (value : Nat) : castU32 value = value ↔ value ≤ u32Max := by
  unfold castU32 u32Max
  constructor
  · intro h
    have := Nat.mod_lt value (show 0 < 2 ^ 32 by decide)
    omega
  · intro h
    exact Nat.mod_eq_of_lt (by omega)

/-- The casts of `apply_proposal` keep a value exactly when it fits. -/
theorem config_applyProposal_iff (w : World) {proposal : Proposal}
    (hrange : proposal.newValue ≤ u64Max) :
    (Storage.applyProposal w proposal).config =
        configWith w.config proposal.newValue proposal.param ↔
      fitsParam proposal.newValue proposal.param := by
  cases hparam : proposal.param with
  | minDeposit =>
      have hfits : (proposal.newValue : Int) ≤ i128Max := by
        unfold u64Max at hrange
        unfold i128Max
        omega
      simp only [Storage.applyProposal, hparam, fitsParam]
      exact iff_of_true rfl hfits
  | maxDuration =>
      simp only [Storage.applyProposal, hparam, fitsParam,
        ← castU32_eq_self_iff proposal.newValue]
      exact ⟨congrArg ContractConfig.maxStreams, fun h => by
        rw [h]
        rfl⟩
  | feeBps =>
      simp only [Storage.applyProposal, hparam, fitsParam,
        ← castU32_eq_self_iff proposal.newValue]
      exact ⟨congrArg ContractConfig.feeBps, fun h => by
        rw [h]
        rfl⟩

theorem applyProposal_others (w : World) (proposal : Proposal) :
    (Storage.applyProposal w proposal).feeRecipient = w.feeRecipient ∧
      (Storage.applyProposal w proposal).allowedTokens = w.allowedTokens := by
  unfold Storage.applyProposal
  cases proposal.param with
  | minDeposit => exact ⟨rfl, rfl⟩
  | maxDuration => exact ⟨rfl, rfl⟩
  | feeBps => exact ⟨rfl, rfl⟩

/-- When an execution returns, and what it leaves. -/
theorem executeProposal_succeeds_iff {host : Host} {w w' : World}
    {inv : Invocation} {value : Value} {proposalId : Nat} {proposal : Proposal}
    (hcall : inv.call = .governance (.executeProposal proposalId))
    (hproposal : w.proposals proposalId = some proposal) :
    Succeeds host w inv value w' ↔ proposal.status = .passed ∧
      proposal.executableAfter ≤ inv.now ∧ value = .unit ∧
      w' = (Storage.saveProposal (Storage.applyProposal w proposal)
        { proposal with status := .executed }).emit
          (.proposalExecuted proposalId) := by
  unfold Succeeds
  rw [hcall]
  simp only [exec, execGovernance, unitResult_eq_ok_iff, executeProposal,
    Storage.loadProposal, hproposal, bind_eq_ok_iff, expect_eq_ok_iff,
    Option.some.injEq, ensure_eq_ok_iff, decide_eq_true_eq, pure_eq_ok_iff]
  constructor
  · rintro ⟨⟨found, rfl, _, hpassed, _, hafter, rfl⟩, rfl⟩
    exact ⟨hpassed, hafter, rfl, rfl⟩
  · rintro ⟨hpassed, hafter, rfl, rfl⟩
    exact ⟨⟨proposal, rfl, (), hpassed, (), hafter, rfl⟩, rfl⟩

/-- For every proposal in every state: its execution does what was voted exactly
when the value fits the parameter's type, or the proposal cannot be executed at
the time of the call. -/
theorem executes_as_voted_iff {host : Host} {w : World} {inv : Invocation}
    {proposalId : Nat} {proposal : Proposal}
    (hcall : inv.call = .governance (.executeProposal proposalId))
    (hproposal : w.proposals proposalId = some proposal)
    (hrange : proposal.newValue ≤ u64Max) :
    ExecutesAsVoted host w inv proposalId proposal ↔
      fitsParam proposal.newValue proposal.param ∨ proposal.status ≠ .passed ∨
        inv.now < proposal.executableAfter := by
  have hreturns : ∀ value w', Succeeds host w inv value w' ↔
      proposal.status = .passed ∧ proposal.executableAfter ≤ inv.now ∧
        value = .unit ∧
        w' = (Storage.saveProposal (Storage.applyProposal w proposal)
          { proposal with status := .executed }).emit
            (.proposalExecuted proposalId) :=
    fun _ _ => executeProposal_succeeds_iff hcall hproposal
  by_cases hopen : proposal.status = .passed ∧ proposal.executableAfter ≤ inv.now
  · -- the call returns, so the second part asks that the value fits
    have hsucceeds := (hreturns _ _).mpr ⟨hopen.1, hopen.2, rfl, rfl⟩
    constructor
    · intro h
      exact Or.inl ((config_applyProposal_iff w hrange).mp
        (h.stores _ _ hsucceeds).1)
    · intro h
      have hfits : fitsParam proposal.newValue proposal.param := by
        rcases h with hfits | hstatus | hearly
        · exact hfits
        · exact absurd hopen.1 hstatus
        · exact absurd hopen.2 (not_le.mpr hearly)
      refine ⟨?_, fun hnot => absurd hfits hnot⟩
      intro value w' hreturned
      obtain ⟨_, _, _, rfl⟩ := (hreturns value w').mp hreturned
      exact ⟨(config_applyProposal_iff w hrange).mpr hfits,
        applyProposal_others w proposal⟩
  · -- the call fails, and a proposal that failed to be executed is as it was
    have hnever : ∀ value w', ¬ Succeeds host w inv value w' := by
      intro value w' hreturned
      obtain ⟨hpassed, hafter, _⟩ := (hreturns value w').mp hreturned
      exact hopen ⟨hpassed, hafter⟩
    have hfails : Fails host w inv ∧ step host w inv = w := by
      rcases step_cases host w inv with ⟨value, hreturned⟩ | hfails
      · exact absurd hreturned (hnever _ _)
      · exact hfails
    refine iff_of_true ⟨fun value w' h => absurd h (hnever value w'), ?_⟩ ?_
    · intro _ _
      exact ⟨hfails.1, by rw [hfails.2]; exact hproposal⟩
    · rw [not_and_or, not_le] at hopen
      exact Or.inr hopen

/-- A minimum deposit above `u32` is stored as it was voted. -/
theorem executes_as_voted_of_minDeposit :
    ∃ history w proposal, Reaches Sample.host history w ∧
      w.proposals 1 = some proposal ∧ proposal.newValue = 2 ^ 40 ∧
      ExecutesAsVoted Sample.host w (Sample.invoke 172810 Sample.employee
        (.governance (.executeProposal 1))) 1 proposal := by
  have hrun := Sample.play_reaches [
    Sample.invoke 10 Sample.employee
      (.governance (.proposeParameter Sample.employee .minDeposit (2 ^ 40))),
    Sample.invoke 11 Sample.employee (.governance (.vote Sample.employee 1 true)),
    Sample.invoke 12 Sample.employee (.governance (.tally 1))] (by decide)
  exact ⟨_, _, _, hrun, rfl, by decide,
    (executes_as_voted_iff rfl rfl (by decide)).mpr (Or.inl (by decide))⟩

/-- The vote is for `2 ^ 32 + 50` basis points, and 50 are stored. -/
theorem execution_truncates_value :
    ∃ history w proposal, Reaches Sample.host history w ∧
      w.proposals 1 = some proposal ∧ proposal.param = .feeBps ∧
      proposal.newValue = 2 ^ 32 + 50 ∧
      (step Sample.host w (Sample.invoke 172810 Sample.employee
        (.governance (.executeProposal 1)))).config.feeBps = 50 ∧
      ¬ ExecutesAsVoted Sample.host w (Sample.invoke 172810 Sample.employee
        (.governance (.executeProposal 1))) 1 proposal := by
  have hrun := Sample.play_reaches [
    Sample.invoke 10 Sample.employee
      (.governance (.proposeParameter Sample.employee .feeBps (2 ^ 32 + 50))),
    Sample.invoke 11 Sample.employee (.governance (.vote Sample.employee 1 true)),
    Sample.invoke 12 Sample.employee (.governance (.tally 1))] (by decide)
  refine ⟨_, _, _, hrun, rfl, by decide, by decide, by decide, ?_⟩
  intro h
  have hpassed := congrArg (Option.map Proposal.status)
    (h.refuses (by decide) rfl).2
  revert hpassed
  decide

end Properties
end Paystream
