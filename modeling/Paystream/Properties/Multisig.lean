import Paystream.Properties.Configuration
import Paystream.Semantics.Governance

/-!
# Multi-signature operations over whole runs

`multisig_propose` and `multisig_approve` gather approvals over several
transactions, while the administrator may replace the configuration in between.

* `pending_op_wellFormed`: ids are given out once, approvals are only appended,
  each by a member who signed it in time, and a pause is carried out once.
* `quorum_of_members`: an operation executes with the threshold of members of
  the configuration in force, in every run whose reconfigurations keep the
  approvers of the operations still open.
* `executed_at_threshold_iff`: an operation is executed exactly at the threshold,
  for every threshold but one, where the proposer's own approval would have been
  enough and nothing executes it.
* `gate_kept_iff`: the two sensitive operations stay behind the gate exactly as
  long as the administrator does not call them directly.
-/

namespace Paystream
namespace Properties

open Library
open Contract
open Contract.Storage
open Contract.StreamContract
open Semantics

/-! ## Reading a history -/

/-- The value the call of an entry returned. -/
def resultOf (host : Host) (entry : Entry World Invocation) : Option Value :=
  match exec host entry.input.toContext entry.input.call entry.before with
  | .ok (value, _) => some value
  | .error _ => none

def isMultisigPropose : Call → Bool
  | .governance (.multisigPropose _ _) => true
  | _ => false

/-- `multisig_propose` returned this id in this entry. -/
def opProposedIn (host : Host) (id : Nat) (entry : Entry World Invocation) :
    Bool :=
  isMultisigPropose entry.input.call &&
    decide (resultOf host entry = some (.nat id))

/-- The call is the approval of the operation that completes an emergency
pause. -/
def completesPauseOf (w : World) (id : Nat) : Call → Bool
  | .governance (.multisigApprove _ opId) =>
      decide (opId = id) && completesPause w id
  | _ => false

/-- The operation set the paused flag in this entry (`config_of_opApproval`). -/
def pausedByOpIn (host : Host) (id : Nat) (entry : Entry World Invocation) :
    Bool :=
  returned host entry && completesPauseOf entry.before id entry.input.call

/-- The address gave its approval to the operation `op` in this entry. -/
structure ApprovalGiven (id : Nat) (op : PendingAdminOp) (approver : Address)
    (entry : Entry World Invocation) : Prop where
  call : entry.input.call = .governance (.multisigPropose approver op.op) ∨
    entry.input.call = .governance (.multisigApprove approver id)
  signed : approver ∈ entry.input.auth
  member : ∃ config, entry.before.multisigConfig = some config ∧
    approver ∈ config.admins
  inTime : entry.input.now < op.expiresAt
  recorded : ∃ q, entry.after.pendingOps id = some q ∧ approver ∈ q.approvals
  fresh : ∀ q, entry.before.pendingOps id = some q → approver ∉ q.approvals

/-- What may happen to a pending operation: approvals are appended until it is
executed. -/
structure OpExtends (old new : PendingAdminOp) : Prop where
  op : new.op = old.op
  expiresAt : new.expiresAt = old.expiresAt
  approvals : old.approvals <+: new.approvals
  executed : old.executed = true → new.executed = true
  closed : old.executed = true → new.approvals = old.approvals

/-- What the run says about the operation `op` stored under `id` at its end. -/
structure OpWellFormed (host : Host) (history : History) (w : World) (id : Nat)
    (op : PendingAdminOp) : Prop where
  numbered : op.id = id ∧ 1 ≤ id ∧ id ≤ w.pendingOpCount
  /-- the id was given out once -/
  proposedOnce : (history.filter (opProposedIn host id)).length = 1
  nodup : op.approvals.Nodup
  given : ∀ approver ∈ op.approvals,
    ∃ entry ∈ history, ApprovalGiven id op approver entry
  /-- the operation as it was in any earlier state -/
  extended : ∀ later entry earlier, history = later ++ entry :: earlier →
    ∀ q, entry.after.pendingOps id = some q → OpExtends q op
  pausedOnce : (history.filter (pausedByOpIn host id)).length ≤ 1
  /-- the approval counted there sets the paused flag, the others leave it -/
  flag : ∀ entry ∈ history, ∀ approver,
    entry.input.call = .governance (.multisigApprove approver id) →
      entry.after.config = if pausedByOpIn host id entry = true
        then { entry.before.config with paused := true } else entry.before.config

/-! ## One call -/

theorem OpExtends.refl (op : PendingAdminOp) : OpExtends op op :=
  ⟨rfl, rfl, List.prefix_refl _, id, fun _ => rfl⟩

theorem OpExtends.trans {first second third : PendingAdminOp}
    (h : OpExtends first second) (h' : OpExtends second third) :
    OpExtends first third where
  op := h'.op.trans h.op
  expiresAt := h'.expiresAt.trans h.expiresAt
  approvals := h.approvals.trans h'.approvals
  executed hexecuted := h'.executed (h.executed hexecuted)
  closed hexecuted :=
    (h'.closed (h.executed hexecuted)).trans (h.closed hexecuted)

theorem OpExtends.approvedBy {config : MultisigConfig} {caller : Address}
    {pending : PendingAdminOp} (hopen : pending.executed = false) :
    OpExtends pending (approvedBy config caller pending) := by
  refine ⟨rfl, rfl, List.prefix_append _ _, ?_, ?_⟩
  · intro hexecuted
    rw [hopen] at hexecuted
    cases hexecuted
  · intro hexecuted
    rw [hopen] at hexecuted
    cases hexecuted

/-- A stored operation is only ever extended. -/
theorem extends_of_change {ctx : Context} {w w' : World} {id : Nat} {call : Call}
    (h : PendingOpChange ctx w w' id call) {op : PendingAdminOp}
    (hop : w.pendingOps id = some op) :
    ∃ op', w'.pendingOps id = some op' ∧ OpExtends op op' := by
  cases h with
  | same _ _ hsame => exact ⟨op, hsame.trans hop, .refl op⟩
  | proposed _ _ _ _ _ _ _ _ hnone _ =>
      rw [hop] at hnone
      cases hnone
  | approved caller config pending _ _ _ _ hfound hopen _ _ hstored =>
      rw [hop] at hfound
      cases hfound
      exact ⟨_, hstored, .approvedBy hopen⟩

theorem resultOf_of_succeeds {host : Host} {w w' : World} {inv : Invocation}
    {value : Value} (h : Succeeds host w inv value w') :
    resultOf host ⟨w, inv, w'⟩ = some value := by
  unfold Succeeds at h
  simp only [resultOf, h]

theorem resultOf_of_fails {host : Host} {w : World} {inv : Invocation}
    (h : Fails host w inv) : resultOf host ⟨w, inv, w⟩ = none := by
  obtain ⟨message, hmessage⟩ := h
  simp only [resultOf, hmessage]

/-- `multisig_propose` returns the next id. -/
theorem multisigPropose_result {host : Host} {w w' : World} {inv : Invocation}
    {value : Value} {caller : Address} {op : AdminOp}
    (h : Succeeds host w inv value w')
    (hcall : inv.call = .governance (.multisigPropose caller op)) :
    value = .nat (w.pendingOpCount + 1) := by
  unfold Succeeds at h
  rw [hcall] at h
  change execGovernance inv.toContext (.multisigPropose caller op) w = _ at h
  simp only [execGovernance, map_eq_ok_iff, multisigPropose, nextPendingOpId,
    bind_eq_ok_iff, expect_eq_ok_iff, checkedAddU64_eq_some_iff,
    pure_eq_ok_iff] at h
  obtain ⟨_, ⟨_, _, _, ⟨_, ⟨_, rfl⟩, rfl⟩, _, _, rfl⟩, heq⟩ := h
  cases heq
  rfl

/-- The newest entry neither gave out the id nor carried out the pause. -/
def QuietFor (host : Host) (id : Nat) (entry : Entry World Invocation) : Prop :=
  opProposedIn host id entry = false ∧ pausedByOpIn host id entry = false

theorem quietFor_of_fails {host : Host} {id : Nat} {w : World} {inv : Invocation}
    (h : Fails host w inv) : QuietFor host id ⟨w, inv, w⟩ := by
  constructor
  · unfold opProposedIn
    rw [resultOf_of_fails h]
    simp
  · unfold pausedByOpIn
    rw [h.returned_eq]
    rfl

/-- A call other than `multisig_propose` gives out no id. -/
theorem opProposedIn_of_other {host : Host} {id : Nat}
    {entry : Entry World Invocation}
    (hother : isMultisigPropose entry.input.call = false) :
    opProposedIn host id entry = false := by
  unfold opProposedIn
  rw [hother]
  rfl

theorem pausedByOpIn_of_other {host : Host} {id : Nat}
    {entry : Entry World Invocation}
    (hother : ∀ caller,
      entry.input.call ≠ .governance (.multisigApprove caller id)) :
    pausedByOpIn host id entry = false := by
  unfold pausedByOpIn completesPauseOf
  split
  · rename_i caller opId hcall
    have hne : opId ≠ id := by
      rintro rfl
      exact hother caller hcall
    simp [hne]
  · exact Bool.and_false _

theorem opProposedIn_of_propose {host : Host} {id : Nat} {w w' : World}
    {inv : Invocation} {value : Value} {caller : Address} {op : AdminOp}
    (h : Succeeds host w inv value w')
    (hcall : inv.call = .governance (.multisigPropose caller op)) :
    opProposedIn host id ⟨w, inv, w'⟩ = decide (id = w.pendingOpCount + 1) := by
  unfold opProposedIn
  rw [resultOf_of_succeeds h, multisigPropose_result h hcall]
  simp only [hcall, isMultisigPropose, Option.some.injEq, Value.nat.injEq,
    Bool.true_and, eq_comm]

/-- An approval that returned carries out the pause exactly when it leaves the
operation executed. -/
theorem pausedByOpIn_of_approve {host : Host} {id : Nat} {w w' : World}
    {inv : Invocation} {value : Value} {caller : Address} {config : MultisigConfig}
    {pending : PendingAdminOp} (h : Succeeds host w inv value w')
    (hcall : inv.call = .governance (.multisigApprove caller id))
    (hconfig : w.multisigConfig = some config)
    (hfound : w.pendingOps id = some pending) :
    pausedByOpIn host id ⟨w, inv, w'⟩ =
      decide ((approvedBy config caller pending).executed = true ∧
        (approvedBy config caller pending).op = .emergencyPause) := by
  simp only [pausedByOpIn, h.returned_eq, hcall, completesPauseOf, completesPause,
    hconfig, hfound, approvedBy, decide_true, Bool.true_and, decide_eq_true_eq,
    Bool.decide_and]

/-! ## Well-formed operations -/

/-- What is known about a stored operation. -/
structure KnownOp (host : Host) (history : History) (id : Nat)
    (op : PendingAdminOp) : Prop where
  proposedOnce : (history.filter (opProposedIn host id)).length = 1
  nodup : op.approvals.Nodup
  given : ∀ approver ∈ op.approvals,
    ∃ entry ∈ history, ApprovalGiven id op approver entry
  paused : (history.filter (pausedByOpIn host id)).length =
    if op.executed = true ∧ op.op = .emergencyPause then 1 else 0

structure OpFollowed (host : Host) (id : Nat) (history : History) (w : World) :
    Prop where
  unknown : w.pendingOps id = none →
    history.filter (opProposedIn host id) = [] ∧
      history.filter (pausedByOpIn host id) = []
  known : ∀ op, w.pendingOps id = some op → KnownOp host history id op

theorem OpFollowed.quiet {host : Host} {id : Nat} {history : History}
    {w w' : World} {inv : Invocation} (h : OpFollowed host id history w)
    (hquiet : QuietFor host id ⟨w, inv, w'⟩)
    (hop : w'.pendingOps id = w.pendingOps id) :
    OpFollowed host id (⟨w, inv, w'⟩ :: history) w' := by
  have hproposed : (⟨w, inv, w'⟩ :: history).filter (opProposedIn host id) =
      history.filter (opProposedIn host id) :=
    List.filter_cons_of_neg (by simp [hquiet.1])
  have hpaused : (⟨w, inv, w'⟩ :: history).filter (pausedByOpIn host id) =
      history.filter (pausedByOpIn host id) :=
    List.filter_cons_of_neg (by simp [hquiet.2])
  constructor
  · intro hnone
    rw [hproposed, hpaused]
    exact h.unknown (hop ▸ hnone)
  · intro op hstored
    rw [hop] at hstored
    have hknown := h.known op hstored
    refine ⟨?_, hknown.nodup, ?_, ?_⟩
    · rw [hproposed]
      exact hknown.proposedOnce
    · intro approver happrover
      obtain ⟨entry, hmem, hgiven⟩ := hknown.given approver happrover
      exact ⟨entry, List.mem_cons_of_mem _ hmem, hgiven⟩
    · rw [hpaused]
      exact hknown.paused

theorem followed_of_opProposed {host : Host} {id : Nat} {history : History}
    {w w' : World} {inv : Invocation} {value : Value} {caller : Address}
    {op : AdminOp} {config : MultisigConfig} (h : OpFollowed host id history w)
    (hsucceeds : Succeeds host w inv value w')
    (hcall : inv.call = .governance (.multisigPropose caller op))
    (hauth : caller ∈ inv.auth) (hconfig : w.multisigConfig = some config)
    (hmember : caller ∈ config.admins) (hid : id = w.pendingOpCount + 1)
    (hnone : w.pendingOps id = none)
    (hop : w'.pendingOps id = some (freshOp id inv.now caller op)) :
    OpFollowed host id (⟨w, inv, w'⟩ :: history) w' := by
  obtain ⟨hproposed, hpaused⟩ := h.unknown hnone
  constructor
  · intro hnone'
    rw [hop] at hnone'
    cases hnone'
  · intro found hfound
    rw [hop] at hfound
    cases hfound
    refine ⟨?_, List.nodup_singleton _, ?_, ?_⟩
    · have hthis : opProposedIn host id ⟨w, inv, w'⟩ = true := by
        rw [opProposedIn_of_propose hsucceeds hcall]
        exact decide_eq_true hid
      rw [List.filter_cons_of_pos hthis, hproposed]
      rfl
    · intro approver happrover
      obtain rfl := List.mem_singleton.mp happrover
      refine ⟨⟨w, inv, w'⟩, List.mem_cons_self, ?_⟩
      refine ⟨Or.inl hcall, hauth, ⟨config, hconfig, hmember⟩, ?_,
        ⟨_, hop, happrover⟩, ?_⟩
      · show inv.now < inv.now + multisigOpTtl
        have : 0 < multisigOpTtl := by decide
        omega
      · intro q hq
        rw [hnone] at hq
        cases hq
    · have hother : pausedByOpIn host id ⟨w, inv, w'⟩ = false := by
        apply pausedByOpIn_of_other
        intro other
        rw [hcall]
        simp
      rw [List.filter_cons_of_neg (by simp [hother]), hpaused]
      rfl

theorem followed_of_opApproved {host : Host} {id : Nat} {history : History}
    {w w' : World} {inv : Invocation} {value : Value} {caller : Address}
    {config : MultisigConfig} {pending : PendingAdminOp}
    (h : OpFollowed host id history w) (hsucceeds : Succeeds host w inv value w')
    (hcall : inv.call = .governance (.multisigApprove caller id))
    (hauth : caller ∈ inv.auth) (hconfig : w.multisigConfig = some config)
    (hmember : caller ∈ config.admins)
    (hfound : w.pendingOps id = some pending)
    (hopen : pending.executed = false) (hbefore : inv.now < pending.expiresAt)
    (hfirst : caller ∉ pending.approvals)
    (hop : w'.pendingOps id = some (approvedBy config caller pending)) :
    OpFollowed host id (⟨w, inv, w'⟩ :: history) w' := by
  have hknown := h.known pending hfound
  constructor
  · intro hnone
    rw [hop] at hnone
    cases hnone
  · intro found hstored
    rw [hop] at hstored
    cases hstored
    refine ⟨?_, ?_, ?_, ?_⟩
    · have hother : opProposedIn host id ⟨w, inv, w'⟩ = false := by
        apply opProposedIn_of_other
        simp [hcall, isMultisigPropose]
      rw [List.filter_cons_of_neg (by simp [hother])]
      exact hknown.proposedOnce
    · show (pending.approvals ++ [caller]).Nodup
      rw [List.nodup_append]
      refine ⟨hknown.nodup, List.nodup_singleton _, ?_⟩
      intro approver happrover other hother
      rw [List.mem_singleton] at hother
      rintro rfl
      exact hfirst (hother ▸ happrover)
    · intro approver happrover
      -- an earlier approval has its entry already; the new one is this call
      rcases List.mem_append.mp happrover with hold | hnew
      · obtain ⟨entry, hmem, hgiven⟩ := hknown.given approver hold
        exact ⟨entry, List.mem_cons_of_mem _ hmem, hgiven.call, hgiven.signed,
          hgiven.member, hgiven.inTime, hgiven.recorded, hgiven.fresh⟩
      · obtain rfl := List.mem_singleton.mp hnew
        refine ⟨⟨w, inv, w'⟩, List.mem_cons_self, Or.inr hcall, hauth,
          ⟨config, hconfig, hmember⟩, hbefore, ⟨_, hop, happrover⟩, ?_⟩
        intro q hq
        rw [show w.pendingOps id = some q from hq] at hfound
        cases hfound
        exact hfirst
    · -- an open operation has not paused anything yet
      have hnever := hknown.paused
      rw [hopen] at hnever
      simp only [Bool.false_eq_true, false_and, if_false] at hnever
      have hthis := pausedByOpIn_of_approve hsucceeds hcall hconfig hfound
      by_cases hpaused : (approvedBy config caller pending).executed = true ∧
          (approvedBy config caller pending).op = .emergencyPause
      · rw [if_pos hpaused, List.filter_cons_of_pos (by simp [hthis, hpaused]),
          List.length_cons, hnever]
      · rw [if_neg hpaused, List.filter_cons_of_neg (by simp [hthis, hpaused]),
          hnever]

theorem opFollowed_of_reaches {host : Host} {history : History} {w : World}
    (hrun : Reaches host history w) (id : Nat) :
    OpFollowed host id history w := by
  refine Reaches.invariant (P := OpFollowed host id) ?_ ?_ ?_ hrun
  · intro balances _
    refine ⟨fun _ => ⟨rfl, rfl⟩, ?_⟩
    intro op hop
    cases hop
  · intro history w inv value w' hrun _ h hsucceeds
    cases pendingOpChange_of_succeeds hrun hsucceeds id with
    | same hother hnext hop =>
        refine h.quiet ⟨?_, pausedByOpIn_of_other hother⟩ hop
        cases hpropose : isMultisigPropose inv.call with
        | false => exact opProposedIn_of_other hpropose
        | true =>
            unfold isMultisigPropose at hpropose
            split at hpropose
            · rename_i caller op hcall
              rw [opProposedIn_of_propose hsucceeds hcall]
              exact decide_eq_false (hnext caller op hcall)
            · cases hpropose
    | proposed caller op config hcall hauth hconfig hmember hid hnone hop =>
        exact followed_of_opProposed h hsucceeds hcall hauth hconfig hmember hid
          hnone hop
    | approved caller config pending hcall hauth hconfig hmember hfound hopen
        hbefore hfirst hop =>
        exact followed_of_opApproved h hsucceeds hcall hauth hconfig hmember
          hfound hopen hbefore hfirst hop
  · intro history w inv _ _ h hfails
    exact h.quiet (quietFor_of_fails hfails) rfl

/-- An approval sets the paused flag where it completes the pause, and nothing else of
the configuration. -/
theorem config_of_opApproval {host : Host} {later earlier : History}
    {entry : Entry World Invocation} {w : World}
    (hrun : Reaches host (later ++ entry :: earlier) w) {id : Nat} {approver : Address}
    (hcall : entry.input.call = .governance (.multisigApprove approver id)) :
    entry.after.config = if pausedByOpIn host id entry = true
      then { entry.before.config with paused := true } else entry.before.config := by
  obtain ⟨-, ⟨hreturned, value, hsucceeds⟩ | ⟨hpanicked, hsame⟩⟩ := hrun.entry_cases
  · rw [config_of_succeeds hsucceeds, hcall]
    simp only [pausedByOpIn, hreturned, hcall, completesPauseOf, configNext, decide_true,
      Bool.true_and]
  · rw [hsame]
    simp only [pausedByOpIn, hpanicked, Bool.false_and, Bool.false_eq_true, if_false]

/-- An operation as it was after some entry is extended by what it is at the end
of the run. -/
theorem extends_since_entry {host : Host} {later earlier : History}
    {entry : Entry World Invocation} {w : World} {id : Nat}
    {q op : PendingAdminOp} (hrun : Reaches host (later ++ entry :: earlier) w)
    (hq : entry.after.pendingOps id = some q)
    (hop : w.pendingOps id = some op) : OpExtends q op := by
  have hkept : ∃ op, w.pendingOps id = some op ∧ OpExtends q op := by
    refine Reaches.persists (P := fun w => ∃ op, w.pendingOps id = some op ∧
      OpExtends q op) ?_ hrun ⟨q, hq, .refl q⟩
    rintro history w inv value w' hrun _ ⟨op, hop, hextends⟩ hsucceeds
    obtain ⟨op', hop', hextends'⟩ :=
      extends_of_change (pendingOpChange_of_succeeds hrun hsucceeds id) hop
    exact ⟨op', hop', hextends.trans hextends'⟩
  obtain ⟨found, hfound, hextends⟩ := hkept
  rw [hop] at hfound
  cases hfound
  exact hextends

/-- Every pending operation of every run is well formed: its id was given out
once, its approvals are pairwise different and were only ever appended, each
signed by a member of the configuration of that moment before the operation
expired, and at most one of them set the paused flag. -/
theorem pending_op_wellFormed {host : Host} {history : History} {w : World}
    (hrun : Reaches host history w) {id : Nat} {op : PendingAdminOp}
    (hop : w.pendingOps id = some op) : OpWellFormed host history w id op := by
  have hknown := (opFollowed_of_reaches hrun id).known op hop
  refine ⟨(governanceKeyed_of_reaches hrun).pendingOps id op hop,
    hknown.proposedOnce, hknown.nodup, hknown.given, ?_, ?_, ?_⟩
  · rintro later entry earlier rfl q hq
    exact extends_since_entry hrun hq hop
  · rw [hknown.paused]
    split <;> omega
  · intro entry hentry approver hcall
    obtain ⟨later, earlier, rfl⟩ := List.append_of_mem hentry
    exact config_of_opApproval hrun hcall

/-- Three members, two approvals asked for: the second one pauses the contract,
the third comes too late. -/
theorem pending_op_wellFormed_of_pause :
    ∃ history w op, Reaches Sample.host history w ∧
      w.pendingOps 1 = some op ∧ op.executed = true ∧ w.config.paused = true ∧
      op.approvals = [Sample.employer, Sample.employee] ∧
      OpWellFormed Sample.host history w 1 op := by
  have hrun := Sample.play_reaches [
    Sample.invoke 1 Sample.admin (.admin (.initializeContract Sample.admin)),
    Sample.invoke 2 Sample.admin (.governance (.configureMultisig Sample.admin
      [Sample.employer, Sample.employee, Sample.treasury] 2)),
    Sample.invoke 10 Sample.employer
      (.governance (.multisigPropose Sample.employer .emergencyPause)),
    Sample.invoke 11 Sample.employee
      (.governance (.multisigApprove Sample.employee 1)),
    Sample.invoke 12 Sample.treasury
      (.governance (.multisigApprove Sample.treasury 1))] (by decide)
  exact ⟨_, _, _, hrun, rfl, by decide, by decide, by decide,
    pending_op_wellFormed hrun rfl⟩

/-! ## The quorum under reconfiguration -/

/-- If an operation became executed in this entry, as many different members of
the configuration in force had approved it as that configuration asks for. -/
def QuorumMet (entry : Entry World Invocation) : Prop :=
  ∀ id q q', entry.before.pendingOps id = some q → q.executed = false →
    entry.after.pendingOps id = some q' → q'.executed = true →
      ∃ config, entry.after.multisigConfig = some config ∧
        config.threshold ≤ (q'.approvals.filter
          (fun approver => decide (approver ∈ config.admins))).toFinset.card

/-- If the call is a `configure_multisig`, it lists every address recorded in an
operation that is neither executed nor expired. -/
def KeepsApprovers (w : World) (inv : Invocation) : Prop :=
  ∀ caller admins threshold,
    inv.call = .governance (.configureMultisig caller admins threshold) →
    ∀ id op, w.pendingOps id = some op → op.executed = false →
      inv.now < op.expiresAt → ∀ approver ∈ op.approvals, approver ∈ admins

/-- The addresses recorded in an open operation are members of the configuration
in force. -/
def OpenApproversListed (host : Host) (history : History) (w : World) : Prop :=
  ∀ id op config, w.pendingOps id = some op → op.executed = false →
    ledgerTime host history < op.expiresAt → w.multisigConfig = some config →
      ∀ approver ∈ op.approvals, approver ∈ config.admins

/-- One call keeps the approvers listed when its reconfiguration does. -/
theorem openApproversListed_of_succeeds {host : Host} {history : History}
    {w w' : World} {inv : Invocation} {value : Value}
    (hrun : Reaches host history w) (htime : ledgerTime host history ≤ inv.now)
    (h : OpenApproversListed host history w)
    (hsucceeds : Succeeds host w inv value w') (hkeeps : KeepsApprovers w inv) :
    OpenApproversListed host (⟨w, inv, w'⟩ :: history) w' := by
  intro id op config hop hopen hexpires hconfig approver happrover
  change inv.now < op.expiresAt at hexpires
  cases pendingOpChange_of_succeeds hrun hsucceeds id with
  | same _ _ hsame =>
      rw [hsame] at hop
      rcases multisigConfig_of_succeeds hsucceeds with
        hold | ⟨caller, admins, threshold, hcall, _, hnew⟩
      · rw [hold] at hconfig
        exact h id op config hop hopen (htime.trans_lt hexpires) hconfig approver
          happrover
      · rw [hnew] at hconfig
        cases hconfig
        exact hkeeps caller admins threshold hcall id op hop hopen hexpires
          approver happrover
  | proposed caller _ found hcall _ hfound hmember _ _ hstored =>
      rw [hstored] at hop
      cases hop
      obtain rfl := List.mem_singleton.mp happrover
      have hkept := multisigConfig_of_other hsucceeds (by rw [hcall]; rintro _ _ _ ⟨⟩)
      rw [hkept, hfound] at hconfig
      cases hconfig
      exact hmember
  | approved caller found pending hcall _ hfound hmember hpending hpendingOpen
      hbefore _ hstored =>
      rw [hstored] at hop
      cases hop
      have hkept := multisigConfig_of_other hsucceeds (by rw [hcall]; rintro _ _ _ ⟨⟩)
      rw [hkept, hfound] at hconfig
      cases hconfig
      rcases List.mem_append.mp happrover with hearlier | hlast
      · exact h id pending config hpending hpendingOpen
          (htime.trans_lt hbefore) hfound approver hearlier
      · rw [List.mem_singleton.mp hlast]
        exact hmember

theorem openApproversListed_of_reaches {host : Host} {history : History}
    {w : World} (hrun : Reaches host history w)
    (hkeeps : ∀ entry ∈ history, KeepsApprovers entry.before entry.input ∨
      Fails host entry.before entry.input) :
    OpenApproversListed host history w := by
  revert hkeeps
  refine Reaches.invariant (P := fun history w =>
    (∀ entry ∈ history, KeepsApprovers entry.before entry.input ∨
      Fails host entry.before entry.input) →
        OpenApproversListed host history w) ?_ ?_ ?_ hrun
  · intro balances _ _ id op config hop
    cases hop
  · intro history w inv value w' hrun htime ih hsucceeds hkeeps
    rw [List.forall_mem_cons] at hkeeps
    rcases hkeeps.1 with hthis | hfails
    · exact openApproversListed_of_succeeds hrun htime (ih hkeeps.2) hsucceeds hthis
    · exact absurd hfails hsucceeds.not_fails
  · intro history w inv _ htime ih _ hkeeps
    rw [List.forall_mem_cons] at hkeeps
    intro id op config hop hopen hexpires
    exact ih hkeeps.2 id op config hop hopen (htime.trans_lt hexpires)

/-- Approvals that are pairwise different and all from members count in full. -/
theorem card_members_of_subset {admins approvals : List Address}
    (hnodup : approvals.Nodup) (hsubset : ∀ a ∈ approvals, a ∈ admins) :
    (approvals.filter (fun a => decide (a ∈ admins))).toFinset.card =
      approvals.length := by
  have hall : approvals.filter (fun a => decide (a ∈ admins)) = approvals := by
    rw [List.filter_eq_self]
    intro a ha
    exact decide_eq_true (hsubset a ha)
  rw [hall, List.toFinset_card_of_nodup hnodup]

/-- In every run whose reconfigurations keep the approvers of the operations
still open, an operation becomes executed only with the threshold of members of
the configuration in force. -/
theorem quorum_of_members {host : Host} {history : History} {w : World}
    (hrun : Reaches host history w)
    (hkeeps : ∀ entry ∈ history, KeepsApprovers entry.before entry.input ∨
      Fails host entry.before entry.input) :
    ∀ entry ∈ history, QuorumMet entry := by
  intro entry hentry id q q' hq hopen hq' hexecuted
  obtain ⟨later, earlier, rfl⟩ := List.append_of_mem hentry
  -- the run up to this entry meets the condition too
  have hupTo : Reaches host (entry :: earlier) entry.after := hrun.upTo
  obtain ⟨hbefore, ⟨_, value, hsucceeds⟩ | ⟨_, hsame⟩⟩ := hrun.entry_cases
  · have htime := hrun.of_split.2.2
    have hlisted : OpenApproversListed host earlier entry.before := by
      apply openApproversListed_of_reaches hbefore
      intro old hold
      exact hkeeps old (List.mem_append_right later (List.mem_cons_of_mem _ hold))
    cases pendingOpChange_of_succeeds hbefore hsucceeds id with
    | same _ _ hop =>
        rw [hop, hq] at hq'
        cases hq'
        rw [hopen] at hexecuted
        cases hexecuted
    | proposed _ _ _ _ _ _ _ _ hnone _ =>
        rw [hq] at hnone
        cases hnone
    | approved caller config pending hcall _ hconfig hmember hfound _ hinTime _
        hop =>
        have hnodup := ((opFollowed_of_reaches hupTo id).known q' hq').nodup
        rw [hq] at hfound
        cases hfound
        rw [hop] at hq'
        cases hq'
        refine ⟨config, ?_, ?_⟩
        · have hkept := multisigConfig_of_other hsucceeds
            (by rw [hcall]; rintro _ _ _ ⟨⟩)
          exact hkept.trans hconfig
        · rw [card_members_of_subset hnodup]
          · have hreached := of_decide_eq_true hexecuted
            simpa [approvedBy] using hreached
          · intro approver happrover
            rcases List.mem_append.mp happrover with hearlier | hlast
            · exact hlisted id q config hq hopen (htime.trans_lt hinTime) hconfig
                approver hearlier
            · rw [List.mem_singleton.mp hlast]
              exact hmember
  · rw [hsame, hq] at hq'
    cases hq'
    rw [hopen] at hexecuted
    cases hexecuted

/-- The configuration is replaced while an operation is open, and keeps the
address that has approved it. -/
theorem quorum_of_members_of_reconfiguration :
    ∃ history w op, Reaches Sample.host history w ∧
      w.pendingOps 1 = some op ∧ op.executed = true ∧
      w.multisigConfig = some ⟨[Sample.employer, Sample.treasury], 2⟩ ∧
      (∀ entry ∈ history, KeepsApprovers entry.before entry.input ∨
        Fails Sample.host entry.before entry.input) ∧
      ∀ entry ∈ history, QuorumMet entry := by
  have hrun := Sample.play_reaches [
    Sample.invoke 1 Sample.admin (.admin (.initializeContract Sample.admin)),
    Sample.invoke 2 Sample.admin (.governance (.configureMultisig Sample.admin
      [Sample.employer, Sample.employee] 2)),
    Sample.invoke 10 Sample.employer
      (.governance (.multisigPropose Sample.employer .emergencyPause)),
    Sample.invoke 20 Sample.admin (.governance (.configureMultisig Sample.admin
      [Sample.employer, Sample.treasury] 2)),
    Sample.invoke 30 Sample.treasury
      (.governance (.multisigApprove Sample.treasury 1))] (by decide)
  refine ⟨_, _, _, hrun, rfl, by decide, rfl,
    (and_iff_left_of_imp (quorum_of_members hrun)).mpr ?_⟩
  refine List.forall_mem_cons.mpr ⟨?_, List.forall_mem_cons.mpr ⟨?_,
    List.forall_mem_cons.mpr ⟨?_, List.forall_mem_cons.mpr ⟨?_,
      List.forall_mem_cons.mpr ⟨?_, by simp⟩⟩⟩⟩⟩
  · exact Or.inl (by rintro _ _ _ ⟨⟩)
  · left
    rintro _ _ _ ⟨⟩ id op hop _ _ approver happrover
    by_cases hid : id = 1
    · subst hid
      cases hop
      revert approver
      decide
    · cases (Function.update_of_ne hid _ _).symm.trans hop
  · exact Or.inl (by rintro _ _ _ ⟨⟩)
  · exact Or.inl (by rintro _ _ _ _ _ _ ⟨⟩)
  · exact Or.inl (by rintro _ _ _ ⟨⟩)

/-- The employer's approval counts after the employer has left the
configuration: the pause goes through with one member of it. -/
theorem former_member_counts :
    ∃ history w, Reaches Sample.host history w ∧ w.config.paused = true ∧
      ¬ ∀ entry ∈ history, QuorumMet entry := by
  have hrun := Sample.play_reaches [
    Sample.invoke 1 Sample.admin (.admin (.initializeContract Sample.admin)),
    Sample.invoke 2 Sample.admin (.governance (.configureMultisig Sample.admin
      [Sample.employer, Sample.employee] 2)),
    Sample.invoke 10 Sample.employer
      (.governance (.multisigPropose Sample.employer .emergencyPause)),
    Sample.invoke 20 Sample.admin (.governance (.configureMultisig Sample.admin
      [Sample.employee, Sample.treasury] 2)),
    Sample.invoke 30 Sample.treasury
      (.governance (.multisigApprove Sample.treasury 1))] (by decide)
  refine ⟨_, _, hrun, by decide, ?_⟩
  intro hall
  have hlast := hall _ List.mem_cons_self
  obtain ⟨config, hconfig, hle⟩ := hlast 1 _ _ rfl (by decide) rfl (by decide)
  cases hconfig
  revert hle
  decide

/-! ## Execution at the threshold -/

/-- The operation is executed exactly when its approvals reach the threshold. -/
def ExecutedAtThreshold (threshold id : Nat) (w : World) : Prop :=
  ∃ op, w.pendingOps id = some op ∧
    (op.executed = true ↔ threshold ≤ op.approvals.length)

/-- The operation `multisig_propose` has just stored. -/
theorem stored_of_opProposed {host : Host} {later earlier : History}
    {proposal : Entry World Invocation} {w : World} {id : Nat}
    (hrun : Reaches host (later ++ proposal :: earlier) w)
    (hproposed : opProposedIn host id proposal = true) :
    ∃ op, proposal.after.pendingOps id = some op ∧ op.executed = false ∧
      op.approvals.length = 1 := by
  obtain ⟨before, inv, after⟩ := proposal
  obtain ⟨hbefore, ⟨_, value, hsucceeds⟩ | ⟨hreverted, _⟩⟩ := hrun.entry_cases
  · have hresult := hproposed
    unfold opProposedIn isMultisigPropose at hresult
    split at hresult
    · rename_i caller op hcall
      rw [opProposedIn_of_propose hsucceeds hcall, decide_eq_true_eq] at hproposed
      cases pendingOpChange_of_succeeds hbefore hsucceeds id with
      | same _ hnext _ => exact absurd hproposed (hnext caller op hcall)
      | proposed caller op _ _ _ _ _ _ _ hop => exact ⟨_, hop, rfl, rfl⟩
      | approved _ _ _ happrove =>
          change inv.call = _ at happrove
          change inv.call = _ at hcall
          rw [hcall] at happrove
          cases happrove
    · cases hresult
  · -- a call that panicked returned no id
    simp only [opProposedIn, Bool.and_eq_true, decide_eq_true_eq] at hproposed
    unfold returned at hreverted
    unfold resultOf at hproposed
    split at hreverted
    · cases hreverted
    · rename_i hexec
      rw [hexec] at hproposed
      cases hproposed.2

/-- One call from a state with this configuration. -/
theorem executedAtThreshold_of_succeeds {host : Host} {history : History}
    {w w' : World} {inv : Invocation} {value : Value} {config : MultisigConfig}
    {id : Nat} (hrun : Reaches host history w)
    (hconfig : w.multisigConfig = some config)
    (h : ExecutedAtThreshold config.threshold id w)
    (hsucceeds : Succeeds host w inv value w') :
    ExecutedAtThreshold config.threshold id w' := by
  obtain ⟨op, hop, hiff⟩ := h
  cases pendingOpChange_of_succeeds hrun hsucceeds id with
  | same _ _ hsame => exact ⟨op, hsame.trans hop, hiff⟩
  | proposed _ _ _ _ _ _ _ _ hnone _ =>
      rw [hop] at hnone
      cases hnone
  | approved caller found pending _ _ hfound _ hpending _ _ _ hstored =>
      rw [hconfig] at hfound
      cases hfound
      refine ⟨_, hstored, ?_⟩
      simp [approvedBy]

theorem executedAtThreshold_since {host : Host} {later earlier : History}
    {proposal : Entry World Invocation} {w : World} {config : MultisigConfig}
    {id : Nat} (hrun : Reaches host (later ++ proposal :: earlier) w)
    (hproposed : opProposedIn host id proposal = true)
    (hconfig : proposal.after.multisigConfig = some config)
    (hunchanged : ∀ entry ∈ later,
      entry.after.multisigConfig = entry.before.multisigConfig)
    (hthreshold : 2 ≤ config.threshold) :
    w.multisigConfig = some config ∧ ExecutedAtThreshold config.threshold id w := by
  induction later generalizing w with
  | nil =>
      obtain ⟨op, hop, hopen, hlength⟩ := stored_of_opProposed hrun hproposed
      obtain ⟨_, _, rfl⟩ := hrun.of_cons
      refine ⟨hconfig, op, hop, ?_⟩
      rw [hopen, hlength]
      simp only [Bool.false_eq_true, false_iff]
      omega
  | cons newest later ih =>
      have hnewest : Reaches host ([] ++ newest :: (later ++ proposal :: earlier))
          w := hrun
      rw [List.forall_mem_cons] at hunchanged
      obtain ⟨hbefore, hcases⟩ := hnewest.entry_cases
      obtain ⟨hconfigBefore, hatBefore⟩ := ih hbefore hunchanged.2
      rw [hrun.of_cons.2.2]
      refine ⟨hunchanged.1.trans hconfigBefore, ?_⟩
      rcases hcases with ⟨_, value, hsucceeds⟩ | ⟨_, hsame⟩
      · exact executedAtThreshold_of_succeeds hbefore hconfigBefore hatBefore
          hsucceeds
      · rw [hsame]
        exact hatBefore

/-- While the configuration stays as it was when the operation was proposed, the
operation is executed exactly at the threshold in every state, if and only if the
threshold is at least two. -/
theorem executed_at_threshold_iff {host : Host} {later earlier : History}
    {proposal : Entry World Invocation} {w : World} {config : MultisigConfig}
    {id : Nat} (hrun : Reaches host (later ++ proposal :: earlier) w)
    (hproposed : opProposedIn host id proposal = true)
    (hconfig : proposal.after.multisigConfig = some config)
    (hunchanged : ∀ entry ∈ later,
      entry.after.multisigConfig = entry.before.multisigConfig) :
    (∀ entry ∈ later ++ [proposal],
        ExecutedAtThreshold config.threshold id entry.after) ↔
      2 ≤ config.threshold := by
  constructor
  · intro hall
    obtain ⟨op, hop, hopen, hlength⟩ := stored_of_opProposed hrun hproposed
    obtain ⟨found, hfound, hiff⟩ := hall proposal (by simp)
    rw [hop] at hfound
    cases hfound
    rw [hopen, hlength] at hiff
    by_contra hsmall
    exact Bool.false_ne_true (hiff.mpr (by omega))
  · intro hthreshold entry hentry
    rcases List.mem_append.mp hentry with hlater | hlast
    · obtain ⟨newer, older, rfl⟩ := List.append_of_mem hlater
      rw [List.append_assoc, List.cons_append] at hrun
      have hupTo : Reaches host ((entry :: older) ++ proposal :: earlier)
          entry.after := hrun.upTo
      refine (executedAtThreshold_since hupTo hproposed hconfig ?_ hthreshold).2
      intro old hold
      exact hunchanged old (List.mem_append_right newer hold)
    · rw [List.mem_singleton.mp hlast]
      have hupTo : Reaches host ([] ++ proposal :: earlier) proposal.after :=
        hrun.upTo
      exact (executedAtThreshold_since hupTo hproposed hconfig (by simp)
        hthreshold).2

/-- Two of two: the operation is open after the proposal and executed by the
second approval. -/
theorem executed_at_threshold_of_two :
    ∃ (later earlier : History) (proposal : Entry World Invocation) (w : World)
      (config : MultisigConfig),
      Reaches Sample.host (later ++ proposal :: earlier) w ∧
        opProposedIn Sample.host 1 proposal = true ∧ later.length = 1 ∧
        w.config.paused = true ∧ config.threshold = 2 ∧
        ∀ entry ∈ later ++ [proposal],
          ExecutedAtThreshold config.threshold 1 entry.after := by
  have hrun := Sample.play_reaches [
    Sample.invoke 1 Sample.admin (.admin (.initializeContract Sample.admin)),
    Sample.invoke 2 Sample.admin (.governance (.configureMultisig Sample.admin
      [Sample.employer, Sample.employee] 2)),
    Sample.invoke 10 Sample.employer
      (.governance (.multisigPropose Sample.employer .emergencyPause)),
    Sample.invoke 11 Sample.employee
      (.governance (.multisigApprove Sample.employee 1))] (by decide)
  refine ⟨[_], [_, _], _, _, _, hrun, by decide, rfl, by decide, rfl,
    (executed_at_threshold_iff hrun (by decide) rfl ?_).mpr (by decide)⟩
  simp only [List.mem_singleton, forall_eq]
  rfl

/-- One of one: the proposer's approval reaches the threshold and nothing
executes the operation. -/
theorem threshold_one_never_executes :
    ∃ (earlier : History) (proposal : Entry World Invocation) (w : World)
      (config : MultisigConfig),
      Reaches Sample.host ([] ++ proposal :: earlier) w ∧
        opProposedIn Sample.host 1 proposal = true ∧
        proposal.after.multisigConfig = some config ∧ config.threshold = 1 ∧
        ¬ ExecutedAtThreshold config.threshold 1 w := by
  have hrun := Sample.play_reaches [
    Sample.invoke 1 Sample.admin (.admin (.initializeContract Sample.admin)),
    Sample.invoke 2 Sample.admin (.governance (.configureMultisig Sample.admin
      [Sample.employer] 1)),
    Sample.invoke 10 Sample.employer
      (.governance (.multisigPropose Sample.employer .emergencyPause))] (by decide)
  refine ⟨[_, _], _, _, _, hrun, by decide, rfl, rfl, ?_⟩
  rintro ⟨op, hop, hiff⟩
  cases hop
  revert hiff
  decide

/-! ## The gate -/

/-- An operation of this kind became executed in this entry, with the approvals
the configuration asks for. -/
def ExecutesOp (entry : Entry World Invocation) (kind : AdminOp) : Prop :=
  ∃ id q q' config, entry.before.pendingOps id = some q ∧ q.executed = false ∧
    entry.after.pendingOps id = some q' ∧ q'.executed = true ∧ q'.op = kind ∧
    entry.before.multisigConfig = some config ∧
    config.threshold ≤ q'.approvals.length

/-- What the entry does to the installed code and, without a nonce, to the
paused flag, it does by executing an operation of that kind. -/
structure Gated (entry : Entry World Invocation) : Prop where
  wasm : entry.after.wasmHash ≠ entry.before.wasmHash →
    ∃ hash, entry.after.wasmHash = some hash ∧ ExecutesOp entry (.upgrade hash)
  pause : entry.before.config.paused = false →
    entry.after.config.paused = true →
    entry.after.config.adminNonce = entry.before.config.adminNonce →
      ExecutesOp entry .emergencyPause

/-- The call is no `upgrade` to a hash other than the installed one and no
`emergency_pause` of a contract that is not paused. -/
def SparesGate (w : World) (call : Call) : Prop :=
  (∀ admin hash nonce, call = .admin (.upgrade admin hash nonce) →
      w.wasmHash = some hash) ∧
    ∀ admin, call = .admin (.emergencyPause admin) → w.config.paused = true

/-- The hash a call leaves when it returns. -/
def wasmNext (w : World) : Call → Option (BitVec 256)
  | .admin (.upgrade _ newWasmHash _) => some newWasmHash
  | _ => w.wasmHash

theorem wasmHash_of_succeeds {host : Host} {w w' : World} {inv : Invocation}
    {value : Value} (h : Succeeds host w inv value w') :
    w'.wasmHash = wasmNext w inv.call := by
  obtain ⟨ctx, call, now_le, inRange⟩ := inv
  have heffect := effect_of_succeeds h
  unfold Succeeds at h
  change exec host ctx call w = .ok (value, w') at h
  change CallEffect host ctx w w' call at heffect
  cases heffect with
  | admin call _ hnext =>
      subst hnext
      cases call with
      | addAllowedToken admin token =>
          simp only [adminNext, Storage.addAllowedToken, wasmNext]
          split <;> rfl
      | _ => rfl
  | governance call _ =>
      have hwrites := execGovernance_writes h
      unfold GovernanceWrites at hwrites
      rw [hwrites]
      rfl
  | create call hcreated => exact congrArg Settings.wasmHash hcreated.sameSettings
  | onStream streamId call heffect =>
      rcases heffect with ⟨_, _, hsettings⟩ | ⟨_, _, _, _, _, hupdate⟩
      · exact congrArg Settings.wasmHash hsettings
      · exact congrArg Settings.wasmHash hupdate.sameSettings
  | feePayout admin token amount _ _ hpayout =>
      exact congrArg Settings.wasmHash hpayout.sameSettings
  | query query hsame => exact congrArg World.wasmHash hsame
  | directTransfer token source target amount hdirect =>
      exact congrArg Settings.wasmHash hdirect.sameSettings

/-- Only an approval executes an operation. -/
theorem not_executesOp {host : Host} {history : History} {w w' : World}
    {inv : Invocation} {value : Value} (hrun : Reaches host history w)
    (h : Succeeds host w inv value w')
    (hother : ∀ caller id, inv.call ≠ .governance (.multisigApprove caller id))
    (kind : AdminOp) : ¬ ExecutesOp ⟨w, inv, w'⟩ kind := by
  rintro ⟨id, q, q', config, hq, hopen, hq', hexecuted, _⟩
  change w.pendingOps id = some q at hq
  change w'.pendingOps id = some q' at hq'
  cases pendingOpChange_of_succeeds hrun h id with
  | same _ _ hsame =>
      rw [hsame, hq] at hq'
      cases hq'
      rw [hopen] at hexecuted
      cases hexecuted
  | proposed _ _ _ _ _ _ _ _ hnone _ =>
      rw [hq] at hnone
      cases hnone
  | approved caller _ _ hcall => exact hother caller id hcall

/-- The approval that completes a pause executes it. -/
theorem executesOp_of_completesPause {host : Host} {history : History}
    {w w' : World} {inv : Invocation} {value : Value} {caller : Address}
    {opId : Nat} (hrun : Reaches host history w)
    (h : Succeeds host w inv value w')
    (hcall : inv.call = .governance (.multisigApprove caller opId))
    (hcompletes : completesPause w opId = true) :
    ExecutesOp ⟨w, inv, w'⟩ .emergencyPause := by
  cases pendingOpChange_of_succeeds hrun h opId with
  | same hother _ _ => exact absurd hcall (hother caller)
  | proposed _ _ _ hpropose =>
      rw [hcall] at hpropose
      cases hpropose
  | approved _ config pending _ _ hconfig _ hfound hopen _ _ hop =>
      simp only [completesPause, hconfig, hfound, Bool.and_eq_true,
        decide_eq_true_eq] at hcompletes
      refine ⟨opId, pending, _, config, hfound, hopen, hop,
        decide_eq_true hcompletes.1, hcompletes.2, hconfig, ?_⟩
      simpa [approvedBy] using hcompletes.1

/-- The calls that set the paused flag without a nonce. -/
theorem pauses_without_nonce {w : World} {call : Call}
    (hwritten : pausedWritten w call = some true)
    (hnonce : Call.nonce? call = none) :
    (∃ admin, call = .admin (.emergencyPause admin)) ∨
      ∃ caller opId, call = .governance (.multisigApprove caller opId) ∧
        completesPause w opId = true := by
  unfold pausedWritten at hwritten
  split at hwritten
  · cases hnonce
  · cases hnonce
  · rename_i admin
    exact Or.inl ⟨admin, rfl⟩
  · rename_i caller opId
    rw [Option.ite_none_right_eq_some] at hwritten
    exact Or.inr ⟨caller, opId, rfl, hwritten.1⟩
  · cases hwritten

/-- What a call that paused the contract without a nonce was. -/
theorem emergencyPause_cases {host : Host} {w w' : World} {inv : Invocation}
    {value : Value} (h : Succeeds host w inv value w')
    (hbefore : w.config.paused = false) (hafter : w'.config.paused = true)
    (hnonce : w'.config.adminNonce = w.config.adminNonce) :
    (∃ admin, inv.call = .admin (.emergencyPause admin)) ∨
      ∃ caller opId, inv.call = .governance (.multisigApprove caller opId) ∧
        completesPause w opId = true := by
  rw [config_of_succeeds h] at hafter hnonce
  rw [(configNext_fields w inv.call).2.2.2, hbefore] at hafter
  rw [configNext_adminNonce] at hnonce
  apply pauses_without_nonce
  · cases hwritten : pausedWritten w inv.call with
    | none =>
        rw [hwritten] at hafter
        cases hafter
    | some paused =>
        rw [hwritten] at hafter
        exact congrArg some hafter
  · cases hguarded : Call.nonce? inv.call with
    | none => rfl
    | some nonce =>
        rw [hguarded] at hnonce
        simp at hnonce

/-- A call that returned is gated exactly when it spares the gate. -/
theorem gated_iff {host : Host} {history : History} {w w' : World}
    {inv : Invocation} {value : Value} (hrun : Reaches host history w)
    (h : Succeeds host w inv value w') :
    Gated ⟨w, inv, w'⟩ ↔ SparesGate w inv.call := by
  constructor
  · intro hgated
    constructor
    · intro admin hash nonce hcall
      by_contra hother
      -- the call is no approval, so it carries out no operation
      have hnew : w'.wasmHash = some hash := by
        rw [wasmHash_of_succeeds h, hcall]
        rfl
      obtain ⟨found, _, hexecutes⟩ := hgated.wasm (by
        show w'.wasmHash ≠ w.wasmHash
        rw [hnew]
        exact Ne.symm hother)
      exact not_executesOp hrun h (by simp [hcall]) _ hexecutes
    · intro admin hcall
      by_contra hrunning
      rw [Bool.not_eq_true] at hrunning
      have hconfig : w'.config = { w.config with paused := true } := by
        rw [config_of_succeeds h, hcall]
        rfl
      have hexecutes := hgated.pause hrunning (by
        show w'.config.paused = true
        rw [hconfig]) (by
        show w'.config.adminNonce = w.config.adminNonce
        rw [hconfig])
      exact not_executesOp hrun h (by simp [hcall]) _ hexecutes
  · rintro ⟨hupgrade, hpause⟩
    constructor
    · intro hchanged
      change w'.wasmHash ≠ w.wasmHash at hchanged
      rw [wasmHash_of_succeeds h] at hchanged
      unfold wasmNext at hchanged
      split at hchanged
      · rename_i admin hash nonce hcall
        exact absurd (hupgrade admin hash nonce hcall).symm hchanged
      · exact absurd rfl hchanged
    · intro hbefore hafter hnonce
      rcases emergencyPause_cases h hbefore hafter hnonce with
        ⟨admin, hcall⟩ | ⟨caller, opId, hcall, hcompletes⟩
      · have hpaused := hpause admin hcall
        rw [show w.config.paused = false from hbefore] at hpaused
        cases hpaused
      · exact executesOp_of_completesPause hrun h hcall hcompletes

/-- An entry that panicked is gated. -/
theorem gated_of_same {entry : Entry World Invocation}
    (hsame : entry.after = entry.before) : Gated entry := by
  constructor
  · intro hchanged
    rw [hsame] at hchanged
    exact absurd rfl hchanged
  · intro hbefore hafter
    rw [hsame, hbefore] at hafter
    cases hafter

/-- In every run, the steps after a `configure_multisig` that returned install
code and pause without a nonce only by executing an approved operation of that
kind, exactly when none of them is an `upgrade` to another hash or an
`emergency_pause` of a running contract that returned. -/
theorem gate_kept_iff {host : Host} {later earlier : History}
    {configuration : Entry World Invocation} {w : World}
    (hrun : Reaches host (later ++ configuration :: earlier) w)
    {caller : Address} {admins : List Address} {threshold : Nat}
    (_hcall : configuration.input.call =
      .governance (.configureMultisig caller admins threshold))
    (_hreturned : returned host configuration = true) :
    (∀ entry ∈ later, Gated entry) ↔
      ∀ entry ∈ later, SparesGate entry.before entry.input.call ∨
        Fails host entry.before entry.input := by
  refine forall₂_congr fun entry hentry => ?_
  obtain ⟨newer, older, rfl⟩ := List.append_of_mem hentry
  rw [List.append_assoc, List.cons_append] at hrun
  obtain ⟨hbefore, hafter, _⟩ := hrun.of_split
  change entry.after = step host entry.before entry.input at hafter
  rcases step_cases host entry.before entry.input with
    ⟨value, hsucceeds⟩ | ⟨hfails, hsame⟩
  · rw [← hafter] at hsucceeds
    rw [or_iff_left hsucceeds.not_fails]
    exact gated_iff hbefore hsucceeds
  · exact iff_of_true (gated_of_same (hafter.trans hsame)) (Or.inr hfails)

/-- The members pause the contract together, and the administrator unpauses it
with a nonce. -/
theorem gate_kept_of_approvals :
    ∃ (later earlier : History) (configuration : Entry World Invocation)
      (w : World), Reaches Sample.host (later ++ configuration :: earlier) w ∧
        later.length = 3 ∧ ∀ entry ∈ later, Gated entry := by
  have hrun := Sample.play_reaches [
    Sample.invoke 1 Sample.admin (.admin (.initializeContract Sample.admin)),
    Sample.invoke 2 Sample.admin (.governance (.configureMultisig Sample.admin
      [Sample.employer, Sample.employee] 2)),
    Sample.invoke 10 Sample.employer
      (.governance (.multisigPropose Sample.employer .emergencyPause)),
    Sample.invoke 11 Sample.employee
      (.governance (.multisigApprove Sample.employee 1)),
    Sample.invoke 12 Sample.admin (.admin (.unpauseContract Sample.admin 0))]
    (by decide)
  refine ⟨[_, _, _], [_], _, _, hrun, rfl,
    (gate_kept_iff hrun rfl (by decide)).mpr ?_⟩
  intro entry hentry
  left
  simp only [List.mem_cons, List.not_mem_nil, or_false] at hentry
  rcases hentry with rfl | rfl | rfl
  all_goals exact ⟨by rintro _ _ _ ⟨⟩, by rintro _ ⟨⟩⟩

/-- After the configuration the administrator pauses the contract and replaces
its code alone. -/
theorem admin_bypasses_gate :
    ∃ (later earlier : History) (configuration : Entry World Invocation)
      (w : World), Reaches Sample.host (later ++ configuration :: earlier) w ∧
        configuration.input.call = .governance (.configureMultisig Sample.admin
          [Sample.employer, Sample.employee] 2) ∧
        returned Sample.host configuration = true ∧ w.config.paused = true ∧
        w.wasmHash = some 7 ∧ w.pendingOpCount = 0 ∧
        ¬ ∀ entry ∈ later, Gated entry := by
  have hrun := Sample.play_reaches [
    Sample.invoke 1 Sample.admin (.admin (.initializeContract Sample.admin)),
    Sample.invoke 2 Sample.admin (.governance (.configureMultisig Sample.admin
      [Sample.employer, Sample.employee] 2)),
    Sample.invoke 10 Sample.admin (.admin (.emergencyPause Sample.admin)),
    Sample.invoke 11 Sample.admin (.admin (.upgrade Sample.admin 7 0))]
    (by decide)
  refine ⟨[_, _], [_], _, _, hrun, rfl, by decide, by decide, by decide,
    by decide, ?_⟩
  intro hall
  obtain ⟨_, _, id, q, _, _, hq, _⟩ := (hall _ List.mem_cons_self).wasm (by decide)
  cases hq

end Properties
end Paystream
