import Paystream.Library.Quorum
import Paystream.Services.Workflow

/-!
# The approval quorum

An approval is counted whoever gives it, however often and whenever: neither the
list of approvers nor the deadline is read again after a request was created.  So
a request is approved with a quorum exactly when the calls see to it
(`quorum_kept_iff`): where an approval completes a request that needs any, all the
approvals it was given have to be by different approvers of its list, and in time.

The number is reached by the last approval (`JustBelow` holds before it), which
is why one approval that does not count is one too many.
-/

namespace Paystream
namespace Properties

open Library
open Services.Workflow

/-! ## The statement -/

/-- The approval is one by an approver of the request, in time. -/
def InTime (request : Request) (entry : AuditEntry) : Prop :=
  entry.actor ∈ request.approvers ∧ entry.timestamp ≤ request.deadline

/-- Enough different approvers of the request approved it in time. -/
def HasQuorum (request : Request) : Prop :=
  Quorum AuditEntry.actor (InTime request) request.approvals
    request.requiredApprovals

/-- Every approved request has its quorum. -/
def QuorumKept (requests : State) : Prop :=
  ∀ id request, requests id = some request → request.status = .approved →
    HasQuorum request

/-- The approvals recorded so far, and the one to be recorded, are by different
approvers of the request, and in time. -/
def AllInTime (request : Request) (now : Nat) (approver note : String) : Prop :=
  AllCount AuditEntry.actor (InTime request)
    (request.approvals ++ [⟨approver, .approved, now, note⟩])

/-- Where the call completes a pending request that needs any approval, all its
approvals count. -/
def CompletesInTime (requests : State) : Call → Prop
  | .approve now requestId approver note => ∀ request,
      requests requestId = some request → request.status = .pending →
        request.requiredApprovals ≤ (request.approvals.length + 1 : ℚ) →
          request.requiredApprovals ≤ 0 ∨
            AllInTime request now approver (note.getD "Approved")
  | _ => True

/-! ## One approval -/

section Approve

variable (request : Request) (now : Nat) (approver note : String)

theorem approvals_withApproval :
    (request.withApproval now approver note).approvals =
      request.approvals ++ [⟨approver, .approved, now, note⟩] := by
  simp [Request.withApproval, Request.approvals]

/-- An approval changes the status and what is recorded of it. -/
theorem approve_eq :
    request.approve now approver note =
      { request.withApproval now approver note with
        status :=
          if request.requiredApprovals ≤ (request.approvals.length + 1 : ℚ) then
            .approved
          else
            request.status } := by
  have hcount : (((request.withApproval now approver note).approvals.length : Nat) : ℚ) =
      request.approvals.length + 1 := by
    rw [approvals_withApproval, List.length_append, List.length_singleton]
    push_cast
    rfl
  have hneeded : (request.withApproval now approver note).requiredApprovals =
      request.requiredApprovals := by
    rfl
  unfold Request.approve
  simp only [hcount, hneeded]
  by_cases henough : request.requiredApprovals ≤ (request.approvals.length + 1 : ℚ)
  · rw [if_pos henough, if_pos henough]
  · rw [if_neg henough, if_neg henough]
    rfl

theorem approvals_approve :
    (request.approve now approver note).approvals =
      request.approvals ++ [⟨approver, .approved, now, note⟩] := by
  rw [approve_eq]
  exact approvals_withApproval request now approver note

theorem requiredApprovals_approve :
    (request.approve now approver note).requiredApprovals =
      request.requiredApprovals := by
  rw [approve_eq]
  rfl

theorem inTime_approve :
    InTime (request.approve now approver note) = InTime request := by
  rw [approve_eq]
  rfl

theorem status_approve :
    (request.approve now approver note).status =
      if request.requiredApprovals ≤ (request.approvals.length + 1 : ℚ) then .approved
      else request.status := by
  rw [approve_eq]

end Approve

/-- The approval that completes a request gives it a quorum exactly when no
approval was needed, or all of them count. -/
theorem hasQuorum_approve_iff {request : Request}
    (hbelow : 0 < request.requiredApprovals →
      (request.approvals.length : ℚ) < request.requiredApprovals)
    (henough : request.requiredApprovals ≤ (request.approvals.length + 1 : ℚ))
    (now : Nat) (approver note : String) :
    HasQuorum (request.approve now approver note) ↔
      request.requiredApprovals ≤ 0 ∨ AllInTime request now approver note := by
  unfold HasQuorum
  rw [inTime_approve, approvals_approve, requiredApprovals_approve]
  by_cases hneeded : request.requiredApprovals ≤ 0
  · exact iff_of_true (quorum_of_nonpos hneeded) (Or.inl hneeded)
  · have hbelow := hbelow (not_le.mp hneeded)
    -- one approval less was not enough: none of them can be spared
    rw [quorum_iff_of_just_enough]
    · exact ⟨Or.inr, fun h => h.resolve_left hneeded⟩
    · rw [List.length_append, List.length_singleton]
      push_cast
      exact henough
    · rw [List.length_append, List.length_singleton]
      push_cast
      linarith

/-! ## One call -/

/-- Every call changes nothing, or stores a request that is not approved and has
no approvals as long as it is pending, or approves a pending request. -/
theorem step_cases (requests : State) (call : Call) :
    (step requests call = requests ∧ CompletesInTime requests call) ∨
      (∃ id request, step requests call = store requests id request ∧
        request.status ≠ .approved ∧
        (request.status = .pending → request.approvals = []) ∧
        CompletesInTime requests call) ∨
      ∃ now id approver note request, call = .approve now id approver note ∧
        requests id = some request ∧ request.status = .pending ∧
        step requests call = store requests id
          (request.approve now approver (note.getD "Approved")) := by
  cases call with
  | create now input =>
      refine Or.inr (Or.inl ⟨_, newRequest now input, rfl, ?_, ?_, trivial⟩)
      · simp [newRequest]
      · intro _
        simp [newRequest, Request.approvals]
  | approve now requestId approver note =>
      cases hfound : requests requestId with
      | none =>
          refine Or.inl ⟨?_, ?_⟩
          · simp [step, approveApprovalRequest, stateAfter, hfound]
          · intro request hrequest
            rw [hfound] at hrequest
            cases hrequest
      | some request =>
          by_cases hstatus : request.status = .pending
          · refine Or.inr (Or.inr ⟨now, requestId, approver, note, request, rfl,
              hfound, hstatus, ?_⟩)
            simp [step, approveApprovalRequest, stateAfter, hfound, hstatus]
          · refine Or.inl ⟨?_, ?_⟩
            · simp [step, approveApprovalRequest, stateAfter, hfound, hstatus]
            · intro other hother hpending
              rw [hfound] at hother
              cases hother
              exact absurd hpending hstatus
  | reject now requestId approver reason =>
      cases hfound : requests requestId with
      | none =>
          refine Or.inl ⟨?_, trivial⟩
          simp [step, rejectApprovalRequest, stateAfter, hfound]
      | some request =>
          by_cases hstatus : request.status = .pending
          · refine Or.inr (Or.inl ⟨requestId, request.reject now approver reason, ?_,
              by simp [Request.reject], by simp [Request.reject], trivial⟩)
            simp [step, rejectApprovalRequest, stateAfter, hfound, hstatus]
          · refine Or.inl ⟨?_, trivial⟩
            simp [step, rejectApprovalRequest, stateAfter, hfound, hstatus]
  | override now requestId actor reason =>
      -- the only call that does not ask for the status
      cases hfound : requests requestId with
      | none =>
          refine Or.inl ⟨?_, trivial⟩
          simp [step, overrideApprovalRequest, stateAfter, hfound]
      | some request =>
          refine Or.inr (Or.inl ⟨requestId, request.override now actor reason, ?_,
            by simp [Request.override], by simp [Request.override], trivial⟩)
          simp [step, overrideApprovalRequest, stateAfter, hfound]

/-- A pending request has fewer approvals than it needs, if it needs any. -/
def JustBelow (requests : State) : Prop :=
  ∀ id request, requests id = some request → request.status = .pending →
    0 < request.requiredApprovals →
      (request.approvals.length : ℚ) < request.requiredApprovals

/-- A fact about all requests, where one of them is stored. -/
theorem forall_store_iff {P : Request → Prop} {requests : State}
    (h : ∀ id request, requests id = some request → P request) (id : String)
    (new : Request) :
    (∀ other request, store requests id new other = some request → P request) ↔
      P new := by
  constructor
  · intro hall
    exact hall id new (Function.update_self ..)
  · intro hnew other request hfound
    by_cases hother : other = id
    · subst hother
      rw [store, Function.update_self] at hfound
      cases hfound
      exact hnew
    · rw [store, Function.update_of_ne hother] at hfound
      exact h other request hfound

theorem QuorumKept.store_iff {requests : State} (h : QuorumKept requests)
    (id : String) (new : Request) :
    QuorumKept (store requests id new) ↔ (new.status = .approved → HasQuorum new) :=
  forall_store_iff (P := fun request => request.status = .approved → HasQuorum request)
    h id new

theorem JustBelow.store {requests : State} (h : JustBelow requests) (id : String)
    {new : Request}
    (hnew : new.status = .pending → 0 < new.requiredApprovals →
      (new.approvals.length : ℚ) < new.requiredApprovals) :
    JustBelow (store requests id new) :=
  (forall_store_iff (P := fun request => request.status = .pending →
    0 < request.requiredApprovals →
      (request.approvals.length : ℚ) < request.requiredApprovals) h id new).mpr hnew

theorem JustBelow.step {requests : State} (h : JustBelow requests) (call : Call) :
    JustBelow (step requests call) := by
  rcases step_cases requests call with ⟨hsame, _⟩ |
    ⟨id, new, hstored, _, hnone, _⟩ |
    ⟨now, id, approver, note, request, _, hfound, hpending, hstored⟩
  · rw [hsame]
    exact h
  · rw [hstored]
    apply h.store
    intro hstatus hneeded
    rw [hnone hstatus, List.length_nil, Nat.cast_zero]
    exact hneeded
  · rw [hstored]
    apply h.store
    rw [status_approve, approvals_approve, requiredApprovals_approve,
      List.length_append, List.length_singleton]
    intro hstatus _
    push_cast
    -- still pending after the approval, so it was not the last one needed
    by_contra henough
    rw [if_pos (not_lt.mp henough)] at hstatus
    cases hstatus

theorem justBelow_of_run {history : List (Entry State Call)} {requests : State}
    (hrun : system.Run history requests) : JustBelow requests := by
  refine hrun.invariant (P := fun _ requests => JustBelow requests) ?_ ?_
  · rintro requests rfl id request hfound
    cases hfound
  · intro history requests call _ _ ih
    exact ih.step call

/-- From a state in which every approved request has its quorum, a call keeps it
so exactly when it completes no request otherwise. -/
theorem quorum_step_iff {requests : State} (hbelow : JustBelow requests)
    (hkept : QuorumKept requests) (call : Call) :
    QuorumKept (step requests call) ↔ CompletesInTime requests call := by
  rcases step_cases requests call with ⟨hsame, hcompletes⟩ |
    ⟨id, new, hstored, hstatus, _, hcompletes⟩ |
    ⟨now, id, approver, note, request, rfl, hfound, hpending, hstored⟩
  · rw [hsame]
    exact iff_of_true hkept hcompletes
  · rw [hstored, hkept.store_iff]
    exact iff_of_true (fun happroved => absurd happroved hstatus) hcompletes
  · rw [hstored, hkept.store_iff, status_approve]
    have hcall : CompletesInTime requests (.approve now id approver note) ↔
        (request.requiredApprovals ≤ (request.approvals.length + 1 : ℚ) →
          request.requiredApprovals ≤ 0 ∨
            AllInTime request now approver (note.getD "Approved")) := by
      constructor
      · intro h
        exact h request hfound hpending
      · intro h other hother _
        rw [hfound] at hother
        cases hother
        exact h
    rw [hcall]
    by_cases henough : request.requiredApprovals ≤ (request.approvals.length + 1 : ℚ)
    · rw [if_pos henough, hasQuorum_approve_iff (hbelow id request hfound hpending)
        henough]
      exact ⟨fun h _ => h rfl, fun h _ => h henough⟩
    · rw [if_neg henough, hpending]
      exact iff_of_true (fun h => absurd h (by decide)) (fun h => absurd h henough)

/-- In a run, every approved request has its quorum after every call exactly when
each approval that completes a request does so with approvals that all count. -/
theorem quorum_kept_iff {history : List (Entry State Call)} {requests : State}
    (hrun : system.Run history requests) :
    System.Throughout QuorumKept history requests ↔
      ∀ entry ∈ history, CompletesInTime entry.before entry.input := by
  refine hrun.throughout_iff CompletesInTime ?_ ?_
  · rintro requests rfl id request hfound
    cases hfound
  · intro history requests call hrun _ hkept
    exact quorum_step_iff (justBelow_of_run hrun) hkept call

/-- Two of two approvers are needed. -/
def twoApprovers : RequestInput where
  title := none
  requestedBy := "carol"
  approvers := some ["alice", "bob"]
  requiredApprovals := some 2
  metadata := none

/-- The run of some calls from the start. -/
def workflowRun (calls : List Call) : List (Entry State Call) × State :=
  system.replay [] (fun _ => none) calls

theorem workflowRun_run (calls : List Call) (horder : system.InOrder 0 calls = true) :
    system.Run (workflowRun calls).1 (workflowRun calls).2 :=
  ⟨_, rfl, System.Path.stay.replay horder⟩

/-- What decides about the quorum of a request. -/
def quorumView (request : Request) : List AuditEntry × List String × Nat × ℚ :=
  (request.approvals, request.approvers, request.deadline, request.requiredApprovals)

theorem quorumView_of_found {requests : State} {id : String} {request : Request}
    {view : List AuditEntry × List String × Nat × ℚ}
    (hfound : requests id = some request)
    (hview : (requests id).map quorumView = some view) :
    request.approvals = view.1 ∧ request.approvers = view.2.1 ∧
      request.deadline = view.2.2.1 ∧ request.requiredApprovals = view.2.2.2 := by
  rw [hfound, Option.map_some, Option.some.injEq] at hview
  rw [← hview]
  exact ⟨rfl, rfl, rfl, rfl⟩

/-- Both approvers approve in time. -/
theorem quorum_kept_of_two :
    ∃ history requests, system.Run history requests ∧
      (requests "approval-5").map Request.status = some .approved ∧
      System.Throughout QuorumKept history requests := by
  have hrun := workflowRun_run [.create 5 twoApprovers,
    .approve 10 "approval-5" "alice" none, .approve 20 "approval-5" "bob" none]
    (by decide)
  refine ⟨_, _, hrun, by decide, (quorum_kept_iff hrun).mpr ?_⟩
  refine List.forall_mem_cons.mpr ⟨?_, List.forall_mem_cons.mpr ⟨?_,
    List.forall_mem_singleton.mpr trivial⟩⟩
  · -- the second approval completes the request
    intro request hfound _ _
    obtain ⟨happrovals, happrovers, hdeadline, _⟩ := quorumView_of_found hfound
      (show _ = some ([⟨"alice", .approved, 10, "Approved"⟩], ["alice", "bob"],
        86400005, 2) by decide)
    refine Or.inr ⟨?_, ?_⟩
    · rw [happrovals]
      decide
    · unfold InTime
      rw [happrovals, happrovers, hdeadline]
      decide
  · -- the first does not
    intro request hfound _ henough
    obtain ⟨happrovals, _, _, hneeded⟩ := quorumView_of_found hfound
      (show _ = some ([], ["alice", "bob"], 86400005, 2) by decide)
    rw [happrovals, hneeded] at henough
    norm_num at henough

def strangerCalls : List Call :=
  [.create 5 twoApprovers, .approve 10 "approval-5" "mallory" none,
    .approve 200000000 "approval-5" "mallory" none]

/-- A stranger approves twice, the second time a day late. -/
theorem stranger_approves :
    ∃ history requests, system.Run history requests ∧
      (requests "approval-5").map Request.status = some .approved ∧
      ¬ System.Throughout QuorumKept history requests := by
  have hrun := workflowRun_run strangerCalls (by decide)
  have hstatus : ((workflowRun strangerCalls).2 "approval-5").map Request.status =
      some .approved := by
    decide
  refine ⟨_, _, hrun, hstatus, ?_⟩
  rintro ⟨hkept, _⟩
  obtain ⟨request, hfound, happroved⟩ := Option.map_eq_some_iff.mp hstatus
  obtain ⟨happrovals, happrovers, _, hneeded⟩ := quorumView_of_found hfound
    (show _ = some ([⟨"mallory", .approved, 10, "Approved"⟩,
      ⟨"mallory", .approved, 200000000, "Approved"⟩], ["alice", "bob"],
        86400005, 2) by decide)
  obtain ⟨voters, hvoters, hcard⟩ := hkept "approval-5" request hfound happroved
  have hempty : voters = ∅ := by
    rw [Finset.eq_empty_iff_forall_notMem]
    intro v hv
    obtain ⟨vote, hvote, _, hmember, _⟩ := hvoters v hv
    rw [happrovals] at hvote
    rw [happrovers] at hmember
    have hactor : ∀ vote ∈ [(⟨"mallory", .approved, 10, "Approved"⟩ : AuditEntry),
        ⟨"mallory", .approved, 200000000, "Approved"⟩],
        vote.actor ∉ ["alice", "bob"] := by
      decide
    exact hactor vote hvote hmember
  rw [hempty, hneeded, Finset.card_empty] at hcard
  norm_num at hcard

end Properties
end Paystream
