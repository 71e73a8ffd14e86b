import Mathlib.Data.Rat.Defs
import Mathlib.Logic.Function.Basic
import Paystream.Library.History

/-!
# The approval workflow

`api/services/streamWorkflowService.js`: a request for approval is created with a
list of approvers, a number of approvals it needs and a deadline, and is then
approved, rejected or overridden.

Times are milliseconds; the clock is read once for each call.  A deadline that is
given names a time.  The number of approvals is what a JSON number can be.
-/

namespace Paystream
namespace Services
namespace Workflow

open Library

/-! ## Requests -/

inductive Action
  | requested
  | approved
  | rejected
  | overridden
  deriving DecidableEq

inductive Status
  | pending
  | approved
  | rejected
  | overridden
  deriving DecidableEq

/-- An entry of the audit trail. -/
structure AuditEntry where
  actor : String
  action : Action
  timestamp : Nat
  note : String
  deriving DecidableEq

/-- An entry of `decisions`. -/
structure Decision where
  actor : String
  action : Action
  note : String
  deriving DecidableEq

structure Notification where
  approver : String
  channel : String
  sentAt : Nat
  deriving DecidableEq

/-- What is read of the metadata of a request. -/
structure Metadata where
  deadline : Option Nat
  note : Option String
  deriving DecidableEq

structure Request where
  id : String
  title : String
  requestedBy : String
  approvers : List String
  requiredApprovals : ℚ
  status : Status
  deadline : Nat
  /-- oldest first -/
  auditTrail : List AuditEntry
  notifications : List Notification
  decisions : List Decision
  rejectionReason : Option String
  overrideReason : Option String
  overrideBy : Option String
  metadata : Metadata
  deriving DecidableEq

/-- The arguments of `createApprovalRequest`, with none for what is not given. -/
structure RequestInput where
  title : Option String
  requestedBy : String
  approvers : Option (List String)
  requiredApprovals : Option ℚ
  metadata : Option Metadata
  deriving DecidableEq

/-- `text || default`. -/
def textOr (text : Option String) (default : String) : String :=
  (text.filter fun text => decide (text ≠ "")).getD default

/-- A day in milliseconds. -/
def oneDay : Nat := 24 * 60 * 60 * 1000

/-- The id of a request created now. -/
def approvalId (now : Nat) : String :=
  "approval-" ++ toString now

/-- The request `createApprovalRequest` builds. -/
def newRequest (now : Nat) (input : RequestInput) : Request :=
  let approvers := input.approvers.getD []
  let metadata := input.metadata.getD ⟨none, none⟩
  { id := approvalId now
    title := textOr input.title "Pending approval"
    requestedBy := input.requestedBy
    approvers := approvers
    requiredApprovals := input.requiredApprovals.getD 1
    status := .pending
    deadline := metadata.deadline.getD (now + oneDay)
    auditTrail := [⟨input.requestedBy, .requested, now,
      textOr metadata.note "Approval requested"⟩]
    notifications := approvers.map fun approver => ⟨approver, "email", now⟩
    decisions := []
    rejectionReason := none
    overrideReason := none
    overrideBy := none
    metadata := metadata }

/-- The approvals of the audit trail. -/
def Request.approvals (request : Request) : List AuditEntry :=
  request.auditTrail.filter fun entry => decide (entry.action = .approved)

/-! ## Operations -/

/-- `_requests`. -/
abbrev State := String → Option Request

/-- `this._requests.set(request.id, request)`, which is also what a change of a
stored request amounts to. -/
def store (requests : State) (requestId : String) (request : Request) : State :=
  Function.update requests requestId (some request)

/-- `createApprovalRequest`. -/
def createApprovalRequest (now : Nat) (input : RequestInput) (requests : State) :
    Request × State :=
  let request := newRequest now input
  (request, store requests request.id request)

/-- The request with one more approval on record. -/
def Request.withApproval (request : Request) (now : Nat) (approver note : String) :
    Request :=
  { request with
    auditTrail := request.auditTrail ++ [⟨approver, .approved, now, note⟩]
    decisions := request.decisions ++ [⟨approver, .approved, note⟩] }

/-- The approval of a pending request. -/
def Request.approve (request : Request) (now : Nat) (approver note : String) :
    Request :=
  let request := request.withApproval now approver note
  let approvedCount := request.approvals.length
  if request.requiredApprovals ≤ (approvedCount : ℚ) then
    { request with status := .approved }
  else
    request

/-- `approveApprovalRequest`. -/
def approveApprovalRequest (now : Nat) (requestId approver : String)
    (note : Option String) (requests : State) : Except String (Request × State) :=
  match requests requestId with
  | none => .error "Approval request not found"
  | some request =>
      if request.status ≠ .pending then
        .ok (request, requests)
      else
        let request := request.approve now approver (note.getD "Approved")
        .ok (request, store requests requestId request)

/-- The rejection of a pending request. -/
def Request.reject (request : Request) (now : Nat) (approver reason : String) :
    Request :=
  { request with
    auditTrail := request.auditTrail ++ [⟨approver, .rejected, now, reason⟩]
    rejectionReason := some reason
    status := .rejected }

/-- `rejectApprovalRequest`. -/
def rejectApprovalRequest (now : Nat) (requestId approver reason : String)
    (requests : State) : Except String (Request × State) :=
  match requests requestId with
  | none => .error "Approval request not found"
  | some request =>
      if request.status ≠ .pending then
        .ok (request, requests)
      else
        let request := request.reject now approver reason
        .ok (request, store requests requestId request)

/-- The override of a request, whatever its status. -/
def Request.override (request : Request) (now : Nat) (actor reason : String) :
    Request :=
  { request with
    auditTrail := request.auditTrail ++ [⟨actor, .overridden, now, reason⟩]
    overrideReason := some reason
    overrideBy := some actor
    status := .overridden }

/-- `overrideApprovalRequest`. -/
def overrideApprovalRequest (now : Nat) (requestId actor reason : String)
    (requests : State) : Except String (Request × State) :=
  match requests requestId with
  | none => .error "Approval request not found"
  | some request =>
      let request := request.override now actor reason
      .ok (request, store requests requestId request)

/-! ## Runs -/

/-- A call, with the time it is made at. -/
inductive Call
  | create (now : Nat) (input : RequestInput)
  | approve (now : Nat) (requestId approver : String) (note : Option String)
  | reject (now : Nat) (requestId approver reason : String)
  | override (now : Nat) (requestId actor reason : String)
  deriving DecidableEq

/-- What is stored after a call; one that throws changes nothing. -/
def stateAfter (requests : State) (result : Except String (Request × State)) :
    State :=
  match result with
  | .ok (_, requests) => requests
  | .error _ => requests

def step (requests : State) : Call → State
  | .create now input => (createApprovalRequest now input requests).2
  | .approve now requestId approver note =>
      stateAfter requests (approveApprovalRequest now requestId approver note requests)
  | .reject now requestId approver reason =>
      stateAfter requests (rejectApprovalRequest now requestId approver reason requests)
  | .override now requestId actor reason =>
      stateAfter requests (overrideApprovalRequest now requestId actor reason requests)

/-- All sequences of calls, at any times. -/
def system : System State Call where
  initial := fun requests => requests = fun _ => none
  time := fun _ => 0
  step := step

end Workflow
end Services
end Paystream
