import Paystream.Semantics.StreamView
import Paystream.Semantics.Governance

/-!
# What the other calls publish

`OnStreamEmits` has the events of the calls on a stream.  Administration and
governance publish only events that concern no stream (`quiet_of_succeeds`), and a
creation one event for each stream it stores (`createShared_publishes`).
-/

namespace Paystream
namespace Semantics

open Library
open Contract
open Contract.Storage
open Contract.StreamContract

/-! ## Events that concern no stream -/

/-- The stream an event concerns, if it concerns one. -/
def Event.subject : Event → Option Nat
  | .streamCreated id _ _ _ _ => some id
  | .streamTransferred id _ _ => some id
  | .withdrawn id _ _ => some id
  | .protocolFeeCollected id _ _ => some id
  | .streamCancelled id _ _ _ _ => some id
  | .streamPaused id _ _ _ => some id
  | .streamResumed id _ _ _ => some id
  | .toppedUp id _ _ => some id
  | .employerTransferProposed id _ _ => some id
  | .employerTransferAccepted id _ _ => some id
  | .nearExhaustion id _ _ => some id
  | .rateChanged id _ _ => some id
  | .delegateSet id _ => some id
  | .protocolFeesWithdrawn _ _ _ => none
  | .contractPaused _ => none
  | .proposalCreated _ => none
  | .proposalExecuted _ => none

/-- The events and transfers of a call concern no stream. -/
def Quiet (events : List Event) (log : List TokenTransfer) : Prop :=
  (∀ event ∈ events, Event.subject event = none) ∧
    ∀ transfer ∈ log, transfer.purpose.streamId = none

theorem Quiet.nothing : Quiet [] [] := by
  constructor
  · intro event h
    cases h
  · intro transfer h
    cases h

theorem Quiet.one {event : Event} (h : Event.subject event = none) :
    Quiet [event] [] := by
  refine ⟨?_, Quiet.nothing.2⟩
  intro other hother
  rw [List.mem_singleton.mp hother]
  exact h

theorem adminNext_logged (w : World) (call : AdminCall) :
    ∃ events, Quiet events [] ∧ Logged w (adminNext w call) events [] := by
  cases call with
  | pauseContract admin nonce =>
      exact ⟨[.contractPaused true], .one rfl, rfl, rfl⟩
  | unpauseContract admin nonce =>
      exact ⟨[.contractPaused false], .one rfl, rfl, rfl⟩
  | emergencyPause admin =>
      exact ⟨[.contractPaused true], .one rfl, rfl, rfl⟩
  | addAllowedToken admin token =>
      refine ⟨[], .nothing, ?_⟩
      simp only [adminNext, Storage.addAllowedToken]
      split
      · exact ⟨rfl, rfl⟩
      · exact ⟨rfl, rfl⟩
  | _ => exact ⟨[], .nothing, rfl, rfl⟩

theorem applyProposal_logged (w : World) (proposal : Proposal) :
    Logged w (applyProposal w proposal) [] [] := by
  unfold applyProposal
  cases proposal.param
  · exact ⟨rfl, rfl⟩
  · exact ⟨rfl, rfl⟩
  · exact ⟨rfl, rfl⟩

theorem GovernanceEffect.logged {ctx : Context} {call : GovernanceCall}
    {w w' : World} (h : GovernanceEffect ctx w call w') :
    ∃ events, Quiet events [] ∧ Logged w w' events [] := by
  cases h with
  | proposed proposer param newValue _ =>
      exact ⟨[.proposalCreated (w.proposalCount + 1)], .one rfl, rfl, rfl⟩
  | executed proposalId proposal _ _ _ =>
      have happly := applyProposal_logged w proposal
      refine ⟨[.proposalExecuted proposalId], .one rfl, ?_, happly.transfers⟩
      show Event.proposalExecuted proposalId :: (applyProposal w proposal).events = _
      rw [happly.events]
      rfl
  | opApproved caller opId config pending _ _ _ _ _ _ _ =>
      show ∃ events, Quiet events [] ∧ Logged w
        (savePendingOp (carriedOut config pending w) _) events []
      unfold carriedOut
      split
      · cases pending.op with
        | upgrade wasmHash => exact ⟨[], .nothing, rfl, rfl⟩
        | emergencyPause => exact ⟨[], .nothing, rfl, rfl⟩
      · exact ⟨[], .nothing, rfl, rfl⟩
  | _ => exact ⟨[], .nothing, rfl, rfl⟩

/-- A call that neither creates a stream nor names one is quiet, and leaves the
streams and the proposed employers. -/
theorem quiet_of_succeeds {host : Host} {w w' : World} {inv : Invocation}
    {value : Value} (h : Succeeds host w inv value w')
    (hcreate : ∀ call, inv.call ≠ .create call)
    (hstream : ∀ id call, inv.call ≠ .onStream id call) :
    ∃ events log, Quiet events log ∧ Logged w w' events log := by
  obtain ⟨ctx, call, now_le, inRange⟩ := inv
  unfold Succeeds at h
  change exec host ctx call w = .ok (value, w') at h
  cases call with
  | admin call =>
      have hadmin := ((unitResult_eq_ok_iff _ _ _).mp h).1
      obtain ⟨_, rfl⟩ := (execAdmin_eq_ok_iff ctx call w w').mp hadmin
      obtain ⟨events, hquiet, hlogged⟩ := adminNext_logged w call
      exact ⟨events, [], hquiet, hlogged⟩
  | governance call =>
      obtain ⟨events, hquiet, hlogged⟩ := (execGovernance_effect h).logged
      exact ⟨events, [], hquiet, hlogged⟩
  | create call => exact absurd rfl (hcreate call)
  | onStream streamId call => exact absurd rfl (hstream streamId call)
  | withdrawProtocolFees admin token amount =>
      simp only [exec, unitResult_eq_ok_iff, withdrawProtocolFees,
        bind_eq_ok_iff, pure_eq_ok_iff] at h
      obtain ⟨⟨_, _, _, _, _, _, w₁, hmove, rfl⟩, _⟩ := h
      have hlogged := (tokenTransfer_moved hmove).logged
      refine ⟨[.protocolFeesWithdrawn token amount (w.feeRecipient.getD admin)], _,
        ⟨(Quiet.one rfl).1, ?_⟩, ?_, hlogged.transfers⟩
      · intro transfer htransfer
        rw [List.mem_singleton.mp htransfer]
        rfl
      · show Event.protocolFeesWithdrawn _ _ _ :: w₁.events = _
        rw [hlogged.events]
        rfl
  | query query =>
      simp only [exec, map_eq_ok_iff, Prod.mk.injEq] at h
      obtain ⟨_, _, _, rfl⟩ := h
      exact ⟨[], [], .nothing, rfl, rfl⟩
  | directTransfer token source target amount =>
      simp only [exec, unitResult_eq_ok_iff, directTransfer,
        bind_eq_ok_iff] at h
      obtain ⟨⟨_, _, hmove⟩, _⟩ := h
      refine ⟨[], _, ⟨Quiet.nothing.1, ?_⟩, (tokenTransfer_moved hmove).logged⟩
      intro transfer htransfer
      rw [List.mem_singleton.mp htransfer]
      rfl

/-! ## Creations -/

/-- The shared part of a creation: it stores and publishes one new stream, and
pays for it. -/
structure PublishesOne (ctx : Context) (employer : Address) (setup : BatchSetup)
    (cooldownPeriod : Nat) (p : StreamParams) (w w' : World) : Prop where
  streams : w'.streams = Function.update w.streams (w.streamCount + 1)
    (some (requestedStream ctx employer setup cooldownPeriod p
      (w.streamCount + 1)))
  streamCount : w'.streamCount = w.streamCount + 1
  pendingEmployer : w'.pendingEmployer = w.pendingEmployer
  pauseHistory : w'.pauseHistory = w.pauseHistory
  logged : ∃ reported log, Logged w w'
      [.streamCreated (w.streamCount + 1) employer p.employee p.ratePerSecond
        reported] log ∧
    ∀ transfer ∈ log, transfer.purpose = .deposit (w.streamCount + 1) ∨
      transfer.purpose = .creationFee (w.streamCount + 1)

theorem creationLog_purpose {self : Address} {setup : BatchSetup} {s : Stream}
    {deposit : Int} {transfer : TokenTransfer}
    (h : transfer ∈ creationLog self setup s deposit) :
    transfer.purpose = .deposit s.id ∨ transfer.purpose = .creationFee s.id := by
  unfold creationLog at h
  split at h
  · split at h
    · simp only [List.mem_cons, List.not_mem_nil, or_false] at h
      rcases h with rfl | rfl
      · exact Or.inr rfl
      · exact Or.inl rfl
    · rw [List.mem_singleton.mp h]
      exact Or.inl rfl
  · rw [List.mem_singleton.mp h]
    exact Or.inl rfl

theorem createShared_publishes {host : Host} {ctx : Context} {employer : Address}
    {setup : BatchSetup} {cooldownPeriod : Nat} {p : StreamParams} {w w' : World}
    {id : Nat}
    (h : createShared host ctx employer setup cooldownPeriod p w = .ok (id, w')) :
    PublishesOne ctx employer setup cooldownPeriod p w w' := by
  simp only [Semantics.createShared, nextId, bind_eq_ok_iff, expect_eq_ok_iff,
    checkedAddU64_eq_some_iff, pure_eq_ok_iff, Prod.mk.injEq] at h
  obtain ⟨_, _, _, _, _, _, ⟨⟨reported, net⟩, w₁⟩, hcollect, _,
    ⟨_, ⟨_, rfl⟩, rfl⟩, rfl, rfl⟩ := h
  obtain ⟨rfl, hmoved⟩ := collectDeposit_exact hcollect
  have hpaid := hmoved
    (requestedStream ctx employer setup cooldownPeriod p (w.streamCount + 1))
    rfl rfl rfl rfl
  have hlogged := hpaid.logged
  have hsame := hpaid.same
  have hcount : w₁.streamCount = w.streamCount := by rw [hsame]
  have hstreams : w₁.streams = w.streams := by rw [hsame]
  refine ⟨?_, ?_, ?_, ?_, reported, _, ⟨?_, hlogged.transfers⟩,
    fun transfer htransfer => creationLog_purpose htransfer⟩
  · show Function.update w₁.streams (w₁.streamCount + 1) _ = _
    rw [hstreams, hcount]
    rfl
  · show w₁.streamCount + 1 = _
    rw [hcount]
  · show w₁.pendingEmployer = _
    rw [hsame]
  · show w₁.pauseHistory = _
    rw [hsame]
  · show Event.streamCreated (w₁.streamCount + 1) _ _ _ _ :: w₁.events = _
    rw [hlogged.events, hcount]
    rfl

/-- The rule for creation calls: what the shared part keeps, and what minds
neither the limiter nor the employers' index, a creation call keeps. -/
theorem execCreate_keeps {host : Host} {ctx : Context} {P : World → Prop}
    (hrate : ∀ w rateState, P w → P { w with rateState })
    (hindex : ∀ w employer ids, P w → P (indexEmployerStreamsBatch w employer ids))
    (hshared : ∀ employer setup cooldownPeriod p w w' id, P w →
      createShared host ctx employer setup cooldownPeriod p w = .ok (id, w') →
      P w')
    {call : CreateCall} {w w' : World} {value : Value} (hw : P w)
    (h : execCreate host ctx call w = .ok (value, w')) : P w' := by
  cases call with
  | createStream employer employee token deposit rate stopTime cooldownPeriod
      cliffTime =>
      simp only [execCreate, map_eq_ok_iff] at h
      obtain ⟨⟨id, w₁⟩, hcreate, heq⟩ := h
      cases heq
      obtain ⟨_, _, _, v, hone, rfl⟩ :=
        (createStream_eq_ok_iff _ _ _ _ _ _ _ _ _ _ _ _ _).mp hcreate
      exact hindex v employer [id] (hshared _ _ _ _ _ _ _ hw hone)
  | createStreamsBatch employer params =>
      -- the property passes from one creation of the batch to the next
      have hloop : ∀ {params : List StreamParams} {setup : BatchSetup}
          {ids : List Nat} {w w' : World}, P w →
          createBatchLoop host ctx employer setup params w = .ok (ids, w') →
          P w' := by
        intro params
        induction params with
        | nil =>
            intro setup ids w w' hw h
            cases h
            exact hw
        | cons p rest ih =>
            intro setup ids w w' hw h
            simp only [createBatchLoop, bind_eq_ok_iff, pure_eq_ok_iff,
              Prod.mk.injEq] at h
            obtain ⟨⟨id, middle⟩, hitem, ⟨ids', _⟩, hrest, rfl, rfl⟩ := h
            obtain ⟨rateState, _, hone⟩ :=
              (createBatchItem_eq_ok_iff _ _ _ _ _ _ _ _).mp hitem
            exact ih (hshared _ _ _ _ _ _ _ (hrate w rateState hw) hone) hrest
      simp only [execCreate, createStreamsBatch, map_eq_ok_iff, bind_eq_ok_iff,
        pure_eq_ok_iff] at h
      obtain ⟨_, ⟨_, _, _, _, _, _, _, _, _, _, ⟨ids, w₁⟩, hall, rfl⟩, heq⟩ := h
      cases heq
      exact hindex w₁ employer ids (hloop hw hall)

end Semantics
end Paystream
