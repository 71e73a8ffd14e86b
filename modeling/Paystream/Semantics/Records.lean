import Paystream.Semantics.Governance

/-!
# The records beside the streams

Four maps are kept beside the streams: the proposed employers, the two
per-address indexes and the pause histories.  They belong to neither the books
nor the settings.  `records_of_succeeds` says that a call leaves of them what
`recordsNext` lists.  Creations are apart: the indexes they write depend on the ids
they give out (`Creation`).
-/

namespace Paystream
namespace Semantics

open Library
open Contract
open Contract.Storage
open Contract.StreamContract

/-! ## All calls -/

theorem records_adminNext (w : World) (call : AdminCall) :
    records (adminNext w call) = records w := by
  cases call with
  | addAllowedToken admin token =>
      simp only [adminNext, Storage.addAllowedToken]
      split <;> rfl
  | _ => rfl

theorem GovernanceEffect.records {ctx : Context} {call : GovernanceCall}
    {w w' : World} (h : GovernanceEffect ctx w call w') : records w' = records w := by
  cases h with
  | executed proposalId proposal _ _ _ =>
      show Semantics.records (applyProposal w proposal) = Semantics.records w
      unfold applyProposal
      cases proposal.param <;> rfl
  | opApproved caller opId config pending _ _ _ _ _ _ _ =>
      show Semantics.records (carriedOut config pending w) = Semantics.records w
      unfold carriedOut
      split
      · cases pending.op <;> rfl
      · rfl
  | _ => rfl

/-- What a call that returned did to the records, creations apart. -/
theorem records_of_succeeds {host : Host} {w w' : World} {inv : Invocation}
    {value : Value} (h : Succeeds host w inv value w')
    (hcall : ∀ call, inv.call ≠ .create call) :
    records w' = recordsNext inv.now w inv.call := by
  obtain ⟨ctx, call, now_le, inRange⟩ := inv
  unfold Succeeds at h
  change exec host ctx call w = .ok (value, w') at h
  show records w' = recordsNext ctx.now w call
  cases call with
  | admin call =>
      have hadmin := ((unitResult_eq_ok_iff _ _ _).mp h).1
      obtain ⟨_, rfl⟩ := (execAdmin_eq_ok_iff ctx call w w').mp hadmin
      exact records_adminNext w call
  | governance call => exact (execGovernance_effect h).records
  | create call => exact absurd rfl (hcall call)
  | onStream streamId call => exact (execOnStream_spec h).records
  | withdrawProtocolFees admin token amount =>
      simp only [exec, unitResult_eq_ok_iff, withdrawProtocolFees,
        bind_eq_ok_iff, pure_eq_ok_iff] at h
      obtain ⟨⟨_, _, _, _, _, _, w₁, hmove, rfl⟩, _⟩ := h
      exact (tokenTransfer_moved hmove).records
  | query query =>
      simp only [exec, map_eq_ok_iff, Prod.mk.injEq] at h
      obtain ⟨_, _, _, rfl⟩ := h
      rfl
  | directTransfer token source target amount =>
      simp only [exec, unitResult_eq_ok_iff, directTransfer,
        bind_eq_ok_iff] at h
      obtain ⟨⟨_, _, hmove⟩, _⟩ := h
      exact (tokenTransfer_moved hmove).records

/-! ## Proposed employers -/

/-- What a call that returned did to the proposed employer of the stream
`id`. -/
inductive PendingChange (ctx : Context) (w w' : World) (id : Nat) (call : Call) :
    Prop
  | same (hsame : w'.pendingEmployer id = w.pendingEmployer id)
      (hcall : ∀ newEmployer,
        call ≠ .onStream id (.acceptEmployerTransfer newEmployer))
  | proposed (s : Stream) (newEmployer : Address)
      (hcall : call =
        .onStream id (.proposeEmployerTransfer s.employer newEmployer))
      (hauth : s.employer ∈ ctx.auth) (hs : w.streams id = some s)
      (hafter : w'.pendingEmployer id = some newEmployer)
  | accepted (newEmployer : Address)
      (hcall : call = .onStream id (.acceptEmployerTransfer newEmployer))
      (hauth : newEmployer ∈ ctx.auth)
      (hbefore : w.pendingEmployer id = some newEmployer)
      (hafter : w'.pendingEmployer id = none)

theorem pendingChange_of_succeeds {host : Host} {w w' : World}
    {inv : Invocation} {value : Value} (h : Succeeds host w inv value w')
    (id : Nat) : PendingChange inv.toContext w w' id inv.call := by
  by_cases hcreate : ∃ call, inv.call = .create call
  · obtain ⟨call, hcall⟩ := hcreate
    obtain ⟨news, hview⟩ := creation_of_succeeds h hcall
    refine .same (by rw [hview.pendingEmployer]) ?_
    intro newEmployer haccept
    rw [hcall] at haccept
    cases haccept
  · have hrecords := records_of_succeeds h (not_exists.mp hcreate)
    have hpending : w'.pendingEmployer =
        (recordsNext inv.now w inv.call).pendingEmployer :=
      congrArg Records.pendingEmployer hrecords
    obtain ⟨ctx, call, now_le, inRange⟩ := inv
    unfold Succeeds at h
    change exec host ctx call w = .ok (value, w') at h
    change w'.pendingEmployer = (recordsNext ctx.now w call).pendingEmployer
      at hpending
    show PendingChange ctx w w' id call
    -- only a proposal and an acceptance write the stream's entry
    cases call with
    | onStream streamId call =>
        cases call with
        | proposeEmployerTransfer employer newEmployer =>
            simp only [exec, execOnStream, unitResult_eq_ok_iff,
              proposeEmployerTransfer, bind_eq_ok_iff, requireAuth_eq_ok_iff,
              requireEmployerById_eq_ok_iff] at h
            obtain ⟨⟨_, hauth, s, ⟨hs, rfl⟩, _⟩, _⟩ := h
            by_cases hid : id = streamId
            · subst hid
              refine .proposed s newEmployer rfl hauth hs ?_
              rw [hpending]
              exact Function.update_self _ _ _
            · refine .same ?_ (by simp)
              rw [hpending]
              exact Function.update_of_ne hid _ _
        | acceptEmployerTransfer newEmployer =>
            simp only [exec, execOnStream, unitResult_eq_ok_iff,
              acceptEmployerTransfer, bind_eq_ok_iff, requireAuth_eq_ok_iff,
              requirePendingEmployer_eq_ok_iff] at h
            obtain ⟨⟨_, hauth, _, hbefore, _⟩, _⟩ := h
            by_cases hid : id = streamId
            · subst hid
              refine .accepted newEmployer rfl hauth hbefore ?_
              rw [hpending]
              exact Function.update_self _ _ _
            · refine .same ?_ ?_
              · rw [hpending]
                exact Function.update_of_ne hid _ _
              · intro other hother
                cases hother
                exact hid rfl
        | _ => exact .same (by rw [hpending]; rfl) (by simp)
    | _ => exact .same (by rw [hpending]; rfl) (by simp)

end Semantics
end Paystream
