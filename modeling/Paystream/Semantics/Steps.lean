import Paystream.Semantics.Creation

/-!
# What one call does

The creation calls, the payout of the fee ledger and the transfers made on a
token directly complete the picture of `Refinement`.  `effect_of_succeeds`
collects all of it: the one case distinction over the entry points that the
later modules use.
-/

namespace Paystream
namespace Semantics

open Library
open Contract
open Contract.Storage
open Contract.StreamContract

/-! ## Creation -/

/-- Writes outside the books and the settings do not matter. -/
theorem Created.of_views {host : Host} {ctx : Context} {w w' w'' : World}
    (h : Created host ctx w w') (hbooks : books w'' = books w')
    (hsettings : settings w'' = settings w') : Created host ctx w w'' := by
  induction h with
  | done hbooks' hsettings' =>
      exact .done (hbooks.trans hbooks') (hsettings.trans hsettings')
  | cons hfirst _hrest ih => exact .cons hfirst (ih hbooks hsettings)

theorem execCreate_created {host : Host} {ctx : Context} {call : CreateCall}
    {w w' : World} {value : Value} (hrange : (Call.create call).inRange = true)
    (h : execCreate host ctx call w = .ok (value, w')) :
    Created host ctx w w' := by
  obtain ⟨_, news, v, hall, rfl⟩ := execCreate_creates hrange h
  exact hall.created.of_views rfl rfl

/-! ## The case distinction -/

/-- What a call that returned did. -/
inductive CallEffect (host : Host) (ctx : Context) (w w' : World) : Call → Prop
  | admin (call : AdminCall) (hguard : AdminGuard ctx w call)
      (hnext : w' = adminNext w call) : CallEffect host ctx w w' (.admin call)
  | governance (call : GovernanceCall) (hframe : GovernanceFrame w w') :
      CallEffect host ctx w w' (.governance call)
  | create (call : CreateCall) (hcreated : Created host ctx w w') :
      CallEffect host ctx w w' (.create call)
  | onStream (streamId : Nat) (call : StreamCall)
      (heffect : OnStreamEffect host ctx w w' streamId call) :
      CallEffect host ctx w w' (.onStream streamId call)
  | feePayout (admin token : Address) (amount : Int) (hauth : admin ∈ ctx.auth)
      (hadmin : w.admin = some admin)
      (hpayout : FeePayout host w w' token (w.feeRecipient.getD admin) amount) :
      CallEffect host ctx w w' (.withdrawProtocolFees admin token amount)
  | query (query : Query) (hsame : w' = w) :
      CallEffect host ctx w w' (.query query)
  | directTransfer (token source target : Address) (amount : Int)
      (hdirect : DirectTransfer host ctx w w' token source target amount) :
      CallEffect host ctx w w' (.directTransfer token source target amount)

theorem withdrawProtocolFees_effect {host : Host} {ctx : Context}
    {admin token : Address} {amount : Int} {w w' : World}
    (h : withdrawProtocolFees host ctx admin token amount w = .ok w') :
    CallEffect host ctx w w' (.withdrawProtocolFees admin token amount) := by
  simp only [withdrawProtocolFees, bind_eq_ok_iff, authorizeAdmin_eq_ok_iff,
    ensure_eq_ok_iff, decide_eq_true_eq, tokenTransfer_eq_ok_iff,
    pure_eq_ok_iff] at h
  obtain ⟨_, ⟨hauth, hadmin⟩, _, hpos, _, hle, _, ⟨balances, hperform, rfl⟩,
    rfl⟩ := h
  exact .feePayout admin token amount hauth hadmin
    { amount_pos := hpos
      amount_le := hle
      performed := .single hperform
      streams := rfl
      streamCount := rfl
      feeBalance := rfl
      transfers := rfl
      sameSettings := rfl }

/-- Every call that returned did one of these things. -/
theorem effect_of_succeeds {host : Host} {w w' : World} {inv : Invocation}
    {value : Value} (h : Succeeds host w inv value w') :
    CallEffect host inv.toContext w w' inv.call := by
  obtain ⟨ctx, call, now_le, inRange⟩ := inv
  unfold Succeeds at h
  change exec host ctx call w = .ok (value, w') at h
  show CallEffect host ctx w w' call
  cases call with
  | admin call =>
      have hadmin := ((unitResult_eq_ok_iff _ _ _).mp h).1
      obtain ⟨hguard, hnext⟩ := (execAdmin_eq_ok_iff ctx call w w').mp hadmin
      exact .admin call hguard hnext
  | governance call => exact .governance call (execGovernance_frame h)
  | create call => exact .create call (execCreate_created inRange h)
  | onStream streamId call =>
      exact .onStream streamId call (execOnStream_spec h).effect
  | withdrawProtocolFees admin token amount =>
      exact withdrawProtocolFees_effect ((unitResult_eq_ok_iff _ _ _).mp h).1
  | query query =>
      simp only [exec, map_eq_ok_iff, Prod.mk.injEq] at h
      obtain ⟨_, _, _, hsame⟩ := h
      exact .query query hsame.symm
  | directTransfer token source target amount =>
      have hcall := ((unitResult_eq_ok_iff _ _ _).mp h).1
      simp only [directTransfer, bind_eq_ok_iff, requireAuth_eq_ok_iff,
        tokenTransfer_eq_ok_iff] at hcall
      obtain ⟨_, hauth, balances, hperform, rfl⟩ := hcall
      exact .directTransfer token source target amount
        { signed := hauth
          performed := .single hperform
          streams := rfl
          streamCount := rfl
          feeBalance := rfl
          transfers := rfl
          sameSettings := rfl }

/-! ## Settings -/

theorem Created.sameSettings {host : Host} {ctx : Context} {w w' : World}
    (h : Created host ctx w w') : settings w' = settings w := by
  induction h with
  | done _ hsettings => exact hsettings
  | cons hfirst _hrest ih => exact ih.trans hfirst.sameSettings

/-- Only administration and governance write settings. -/
theorem CallEffect.settings_cases {host : Host} {ctx : Context} {w w' : World}
    {call : Call} (h : CallEffect host ctx w w' call) :
    (∃ adminCall, call = .admin adminCall ∧ AdminGuard ctx w adminCall ∧
        w' = adminNext w adminCall) ∨
      (∃ governanceCall, call = .governance governanceCall ∧
        GovernanceFrame w w') ∨
      settings w' = settings w := by
  cases h with
  | admin call hguard hnext => exact Or.inl ⟨call, rfl, hguard, hnext⟩
  | governance call hframe => exact Or.inr (Or.inl ⟨call, rfl, hframe⟩)
  | create call hcreated => exact Or.inr (Or.inr hcreated.sameSettings)
  | onStream streamId call heffect =>
      rcases heffect with ⟨_, _, hsettings⟩ | ⟨_, _, _, _, _, hupdate⟩
      · exact Or.inr (Or.inr hsettings)
      · exact Or.inr (Or.inr hupdate.sameSettings)
  | feePayout admin token amount _ _ hpayout =>
      exact Or.inr (Or.inr hpayout.sameSettings)
  | query query hsame => exact Or.inr (Or.inr (congrArg settings hsame))
  | directTransfer token source target amount hdirect =>
      exact Or.inr (Or.inr hdirect.sameSettings)

end Semantics
end Paystream
