import Paystream.Library.Registry
import Paystream.Properties.Settlement

/-!
# Solvency

The escrow of a token is what the contract owes to its live streams: the sum of
`deposit - withdrawn` over the active and paused ones.  Every call is measured by
what it does to the escrow and to the contract's own balance, and none but the
payout of fees lets the balance fall further than the escrow
(`call_escrow_le`).  A run without such payouts therefore stays solvent
(`escrow_covered`).

Throughout, tokens are honest and the contract's own address signs nothing.
-/

namespace Paystream
namespace Properties

open Library
open Contract
open Contract.Storage
open Contract.StreamContract
open Semantics

/-! ## Escrow -/

/-- What the contract owes to a stream in a token. -/
def outstanding (token : Address) (s : Stream) : Int :=
  if s.token = token ∧ (s.status = .active ∨ s.status = .paused) then
    s.deposit - s.withdrawn
  else
    0

/-- The sum of `deposit - withdrawn` over the stored active and paused streams
of a token. -/
def escrow (token : Address) (w : World) : Int :=
  registryTotal (outstanding token) w.streams w.streamCount

/-- The contract's own balance. -/
def holding (host : Host) (token : Address) (w : World) : Int :=
  w.balances token host.self

theorem outstanding_of_token (s : Stream) :
    outstanding s.token s = s.deposit - settledAmount s := by
  unfold outstanding settledAmount
  cases hstatus : s.status <;> simp [isTerminal]

theorem outstanding_of_other_token {token : Address} {s : Stream}
    (h : s.token ≠ token) : outstanding token s = 0 := by
  unfold outstanding
  rw [if_neg]
  rintro ⟨htoken, _⟩
  exact h htoken

@[simp] theorem next_token (now : Nat) (s : Stream) (op : StreamOp) :
    (op.next now s).token = s.token := by
  cases op <;> rfl

/-! ## One operation -/

/-- No operation pays out more than it books, as long as the fee rate is within
its limit. -/
theorem op_payments_le {host : Host} {ctx : Context} {w w' : World} {id : Nat}
    {s : Stream} {op : StreamOp} {log : List TokenTransfer} {call : StreamCall}
    (hwell : WellFormed ctx.now s) (hmax : ctx.now ≤ u64Max)
    (hfee : w.config.feeBps ≤ 100) (hissues : Issues ctx w id s call op)
    (hupdate : StreamUpdate host ctx w w' s op log) :
    totalFor (isPayment s.id) log ≤
      settledAmount (op.next ctx.now s) - settledAmount s := by
  have hguard := hupdate.guard
  have hlog := hupdate.pays
  have hasked := hissues
  cases hissues with
  | withdraw gross _ =>
      obtain ⟨_, _, _, hgross⟩ := hguard
      have hnonneg := claimableAmount_nonneg hgross
      have hrate : gross * (w.config.feeBps : Int) ≤ gross * 100 :=
        mul_le_mul_of_nonneg_left (by exact_mod_cast hfee) hnonneg
      cases hrecipient : w.feeRecipient with
      | some recipient =>
          -- share and fee add up to the gross amount
          refine (op_payments hwell hmax hasked hupdate ?_).le
          intro amount hamount
          rw [hgross] at hamount
          cases hamount
          right
          rw [hrecipient]
          exact ⟨rfl, by omega⟩
      | none =>
          -- the fee stays in the contract
          obtain ⟨fee, hfeeAmount, rfl⟩ := hlog
          have hvalue := withdrawalFee_eq hnonneg hfeeAmount
          have hproduct : 0 ≤ gross * (w.config.feeBps : Int) := by positivity
          have hfeeNonneg : 0 ≤ fee := by omega
          rw [withdrawal_payments, hrecipient,
            settledAmount_next hupdate.guard hwell.withdrawn_le, add_sub_cancel_left]
          simp only [Option.isSome_none, Bool.false_eq_true, if_false, add_zero]
          exact share_le hnonneg hfeeNonneg
  | _ =>
      refine op_payments_booked hwell.withdrawn_le ?_ hguard hlog
      intro gross hop
      cases hop

theorem withdrawalTransfers_isPayment (self : Address) (s : Stream)
    (gross fee : Int) (recipient : Option Address) :
    ∀ transfer ∈ withdrawalTransfers self s gross fee recipient,
      isPayment s.id transfer.purpose = true := by
  intro transfer hmem
  unfold withdrawalTransfers feeTransfers at hmem
  rcases List.mem_cons.mp hmem with rfl | hmem
  · simp [shareTransfer, isPayment]
  · split at hmem
    · split at hmem
      · rw [List.mem_singleton] at hmem
        subst hmem
        simp [isPayment]
      · cases hmem
    · cases hmem

theorem settlementTransfers_isPayment (self : Address) (s : Stream)
    (owed : Int) : ∀ transfer ∈ settlementTransfers self s owed,
      isPayment s.id transfer.purpose = true := by
  intro transfer hmem
  simp only [settlementTransfers, List.mem_append] at hmem
  rcases hmem with hmem | hmem
  · split at hmem
    · rw [List.mem_singleton] at hmem
      subst hmem
      simp [isPayment]
    · cases hmem
  · split at hmem
    · rw [List.mem_singleton] at hmem
      subst hmem
      simp [isPayment]
    · cases hmem

/-- An operation either tops the stream up, or keeps its deposit and makes
payments only. -/
theorem op_topUp_or_pays {host : Host} {ctx : Context} {w : World} {s : Stream}
    {op : StreamOp} {log : List TokenTransfer} (h : op.Pays host ctx w s log) :
    (∃ amount, op = .topUp amount) ∨
      ((op.next ctx.now s).deposit = s.deposit ∧
        ∀ transfer ∈ log, isPayment s.id transfer.purpose = true) := by
  cases op with
  | topUp amount => exact Or.inl ⟨amount, rfl⟩
  | withdraw gross =>
      obtain ⟨fee, _, rfl⟩ := h
      exact Or.inr ⟨rfl, withdrawalTransfers_isPayment _ _ _ _ _⟩
  | cancel owed =>
      obtain rfl := h
      exact Or.inr ⟨rfl, settlementTransfers_isPayment _ _ _⟩
  | reclaim owed =>
      obtain rfl := h
      exact Or.inr ⟨rfl, settlementTransfers_isPayment _ _ _⟩
  | _ =>
      obtain rfl := h
      refine Or.inr ⟨rfl, ?_⟩
      intro transfer hmem
      cases hmem

/-- An operation lets the contract's balance fall by no more than what is
outstanding on the stream. -/
theorem op_escrow_le {host : Host} {ctx : Context} {w w' : World} {id : Nat}
    {s : Stream} {op : StreamOp} {log : List TokenTransfer} {call : StreamCall}
    (htokens : AllTokens host.tokens TokenLaw.RejectsNegative)
    (hself : host.self ∉ ctx.auth) (hwell : WellFormed ctx.now s)
    (hmax : ctx.now ≤ u64Max) (hfee : w.config.feeBps ≤ 100)
    (hissues : Issues ctx w id s call op)
    (hupdate : StreamUpdate host ctx w w' s op log) (token : Address) :
    outstanding token (op.next ctx.now s) - outstanding token s ≤
      netFlow token host.self log := by
  have hlog := hupdate.pays
  by_cases htoken : s.token = token
  · subst htoken
    have hafter := outstanding_of_token (op.next ctx.now s)
    rw [next_token] at hafter
    rw [hafter, outstanding_of_token]
    have hpayments := op_payments_le hwell hmax hfee hissues hupdate
    rcases op_topUp_or_pays hlog with ⟨amount, rfl⟩ | ⟨hdeposit, hpays⟩
    · -- the caller signed, so the contract is not the source
      obtain ⟨caller, hauth, rfl⟩ := hlog
      have hsource : caller ≠ host.self := by
        rintro rfl
        exact hself hauth
      have hflow : netFlow s.token host.self [(⟨.topUp s.id, s.token, caller,
          host.self, amount⟩ : TokenTransfer)] = amount := by
        simp [netFlow, Transfer.flow, hsource]
      have hnone : totalFor (isPayment s.id) [(⟨.topUp s.id, s.token, caller,
          host.self, amount⟩ : TokenTransfer)] = 0 := by
        simp [isPayment]
      have hdeposit : ((StreamOp.topUp amount).next ctx.now s).deposit =
          s.deposit + amount := rfl
      rw [hflow]
      rw [hnone] at hpayments
      omega
    · -- payments take at most their amounts, and these are booked
      have hamounts := hupdate.performed.amount_nonneg htokens
      have hflow := neg_totalFor_le_netFlow
        (fun transfer hmem => ⟨hpays transfer hmem, hamounts transfer hmem⟩)
        s.token host.self
      omega
  · -- a stream of another token moves nothing here
    have hflow : netFlow token host.self log = 0 := by
      apply netFlow_of_other_token
      intro transfer hmem
      rw [(hlog.bookedUnder transfer hmem).2]
      exact htoken
    have hafter : outstanding token (op.next ctx.now s) = 0 := by
      apply outstanding_of_other_token
      rw [next_token]
      exact htoken
    rw [hflow, hafter, outstanding_of_other_token htoken]
    exact le_rfl

/-! ## One call -/

theorem escrow_of_books {w w' : World} (h : books w' = books w)
    (token : Address) : escrow token w' = escrow token w := by
  unfold escrow
  rw [show w'.streams = w.streams from congrArg Books.streams h,
    show w'.streamCount = w.streamCount from congrArg Books.streamCount h]

theorem holding_of_books {w w' : World} (h : books w' = books w) (host : Host)
    (token : Address) : holding host token w' = holding host token w :=
  congrFun (congrFun (congrArg Books.balances h) token) host.self

/-- The transfers of a creation bring in what it owes. -/
theorem creation_flow {host : Host} {now : Nat} {s : Stream}
    {log : List TokenTransfer} (hfresh : FreshStream now s)
    (hpays : CreationTransfers host.self s log)
    (hamounts : ∀ transfer ∈ log, 0 ≤ transfer.amount)
    (hsource : s.employer ≠ host.self) (token : Address) :
    outstanding token s ≤ netFlow token host.self log := by
  -- the deposit alone covers it; a fee leaves the employer, not the contract
  have hdeposit : outstanding token s = Transfer.flow
      (⟨.deposit s.id, s.token, s.employer, host.self, s.deposit⟩ :
        TokenTransfer) token host.self := by
    simp [outstanding, Transfer.flow, hsource, hfresh.status, hfresh.withdrawn]
  cases hpays with
  | depositOnly =>
      rw [hdeposit, netFlow, netFlow]
      omega
  | withFee recipient fee =>
      have hfee := Transfer.flow_nonneg
        (hamounts ⟨.creationFee s.id, s.token, s.employer, recipient, fee⟩
          List.mem_cons_self) token hsource
      rw [hdeposit, netFlow, netFlow, netFlow]
      omega

/-- What a creation brings in covers what it owes. -/
theorem createOne_escrow_le {host : Host} {ctx : Context} {w w' : World}
    {s : Stream} {log : List TokenTransfer}
    (htokens : AllTokens host.tokens TokenLaw.Honest)
    (hself : host.self ∉ ctx.auth) (h : CreateOne host ctx w w' s log)
    (token : Address) :
    escrow token w' - escrow token w ≤
      holding host token w' - holding host token w := by
  have hbalance := h.performed.balance_eq htokens token host.self
  have hamounts := h.performed.amount_nonneg htokens.rejectsNegative
  have hescrow : escrow token w' = escrow token w + outstanding token s := by
    unfold escrow
    rw [h.streams, h.streamCount, h.id, registryTotal_push]
  have hsource : s.employer ≠ host.self := by
    intro hemployer
    exact hself (hemployer ▸ h.signed)
  have hflow := creation_flow h.fresh h.pays hamounts hsource token
  unfold holding
  omega

theorem created_escrow_le {host : Host} {ctx : Context} {w w' : World}
    (htokens : AllTokens host.tokens TokenLaw.Honest)
    (hself : host.self ∉ ctx.auth) (h : Created host ctx w w')
    (token : Address) :
    escrow token w' - escrow token w ≤
      holding host token w' - holding host token w := by
  induction h with
  | done hbooks _ =>
      have hescrow := escrow_of_books hbooks token
      have hholding := holding_of_books hbooks host token
      omega
  | cons hfirst _hrest ih =>
      have hone := createOne_escrow_le htokens hself hfirst token
      omega

/-- What an update of a stream does to escrow and balance. -/
theorem update_escrow {host : Host} {ctx : Context} {w w' : World} {id : Nat}
    {s : Stream} {op : StreamOp} {log : List TokenTransfer}
    (htokens : AllTokens host.tokens TokenLaw.Honest) (hkeyed : Keyed w)
    (hs : w.streams id = some s) (h : StreamUpdate host ctx w w' s op log)
    (token : Address) :
    escrow token w' = escrow token w +
        (outstanding token (op.next ctx.now s) - outstanding token s) ∧
      holding host token w' = holding host token w +
        netFlow token host.self log := by
  obtain ⟨rfl, hlow, hhigh⟩ := hkeyed id s hs
  constructor
  · unfold escrow
    rw [h.streams, h.streamCount, registryTotal_update _ hlow hhigh hs]
  · exact h.performed.balance_eq htokens token host.self

/-- A transfer made on a token directly takes nothing from the contract. -/
theorem direct_escrow_le {host : Host} {ctx : Context} {w w' : World}
    {token source target : Address} {amount : Int}
    (htokens : AllTokens host.tokens TokenLaw.Honest)
    (hself : host.self ∉ ctx.auth)
    (h : DirectTransfer host ctx w w' token source target amount)
    (other : Address) :
    escrow other w' - escrow other w ≤
      holding host other w' - holding host other w := by
  have hescrow : escrow other w' = escrow other w := by
    unfold escrow
    rw [h.streams, h.streamCount]
  have hbalance := h.performed.balance_eq htokens other host.self
  have hamounts := h.performed.amount_nonneg htokens.rejectsNegative
  have hsource : source ≠ host.self := by
    rintro rfl
    exact hself h.signed
  have hflow := Transfer.flow_nonneg (hamounts _ List.mem_cons_self) other hsource
  rw [netFlow, netFlow] at hbalance
  unfold holding
  omega

/-- No call but the payout of fees lets the contract's balance fall further
than the escrow. -/
theorem call_escrow_le {host : Host} {ctx : Context} {w w' : World} {call : Call}
    (htokens : AllTokens host.tokens TokenLaw.Honest)
    (hself : host.self ∉ ctx.auth) (hkeyed : Keyed w)
    (hwell : AllWellFormed ctx.now w) (hmax : ctx.now ≤ u64Max)
    (hfee : w.config.feeBps ≤ 100) (heffect : CallEffect host ctx w w' call)
    (hcall : ∀ admin token amount, call ≠ .withdrawProtocolFees admin token amount)
    (token : Address) :
    escrow token w' - escrow token w ≤
      holding host token w' - holding host token w := by
  -- a call that leaves the books leaves both sides
  have hidle : books w' = books w → escrow token w' - escrow token w ≤
      holding host token w' - holding host token w := by
    intro hbooks
    have hescrow := escrow_of_books hbooks token
    have hholding := holding_of_books hbooks host token
    omega
  cases heffect with
  | admin call _ hnext =>
      subst hnext
      exact hidle (books_adminNext w call)
  | governance call hframe => exact hidle hframe.books
  | create call hcreated => exact created_escrow_le htokens hself hcreated token
  | onStream streamId call heffect =>
      rcases heffect with ⟨_, hbooks, _⟩ | ⟨s, op, log, hs, hissues, hupdate⟩
      · exact hidle hbooks
      · obtain ⟨hescrow, hholding⟩ := update_escrow htokens hkeyed hs hupdate token
        have hop := op_escrow_le htokens.rejectsNegative hself
          (hwell streamId s hs) hmax hfee hissues hupdate token
        omega
  | feePayout admin token amount => exact absurd rfl (hcall admin token amount)
  | query query hsame => exact hidle (congrArg books hsame)
  | directTransfer asset source target amount hdirect =>
      exact direct_escrow_le htokens hself hdirect token

/-! ## Every run -/

/-- The contract's own address signed no call. -/
def SelfNeverSigns (host : Host) (history : History) : Prop :=
  ∀ entry ∈ history, host.self ∉ entry.input.auth

/-- The fee rate never exceeded what `set_protocol_fee` allows. -/
def FeeWithinLimit (history : History) : Prop :=
  ∀ entry ∈ history, entry.after.config.feeBps ≤ 100

/-- `withdraw_protocol_fees` was never called. -/
def NeverWithdrawsFees (history : History) : Prop :=
  ∀ entry ∈ history, ∀ admin token amount,
    entry.input.call ≠ .withdrawProtocolFees admin token amount

theorem feeBps_le_of_reaches {host : Host} {history : History} {w : World}
    (hrun : Reaches host history w) (h : FeeWithinLimit history) :
    w.config.feeBps ≤ 100 := by
  cases history with
  | nil =>
      obtain ⟨balances, _, rfl⟩ := hrun.of_nil
      exact Nat.zero_le 100
  | cons entry earlier =>
      obtain ⟨_, _, rfl⟩ := hrun.of_cons
      exact h entry List.mem_cons_self

theorem escrow_le_holding {host : Host}
    (htokens : AllTokens host.tokens TokenLaw.Honest) {history : History}
    {w : World} (hrun : Reaches host history w)
    (hself : SelfNeverSigns host history) (hfee : FeeWithinLimit history)
    (hnever : NeverWithdrawsFees history) (token : Address) :
    escrow token w ≤ holding host token w := by
  refine Reaches.invariant (P := fun history w => SelfNeverSigns host history →
    FeeWithinLimit history → NeverWithdrawsFees history →
      escrow token w ≤ holding host token w) ?_ ?_ ?_ hrun hself hfee hnever
  · intro balances hbalances _ _ _
    have hzero : escrow token (World.deployed balances) = 0 :=
      registryTotal_zero _ _
    rw [hzero]
    exact hbalances token host.self
  · intro history w inv value w' hrun htime ih hsucceeds hself hfee hnever
    obtain ⟨hselfNow, hselfEarlier⟩ := List.forall_mem_cons.mp hself
    obtain ⟨_, hfeeEarlier⟩ := List.forall_mem_cons.mp hfee
    obtain ⟨hneverNow, hneverEarlier⟩ := List.forall_mem_cons.mp hnever
    have hwell :=
      (allWellFormed_of_reaches htokens.rejectsNegative hrun).mono htime
    have hstep := call_escrow_le htokens hselfNow (keyed_of_reaches hrun) hwell
      inv.now_le (feeBps_le_of_reaches hrun hfeeEarlier)
      (effect_of_succeeds hsucceeds) hneverNow token
    have hbefore := ih hselfEarlier hfeeEarlier hneverEarlier
    omega
  · intro history w inv _ _ ih _ hself hfee hnever
    exact ih (List.forall_mem_cons.mp hself).2 (List.forall_mem_cons.mp hfee).2
      (List.forall_mem_cons.mp hnever).2

/-- A run in which no fees are paid out keeps the escrow of every token covered
by the contract's own balance. -/
theorem escrow_covered {host : Host}
    (htokens : AllTokens host.tokens TokenLaw.Honest) {history : History}
    {w : World} (hrun : Reaches host history w)
    (hself : SelfNeverSigns host history) (hfee : FeeWithinLimit history)
    (hnever : NeverWithdrawsFees history) :
    (∀ id s, w.streams id = some s → 1 ≤ id ∧ id ≤ w.streamCount) ∧
      ∀ token, escrow token w ≤ holding host token w := by
  constructor
  · intro id s hs
    exact (keyed_of_reaches hrun id s hs).2
  · exact escrow_le_holding htokens hrun hself hfee hnever

/-- One stream of 10000 under a fee of 1%, withdrawn from once. -/
def feeBearingRun : List Invocation :=
  [Sample.invoke 1 Sample.admin (.admin (.initializeContract Sample.admin)),
    Sample.invoke 2 Sample.admin
      (.admin (.setProtocolFee Sample.admin 0 100 Sample.treasury)),
    Sample.openStream 10 10000 100 0,
    Sample.invoke 60 Sample.employee (.onStream 1 (.withdraw Sample.employee))]

theorem feeBearingRun_within :
    SelfNeverSigns Sample.host (Sample.play feeBearingRun).1 ∧
      FeeWithinLimit (Sample.play feeBearingRun).1 ∧
      NeverWithdrawsFees (Sample.play feeBearingRun).1 := by
  refine ⟨?_, ?_, ?_⟩
  · unfold SelfNeverSigns
    decide
  · unfold FeeWithinLimit
    decide
  · intro entry hentry admin token amount hcall
    have hmem := Sample.input_mem_of_play hentry
    simp only [feeBearingRun, List.mem_cons, List.not_mem_nil, or_false] at hmem
    rcases hmem with hinput | hinput | hinput | hinput
    all_goals
      rw [hinput] at hcall
      cases hcall

theorem escrow_covered_of_withdrawal :
    escrow Sample.token (Sample.play feeBearingRun).2 = 4900 ∧
      escrow Sample.token (Sample.play feeBearingRun).2 ≤
        holding Sample.host Sample.token (Sample.play feeBearingRun).2 := by
  obtain ⟨hself, hfee, hnever⟩ := feeBearingRun_within
  exact ⟨by decide, (escrow_covered Sample.host_honest
    (Sample.play_reaches feeBearingRun (by decide)) hself hfee hnever).2
      Sample.token⟩

end Properties
end Paystream
