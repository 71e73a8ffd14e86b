import Paystream.Properties.Solvency

/-!
# The fee ledger

`withdraw` sends the protocol fee to its recipient and adds the same fee to the
ledger that `withdraw_protocol_fees` pays from.  Once the fee has left the
contract the ledger entry has nothing behind it but the escrow, and the next
payout takes it from there.

The ledger is backed in the runs in which no fee leaves that way
(`fee_ledger_backed`): fees round down to zero, nobody is set to receive them, or
the recipient is the contract itself.
-/

namespace Paystream
namespace Properties

open Library
open Contract
open Contract.Storage
open Contract.StreamContract
open Semantics

/-! ## One operation -/

/-- The call sends no fee out of the contract. -/
def KeepsFeeInside (host : Host) (w : World) (now : Nat) (s : Stream) :
    StreamCall → Prop
  | .withdraw _ => ∀ gross, claimableAmount s now = .ok gross →
      gross * w.config.feeBps < 10000 ∨
        ∀ recipient, w.feeRecipient = some recipient → recipient = host.self
  | _ => True

/-- Adding a fee to the ledger adds at most the fee: an overflow adds
nothing. -/
theorem addFeeBalance_le (w : World) (token : Address) {fee : Int}
    (hfee : 0 ≤ fee) :
    (addFeeBalance w token fee).feeBalance token ≤ w.feeBalance token + fee := by
  show Function.update w.feeBalance token _ token ≤ _
  rw [Function.update_self]
  unfold checkedAdd checked
  split
  · rw [Option.getD_some]
  · rw [Option.getD_none]
    omega

theorem addFeeBalance_of_ne (w : World) {token other : Address} (fee : Int)
    (h : token ≠ other) :
    (addFeeBalance w token fee).feeBalance other = w.feeBalance other :=
  Function.update_of_ne (Ne.symm h) _ _

/-- A withdrawal whose fee goes to the contract itself: share and ledger
together take no more than the gross amount. -/
theorem withdraw_reserve_le {host : Host} {ctx : Context} {w : World}
    {s : Stream} {gross fee : Int} (hwell : WellFormed ctx.now s)
    (hmax : ctx.now ≤ u64Max) (hbps : w.config.feeBps ≤ 100)
    (hactive : s.status = .active) (hgross : claimableAmount s ctx.now = .ok gross)
    (hfee : withdrawalFee w.config.feeBps gross = .ok fee) (hpos : 0 < fee) :
    (addFeeBalance w s.token fee).feeBalance s.token - w.feeBalance s.token +
        (outstanding s.token ((StreamOp.withdraw gross).next ctx.now s) -
          outstanding s.token s) ≤
      netFlow s.token host.self
        (withdrawalTransfers host.self s gross fee (some host.self)) := by
  have hbounds := hwell.toAmountsInBounds
  have hledger := addFeeBalance_le w s.token hpos.le
  have hnonneg := claimableAmount_nonneg hgross
  have hle : s.withdrawn + gross ≤ s.deposit := by
    rw [eq_accrued_of_claimableAmount hbounds hmax hgross]
    exact withdrawn_add_accrued_le hbounds ctx.now
  have hshare : max (saturatingSub gross fee) 0 = gross - fee := by
    have hwithdrawn := hbounds.withdrawn_nonneg
    have hdeposit := hbounds.deposit_le
    have hvalue := withdrawalFee_eq hnonneg hfee
    have hrate : gross * (w.config.feeBps : Int) ≤ gross * 100 :=
      mul_le_mul_of_nonneg_left (by exact_mod_cast hbps) hnonneg
    exact share_eq (by omega) hpos.le (by omega)
  have hbooked : outstanding s.token ((StreamOp.withdraw gross).next ctx.now s) -
      outstanding s.token s = -gross := by
    have hafter := outstanding_of_token ((StreamOp.withdraw gross).next ctx.now s)
    rw [next_token] at hafter
    rw [hafter, settledAmount_withdraw hactive hle, outstanding_of_token,
      settledAmount_of_open (Or.inl hactive)]
    show s.deposit - _ - _ = _
    omega
  -- the fee goes round in a circle; only the share can leave
  have hcircle : Transfer.flow (⟨.withdrawalFee s.id, s.token, host.self,
      host.self, fee⟩ : TokenTransfer) s.token host.self = 0 := by
    simp [Transfer.flow]
  have hleaves := Transfer.neg_amount_le_flow
    (show 0 ≤ (shareTransfer host.self s gross fee).amount from le_max_right _ _)
    s.token host.self
  have hamount : (shareTransfer host.self s gross fee).amount = gross - fee :=
    hshare
  unfold withdrawalTransfers feeTransfers
  simp only [if_pos hpos]
  rw [netFlow, netFlow, netFlow, hcircle, hbooked]
  omega

/-- An operation that keeps the fee inside lets the balance fall by no more than
escrow and fee ledger together. -/
theorem op_reserve_le {host : Host} {ctx : Context} {w w' : World} {id : Nat}
    {s : Stream} {op : StreamOp} {log : List TokenTransfer} {call : StreamCall}
    (htokens : AllTokens host.tokens TokenLaw.RejectsNegative)
    (hself : host.self ∉ ctx.auth) (hwell : WellFormed ctx.now s)
    (hmax : ctx.now ≤ u64Max) (hbps : w.config.feeBps ≤ 100)
    (hissues : Issues ctx w id s call op)
    (hupdate : StreamUpdate host ctx w w' s op log)
    (hinside : KeepsFeeInside host w ctx.now s call) (token : Address) :
    w'.feeBalance token - w.feeBalance token +
        (outstanding token (op.next ctx.now s) - outstanding token s) ≤
      netFlow token host.self log := by
  have hescrow := op_escrow_le htokens hself hwell hmax hbps hissues hupdate token
  rw [hupdate.feeBalance]
  cases hissues with
  | withdraw gross _ =>
      obtain ⟨hactive, _, _, hgross⟩ := hupdate.guard
      obtain ⟨fee, hfee, hlog⟩ := hupdate.pays
      simp only [StreamOp.feeBalance, hfee, feeLedgerAfter]
      cases hrecipient : w.feeRecipient with
      | none =>
          -- the fee is kept, and not in the ledger
          simp only
          omega
      | some recipient =>
          simp only
          by_cases hpos : 0 < fee
          · -- a fee is charged, so the condition names the contract as recipient
            rw [if_pos hpos]
            have hcharged : ¬ gross * (w.config.feeBps : Int) < 10000 := by
              have hvalue := withdrawalFee_eq (claimableAmount_nonneg hgross) hfee
              omega
            obtain rfl : recipient = host.self :=
              (hinside gross hgross).resolve_left hcharged recipient hrecipient
            by_cases htoken : s.token = token
            · subst htoken
              rw [hlog, hrecipient]
              exact withdraw_reserve_le hwell hmax hbps hactive hgross hfee hpos
            · rw [addFeeBalance_of_ne w fee htoken]
              omega
          · rw [if_neg hpos]
            omega
  | _ =>
      -- only a withdrawal writes the ledger
      show w.feeBalance token - w.feeBalance token + _ ≤ _
      omega

/-! ## One call -/

/-- A payout from the ledger takes from the balance what it takes from the
ledger. -/
theorem payout_reserve_le {host : Host} {w w' : World}
    {token recipient : Address} {amount : Int}
    (htokens : AllTokens host.tokens TokenLaw.Honest)
    (h : FeePayout host w w' token recipient amount) (other : Address) :
    w'.feeBalance other + escrow other w' - (w.feeBalance other + escrow other w) ≤
      holding host other w' - holding host other w := by
  have hescrow : escrow other w' = escrow other w := by
    unfold escrow
    rw [h.streams, h.streamCount]
  have hbalance := h.performed.balance_eq htokens other host.self
  have hpos := h.amount_pos
  rw [netFlow, netFlow] at hbalance
  rw [h.feeBalance, hescrow]
  unfold holding
  by_cases htoken : token = other
  · subst htoken
    rw [Function.update_self]
    have hflow : -amount ≤ Transfer.flow (⟨.feePayout, token, host.self,
        recipient, amount⟩ : TokenTransfer) token host.self :=
      Transfer.neg_amount_le_flow hpos.le token host.self
    omega
  · rw [Function.update_of_ne (Ne.symm htoken)]
    have hflow : Transfer.flow (⟨.feePayout, token, host.self, recipient, amount⟩ :
        TokenTransfer) other host.self = 0 := if_neg htoken
    omega

theorem created_feeBalance {host : Host} {ctx : Context} {w w' : World}
    (h : Created host ctx w w') : w'.feeBalance = w.feeBalance := by
  induction h with
  | done hbooks _ => exact congrArg Books.feeBalance hbooks
  | cons hfirst _hrest ih => exact ih.trans hfirst.feeBalance

/-- No call that keeps fees inside lets the contract's balance fall further
than escrow and fee ledger together. -/
theorem call_reserve_le {host : Host} {ctx : Context} {w w' : World} {call : Call}
    (htokens : AllTokens host.tokens TokenLaw.Honest)
    (hself : host.self ∉ ctx.auth) (hkeyed : Keyed w)
    (hwell : AllWellFormed ctx.now w) (hmax : ctx.now ≤ u64Max)
    (hbps : w.config.feeBps ≤ 100) (heffect : CallEffect host ctx w w' call)
    (hinside : ∀ id streamCall s, call = .onStream id streamCall →
      w.streams id = some s → KeepsFeeInside host w ctx.now s streamCall)
    (token : Address) :
    w'.feeBalance token + escrow token w' -
        (w.feeBalance token + escrow token w) ≤
      holding host token w' - holding host token w := by
  -- a call that leaves the books moves neither side
  have hidle : books w' = books w → w'.feeBalance token + escrow token w' -
      (w.feeBalance token + escrow token w) ≤
        holding host token w' - holding host token w := by
    intro hbooks
    have hledger : w'.feeBalance = w.feeBalance :=
      congrArg Books.feeBalance hbooks
    rw [hledger, escrow_of_books hbooks, holding_of_books hbooks]
    omega
  cases heffect with
  | admin call _ hnext =>
      subst hnext
      exact hidle (books_adminNext w call)
  | governance call hframe => exact hidle hframe.books
  | create call hcreated =>
      have hescrow := created_escrow_le htokens hself hcreated token
      rw [created_feeBalance hcreated]
      omega
  | onStream streamId call heffect =>
      rcases heffect with ⟨_, hbooks, _⟩ | ⟨s, op, log, hs, hissues, hupdate⟩
      · exact hidle hbooks
      · obtain ⟨hescrow, hholding⟩ := update_escrow htokens hkeyed hs hupdate token
        have hop := op_reserve_le htokens.rejectsNegative hself
          (hwell streamId s hs) hmax hbps hissues hupdate
          (hinside streamId call s rfl hs) token
        omega
  | feePayout admin asset amount _ _ hpayout =>
      exact payout_reserve_le htokens hpayout token
  | query query hsame => exact hidle (congrArg books hsame)
  | directTransfer asset source target amount hdirect =>
      have hescrow := direct_escrow_le htokens hself hdirect token
      rw [hdirect.feeBalance]
      omega

/-! ## Every run -/

/-- No withdrawal of the run sent a fee out of the contract. -/
def FeesStayInside (host : Host) (history : History) : Prop :=
  ∀ entry ∈ history, ∀ id call s, entry.input.call = .onStream id call →
    entry.before.streams id = some s → ¬ Fails host entry.before entry.input →
      KeepsFeeInside host entry.before entry.input.now s call

/-- Fee ledger and escrow of every token are covered by the balance. -/
def ReserveCovered (host : Host) (w : World) : Prop :=
  ∀ token, w.feeBalance token + escrow token w ≤ holding host token w

theorem reserveCovered_of_reaches {host : Host}
    (htokens : AllTokens host.tokens TokenLaw.Honest) {history : History}
    {w : World} (hrun : Reaches host history w)
    (hself : SelfNeverSigns host history) (hbps : FeeWithinLimit history)
    (hinside : FeesStayInside host history) : ReserveCovered host w := by
  refine Reaches.invariant (P := fun history w => SelfNeverSigns host history →
    FeeWithinLimit history → FeesStayInside host history →
      ReserveCovered host w) ?_ ?_ ?_ hrun hself hbps hinside
  · intro balances hbalances _ _ _ token
    have hzero : escrow token (World.deployed balances) = 0 :=
      registryTotal_zero _ _
    have hledger : (World.deployed balances).feeBalance token = 0 := rfl
    have hholding := hbalances token host.self
    rw [hzero, hledger]
    exact hholding
  · intro history w inv value w' hrun htime ih hsucceeds hself hbps hinside token
    obtain ⟨hselfNow, hselfEarlier⟩ := List.forall_mem_cons.mp hself
    obtain ⟨_, hbpsEarlier⟩ := List.forall_mem_cons.mp hbps
    obtain ⟨hinsideNow, hinsideEarlier⟩ := List.forall_mem_cons.mp hinside
    have hwell :=
      (allWellFormed_of_reaches htokens.rejectsNegative hrun).mono htime
    have hstep := call_reserve_le htokens hselfNow (keyed_of_reaches hrun) hwell
      inv.now_le (feeBps_le_of_reaches hrun hbpsEarlier)
      (effect_of_succeeds hsucceeds)
      (fun id call s hcall hs => hinsideNow id call s hcall hs hsucceeds.not_fails)
      token
    have hbefore := ih hselfEarlier hbpsEarlier hinsideEarlier token
    omega
  · intro history w inv _ _ ih _ hself hbps hinside
    exact ih (List.forall_mem_cons.mp hself).2 (List.forall_mem_cons.mp hbps).2
      (List.forall_mem_cons.mp hinside).2

/-- In a run in which no withdrawal sends a fee out of the contract, the fee
ledger never exceeds what the contract holds beyond its escrow, and every payout
of fees leaves the escrow covered. -/
theorem fee_ledger_backed {host : Host}
    (htokens : AllTokens host.tokens TokenLaw.Honest) {history : History}
    {w : World} (hrun : Reaches host history w)
    (hself : SelfNeverSigns host history) (hbps : FeeWithinLimit history)
    (hinside : FeesStayInside host history) :
    (∀ token, w.feeBalance token ≤ holding host token w - escrow token w) ∧
      ∀ entry ∈ history, ∀ admin token amount,
        entry.input.call = .withdrawProtocolFees admin token amount →
        ¬ Fails host entry.before entry.input →
          escrow token entry.after ≤ holding host token entry.after := by
  constructor
  · intro token
    have hcovered := reserveCovered_of_reaches htokens hrun hself hbps hinside token
    omega
  · intro entry hentry admin token amount hcall hreturned
    obtain ⟨newer, earlier, rfl⟩ := List.append_of_mem hentry
    obtain ⟨_, hstep, _⟩ := hrun.of_split
    have hcovered := reserveCovered_of_reaches htokens hrun.upTo
      (fun made hmade => hself made (List.mem_append_right newer hmade))
      (fun made hmade => hbps made (List.mem_append_right newer hmade))
      (fun made hmade => hinside made (List.mem_append_right newer hmade)) token
    -- what is left in the ledger is not negative
    have hledger : 0 ≤ entry.after.feeBalance token := by
      rcases step_cases host entry.before entry.input with
        ⟨value, hsucceeds⟩ | ⟨hfails, _⟩
      · have heffect := effect_of_succeeds hsucceeds
        rw [hcall] at heffect
        cases heffect with
        | feePayout _ _ _ _ _ hpayout =>
            have hle := hpayout.amount_le
            have hafter := hpayout.feeBalance
            rw [hstep]
            show 0 ≤ (step host entry.before entry.input).feeBalance token
            rw [hafter, Function.update_self]
            omega
      · exact absurd hfails hreturned
    omega

/-- With the contract itself as fee recipient, one withdrawal and the payout of
its fee leave the escrow of 4900 covered. -/
theorem fee_ledger_backed_of_own_recipient :
    ∃ history w, Reaches Sample.host history w ∧ escrow Sample.token w = 4900 ∧
      ∀ token, w.feeBalance token ≤
        holding Sample.host token w - escrow token w := by
  have hrun := Sample.play_reaches [
    Sample.invoke 1 Sample.admin (.admin (.initializeContract Sample.admin)),
    Sample.invoke 2 Sample.admin
      (.admin (.setProtocolFee Sample.admin 0 100 Sample.self)),
    Sample.openStream 10 10000 100 0,
    Sample.invoke 60 Sample.employee (.onStream 1 (.withdraw Sample.employee)),
    Sample.invoke 70 Sample.admin
      (.withdrawProtocolFees Sample.admin Sample.token 50)] (by decide)
  refine ⟨_, _, hrun, by decide, (fee_ledger_backed Sample.host_honest hrun ?_ ?_
    ?_).1⟩
  · unfold SelfNeverSigns
    decide
  · unfold FeeWithinLimit
    decide
  · intro entry hentry id call s hcall _ _
    simp only [Sample.play, System.replay, List.mem_cons, List.not_mem_nil,
      or_false] at hentry
    rcases hentry with rfl | rfl | rfl | rfl | rfl
    · cases hcall
    · cases hcall
      intro gross _
      right
      have hrecipient : (Sample.play [
          Sample.invoke 1 Sample.admin (.admin (.initializeContract Sample.admin)),
          Sample.invoke 2 Sample.admin
            (.admin (.setProtocolFee Sample.admin 0 100 Sample.self)),
          Sample.openStream 10 10000 100 0]).2.feeRecipient =
          some Sample.self := by
        decide
      intro recipient hsome
      exact Option.some.inj (hsome.symm.trans hrecipient)
    · cases hcall
    · cases hcall
    · cases hcall

/-- The withdrawal sends its fee of 50 to the treasury and books it in the
ledger; the payout sends it again, and 4850 are left for an escrow of 4900. -/
theorem fee_paid_twice :
    ∃ history w, Reaches Sample.host history w ∧
      SelfNeverSigns Sample.host history ∧ FeeWithinLimit history ∧
      ∃ entry ∈ history, entry.input.call =
          .withdrawProtocolFees Sample.admin Sample.token 50 ∧
        ¬ Fails Sample.host entry.before entry.input ∧
        entry.before.feeBalance Sample.token = 50 ∧
        holding Sample.host Sample.token entry.before = 4900 ∧
        escrow Sample.token entry.before = 4900 ∧
        holding Sample.host Sample.token entry.after = 4850 ∧
        escrow Sample.token entry.after = 4900 := by
  have hrun := Sample.play_reaches (feeBearingRun ++ [
    Sample.invoke 70 Sample.admin
      (.withdrawProtocolFees Sample.admin Sample.token 50)]) (by decide)
  refine ⟨_, _, hrun, ?_, ?_, _, List.mem_cons_self, rfl, ?_, by decide,
    by decide, by decide, by decide, by decide⟩
  · unfold SelfNeverSigns
    decide
  · unfold FeeWithinLimit
    decide
  · intro hfails
    have hsame := congrArg (holding Sample.host Sample.token) hfails.step_eq
    revert hsame
    decide

end Properties
end Paystream
