import Paystream.Properties.Solvency

/-!
# The fees of one stream against what was paid for it

The protocol fee is meant to take at most 1% of what a stream costs its payers.
The code charges it twice: on the deposit at creation, paid beside it, and again
on every withdrawal from what the deposit became.  Each charge is within the
limit of the rate and their sum is not: a stream of 10000 under a rate of 1%
costs 100 at creation and 99 when it is withdrawn (`fee_charged_twice`).

`fee_within_one_percent`: the cap holds in a run in which every withdrawal that
charges a fee does so at a rate that, added to the rate charged at creation,
stays within 1%.  The fees are then bounded by two shares of what was paid,
`rate` hundredths of a percent of all of it and `100 - rate` of what has been
withdrawn.
-/

namespace Paystream
namespace Properties

open Library
open Contract
open Contract.Storage
open Contract.StreamContract
open Semantics

/-! ## Fees and payments -/

/-- The transfers to fee recipients on account of the stream `id`. -/
def isFee (id : Nat) : Purpose → Bool
  | .creationFee streamId => decide (streamId = id)
  | .withdrawalFee streamId => decide (streamId = id)
  | _ => false

/-- What fee recipients received on account of the stream. -/
def feesPaid (id : Nat) (w : World) : Int :=
  totalFor (isFee id) w.transfers

/-- What a call pays for the stream `id` when it returns: the deposit asked for
at its creation, or the amount of a top-up. -/
def paymentFor (id : Nat) (w : World) : Call → Int
  | .create call =>
      if w.streamCount < id then
        match (CreateCall.requests call)[id - w.streamCount - 1]? with
        | some p => p.deposit
        | none => 0
      else
        0
  | .onStream streamId (.topUp _ amount) => if streamId = id then amount else 0
  | _ => 0

/-- What was paid for the stream in the calls that returned. -/
def paidFor (host : Host) (id : Nat) : History → Int
  | [] => 0
  | entry :: earlier =>
      (if returned host entry then paymentFor id entry.before entry.input.call
        else 0) + paidFor host id earlier

/-- The fee rate in force for a creation; without a recipient it is zero. -/
def chargedRate (w : World) : Nat :=
  match w.feeRecipient with
  | some _ => w.config.feeBps
  | none => 0

/-- The fee rate charged when the stream `id` was created. -/
def creationRate (id : Nat) : History → Nat
  | [] => 0
  | entry :: earlier =>
      if (entry.before.streams id).isNone && (entry.after.streams id).isSome then
        chargedRate entry.before
      else
        creationRate id earlier

/-- A withdrawal from the stream `id` that charges a fee does so at a rate that
stays within 1% together with the rate charged before. -/
def WithdrawsWithin (rate id : Nat) (w : World) (inv : Invocation) : Prop :=
  ∀ employee s gross, inv.call = .onStream id (.withdraw employee) →
    w.streams id = some s → claimableAmount s inv.now = .ok gross →
    w.feeRecipient.isSome → 10000 ≤ gross * w.config.feeBps →
      rate + w.config.feeBps ≤ 100

/-- All withdrawals from the stream that returned were of that kind. -/
def RatesAddUp (host : Host) (id : Nat) : History → Prop
  | [] => True
  | entry :: earlier =>
      (WithdrawsWithin (creationRate id earlier) id entry.before entry.input ∨
        Fails host entry.before entry.input) ∧
      RatesAddUp host id earlier

theorem isFee_streamId {id : Nat} {purpose : Purpose}
    (h : isFee id purpose = true) : purpose.streamId = some id := by
  cases purpose <;> simp_all [isFee, Purpose.streamId]

theorem feesPaid_eq (id : Nat) (w : World) :
    feesPaid id w = totalFor (isFee id) (logOf id w.transfers) :=
  (totalFor_logOf (fun _ => isFee_streamId) w.transfers).symm

/-! ## One charge -/

/-- At creation the fee is the charged share of the deposit. -/
theorem creation_fees (self : Address) (w : World) (s : Stream) {deposit : Int}
    (hdeposit : 0 ≤ deposit) :
    10000 * totalFor (isFee s.id)
        (creationLog self (creationSetup w) s deposit) ≤
      chargedRate w * deposit := by
  unfold creationLog creationFee chargedRate
  cases hrecipient : w.feeRecipient with
  | none => simp [creationSetup, hrecipient, isFee]
  | some recipient =>
      simp only [creationSetup, hrecipient]
      have hproduct : 0 ≤ deposit * (w.config.feeBps : Int) := by positivity
      split
      · simp only [totalFor_cons, totalFor_nil, isFee, decide_true, if_true,
          Bool.false_eq_true, if_false, add_zero]
        rw [Int.tdiv_eq_ediv_of_nonneg hproduct, mul_comm (w.config.feeBps : Int)]
        omega
      · simp only [totalFor_cons, totalFor_nil, isFee, Bool.false_eq_true,
          if_false, add_zero, mul_zero]
        rw [mul_comm]
        exact hproduct

/-- Of the operations only a withdrawal sends a fee. -/
theorem op_fees {host : Host} {ctx : Context} {w : World} {s : Stream}
    {op : StreamOp} {log : List TokenTransfer} (h : op.Pays host ctx w s log) :
    totalFor (isFee s.id) log = 0 ∨ ∃ gross fee, op = .withdraw gross ∧
      withdrawalFee w.config.feeBps gross = .ok fee ∧ 0 < fee ∧
      w.feeRecipient.isSome ∧ totalFor (isFee s.id) log = fee := by
  cases op with
  | withdraw gross =>
      obtain ⟨fee, hfee, rfl⟩ := h
      unfold withdrawalTransfers feeTransfers shareTransfer
      cases hrecipient : w.feeRecipient with
      | none => simp [isFee]
      | some recipient =>
          by_cases hpos : 0 < fee
          · exact Or.inr ⟨gross, fee, rfl, hfee, hpos, rfl, by simp [isFee, hpos]⟩
          · simp [isFee, hpos]
  | topUp amount =>
      obtain ⟨caller, _, rfl⟩ := h
      simp [isFee]
  | cancel owed =>
      obtain rfl := h
      exact Or.inl (settlement_totalFor_eq_zero rfl rfl host.self owed)
  | reclaim owed =>
      obtain rfl := h
      exact Or.inl (settlement_totalFor_eq_zero rfl rfl host.self owed)
  | _ =>
      obtain rfl := h
      simp

/-- No operation takes back what was withdrawn. -/
theorem withdrawn_le_next {now : Nat} {s : Stream} {op : StreamOp}
    (hguard : op.Guard now s) : s.withdrawn ≤ (op.next now s).withdrawn := by
  cases op with
  | withdraw gross =>
      have hnonneg := claimableAmount_nonneg hguard.2.2.2
      show s.withdrawn ≤ s.withdrawn + gross
      omega
  | cancel owed =>
      have hnonneg := claimableAmount_nonneg hguard.2
      show s.withdrawn ≤ s.withdrawn + owed
      omega
  | reclaim owed =>
      have hnonneg := claimableAmount_nonneg hguard.2.2
      show s.withdrawn ≤ s.withdrawn + owed
      omega
  | updateRate newRate accrued =>
      have hnonneg := claimableAmount_nonneg hguard.2.2.2
      show s.withdrawn ≤ s.withdrawn + accrued
      omega
  | _ => exact le_rfl

/-! ## One call -/

theorem paymentFor_nonneg {host : Host} {history : History} {w w' : World}
    {inv : Invocation} {value : Value} (hrun : Reaches host history w)
    (hsucceeds : Succeeds host w inv value w') (id : Nat) :
    0 ≤ paymentFor id w inv.call := by
  cases hcall : inv.call with
  | create call =>
      obtain ⟨news, hview⟩ := creation_of_succeeds hsucceeds hcall
      simp only [paymentFor]
      split
      · rename_i hfresh
        split
        · -- the request at this place was validated
          rename_i p hp
          have hplace : id - w.streamCount - 1 < news.length := by
            rw [hview.length]
            exact (List.getElem?_eq_some_iff.mp hp).1
          have hmem : id ∈ news.map Stream.id := by
            rw [hview.mem_ids, hview.streamCount]
            omega
          obtain ⟨s, hs, rfl⟩ := List.mem_map.mp hmem
          obtain ⟨q, hq, hdeposit, _⟩ := hview.requested s hs
          rw [hp] at hq
          cases hq
          exact hdeposit.le
        · exact le_rfl
      · exact le_rfl
  | onStream streamId call =>
      cases call with
      | topUp caller amount =>
          obtain ⟨s, op, _, hissues, hguard, _⟩ :=
            updated_of_succeeds hrun hsucceeds hcall rfl
          simp only [paymentFor]
          split
          · cases hissues with
            | topUp _ _ _ _ => exact hguard.1.le
          · exact le_rfl
      | _ => exact le_rfl
  | _ => exact le_rfl

/-- The deposit of a stream grows by no more than the call paid for it. -/
theorem deposit_le_payment {host : Host} {history : History} {w w' : World}
    {inv : Invocation} {value : Value} {id : Nat} {s : Stream} {op : StreamOp}
    {call : StreamCall} (hrun : Reaches host history w)
    (hsucceeds : Succeeds host w inv value w')
    (hcall : inv.call = .onStream id call)
    (hissues : Issues inv.toContext w id s call op) :
    (op.next inv.now s).deposit ≤ s.deposit + paymentFor id w inv.call := by
  by_cases hsame : (op.next inv.now s).deposit = s.deposit
  · have hnonneg := paymentFor_nonneg hrun hsucceeds id
    omega
  · cases hissues with
    | topUp caller amount hauth hrole =>
        rw [hcall, paymentFor, if_pos rfl]
        exact le_rfl
    | _ => exact absurd rfl hsame

theorem creationRate_cons_of_stored (history : History) (inv : Invocation)
    {w w' : World} {id : Nat}
    (h : w.streams id = none → w'.streams id = none) :
    creationRate id (⟨w, inv, w'⟩ :: history) = creationRate id history := by
  rw [creationRate, if_neg]
  simp only [Bool.and_eq_true, Option.isNone_iff_eq_none]
  rintro ⟨hnone, hsome⟩
  rw [h hnone] at hsome
  cases hsome

theorem chargedRate_le {w : World} (h : w.config.feeBps ≤ 100) :
    chargedRate w ≤ 100 := by
  unfold chargedRate
  split
  · exact h
  · exact Nat.zero_le 100

/-! ## Every run -/

/-- The account of the stream `id`: its fees are within the share of what was
paid that the creation could charge, and the share of what was withdrawn that is
left for the withdrawals. -/
structure FeeAccount (host : Host) (id : Nat) (history : History) (w : World) :
    Prop where
  paid_nonneg : 0 ≤ paidFor host id history
  rate_le : creationRate id history ≤ 100
  absent : w.streams id = none → logOf id w.transfers = []
  covered : ∀ s, w.streams id = some s → s.deposit ≤ paidFor host id history
  fees_le : ∀ s, w.streams id = some s →
    10000 * feesPaid id w ≤ creationRate id history * paidFor host id history +
      (100 - creationRate id history) * s.withdrawn

/-- A withdrawal that keeps the rates together charges its share at most. -/
theorem withdrawal_fee_le {host : Host} {ctx : Context} {w : World} {id rate : Nat}
    {s : Stream} {op : StreamOp} {log : List TokenTransfer} (hrate : rate ≤ 100)
    (hid : s.id = id) (hguard : op.Guard ctx.now s)
    (hpays : op.Pays host ctx w s log)
    (hwithin : ∀ gross, op = .withdraw gross → w.feeRecipient.isSome →
      10000 ≤ gross * w.config.feeBps → rate + w.config.feeBps ≤ 100) :
    10000 * totalFor (isFee id) log ≤
      (100 - rate) * ((op.next ctx.now s).withdrawn - s.withdrawn) := by
  have hrest : (0 : Int) ≤ 100 - rate := by omega
  have hgrows : 0 ≤ (op.next ctx.now s).withdrawn - s.withdrawn := by
    have := withdrawn_le_next hguard
    omega
  rw [← hid]
  rcases op_fees hpays with hzero |
    ⟨gross, fee, rfl, hfee, hpos, hrecipient, htotal⟩
  · rw [hzero, mul_zero]
    exact mul_nonneg hrest hgrows
  · have hnonneg := claimableAmount_nonneg hguard.2.2.2
    have hvalue := withdrawalFee_eq hnonneg hfee
    have hsum := hwithin gross rfl hrecipient (by omega)
    have hnext : ((StreamOp.withdraw gross).next ctx.now s).withdrawn -
        s.withdrawn = gross := by
      show s.withdrawn + gross - s.withdrawn = gross
      omega
    have hbps : (w.config.feeBps : Int) ≤ 100 - rate := by omega
    calc 10000 * totalFor (isFee s.id) log
        = 10000 * fee := by rw [htotal]
      _ ≤ gross * w.config.feeBps := by omega
      _ ≤ gross * (100 - rate) := mul_le_mul_of_nonneg_left hbps hnonneg
      _ = (100 - rate) *
            (((StreamOp.withdraw gross).next ctx.now s).withdrawn -
              s.withdrawn) := by rw [hnext, mul_comm]

/-- The account of a stream that is stored. -/
theorem FeeAccount.of_stored {host : Host} {id : Nat} {history : History}
    {w : World} {s : Stream} (hs : w.streams id = some s)
    (hpaid : 0 ≤ paidFor host id history) (hrate : creationRate id history ≤ 100)
    (hcovered : s.deposit ≤ paidFor host id history)
    (hfees : 10000 * feesPaid id w ≤
      creationRate id history * paidFor host id history +
        (100 - creationRate id history) * s.withdrawn) :
    FeeAccount host id history w where
  paid_nonneg := hpaid
  rate_le := hrate
  absent hnone := by
    rw [hs] at hnone
    cases hnone
  covered found hfound := by
    rw [hs] at hfound
    cases hfound
    exact hcovered
  fees_le found hfound := by
    rw [hs] at hfound
    cases hfound
    exact hfees

theorem paidFor_cons_of_succeeds {host : Host} {w w' : World} {inv : Invocation}
    {value : Value} (h : Succeeds host w inv value w') (history : History)
    (id : Nat) : paidFor host id (⟨w, inv, w'⟩ :: history) =
      paymentFor id w inv.call + paidFor host id history := by
  simp only [paidFor, h.returned_eq, if_true]

/-- The creation of the stream opens its account. -/
theorem FeeAccount.born {host : Host} {history : History} {w w' : World}
    {inv : Invocation} {value : Value} {id : Nat} {call : CreateCall}
    {new : Stream} (h : FeeAccount host id history w)
    (hsucceeds : Succeeds host w inv value w') (hfee : w.config.feeBps ≤ 100)
    (hcall : inv.call = .create call) (hnone : w.streams id = none)
    (hstream : w'.streams id = some new) (hwithdrawn : new.withdrawn = 0) :
    FeeAccount host id (⟨w, inv, w'⟩ :: history) w' := by
  obtain ⟨p, hbirth⟩ := birth_of_succeeds hsucceeds hcall hnone hstream
  have hbefore := h.paid_nonneg
  have hdeposit := hbirth.deposit_pos
  have hpaid := paidFor_cons_of_succeeds hsucceeds history id
  have hrate : creationRate id (⟨w, inv, w'⟩ :: history) = chargedRate w := by
    simp only [creationRate, hnone, hstream, Option.isNone_none,
      Option.isSome_some, Bool.and_self, if_true]
  have hasked : paymentFor id w inv.call = p.deposit := by
    rw [hcall]
    simp only [paymentFor, if_pos hbirth.fresh_id, hbirth.request]
  have hid : new.id = id := by
    rw [hbirth.record]
    rfl
  have hnet : new.deposit ≤ p.deposit := by
    rw [hbirth.record]
    have := creationFee_nonneg (creationSetup w) hdeposit.le
    show p.deposit - creationFee (creationSetup w) p.deposit ≤ p.deposit
    omega
  refine .of_stored hstream (by omega) (by rw [hrate]; exact chargedRate_le hfee)
    (by omega) ?_
  have hcharged := creation_fees host.self w new hdeposit.le
  have hshare : 0 ≤ (chargedRate w : Int) * paidFor host id history := by
    positivity
  rw [hid] at hcharged
  rw [feesPaid_eq, hbirth.log, h.absent hnone, List.append_nil, hrate, hpaid,
    hasked, hwithdrawn, mul_zero, add_zero, mul_add]
  omega

/-- An operation on the stream charges what its share of the account allows. -/
theorem FeeAccount.updated {host : Host} {history : History} {w w' : World}
    {inv : Invocation} {value : Value} {id : Nat} {s : Stream} {op : StreamOp}
    {log : List TokenTransfer} {call : StreamCall}
    (h : FeeAccount host id history w) (hrun : Reaches host history w)
    (hsucceeds : Succeeds host w inv value w')
    (hwithin : WithdrawsWithin (creationRate id history) id w inv)
    (hcall : inv.call = .onStream id call) (hs : w.streams id = some s)
    (hissues : Issues inv.toContext w id s call op)
    (hupdate : StreamUpdate host inv.toContext w w' s op log)
    (hstream : w'.streams id = some (op.next inv.now s))
    (hlog : logOf id w'.transfers = log ++ logOf id w.transfers) :
    FeeAccount host id (⟨w, inv, w'⟩ :: history) w' := by
  have hbefore := h.paid_nonneg
  have hpayment := paymentFor_nonneg hrun hsucceeds id
  have hpaid := paidFor_cons_of_succeeds hsucceeds history id
  have hrate : creationRate id (⟨w, inv, w'⟩ :: history) =
      creationRate id history := by
    apply creationRate_cons_of_stored
    intro hnone
    rw [hs] at hnone
    cases hnone
  have hcovered := h.covered s hs
  have hgrows := deposit_le_payment hrun hsucceeds hcall hissues
  refine .of_stored hstream (by omega) (by rw [hrate]; exact h.rate_le)
    (by omega) ?_
  have hcharged := withdrawal_fee_le h.rate_le (keyed_of_reaches hrun id s hs).1
    hupdate.guard hupdate.pays
    (by
      rintro gross rfl hrecipient hcharges
      cases hissues with
      | withdraw _ hauth =>
          exact hwithin _ s gross hcall hs hupdate.guard.2.2.2 hrecipient hcharges)
  have hfees := h.fees_le s hs
  have hshare : 0 ≤ (creationRate id history : Int) * paymentFor id w inv.call := by
    positivity
  rw [feesPaid_eq, hlog, totalFor_append, ← feesPaid_eq, hrate, hpaid, mul_add,
    mul_add]
  rw [mul_sub] at hcharged
  omega

theorem FeeAccount.returned {host : Host} {history : History} {w w' : World}
    {inv : Invocation} {value : Value} {id : Nat}
    (h : FeeAccount host id history w) (hrun : Reaches host history w)
    (hsucceeds : Succeeds host w inv value w') (hfee : w.config.feeBps ≤ 100)
    (hwithin : WithdrawsWithin (creationRate id history) id w inv) :
    FeeAccount host id (⟨w, inv, w'⟩ :: history) w' := by
  cases streamChange_of_succeeds hrun hsucceeds id with
  | same hstream hlog =>
      -- whatever was paid for another stream, this one's account stays
      have hbefore := h.paid_nonneg
      have hpayment := paymentFor_nonneg hrun hsucceeds id
      have hpaid := paidFor_cons_of_succeeds hsucceeds history id
      have hrate := creationRate_cons_of_stored history inv
        (fun hnone => hstream.trans hnone)
      refine ⟨by omega, by rw [hrate]; exact h.rate_le, ?_, ?_, ?_⟩
      · intro hnone
        rw [hlog]
        exact h.absent (hstream.symm.trans hnone)
      · intro s hs
        have hcovered := h.covered s (hstream.symm.trans hs)
        omega
      · intro s hs
        have hfees := h.fees_le s (hstream.symm.trans hs)
        have hshare : 0 ≤ (creationRate id history : Int) *
            paymentFor id w inv.call := by positivity
        rw [feesPaid_eq, hlog, ← feesPaid_eq, hrate, hpaid, mul_add]
        omega
  | born new log hcall hnone hstream _ hfresh _ _ _ =>
      obtain ⟨call, hcall⟩ := hcall
      exact h.born hsucceeds hfee hcall hnone hstream hfresh.withdrawn
  | updated s op log call hcall hs hissues hupdate hstream hlog =>
      exact h.updated hrun hsucceeds hwithin hcall hs hissues hupdate hstream hlog

theorem FeeAccount.reverted {host : Host} {history : History} {w : World}
    {inv : Invocation} {id : Nat} (h : FeeAccount host id history w)
    (hfails : Fails host w inv) :
    FeeAccount host id (⟨w, inv, w⟩ :: history) w := by
  have hpaid : paidFor host id (⟨w, inv, w⟩ :: history) =
      paidFor host id history := by
    simp only [paidFor, hfails.returned_eq, Bool.false_eq_true, if_false, zero_add]
  have hrate := creationRate_cons_of_stored history inv
    (fun hnone : w.streams id = none => hnone)
  refine ⟨?_, ?_, h.absent, ?_, ?_⟩
  · rw [hpaid]
    exact h.paid_nonneg
  · rw [hrate]
    exact h.rate_le
  · rw [hpaid]
    exact h.covered
  · rw [hpaid, hrate]
    exact h.fees_le

theorem feeAccount_of_reaches {host : Host} {history : History} {w : World}
    (hrun : Reaches host history w) (hfee : FeeWithinLimit history) {id : Nat}
    (hrates : RatesAddUp host id history) : FeeAccount host id history w := by
  refine Reaches.invariant (P := fun history w => FeeWithinLimit history →
    RatesAddUp host id history → FeeAccount host id history w)
    ?_ ?_ ?_ hrun hfee hrates
  · intro balances _ _ _
    refine ⟨le_rfl, Nat.zero_le 100, fun _ => rfl, ?_, ?_⟩
    · intro s hs
      cases hs
    · intro s hs
      cases hs
  · intro history w inv value w' hrun _ ih hsucceeds hfee hrates
    have hearlier := (List.forall_mem_cons.mp hfee).2
    obtain ⟨hwithin, hratesEarlier⟩ := hrates
    exact (ih hearlier hratesEarlier).returned hrun hsucceeds
      (feeBps_le_of_reaches hrun hearlier)
      (hwithin.resolve_right hsucceeds.not_fails)
  · intro history w inv _ _ ih hfails hfee hrates
    exact (ih (List.forall_mem_cons.mp hfee).2 hrates.2).reverted hfails

/-- In a run whose fee rate stays within its limit and in which the rate charged
at creation and the rates charged at the withdrawals from a stream stay within 1%
together, fee recipients never have more than 1% of what was paid for it. -/
theorem fee_within_one_percent {host : Host}
    (htokens : AllTokens host.tokens TokenLaw.RejectsNegative)
    {history : History} {w : World} (hrun : Reaches host history w)
    (hfee : FeeWithinLimit history) {id : Nat}
    (hrates : RatesAddUp host id history) :
    100 * feesPaid id w ≤ paidFor host id history := by
  have haccount := feeAccount_of_reaches hrun hfee hrates
  have hpaid := haccount.paid_nonneg
  cases hs : w.streams id with
  | none =>
      rw [feesPaid_eq, haccount.absent hs]
      simpa using hpaid
  | some s =>
      have hcovered := haccount.covered s hs
      have hfees := haccount.fees_le s hs
      have hle := (allWellFormed_of_reaches htokens hrun id s hs).withdrawn_le
      have hrate : (0 : Int) ≤ 100 - creationRate id history := by
        have := haccount.rate_le
        omega
      have hshare : (100 - creationRate id history : Int) * s.withdrawn ≤
          (100 - creationRate id history) * paidFor host id history :=
        mul_le_mul_of_nonneg_left (by omega) hrate
      have hsum : 10000 * feesPaid id w ≤ 100 * paidFor host id history :=
        calc 10000 * feesPaid id w
            ≤ creationRate id history * paidFor host id history +
                (100 - creationRate id history) * s.withdrawn := hfees
          _ ≤ creationRate id history * paidFor host id history +
                (100 - creationRate id history) * paidFor host id history := by
              omega
          _ = 100 * paidFor host id history := by ring
      omega

/-- The stream is created before the rate of 1% is set: only its withdrawal is
charged. -/
theorem fee_within_one_percent_of_later_rate :
    ∃ history w, Reaches Sample.host history w ∧ feesPaid 1 w = 100 ∧
      paidFor Sample.host 1 history = 10000 ∧
      100 * feesPaid 1 w ≤ paidFor Sample.host 1 history := by
  have hrun := Sample.play_reaches [
    Sample.invoke 1 Sample.admin (.admin (.initializeContract Sample.admin)),
    Sample.openStream 10 10000 100 0,
    Sample.invoke 20 Sample.admin
      (.admin (.setProtocolFee Sample.admin 0 100 Sample.treasury)),
    Sample.invoke 110 Sample.employee
      (.onStream 1 (.withdraw Sample.employee))] (by decide)
  refine ⟨_, _, hrun, by decide, by decide,
    fee_within_one_percent Sample.host_honest.rejectsNegative hrun ?_ ?_⟩
  · unfold FeeWithinLimit
    decide
  · refine ⟨Or.inl ?_, Or.inl ?_, Or.inl ?_, Or.inl ?_, trivial⟩
    · intro employee s gross _ _ _ _ _
      decide
    · intro employee s gross hcall
      cases hcall
    · intro employee s gross hcall
      cases hcall
    · intro employee s gross hcall
      cases hcall

/-- Under a rate of 1%, a deposit of 10000 pays 100 at creation and 99 when it is
withdrawn. -/
theorem fee_charged_twice :
    ∃ history w, Reaches Sample.host history w ∧ FeeWithinLimit history ∧
      feesPaid 1 w = 199 ∧ paidFor Sample.host 1 history = 10000 ∧
      ¬ 100 * feesPaid 1 w ≤ paidFor Sample.host 1 history := by
  have hrun := Sample.play_reaches [
    Sample.invoke 1 Sample.admin (.admin (.initializeContract Sample.admin)),
    Sample.invoke 2 Sample.admin
      (.admin (.setProtocolFee Sample.admin 0 100 Sample.treasury)),
    Sample.openStream 10 10000 100 0,
    Sample.invoke 110 Sample.employee
      (.onStream 1 (.withdraw Sample.employee))] (by decide)
  refine ⟨_, _, hrun, ?_, by decide, by decide, by decide⟩
  unfold FeeWithinLimit
  decide

end Properties
end Paystream
