import Paystream.Properties.Pausing
import Paystream.Properties.Solvency

/-!
# The value of a withdrawal

A withdrawal takes the gross amount out of the stream.  The employee is to get it
less the fee, and the fee recipient the fee.  The code computes the fee first and
looks for the recipient later: without one the fee is deducted all the same, and
stays in the contract.

`withdraw_conserves_iff` says when the amounts balance: always where nothing is
claimable, and otherwise where the employee is not the contract itself and the
fee is zero or has a recipient outside the contract.
-/

namespace Paystream
namespace Properties

open Library
open Contract
open Contract.Storage
open Contract.StreamContract
open Semantics

/-! ## What is credited -/

/-- What the fee recipients were sent on account of the stream, in the whole
log. -/
def feesSent (id : Nat) (w : World) : Int :=
  totalFor (fun purpose => decide (purpose = .withdrawalFee id)) w.transfers

/-- What the call credited to the employee. -/
def creditedToEmployee (id : Nat) (w w' : World) : Int :=
  salaryPaid id w' - salaryPaid id w

/-- What the call credited to the fee recipient. -/
def creditedToRecipient (id : Nat) (w w' : World) : Int :=
  feesSent id w' - feesSent id w

/-- The amounts of a withdrawal balance: both credits come out of the contract,
add up to what the stream books, and differ by the fee, and the call returns what
the employee received. -/
structure WithdrawConserves (host : Host) (w w' : World) (id : Nat) (s s' : Stream)
    (value : Value) : Prop where
  paid : creditedToEmployee id w w' + creditedToRecipient id w w' =
    holding host s.token w - holding host s.token w'
  booked : creditedToEmployee id w w' + creditedToRecipient id w w' =
    s'.withdrawn - s.withdrawn
  fee : s'.withdrawn - s.withdrawn - creditedToEmployee id w w' =
    if w.feeRecipient.isSome then
      (s'.withdrawn - s.withdrawn) * w.config.feeBps / 10000
    else 0
  returned : value = .amount (creditedToEmployee id w w')

/-- Nothing is withdrawn, or it all leaves the contract: the employee is somebody
else, and so is the recipient of a fee that does not round to zero. -/
def LeavesContract (host : Host) (w : World) (s : Stream) (gross : Int) : Prop :=
  gross = 0 ∨ s.employee ≠ host.self ∧
    (gross * w.config.feeBps < 10000 ∨
      ∃ recipient, w.feeRecipient = some recipient ∧ recipient ≠ host.self)

/-! ## The credits of one withdrawal -/

/-- What a transfer to the target takes out of the contract. -/
def sentOut (self target : Address) (amount : Int) : Int :=
  if target = self then 0 else amount

theorem sentOut_eq_iff (self target : Address) (amount : Int) :
    sentOut self target amount = amount ↔ target ≠ self ∨ amount = 0 := by
  unfold sentOut
  split
  · rename_i hself
    simp [hself, eq_comm]
  · rename_i hother
    simp [hother]

theorem sentOut_le (self target : Address) {amount : Int} (h : 0 ≤ amount) :
    sentOut self target amount ≤ amount := by
  unfold sentOut
  split
  · exact h
  · exact le_rfl

/-- The fee that leaves the contract is at most the fee. -/
theorem feeOut_le (self : Address) (recipient : Option Address) {fee : Int}
    (h : 0 ≤ fee) :
    recipient.elim 0 (fun recipient => sentOut self recipient fee) ≤ fee := by
  cases recipient with
  | none => exact h
  | some recipient => exact sentOut_le self recipient h

/-- The fee is sent and leaves the contract exactly when there is none or its
recipient is somebody else. -/
theorem fee_leaves_iff (self : Address) (recipient : Option Address) (fee : Int) :
    ((if recipient.isSome then fee else 0) = fee ∧
        recipient.elim 0 (fun recipient => sentOut self recipient fee) = fee) ↔
      fee = 0 ∨ ∃ other, recipient = some other ∧ other ≠ self := by
  cases recipient with
  | none => simp [eq_comm]
  | some recipient =>
      simp only [Option.isSome_some, if_true, true_and, Option.elim,
        sentOut_eq_iff, Option.some.injEq, exists_eq_left']
      exact or_comm

section Credits

variable {host : Host} {ctx : Context} {w w' : World} {s : Stream}
  {gross fee : Int}

theorem creditedToEmployee_of_update
    (h : StreamUpdate host ctx w w' s (.withdraw gross)
      (withdrawalTransfers host.self s gross fee w.feeRecipient)) :
    creditedToEmployee s.id w w' = max (saturatingSub gross fee) 0 := by
  unfold creditedToEmployee salaryPaid
  rw [h.transfers, totalFor_append, add_sub_cancel_right]
  unfold withdrawalTransfers feeTransfers shareTransfer
  cases w.feeRecipient with
  | none => simp
  | some recipient =>
      by_cases hpos : 0 < fee
      · simp [hpos]
      · simp [hpos]

theorem creditedToRecipient_of_update (hfee : 0 ≤ fee)
    (h : StreamUpdate host ctx w w' s (.withdraw gross)
      (withdrawalTransfers host.self s gross fee w.feeRecipient)) :
    creditedToRecipient s.id w w' = if w.feeRecipient.isSome then fee else 0 := by
  unfold creditedToRecipient feesSent
  rw [h.transfers, totalFor_append, add_sub_cancel_right]
  unfold withdrawalTransfers feeTransfers shareTransfer
  cases w.feeRecipient with
  | none => simp
  | some recipient =>
      by_cases hpos : 0 < fee
      · simp [hpos]
      · simp [hpos]
        omega

/-- What leaves the contract: a share or fee sent to the contract itself does
not. -/
theorem holding_of_update (htokens : AllTokens host.tokens TokenLaw.Honest)
    (hfee : 0 ≤ fee)
    (h : StreamUpdate host ctx w w' s (.withdraw gross)
      (withdrawalTransfers host.self s gross fee w.feeRecipient)) :
    holding host s.token w - holding host s.token w' =
      sentOut host.self s.employee (max (saturatingSub gross fee) 0) +
        w.feeRecipient.elim 0 fun recipient =>
          sentOut host.self recipient fee := by
  have hbalance := h.performed.balance_eq htokens s.token host.self
  unfold holding
  rw [hbalance]
  unfold withdrawalTransfers feeTransfers shareTransfer sentOut
  cases w.feeRecipient with
  | none =>
      simp only [netFlow, Transfer.flow, if_true, Option.elim]
      split <;> omega
  | some recipient =>
      by_cases hpos : 0 < fee
      · simp only [netFlow, Transfer.flow, if_true, if_pos hpos, Option.elim]
        split <;> split <;> omega
      · simp only [netFlow, Transfer.flow, if_true, if_neg hpos, Option.elim]
        split <;> split <;> omega

end Credits

/-! ## The exact condition -/

/-- A fee of at most one percent is less than a positive gross amount. -/
theorem fee_lt_gross {feeBps : Nat} {gross fee : Int} (hpos : 0 < gross)
    (hfee : feeBps ≤ 100) (h : withdrawalFee feeBps gross = .ok fee) :
    fee = gross * feeBps / 10000 ∧ 0 ≤ fee ∧ fee < gross := by
  have hvalue := withdrawalFee_eq hpos.le h
  have hrate : gross * (feeBps : Int) ≤ gross * 100 :=
    mul_le_mul_of_nonneg_left (by exact_mod_cast hfee) hpos.le
  have hproduct : 0 ≤ gross * (feeBps : Int) := by positivity
  omega

/-- For a withdrawal that settled something, the balance comes down to where the
share and the fee went. -/
theorem conserves_of_update_iff {host : Host} {ctx : Context} {w w' : World}
    {s : Stream} {gross fee : Int}
    (htokens : AllTokens host.tokens TokenLaw.Honest)
    (hrate : w.config.feeBps ≤ 100) (hpos : 0 < gross) (hmax : gross ≤ i128Max)
    (hfee : withdrawalFee w.config.feeBps gross = .ok fee)
    (h : StreamUpdate host ctx w w' s (.withdraw gross)
      (withdrawalTransfers host.self s gross fee w.feeRecipient)) :
    WithdrawConserves host w w' s.id s ((StreamOp.withdraw gross).next ctx.now s)
        (.amount (max (saturatingSub gross fee) 0)) ↔
      LeavesContract host w s gross := by
  obtain ⟨hvalue, hnonneg, hlt⟩ := fee_lt_gross hpos hrate hfee
  have hshare : max (saturatingSub gross fee) 0 = gross - fee :=
    share_eq hmax hnonneg hlt.le
  have hemployee := creditedToEmployee_of_update h
  have hrecipient := creditedToRecipient_of_update hnonneg h
  have hholding := holding_of_update htokens hnonneg h
  rw [hshare] at hemployee hholding ⊢
  have hwithdrawn : ((StreamOp.withdraw gross).next ctx.now s).withdrawn -
      s.withdrawn = gross := by
    show s.withdrawn + gross - s.withdrawn = gross
    omega
  have hzero : fee = 0 ↔ gross * (w.config.feeBps : Int) < 10000 := by
    have hproduct : 0 ≤ gross * (w.config.feeBps : Int) := by positivity
    omega
  have hleaves := fee_leaves_iff host.self w.feeRecipient fee
  rw [hzero] at hleaves
  have hshareOut := sentOut_eq_iff host.self s.employee (gross - fee)
  constructor
  · rintro ⟨hpaid, hbooked, _, _⟩
    rw [hemployee, hrecipient, hwithdrawn] at hbooked
    rw [hemployee, hrecipient, hholding] at hpaid
    -- neither part sends out more than it is, and together they send out all
    have hshareLe := sentOut_le host.self s.employee (sub_nonneg.mpr hlt.le)
    have hfeeLe := feeOut_le host.self w.feeRecipient hnonneg
    have hother := hshareOut.mp (by omega)
    exact Or.inr ⟨hother.resolve_right (by omega),
      hleaves.mp ⟨by omega, by omega⟩⟩
  · rintro (hnothing | ⟨hother, hfeeGone⟩)
    · omega
    · have hout := hshareOut.mpr (Or.inl hother)
      obtain ⟨hcredit, hfeeOut⟩ := hleaves.mpr hfeeGone
      refine ⟨by omega, by omega, ?_, by rw [hemployee]⟩
      rw [hwithdrawn, hemployee, ← hvalue, hcredit]
      omega

/-- In every reachable state with a fee of at most one percent, a withdrawal that
returned conserves value exactly when nothing was claimable or everything left
the contract. -/
theorem withdraw_conserves_iff {host : Host}
    (htokens : AllTokens host.tokens TokenLaw.Honest) {history : History}
    {w w' : World} {inv : Invocation} {value : Value} {id : Nat}
    {employee : Address} {s s' : Stream} (hrun : Reaches host history w)
    (hfee : w.config.feeBps ≤ 100)
    (hcall : inv.call = .onStream id (.withdraw employee))
    (hs : w.streams id = some s) (h : Succeeds host w inv value w')
    (hs' : w'.streams id = some s') :
    WithdrawConserves host w w' id s s' value ↔
      LeavesContract host w s (accrued s inv.now) := by
  have hbounds : AmountsInBounds s :=
    (allWellFormed_of_reaches htokens.rejectsNegative hrun id s hs).toAmountsInBounds
  obtain ⟨found, hfound, _, _, hcases⟩ := withdraw_of_succeeds h hcall
  obtain rfl : found = s := Option.some.inj (hfound.symm.trans hs)
  obtain rfl : found.id = id := (keyed_of_reaches hrun id found hs).1
  rcases hcases with ⟨hzero, rfl, rfl⟩ | ⟨gross, fee, hshare, rfl, hupdate⟩
  · -- nothing to claim: all amounts are zero
    obtain rfl : s' = found := Option.some.inj (hs'.symm.trans hs)
    have hnothing := eq_accrued_of_claimableAmount hbounds inv.now_le hzero
    refine iff_of_true ?_ (Or.inl hnothing.symm)
    refine ⟨?_, ?_, ?_, ?_⟩ <;>
      simp [creditedToEmployee, creditedToRecipient]
  · obtain ⟨_, _, hne, hgross⟩ := hupdate.guard
    have hvalue := eq_accrued_of_claimableAmount hbounds inv.now_le hgross
    have hpos : 0 < gross := lt_of_le_of_ne (claimableAmount_nonneg hgross) (Ne.symm hne)
    have hmax : gross ≤ i128Max := by
      have hle := withdrawn_add_claimable_le hbounds.withdrawn_le hgross
      have := hbounds.deposit_le
      have := hbounds.withdrawn_nonneg
      omega
    rw [hupdate.streams, Function.update_self, Option.some.injEq] at hs'
    rw [← hs', ← hvalue]
    exact conserves_of_update_iff htokens hfee hpos hmax hshare hupdate

/-- One percent goes to the treasury. -/
theorem withdraw_conserves_of_treasury :
    ∃ history w s s', Reaches Sample.host history w ∧
      w.config.feeBps = 100 ∧ w.streams 1 = some s ∧
      (step Sample.host w (Sample.invoke 60 Sample.employee
        (.onStream 1 (.withdraw Sample.employee)))).streams 1 = some s' ∧
      WithdrawConserves Sample.host w (step Sample.host w
        (Sample.invoke 60 Sample.employee
          (.onStream 1 (.withdraw Sample.employee)))) 1 s s' (.amount 4950) := by
  have hrun := Sample.play_reaches [
    Sample.invoke 1 Sample.admin (.admin (.initializeContract Sample.admin)),
    Sample.invoke 2 Sample.admin
      (.admin (.setProtocolFee Sample.admin 0 100 Sample.treasury)),
    Sample.openStream 10 10000 100 0] (by decide)
  have hcall : (Sample.invoke 60 Sample.employee
      (.onStream 1 (.withdraw Sample.employee))).call =
        .onStream 1 (.withdraw Sample.employee) := rfl
  refine ⟨_, _, _, _, hrun, rfl, rfl, rfl, ?_⟩
  exact (withdraw_conserves_iff Sample.host_honest hrun (by decide) hcall rfl rfl
    rfl).mpr (Or.inr ⟨by decide, Or.inr ⟨Sample.treasury, rfl, by decide⟩⟩)

/-- A vote sets a fee of one percent where no recipient was ever set: of 5000 the
employee gets 4950, and 50 stay in the contract. -/
theorem withdraw_keeps_unclaimed_fee :
    ∃ history w s s', Reaches Sample.host history w ∧
      w.config.feeBps = 100 ∧ w.feeRecipient = none ∧ w.streams 1 = some s ∧
      (step Sample.host w (Sample.invoke 172870 Sample.employee
        (.onStream 1 (.withdraw Sample.employee)))).streams 1 = some s' ∧
      Succeeds Sample.host w (Sample.invoke 172870 Sample.employee
        (.onStream 1 (.withdraw Sample.employee))) (.amount 4950)
        (step Sample.host w (Sample.invoke 172870 Sample.employee
          (.onStream 1 (.withdraw Sample.employee)))) ∧
      s'.withdrawn - s.withdrawn = 5000 ∧
      ¬ WithdrawConserves Sample.host w (step Sample.host w
        (Sample.invoke 172870 Sample.employee
          (.onStream 1 (.withdraw Sample.employee)))) 1 s s' (.amount 4950) := by
  have hrun := Sample.play_reaches [
    Sample.invoke 10 Sample.employee
      (.governance (.proposeParameter Sample.employee .feeBps 100)),
    Sample.invoke 11 Sample.employee (.governance (.vote Sample.employee 1 true)),
    Sample.invoke 12 Sample.employee (.governance (.tally 1)),
    Sample.invoke 172810 Sample.employee (.governance (.executeProposal 1)),
    Sample.openStream 172820 10000 100 0] (by decide)
  refine ⟨_, _, _, _, hrun, rfl, rfl, rfl, rfl, rfl, by decide, ?_⟩
  rintro ⟨_, hbooked, _, _⟩
  revert hbooked
  decide

end Properties
end Paystream
