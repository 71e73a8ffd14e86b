import Paystream.Properties.Solvency

/-!
# Availability of settlement

A call on a stream has guards it states itself: who may make it and in which
status, and for single calls the pause flag, the cooldown, the stop time or the
range of the new rate (`ExplicitGuards`).  Behind these stand checks that are not
meant to fail: the arithmetic, the lock, the table of transitions, and the
token, which refuses a transfer that the contract cannot cover.

`Payable` collects what the second kind needs of a stream.  Every stored stream is
payable as long as the contract is solvent (`payable_of_reaches`), and a call on a
payable stream returns once its explicit guards hold (`settlement_available`).
-/

namespace Paystream
namespace Properties

open Library
open Contract
open Contract.Storage
open Contract.StreamContract
open Semantics

/-- The guards of the calls that settle a stream, move its rate or look at it;
the other calls are not spoken of here. -/
def ExplicitGuards (ctx : Context) (w : World) (s : Stream) : StreamCall → Prop
  | .withdraw employee =>
      employee ∈ ctx.auth ∧ employee = s.employee ∧ w.config.paused = false ∧
        (s.status = .active ∨ s.status = .exhausted) ∧
        (s.status = .active ∧ 0 < s.cooldownPeriod →
          saturatingAddU64 s.lastWithdrawTime s.cooldownPeriod ≤ ctx.now)
  | .cancelStream employer =>
      employer ∈ ctx.auth ∧ employer = s.employer ∧
        (s.status = .active ∨ s.status = .paused)
  | .reclaimExpired employer =>
      employer ∈ ctx.auth ∧ employer = s.employer ∧
        (s.status = .active ∨ s.status = .paused) ∧
        (0 < s.stopTime ∧ s.stopTime ≤ ctx.now)
  | .updateRate employer newRate =>
      employer ∈ ctx.auth ∧ employer = s.employer ∧ s.status = .active ∧
        (0 < newRate ∧ newRate ≤ maxRatePerSecond)
  | .getStream => True
  | _ => False

/-- What the other checks of these calls need of a stored stream. -/
structure Payable (host : Host) (w : World) (id : Nat) (s : Stream) : Prop extends
    AmountsInBounds s where
  stored : w.streams id = some s
  unlocked : s.locked = false
  token_answers : (host.tokens s.token).isSome = true
  covered : outstanding s.token s ≤ holding host s.token w
  fee_le : w.config.feeBps ≤ 100

/-! ## Arithmetic -/

/-- A `u64` time at a rate within its limit accrues far less than an `i128`
holds. -/
theorem accrued_le {s : Stream} (hs : AmountsInBounds s) {t : Nat}
    (ht : t ≤ u64Max) : accrued s t ≤ (u64Max : Int) * maxRatePerSecond := by
  unfold accrued
  split
  · decide
  · have hseconds : (countedSeconds s t : Int) ≤ (u64Max : Int) := by
      have hend := effectiveEnd_le s t
      have hle : countedSeconds s t ≤ u64Max := by
        unfold countedSeconds
        omega
      exact_mod_cast hle
    calc min (s.ratePerSecond * (countedSeconds s t : Int))
          (s.deposit - s.withdrawn)
        ≤ s.ratePerSecond * (countedSeconds s t : Int) := min_le_left _ _
      _ ≤ maxRatePerSecond * (u64Max : Int) :=
          mul_le_mul hs.rate_le hseconds (by positivity) (by decide)
      _ = (u64Max : Int) * maxRatePerSecond := mul_comm _ _

/-- The fee on such an amount does not overflow, and stays within the amount. -/
theorem withdrawalFee_returns {feeBps : Nat} {gross : Int} (hgross : 0 ≤ gross)
    (hle : gross ≤ (u64Max : Int) * maxRatePerSecond) (hfee : feeBps ≤ 100) :
    ∃ fee, withdrawalFee feeBps gross = .ok fee ∧ 0 ≤ fee ∧ fee ≤ gross := by
  have hrate : gross * (feeBps : Int) ≤ gross * 100 :=
    mul_le_mul_of_nonneg_left (by exact_mod_cast hfee) hgross
  have hnonneg : 0 ≤ gross * (feeBps : Int) := by positivity
  have hrange : InI128 (gross * (feeBps : Int)) := by
    have hmin : i128Min ≤ 0 := by decide
    have hmax : (u64Max : Int) * maxRatePerSecond * 100 ≤ i128Max := by decide
    exact ⟨by omega, by omega⟩
  have hreturns : Returns (withdrawalFee feeBps gross) := by
    unfold withdrawalFee
    split
    · exact Returns.bind ((expect_eq_ok_iff _ _ _).mpr
        ((checkedMul_eq_some_iff _ _ _).mpr ⟨hrange, rfl⟩)) (Returns.of_eq rfl)
    · exact Returns.of_eq rfl
  obtain ⟨fee, hvalue⟩ := hreturns
  have hquotient := withdrawalFee_eq hgross hvalue
  exact ⟨fee, hvalue, by omega, by omega⟩

/-- Adding what has accrued to `withdrawn` never overflows. -/
theorem AmountsInBounds.checkedAdd_accrued {s : Stream} (hs : AmountsInBounds s)
    (t : Nat) : checkedAdd s.withdrawn (accrued s t) =
      some (s.withdrawn + accrued s t) := by
  have hwithdrawn := hs.withdrawn_nonneg
  have haccrued := accrued_nonneg hs t
  have hle := withdrawn_add_accrued_le hs t
  have hdeposit := hs.deposit_le
  have hmin : i128Min ≤ 0 := by decide
  rw [checkedAdd_eq_some_iff]
  exact ⟨⟨by omega, by omega⟩, rfl⟩

theorem statusAfterWithdraw_returns (s : Stream) :
    Returns (statusAfterWithdraw s) := by
  unfold statusAfterWithdraw
  split
  · exact Returns.bind ((requireTransition_eq_ok_iff _ _ ()).mpr rfl)
      (Returns.of_eq rfl)
  · exact Returns.of_eq rfl

/-! ## Transfers out of the contract -/

section Transfers

variable {host : Host} (htokens : AllTokens host.tokens TokenLaw.Honest)

include htokens

/-- A transfer the contract can cover goes through, and takes no more than its
amount. -/
theorem tokenTransfer_covered (purpose : Purpose) {token : Address}
    (target : Address) {amount : Int} {w : World}
    (hanswers : (host.tokens token).isSome = true) (hnonneg : 0 ≤ amount)
    (hcovered : amount ≤ holding host token w) :
    ∃ w', tokenTransfer host ⟨purpose, token, host.self, target, amount⟩ w =
        .ok w' ∧
      holding host token w - amount ≤ holding host token w' := by
  let transfer : TokenTransfer := ⟨purpose, token, host.self, target, amount⟩
  obtain ⟨balances, hperform⟩ : ∃ balances,
      perform host.tokens transfer w.balances = some balances :=
    perform_of_covered htokens hanswers hnonneg hcovered
  refine ⟨_, (tokenTransfer_eq_ok_iff _ _ _ _).mpr ⟨balances, hperform, rfl⟩, ?_⟩
  have hbalance := perform_balance_eq htokens hperform token host.self
  have hflow : -amount ≤ transfer.flow token host.self :=
    Transfer.neg_amount_le_flow hnonneg token host.self
  show w.balances token host.self - amount ≤ balances token host.self
  omega

theorem payWithdrawalFee_covered {s : Stream} (streamId : Nat) {fee : Int}
    {w : World} (hanswers : (host.tokens s.token).isSome = true) (hfee : 0 ≤ fee)
    (hcovered : fee ≤ holding host s.token w) :
    ∃ w', payWithdrawalFee host s streamId fee w = .ok w' ∧
      holding host s.token w - fee ≤ holding host s.token w' := by
  have hkept : holding host s.token w - fee ≤ holding host s.token w := by omega
  unfold payWithdrawalFee
  by_cases hpos : 0 < fee
  · rw [if_pos hpos]
    cases hrecipient : w.feeRecipient with
    | none => exact ⟨w, rfl, hkept⟩
    | some recipient =>
        obtain ⟨w', hpaid, hleft⟩ := tokenTransfer_covered htokens
          (.withdrawalFee s.id) recipient hanswers hfee hcovered
        exact ⟨_, (bind_eq_ok_iff _ _ _).mpr ⟨w', hpaid, rfl⟩, hleft⟩
  · rw [if_neg hpos]
    exact ⟨w, rfl, hkept⟩

/-- The two transfers of a withdrawal. -/
theorem payWithdrawal_covered {s : Stream} (streamId : Nat) (employee : Address)
    {gross fee : Int} {w : World}
    (hanswers : (host.tokens s.token).isSome = true) (hfee : 0 ≤ fee)
    (hle : fee ≤ gross) (hcovered : gross ≤ holding host s.token w) :
    ∃ w₁ w₂, payWithdrawalFee host s streamId fee w = .ok w₁ ∧
      tokenTransfer host
        ⟨.salary s.id, s.token, host.self, employee, gross - fee⟩ w₁ = .ok w₂ := by
  obtain ⟨w₁, hfeePaid, hleft⟩ := payWithdrawalFee_covered htokens streamId
    hanswers hfee (hle.trans hcovered)
  have hshare : gross - fee ≤ holding host s.token w₁ := by omega
  obtain ⟨w₂, hsharePaid, _⟩ := tokenTransfer_covered htokens (.salary s.id)
    employee hanswers (by omega) hshare
  exact ⟨w₁, w₂, hfeePaid, hsharePaid⟩

/-- The employee's part of a settlement. -/
theorem payOwed_covered {s : Stream} {t : Nat} {w : World}
    (hs : AmountsInBounds s) (hanswers : (host.tokens s.token).isSome = true)
    (hcovered : accrued s t ≤ holding host s.token w) :
    ∃ w', payOwed host s (accrued s t) w =
        .ok ({ s with withdrawn := s.withdrawn + accrued s t }, w') ∧
      holding host s.token w - accrued s t ≤ holding host s.token w' := by
  have hnonneg := accrued_nonneg hs t
  unfold payOwed
  by_cases hpos : 0 < accrued s t
  · rw [if_pos hpos]
    obtain ⟨w', hpaid, hleft⟩ := tokenTransfer_covered htokens (.salary s.id)
      s.employee hanswers hnonneg hcovered
    refine ⟨w', (bind_eq_ok_iff _ _ _).mpr ⟨w', hpaid, ?_⟩, hleft⟩
    exact (bind_eq_ok_iff _ _ _).mpr ⟨_, (expect_eq_ok_iff _ _ _).mpr
      (hs.checkedAdd_accrued t), rfl⟩
  · have hzero : accrued s t = 0 := by omega
    rw [if_neg hpos, hzero, add_zero]
    exact ⟨w, rfl, by omega⟩

/-- The employer's part of a settlement. -/
theorem payRefund_covered {s : Stream} (employer : Address) {refund : Int}
    {w : World} (hanswers : (host.tokens s.token).isSome = true)
    (hcovered : refund ≤ holding host s.token w) :
    Returns (payRefund host s employer refund w) := by
  unfold payRefund
  by_cases hpos : 0 < refund
  · rw [if_pos hpos]
    obtain ⟨w', hpaid, _⟩ := tokenTransfer_covered htokens (.refund s.id) employer
      hanswers hpos.le hcovered
    exact Returns.of_eq hpaid
  · rw [if_neg hpos]
    exact Returns.of_eq rfl

end Transfers

theorem Payable.rest_covered {host : Host} {w : World} {id : Nat} {s : Stream}
    (h : Payable host w id s) (hlive : s.status = .active ∨ s.status = .paused) :
    s.deposit - s.withdrawn ≤ holding host s.token w := by
  have hcovered := h.covered
  unfold outstanding at hcovered
  rw [if_pos ⟨rfl, hlive⟩] at hcovered
  exact hcovered

/-! ## The calls -/

section Calls

variable {host : Host} {ctx : Context} {w : World} {id : Nat} {s : Stream}

theorem settleStream_returns
    (htokens : AllTokens host.tokens TokenLaw.Honest)
    (hpayable : Payable host w id s)
    (hlive : s.status = .active ∨ s.status = .paused) (t streamId : Nat)
    (employer : Address) (final : StreamStatus) :
    Returns (settleStream host s streamId employer (accrued s t) final w) := by
  have hbounds := hpayable.toAmountsInBounds
  have hle := withdrawn_add_accrued_le hbounds t
  have hnonneg := accrued_nonneg hbounds t
  have hwithdrawn := hbounds.withdrawn_nonneg
  have hrest := hpayable.rest_covered hlive
  have howedLe : accrued s t ≤ holding host s.token w := by omega
  obtain ⟨w₁, howed, hleft⟩ := payOwed_covered htokens hbounds
    hpayable.token_answers howedLe
  -- the refund is what the first payment leaves of the covered amount
  let settled : Stream := { s with withdrawn := s.withdrawn + accrued s t }
  have hrefund : refundOf settled = s.deposit - (s.withdrawn + accrued s t) := by
    show max ((checkedSub s.deposit (s.withdrawn + accrued s t)).getD 0) 0 = _
    rw [checkedSub_of_le (by omega) hle hbounds.deposit_le, Option.getD_some]
    exact max_eq_left (by omega)
  have hcovered : refundOf settled ≤ holding host s.token w₁ := by omega
  obtain ⟨w₂, hpaid⟩ : Returns (payRefund host settled employer
      (refundOf settled) w₁) :=
    payRefund_covered htokens employer hpayable.token_answers hcovered
  unfold settleStream
  exact Returns.bind howed (Returns.bind hpaid (Returns.of_eq rfl))

variable (hpayable : Payable host w id s) (hnow : ctx.now ≤ u64Max)

include hpayable hnow

theorem withdraw_returns (htokens : AllTokens host.tokens TokenLaw.Honest)
    {employee : Address} (hguards : ExplicitGuards ctx w s (.withdraw employee)) :
    Returns (withdraw host ctx employee id w) := by
  obtain ⟨hauth, hrole, hpaused, hstatus, hcooldown⟩ := hguards
  have hbounds := hpayable.toAmountsInBounds
  have hnonneg := accrued_nonneg hbounds ctx.now
  unfold withdraw
  refine Returns.bind ((requireAuth_eq_ok_iff _ _ ()).mpr hauth) ?_
  refine Returns.ensure (by rw [hpaused]; rfl) ?_
  refine Returns.bind ((requireEmployeeById_eq_ok_iff _ _ _ _).mpr
    ⟨hpayable.stored, hrole⟩) ?_
  refine Returns.ensure (decide_eq_true hstatus) ?_
  refine Returns.ensure (decide_eq_true hcooldown) ?_
  refine Returns.bind (claimableAmount_eq hbounds hnow) ?_
  by_cases hzero : accrued s ctx.now = 0
  · rw [if_pos hzero]
    exact Returns.of_eq rfl
  · rw [if_neg hzero]
    -- something has accrued, so the stream is still active
    have hactive : s.status = .active := by
      rcases hstatus with hactive | hexhausted
      · exact hactive
      · exact absurd (accrued_of_isTerminal (by rw [hexhausted]; rfl) ctx.now) hzero
    have hrest := hpayable.rest_covered (Or.inl hactive)
    have hle := withdrawn_add_accrued_le hbounds ctx.now
    have hmax := hbounds.deposit_le
    have hwithdrawn := hbounds.withdrawn_nonneg
    obtain ⟨fee, hfee, hfeeNonneg, hfeeLe⟩ := withdrawalFee_returns hnonneg
      (accrued_le hbounds hnow) hpayable.fee_le
    refine Returns.ensure (by rw [hpayable.unlocked]; rfl) ?_
    refine Returns.bind hfee ?_
    refine Returns.bind ((expect_eq_ok_iff _ _ _).mpr
      (hbounds.checkedAdd_accrued ctx.now)) ?_
    let booked : Stream := { s with
      withdrawn := s.withdrawn + accrued s ctx.now, lastWithdrawTime := ctx.now }
    obtain ⟨status, hafter⟩ := statusAfterWithdraw_returns booked
    have hcovered : accrued s ctx.now ≤
        holding host s.token (saveStream w { s with locked := true }) := by
      show accrued s ctx.now ≤ holding host s.token w
      omega
    obtain ⟨w₁, w₂, hfeePaid, hsharePaid⟩ := payWithdrawal_covered (s := booked)
      htokens id employee hpayable.token_answers hfeeNonneg hfeeLe hcovered
    refine Returns.bind hafter ?_
    refine Returns.bind hfeePaid ?_
    rw [share_eq (by omega) hfeeNonneg hfeeLe]
    exact Returns.bind hsharePaid (Returns.of_eq rfl)

theorem cancelStream_returns (htokens : AllTokens host.tokens TokenLaw.Honest)
    {employer : Address}
    (hguards : ExplicitGuards ctx w s (.cancelStream employer)) :
    Returns (cancelStream host ctx employer id w) := by
  obtain ⟨hauth, hrole, hlive⟩ := hguards
  have htransition : isValidTransition s.status .cancelled = true := by
    rcases hlive with hstatus | hstatus
    · rw [hstatus]
      rfl
    · rw [hstatus]
      rfl
  unfold cancelStream
  refine Returns.bind ((requireAuth_eq_ok_iff _ _ ()).mpr hauth) ?_
  refine Returns.bind ((requireEmployerById_eq_ok_iff _ _ _ _).mpr
    ⟨hpayable.stored, hrole⟩) ?_
  refine Returns.ensure (decide_eq_true hlive) ?_
  refine Returns.bind ((requireTransition_eq_ok_iff _ _ ()).mpr htransition) ?_
  refine Returns.bind (claimableAmount_eq hpayable.toAmountsInBounds hnow) ?_
  exact settleStream_returns htokens hpayable hlive _ _ _ _

theorem reclaimExpired_returns (htokens : AllTokens host.tokens TokenLaw.Honest)
    {employer : Address}
    (hguards : ExplicitGuards ctx w s (.reclaimExpired employer)) :
    Returns (reclaimExpired host ctx employer id w) := by
  obtain ⟨hauth, hrole, hlive, hexpired⟩ := hguards
  unfold reclaimExpired
  refine Returns.bind ((requireAuth_eq_ok_iff _ _ ()).mpr hauth) ?_
  refine Returns.bind ((requireEmployerById_eq_ok_iff _ _ _ _).mpr
    ⟨hpayable.stored, hrole⟩) ?_
  refine Returns.ensure (decide_eq_true hlive) ?_
  refine Returns.ensure (decide_eq_true hexpired) ?_
  refine Returns.bind (claimableAmount_eq hpayable.toAmountsInBounds hnow) ?_
  exact settleStream_returns htokens hpayable hlive _ _ _ _

theorem updateRate_returns {employer : Address} {newRate : Int}
    (hguards : ExplicitGuards ctx w s (.updateRate employer newRate)) :
    Returns (updateRate ctx employer id newRate w) := by
  obtain ⟨hauth, hrole, hactive, hpos, hmax⟩ := hguards
  have hbounds := hpayable.toAmountsInBounds
  unfold updateRate
  refine Returns.bind ((requireAuth_eq_ok_iff _ _ ()).mpr hauth) ?_
  refine Returns.ensure (decide_eq_true hpos) ?_
  refine Returns.ensure (decide_eq_true hmax) ?_
  refine Returns.bind ((requireEmployerById_eq_ok_iff _ _ _ _).mpr
    ⟨hpayable.stored, hrole⟩) ?_
  refine Returns.ensure (decide_eq_true hactive) ?_
  refine Returns.bind (claimableAmount_eq hbounds hnow) ?_
  exact Returns.bind ((expect_eq_ok_iff _ _ _).mpr
    (hbounds.checkedAdd_accrued ctx.now)) (Returns.of_eq rfl)

theorem getStream_returns : Returns (getStream ctx id w) := by
  have hbounds := hpayable.toAmountsInBounds
  unfold getStream
  refine Returns.bind ((loadStream_eq_ok_iff _ _ _).mpr hpayable.stored) ?_
  by_cases hexpired : s.status = .active ∧ 0 < s.stopTime ∧ s.stopTime ≤ ctx.now
  · rw [if_pos hexpired]
    refine Returns.bind (claimableAmount_eq hbounds hnow) ?_
    split
    · exact Returns.of_eq rfl
    · -- the stop time has passed, so it is a `u64` time too
      refine Returns.bind (claimableAmount_eq hbounds (by omega)) ?_
      dsimp only
      split
      · exact Returns.of_eq rfl
      · exact Returns.of_eq rfl
  · rw [if_neg hexpired]
    exact Returns.of_eq rfl

/-- A call on a payable stream returns once its explicit guards hold. -/
theorem onStream_returns (htokens : AllTokens host.tokens TokenLaw.Honest)
    {call : StreamCall} (hguards : ExplicitGuards ctx w s call) :
    Returns (execOnStream host ctx id call w) := by
  cases call with
  | withdraw employee =>
      exact (withdraw_returns hpayable hnow htokens hguards).map _
  | cancelStream employer =>
      exact (cancelStream_returns hpayable hnow htokens hguards).map _
  | reclaimExpired employer =>
      exact (reclaimExpired_returns hpayable hnow htokens hguards).map _
  | updateRate employer newRate =>
      exact (updateRate_returns hpayable hnow hguards).map _
  | getStream => exact (getStream_returns hpayable hnow).map _
  | transferStream _ _ | topUp _ _ | pauseStream _ | resumeStream _
  | setDelegate _ _ | proposeEmployerTransfer _ _ | acceptEmployerTransfer _ =>
      exact hguards.elim

end Calls

/-! ## Every run -/

/-- The deposit of a new stream was moved by its token. -/
theorem creation_token_answers {host : Host} {s : Stream}
    {log : List TokenTransfer} {before after : Balances Address Address}
    (hpays : CreationTransfers host.self s log)
    (hperformed : Performed host.tokens log before after) :
    (host.tokens s.token).isSome = true := by
  cases hpays with
  | depositOnly =>
      obtain ⟨_, _, hdeposit⟩ := hperformed
      exact isSome_of_perform hdeposit
  | withFee recipient fee =>
      obtain ⟨_, _, hfee⟩ := hperformed
      exact isSome_of_perform hfee

/-- The token of a stored stream is one that answers. -/
theorem token_answers_of_reaches {host : Host} {history : History} {w : World}
    (hrun : Reaches host history w) :
    ∀ id s, w.streams id = some s → (host.tokens s.token).isSome = true := by
  refine Reaches.invariant (P := fun _ w => ∀ id s, w.streams id = some s →
    (host.tokens s.token).isSome = true) ?_ ?_ ?_ hrun
  · intro balances _ id s hs
    cases hs
  · intro history w inv value w' hrun _ ih hsucceeds id s hs
    cases streamChange_of_succeeds hrun hsucceeds id with
    | same hstream _ =>
        rw [hstream] at hs
        exact ih id s hs
    | born new log _ _ hstream _ _ hpays hperformed _ =>
        rw [hstream] at hs
        cases hs
        obtain ⟨_, _, hperformed⟩ := hperformed
        exact creation_token_answers hpays hperformed
    | updated old op log _ _ hold _ hupdate hstream _ =>
        rw [hstream] at hs
        cases hs
        rw [next_token]
        exact ih id old hold
  · intro history w inv _ _ ih _
    exact ih

/-- One stream's part of the escrow is covered with it. -/
theorem outstanding_le_holding {host : Host}
    (htokens : AllTokens host.tokens TokenLaw.Honest) {history : History}
    {w : World} (hrun : Reaches host history w)
    (hself : SelfNeverSigns host history) (hfee : FeeWithinLimit history)
    (hnever : NeverWithdrawsFees history) {id : Nat} {s : Stream}
    (hs : w.streams id = some s) (token : Address) :
    outstanding token s ≤ holding host token w := by
  obtain ⟨_, hlow, hhigh⟩ := keyed_of_reaches hrun id s hs
  have hwell := allWellFormed_of_reaches htokens.rejectsNegative hrun
  calc outstanding token s ≤ escrow token w := by
        apply weight_le_registryTotal hlow hhigh hs
        intro other found hfound
        have hle := (hwell other found hfound).withdrawn_le
        unfold outstanding
        split
        · omega
        · exact le_rfl
    _ ≤ holding host token w :=
        escrow_le_holding htokens hrun hself hfee hnever token

theorem payable_of_reaches {host : Host}
    (htokens : AllTokens host.tokens TokenLaw.Honest) {history : History}
    {w : World} (hrun : Reaches host history w)
    (hself : SelfNeverSigns host history) (hfee : FeeWithinLimit history)
    (hnever : NeverWithdrawsFees history) {id : Nat} {s : Stream}
    (hs : w.streams id = some s) : Payable host w id s := by
  have hwell := allWellFormed_of_reaches htokens.rejectsNegative hrun id s hs
  exact
    { hwell.toAmountsInBounds with
      stored := hs
      unlocked := hwell.unlocked
      token_answers := token_answers_of_reaches hrun id s hs
      covered := outstanding_le_holding htokens hrun hself hfee hnever hs s.token
      fee_le := feeBps_le_of_reaches hrun hfee }

/-- In a run without payouts of fees, the claimable amount of every stored stream
is defined at every `u64` time, and each call that settles a stream, moves its
rate or looks at it returns whenever its explicit guards hold. -/
theorem settlement_available {host : Host}
    (htokens : AllTokens host.tokens TokenLaw.Honest) {history : History}
    {w : World} (hrun : Reaches host history w)
    (hself : SelfNeverSigns host history) (hfee : FeeWithinLimit history)
    (hnever : NeverWithdrawsFees history) {id : Nat} {s : Stream}
    (hs : w.streams id = some s) :
    (∀ t, t ≤ u64Max → Returns (claimableAmount s t)) ∧
      ∀ ctx call, ctx.now ≤ u64Max → ExplicitGuards ctx w s call →
        Returns (exec host ctx (.onStream id call) w) := by
  have hpayable := payable_of_reaches htokens hrun hself hfee hnever hs
  constructor
  · intro t ht
    exact Returns.of_eq (claimableAmount_eq hpayable.toAmountsInBounds ht)
  · intro ctx call hnow hguards
    exact onStream_returns hpayable hnow htokens hguards

/-- Withdrawn from at 60, the stream lets its employee withdraw again at 90 and
its employer cancel. -/
theorem settlement_available_of_withdrawal :
    ∃ s, (Sample.play feeBearingRun).2.streams 1 = some s ∧ s.withdrawn = 5000 ∧
      Returns (exec Sample.host ⟨90, [Sample.employee]⟩
        (.onStream 1 (.withdraw Sample.employee)) (Sample.play feeBearingRun).2) ∧
      Returns (exec Sample.host ⟨90, [Sample.employer]⟩
        (.onStream 1 (.cancelStream Sample.employer))
        (Sample.play feeBearingRun).2) := by
  obtain ⟨hself, hfee, hnever⟩ := feeBearingRun_within
  obtain ⟨s, hs⟩ := Option.isSome_iff_exists.mp
    (show ((Sample.play feeBearingRun).2.streams 1).isSome = true by decide)
  have hfields : s.employee = Sample.employee ∧ s.employer = Sample.employer ∧
      s.status = .active ∧ s.cooldownPeriod = 0 ∧ s.withdrawn = 5000 := by
    have hall : ∀ found ∈ (Sample.play feeBearingRun).2.streams 1,
        found.employee = Sample.employee ∧ found.employer = Sample.employer ∧
          found.status = .active ∧ found.cooldownPeriod = 0 ∧
          found.withdrawn = 5000 := by
      decide
    exact hall s hs
  obtain ⟨hemployee, hemployer, hactive, hcooldown, hwithdrawn⟩ := hfields
  have hcalls := (settlement_available Sample.host_honest
    (Sample.play_reaches feeBearingRun (by decide)) hself hfee hnever hs).2
  refine ⟨s, hs, hwithdrawn, hcalls _ _ (by decide) ?_, hcalls _ _ (by decide) ?_⟩
  · refine ⟨List.mem_singleton_self _, hemployee.symm, by decide, Or.inl hactive, ?_⟩
    intro hcooling
    omega
  · exact ⟨List.mem_singleton_self _, hemployer.symm, Or.inl hactive⟩

end Properties
end Paystream
