import Paystream.Properties.Representation

/-!
# Full settlement

A terminal stream can neither be withdrawn from nor cancelled, so whatever the
contract received for it and has not paid out by then stays where it is.  The
transfer log tells both sums: `received` collects the net deposit and the
top-ups, `paidOut` the salaries, the withdrawal fees and the refunds.

For a live stream `withdrawn` is meant to be what was paid out, and three calls
write one without the other (`PaysAsItBooks` says when they do not):

* `withdraw` keeps a fee for which no recipient is set;
* `update_rate` books the accrued amount as withdrawn and pays nobody;
* `get_stream` marks a fully streamed stream exhausted, paid out or not.

`settled_in_full`: in a run without these, every terminal stream is settled to
the last unit.
-/

namespace Paystream
namespace Properties

open Library
open Contract
open Contract.Storage
open Contract.StreamContract
open Semantics

/-! ## Receipts and payments of one stream -/

/-- The transfers that bring tokens in for the stream `id`. -/
def isReceipt (id : Nat) : Purpose → Bool
  | .deposit streamId => decide (streamId = id)
  | .topUp streamId => decide (streamId = id)
  | _ => false

/-- The transfers that pay tokens out on behalf of the stream `id`. -/
def isPayment (id : Nat) : Purpose → Bool
  | .salary streamId => decide (streamId = id)
  | .withdrawalFee streamId => decide (streamId = id)
  | .refund streamId => decide (streamId = id)
  | _ => false

/-- What the contract received for the stream: its net deposit and its
top-ups. -/
def received (id : Nat) (w : World) : Int :=
  totalFor (isReceipt id) w.transfers

/-- What the contract paid out on behalf of the stream: to its employees, to
the fee recipient, and back to its employer. -/
def paidOut (id : Nat) (w : World) : Int :=
  totalFor (isPayment id) w.transfers

theorem isReceipt_streamId {id : Nat} {purpose : Purpose}
    (h : isReceipt id purpose = true) : purpose.streamId = some id := by
  cases purpose <;> simp_all [isReceipt, Purpose.streamId]

theorem isPayment_streamId {id : Nat} {purpose : Purpose}
    (h : isPayment id purpose = true) : purpose.streamId = some id := by
  cases purpose <;> simp_all [isPayment, Purpose.streamId]

/-- Only the transfers booked under a stream count for it. -/
theorem totalFor_logOf {id : Nat} {selected : Purpose → Bool}
    (hselected : ∀ purpose, selected purpose = true →
      purpose.streamId = some id) (log : List TokenTransfer) :
    totalFor selected (logOf id log) = totalFor selected log := by
  induction log with
  | nil => rfl
  | cons transfer earlier ih =>
      rw [totalFor_cons, ← ih]
      unfold logOf
      by_cases hbooked : transfer.purpose.streamId = some id
      · rw [List.filter_cons_of_pos (by simpa using hbooked), totalFor_cons]
      · have hnot : selected transfer.purpose = false := by
          cases hcase : selected transfer.purpose with
          | false => rfl
          | true => exact absurd (hselected _ hcase) hbooked
        rw [List.filter_cons_of_neg (by simpa using hbooked), hnot]
        simp

theorem received_eq (id : Nat) (w : World) :
    received id w = totalFor (isReceipt id) (logOf id w.transfers) :=
  (totalFor_logOf (fun _ => isReceipt_streamId) w.transfers).symm

theorem paidOut_eq (id : Nat) (w : World) :
    paidOut id w = totalFor (isPayment id) (logOf id w.transfers) :=
  (totalFor_logOf (fun _ => isPayment_streamId) w.transfers).symm

section

variable {id : Nat} {w w' : World} {log : List TokenTransfer}

theorem received_congr (h : logOf id w'.transfers = logOf id w.transfers) :
    received id w' = received id w := by
  rw [received_eq, received_eq, h]

theorem paidOut_congr (h : logOf id w'.transfers = logOf id w.transfers) :
    paidOut id w' = paidOut id w := by
  rw [paidOut_eq, paidOut_eq, h]

/-- New transfers add what they move. -/
theorem received_append (h : logOf id w'.transfers = log ++ logOf id w.transfers) :
    received id w' = totalFor (isReceipt id) log + received id w := by
  rw [received_eq, received_eq, h, totalFor_append]

theorem paidOut_append (h : logOf id w'.transfers = log ++ logOf id w.transfers) :
    paidOut id w' = totalFor (isPayment id) log + paidOut id w := by
  rw [paidOut_eq, paidOut_eq, h, totalFor_append]

end

/-! ## Creation and operations -/

theorem creation_totals {self : Address} {s : Stream} {log : List TokenTransfer}
    (h : CreationTransfers self s log) :
    totalFor (isReceipt s.id) log = s.deposit ∧
      totalFor (isPayment s.id) log = 0 := by
  cases h with
  | depositOnly => simp [isReceipt, isPayment]
  | withFee recipient fee => simp [isReceipt, isPayment]

/-- A settlement consists of salary and refund. -/
theorem settlement_totalFor_eq_zero {selected : Purpose → Bool} {s : Stream}
    (hsalary : selected (.salary s.id) = false)
    (hrefund : selected (.refund s.id) = false) (self : Address) (owed : Int) :
    totalFor selected (settlementTransfers self s owed) = 0 := by
  unfold settlementTransfers
  simp only [totalFor_append]
  split <;> split <;> simp [hsalary, hrefund]

theorem settlement_totals (self : Address) (s : Stream) (owed : Int) :
    totalFor (isReceipt s.id) (settlementTransfers self s owed) = 0 ∧
      totalFor (isPayment s.id) (settlementTransfers self s owed) =
        max (refundOf { s with withdrawn := s.withdrawn + owed }) 0 +
          max owed 0 := by
  refine ⟨settlement_totalFor_eq_zero rfl rfl self owed, ?_⟩
  unfold settlementTransfers
  simp only [totalFor_append]
  split
  · split
    · simp [isPayment]
      omega
    · simp [isPayment]
      omega
  · split
    · simp [isPayment]
      omega
    · simp
      omega

theorem withdrawal_receipts (self : Address) (s : Stream) (gross fee : Int)
    (recipient : Option Address) :
    totalFor (isReceipt s.id) (withdrawalTransfers self s gross fee recipient) =
      0 := by
  unfold withdrawalTransfers feeTransfers shareTransfer
  cases recipient with
  | none => simp [isReceipt]
  | some recipient =>
      by_cases hpos : 0 < fee
      · simp [isReceipt, hpos]
      · simp [isReceipt, hpos]

/-- What a withdrawal pays out: the employee's share, and a positive fee when a
recipient is set. -/
theorem withdrawal_payments (self : Address) (s : Stream) (gross fee : Int)
    (recipient : Option Address) :
    totalFor (isPayment s.id) (withdrawalTransfers self s gross fee recipient) =
      max (saturatingSub gross fee) 0 +
        if recipient.isSome then max fee 0 else 0 := by
  unfold withdrawalTransfers feeTransfers shareTransfer
  cases recipient with
  | none => simp [isPayment]
  | some recipient =>
      by_cases hpos : 0 < fee
      · simp [isPayment, hpos, hpos.le]
      · simp [isPayment, hpos]
        omega

/-- The deposit of a stream grows by what an operation brings in. -/
theorem op_receipts {host : Host} {ctx : Context} {w : World} {s : Stream}
    {op : StreamOp} {log : List TokenTransfer} (h : op.Pays host ctx w s log) :
    totalFor (isReceipt s.id) log = (op.next ctx.now s).deposit - s.deposit := by
  cases op with
  | withdraw gross =>
      obtain ⟨fee, _, rfl⟩ := h
      rw [withdrawal_receipts]
      simp [StreamOp.next]
  | topUp amount =>
      obtain ⟨caller, _, rfl⟩ := h
      simp [isReceipt, StreamOp.next]
  | cancel owed =>
      obtain rfl := h
      rw [(settlement_totals host.self s owed).1]
      simp [StreamOp.next]
  | reclaim owed =>
      obtain rfl := h
      rw [(settlement_totals host.self s owed).1]
      simp [StreamOp.next]
  | _ =>
      obtain rfl := h
      simp [StreamOp.next]

/-! ## Payments against the books -/

/-- What the books count as paid out: what was withdrawn, or everything once
the stream is terminal. -/
def settledAmount (s : Stream) : Int :=
  if isTerminal s.status then s.deposit else s.withdrawn

/-- The call pays out what it books for the stream.  A withdrawal has no fee,
or a recipient for it and a fee within the gross amount; a rate update finds
nothing accrued; and a look at an expired stream does not find its deposit
streamed but unpaid. -/
def PaysAsItBooks (w : World) (now : Nat) (s : Stream) : StreamCall → Prop
  | .withdraw _ => ∀ gross, claimableAmount s now = .ok gross →
      gross * w.config.feeBps < 10000 ∨
        (w.feeRecipient.isSome ∧ gross * w.config.feeBps < 10000 * (gross + 1))
  | .updateRate _ _ => claimableAmount s now = .ok 0
  | .getStream => s.status = .active → 0 < s.stopTime → s.stopTime ≤ now →
      s.withdrawn < s.deposit →
      ∀ earned, claimableAmount s s.stopTime = .ok earned →
        s.withdrawn + earned < s.deposit
  | _ => True

/-- The fee of a gross amount, as a quotient. -/
theorem withdrawalFee_eq {feeBps : Nat} {gross fee : Int} (hgross : 0 ≤ gross)
    (h : withdrawalFee feeBps gross = .ok fee) : fee = gross * feeBps / 10000 := by
  unfold withdrawalFee at h
  split at h
  · simp only [bind_eq_ok_iff, expect_eq_ok_iff, checkedMul_eq_some_iff,
      pure_eq_ok_iff] at h
    obtain ⟨_, ⟨_, rfl⟩, rfl⟩ := h
    exact Int.tdiv_eq_ediv_of_nonneg (by positivity)
  · rename_i hzero
    cases h
    have hbps : feeBps = 0 := by omega
    simp [hbps]

/-- A fee within the gross amount leaves the difference. -/
theorem share_eq {gross fee : Int} (hmax : gross ≤ i128Max) (hnonneg : 0 ≤ fee)
    (hle : fee ≤ gross) : max (saturatingSub gross fee) 0 = gross - fee := by
  have hmin : i128Min ≤ 0 := by decide
  have hexact : saturatingSub gross fee = gross - fee := by
    apply saturate_of_inI128
    exact ⟨by omega, by omega⟩
  rw [hexact]
  exact max_eq_left (by omega)

/-- Clamped or not, the employee's share is within the gross amount. -/
theorem share_le {gross fee : Int} (hgross : 0 ≤ gross) (hnonneg : 0 ≤ fee) :
    max (saturatingSub gross fee) 0 ≤ gross := by
  have hmin : i128Min ≤ 0 := by decide
  unfold saturatingSub saturate
  omega

/-- Under the condition, share and fee of a withdrawal add up to the gross
amount. -/
theorem share_add_fee {feeBps : Nat} {recipient : Option Address}
    {gross fee : Int} (hgross : 0 ≤ gross) (hmax : gross ≤ i128Max)
    (hfee : withdrawalFee feeBps gross = .ok fee)
    (h : gross * feeBps < 10000 ∨
      (recipient.isSome ∧ gross * feeBps < 10000 * (gross + 1))) :
    max (saturatingSub gross fee) 0 +
      (if recipient.isSome then max fee 0 else 0) = gross := by
  have hvalue := withdrawalFee_eq hgross hfee
  have hproduct : 0 ≤ gross * (feeBps : Int) := by positivity
  have hle : 0 ≤ fee ∧ fee ≤ gross := by
    rcases h with h | ⟨_, h⟩ <;> omega
  rw [share_eq hmax hle.1 hle.2]
  rcases h with h | ⟨hsome, h⟩
  · have hzero : fee = 0 := by omega
    split <;> omega
  · rw [if_pos hsome]
    omega

theorem settledAmount_of_live {s : Stream} (h : isTerminal s.status = false) :
    settledAmount s = s.withdrawn := by
  unfold settledAmount
  rw [h]
  rfl

theorem settledAmount_of_open {s : Stream}
    (h : s.status = .active ∨ s.status = .paused) :
    settledAmount s = s.withdrawn :=
  settledAmount_of_live ((isTerminal_eq_false_iff _).mpr h)

theorem settledAmount_of_terminal {s : Stream} (h : isTerminal s.status = true) :
    settledAmount s = s.deposit := by
  unfold settledAmount
  rw [if_pos h]

/-- What is booked as settled is at least what was withdrawn, and within the
deposit. -/
theorem settledAmount_bounds {s : Stream} (hle : s.withdrawn ≤ s.deposit) :
    s.withdrawn ≤ settledAmount s ∧ settledAmount s ≤ s.deposit := by
  unfold settledAmount
  split
  · exact ⟨hle, le_rfl⟩
  · exact ⟨le_rfl, hle⟩

/-- A settlement pays out no more than what is left of the deposit. -/
theorem settlement_payments_le {s : Stream} {now : Nat} {owed : Int}
    (self : Address) (hle : s.withdrawn ≤ s.deposit)
    (howed : claimableAmount s now = .ok owed) :
    totalFor (isPayment s.id) (settlementTransfers self s owed) ≤
      s.deposit - s.withdrawn := by
  have hnonneg := claimableAmount_nonneg howed
  have howedLe := withdrawn_add_claimable_le hle howed
  have hrefund : refundOf { s with withdrawn := s.withdrawn + owed } ≤
      s.deposit - (s.withdrawn + owed) := by
    show max ((checkedSub s.deposit (s.withdrawn + owed)).getD 0) 0 ≤ _
    cases hsub : checkedSub s.deposit (s.withdrawn + owed) with
    | none =>
        show max (0 : Int) 0 ≤ _
        omega
    | some rest =>
        obtain ⟨_, rfl⟩ := (checked_eq_some_iff _ _).mp hsub
        show max (s.deposit - (s.withdrawn + owed)) 0 ≤ _
        omega
  rw [(settlement_totals self s owed).2]
  omega

/-- Exhausted by a withdrawal or not, the books move by its gross amount. -/
theorem settledAmount_withdraw {now : Nat} {s : Stream} {gross : Int}
    (hactive : s.status = .active) (hle : s.withdrawn + gross ≤ s.deposit) :
    settledAmount ((StreamOp.withdraw gross).next now s) = s.withdrawn + gross := by
  by_cases hdone : s.deposit ≤ s.withdrawn + gross
  · have hstatus : ((StreamOp.withdraw gross).next now s).status = .exhausted :=
      if_pos hdone
    rw [settledAmount_of_terminal (by rw [hstatus]; rfl)]
    show s.deposit = s.withdrawn + gross
    omega
  · have hstatus : ((StreamOp.withdraw gross).next now s).status = s.status :=
      if_neg hdone
    rw [settledAmount_of_live (by rw [hstatus, hactive]; rfl)]
    rfl

/-- By how much an operation moves the books. -/
def bookedBy (s : Stream) : StreamOp → Int
  | .withdraw gross => gross
  | .cancel _ => s.deposit - s.withdrawn
  | .reclaim _ => s.deposit - s.withdrawn
  | .updateRate _ accrued => accrued
  | .markExhausted => s.deposit - s.withdrawn
  | _ => 0

theorem settledAmount_next {now : Nat} {s : Stream} {op : StreamOp}
    (hguard : op.Guard now s) (hle : s.withdrawn ≤ s.deposit) :
    settledAmount (op.next now s) = settledAmount s + bookedBy s op := by
  -- an operation that closes the stream books the rest of the deposit
  have hcloses : s.status = .active ∨ s.status = .paused →
      s.deposit = settledAmount s + (s.deposit - s.withdrawn) := by
    intro hopen
    rw [settledAmount_of_open hopen]
    omega
  cases op with
  | withdraw gross =>
      obtain ⟨hactive, _, _, hgross⟩ := hguard
      rw [settledAmount_withdraw hactive (withdrawn_add_claimable_le hle hgross),
        settledAmount_of_open (Or.inl hactive)]
      rfl
  | topUp amount =>
      have hafter : settledAmount ((StreamOp.topUp amount).next now s) =
          s.withdrawn := settledAmount_of_live hguard.2.1
      rw [hafter, settledAmount_of_live hguard.2.1]
      exact (add_zero _).symm
  | pause =>
      rw [settledAmount_of_open (Or.inl hguard)]
      exact (settledAmount_of_open (Or.inr rfl)).trans (add_zero _).symm
  | resume =>
      rw [settledAmount_of_open (Or.inr hguard)]
      exact (settledAmount_of_open (Or.inl rfl)).trans (add_zero _).symm
  | cancel owed => exact (settledAmount_of_terminal rfl).trans (hcloses hguard.1)
  | reclaim owed => exact (settledAmount_of_terminal rfl).trans (hcloses hguard.1)
  | updateRate newRate accrued =>
      rw [settledAmount_of_open (Or.inl hguard.1)]
      exact settledAmount_of_open (Or.inl hguard.1)
  | markExhausted =>
      exact (settledAmount_of_terminal rfl).trans (hcloses (Or.inl hguard.1))
  | changeEmployee newEmployee => exact (add_zero _).symm
  | changeDelegate delegate => exact (add_zero _).symm
  | changeEmployer newEmployer => exact (add_zero _).symm

/-- No operation but a withdrawal pays out more than it books. -/
theorem op_payments_booked {host : Host} {ctx : Context} {w : World} {s : Stream}
    {op : StreamOp} {log : List TokenTransfer} (hle : s.withdrawn ≤ s.deposit)
    (hop : ∀ gross, op ≠ .withdraw gross) (hguard : op.Guard ctx.now s)
    (hpays : op.Pays host ctx w s log) :
    totalFor (isPayment s.id) log ≤
      settledAmount (op.next ctx.now s) - settledAmount s := by
  rw [settledAmount_next hguard hle, add_sub_cancel_left]
  cases op with
  | withdraw gross => exact absurd rfl (hop gross)
  | topUp amount =>
      obtain ⟨caller, _, rfl⟩ := hpays
      simp [isPayment, bookedBy]
  | cancel owed =>
      obtain rfl := hpays
      exact settlement_payments_le host.self hle hguard.2
  | reclaim owed =>
      obtain rfl := hpays
      exact settlement_payments_le host.self hle hguard.2.2
  | updateRate newRate accrued =>
      obtain rfl := hpays
      exact claimableAmount_nonneg hguard.2.2.2
  | markExhausted =>
      obtain rfl := hpays
      show 0 ≤ s.deposit - s.withdrawn
      omega
  | _ =>
      obtain rfl := hpays
      exact le_rfl

/-- A settlement pays the rest of the deposit, split between the two sides. -/
theorem settlement_payments {now : Nat} {s : Stream} {owed : Int} (self : Address)
    (hbounds : AmountsInBounds s) (hmax : now ≤ u64Max)
    (howed : claimableAmount s now = .ok owed) :
    totalFor (isPayment s.id) (settlementTransfers self s owed) =
      s.deposit - s.withdrawn := by
  obtain rfl := eq_accrued_of_claimableAmount hbounds hmax howed
  have hwithdrawn := hbounds.withdrawn_nonneg
  have hnonneg := accrued_nonneg hbounds now
  have hle := withdrawn_add_accrued_le hbounds now
  have hbooked : 0 ≤ s.withdrawn + accrued s now := by omega
  have hrefund : refundOf { s with withdrawn := s.withdrawn + accrued s now } =
      s.deposit - (s.withdrawn + accrued s now) := by
    unfold refundOf
    rw [checkedSub_of_le hbooked hle hbounds.deposit_le, Option.getD_some]
    exact max_eq_left (by omega)
  rw [(settlement_totals self s _).2, hrefund]
  omega

/-- Where `get_stream` marks a stream exhausted under the condition, all of it
was withdrawn. -/
theorem withdrawn_eq_of_markExhausted {w : World} {now : Nat} {s : Stream}
    (hbounds : AmountsInBounds s)
    (hguard : StreamOp.markExhausted.Guard now s)
    (hpays : PaysAsItBooks w now s .getStream) : s.withdrawn = s.deposit := by
  obtain ⟨hactive, ⟨hstop, hexpired⟩, claimable, _, hstreamed⟩ := hguard
  have hle := hbounds.withdrawn_le
  by_contra hne
  rcases hstreamed with ⟨_, hall⟩ | ⟨earned, hearned, htotal⟩
  · omega
  · have hbelow := hpays hactive hstop hexpired (by omega) earned hearned
    have hwithdrawn := hbounds.withdrawn_nonneg
    have hnonneg := claimableAmount_nonneg hearned
    have hdeposit := hbounds.deposit_le
    have hmin : i128Min ≤ 0 := by decide
    have hsum : checkedAdd s.withdrawn earned = some (s.withdrawn + earned) := by
      rw [checkedAdd_eq_some_iff]
      exact ⟨⟨by omega, by omega⟩, rfl⟩
    rw [hsum, Option.getD_some] at htotal
    omega

/-- Under the condition, an operation pays out by how much the books move. -/
theorem op_payments {host : Host} {ctx : Context} {w w' : World} {id : Nat}
    {s : Stream} {op : StreamOp} {log : List TokenTransfer} {call : StreamCall}
    (hwell : WellFormed ctx.now s) (hmax : ctx.now ≤ u64Max)
    (hissues : Issues ctx w id s call op)
    (hupdate : StreamUpdate host ctx w w' s op log)
    (hpays : PaysAsItBooks w ctx.now s call) :
    totalFor (isPayment s.id) log =
      settledAmount (op.next ctx.now s) - settledAmount s := by
  have hbounds := hwell.toAmountsInBounds
  have hlog := hupdate.pays
  have hguard := hupdate.guard
  rw [settledAmount_next hguard hbounds.withdrawn_le, add_sub_cancel_left]
  cases hissues with
  | withdraw gross _ =>
      obtain ⟨_, _, _, hgross⟩ := hguard
      obtain ⟨fee, hfee, rfl⟩ := hlog
      have hnonneg := claimableAmount_nonneg hgross
      have hle := withdrawn_add_claimable_le hbounds.withdrawn_le hgross
      have hwithdrawn := hbounds.withdrawn_nonneg
      have hdeposit := hbounds.deposit_le
      rw [withdrawal_payments]
      exact share_add_fee hnonneg (by omega) hfee (hpays gross hgross)
  | topUp caller amount _ _ =>
      obtain ⟨_, _, rfl⟩ := hlog
      simp [isPayment, bookedBy]
  | cancel owed _ =>
      obtain rfl := hlog
      exact settlement_payments host.self hbounds hmax hguard.2
  | reclaim owed _ =>
      obtain rfl := hlog
      exact settlement_payments host.self hbounds hmax hguard.2.2
  | updateRate newRate accrued _ =>
      obtain rfl := hlog
      have hnone : claimableAmount s ctx.now = .ok 0 := hpays
      exact (Except.ok.inj (hguard.2.2.2.symm.trans hnone)).symm
  | markExhausted =>
      obtain rfl := hlog
      have hdone := withdrawn_eq_of_markExhausted hbounds hguard hpays
      show 0 = s.deposit - s.withdrawn
      omega
  | _ =>
      obtain rfl := hlog
      rfl

/-! ## Every run -/

/-- Every call on the stream `id` that returned paid out what it booked. -/
def PaysThroughout (host : Host) (id : Nat) (history : History) : Prop :=
  ∀ entry ∈ history, ∀ call s, entry.input.call = .onStream id call →
    entry.before.streams id = some s → ¬ Fails host entry.before entry.input →
      PaysAsItBooks entry.before entry.input.now s call

/-- The log of the stream `id` and its record tell the same story. -/
structure Accounted (id : Nat) (w : World) : Prop where
  absent : w.streams id = none → logOf id w.transfers = []
  receipts : ∀ s, w.streams id = some s → received id w = s.deposit
  payments : ∀ s, w.streams id = some s → paidOut id w = settledAmount s

/-- One call that pays out what it books keeps log and record together. -/
theorem Accounted.change {host : Host} {ctx : Context} {w w' : World} {id : Nat}
    {call : Call} (h : Accounted id w) (hkeyed : Keyed w)
    (hwell : AllWellFormed ctx.now w) (hmax : ctx.now ≤ u64Max)
    (hchange : StreamChange host ctx w w' id call)
    (hpays : ∀ streamCall s, call = .onStream id streamCall →
      w.streams id = some s → PaysAsItBooks w ctx.now s streamCall) :
    Accounted id w' := by
  obtain ⟨habsent, hreceipts, hpayments⟩ := h
  cases hchange with
  | same hstream hlog =>
      refine ⟨?_, ?_, ?_⟩
      · intro hnone
        rw [hlog]
        exact habsent (hstream.symm.trans hnone)
      · intro s hs
        rw [received_congr hlog]
        exact hreceipts s (hstream.symm.trans hs)
      · intro s hs
        rw [paidOut_congr hlog]
        exact hpayments s (hstream.symm.trans hs)
  | born new log _ hnone hstream hid hfresh hcreation _ hlog =>
      -- nothing was booked under the id before
      rw [habsent hnone, List.append_nil] at hlog
      obtain ⟨hin, hout⟩ := creation_totals hcreation
      rw [hid] at hin hout
      refine ⟨?_, ?_, ?_⟩
      · intro hstill
        rw [hstream] at hstill
        cases hstill
      · intro s hs
        rw [hstream] at hs
        cases hs
        rw [received_eq, hlog, hin]
      · intro s hs
        rw [hstream] at hs
        cases hs
        rw [paidOut_eq, hlog, hout, settledAmount_of_open (Or.inl hfresh.status),
          hfresh.withdrawn]
  | updated old op log streamCall hcall hold hissues hupdate hstream hlog =>
      -- the log grows by what the record says was received and settled
      have hin := op_receipts hupdate.pays
      have hout := op_payments (hwell id old hold) hmax hissues hupdate
        (hpays streamCall old hcall hold)
      rw [(hkeyed id old hold).1] at hin hout
      refine ⟨?_, ?_, ?_⟩
      · intro hnone
        rw [hstream] at hnone
        cases hnone
      · intro s hs
        rw [hstream] at hs
        cases hs
        rw [received_append hlog, hin, hreceipts old hold]
        omega
      · intro s hs
        rw [hstream] at hs
        cases hs
        rw [paidOut_append hlog, hout, hpayments old hold]
        omega

theorem accounted_of_reaches {host : Host}
    (htokens : AllTokens host.tokens TokenLaw.RejectsNegative)
    {history : History} {w : World} (hrun : Reaches host history w) {id : Nat}
    (hpays : PaysThroughout host id history) : Accounted id w := by
  refine Reaches.invariant (P := fun history w =>
    PaysThroughout host id history → Accounted id w) ?_ ?_ ?_ hrun hpays
  · intro balances _ _
    refine ⟨fun _ => rfl, ?_, ?_⟩
    · intro s hs
      cases hs
    · intro s hs
      cases hs
  · intro history w inv value w' hrun htime ih hsucceeds hpays
    obtain ⟨hpaysNow, hpaysEarlier⟩ := List.forall_mem_cons.mp hpays
    have hwell := (allWellFormed_of_reaches htokens hrun).mono htime
    exact (ih hpaysEarlier).change (keyed_of_reaches hrun) hwell inv.now_le
      (streamChange_of_succeeds hrun hsucceeds id)
      (fun call s hcall hs => hpaysNow call s hcall hs hsucceeds.not_fails)
  · intro history w inv _ _ ih _ hpays
    exact ih (List.forall_mem_cons.mp hpays).2

/-- In a run whose calls on a stream pay out what they book, the stream is
settled to the last unit once it is terminal. -/
theorem settled_in_full {host : Host}
    (htokens : AllTokens host.tokens TokenLaw.RejectsNegative)
    {history : History} {w : World} (hrun : Reaches host history w) {id : Nat}
    (hpays : PaysThroughout host id history) {s : Stream}
    (hs : w.streams id = some s) (hterminal : isTerminal s.status = true) :
    paidOut id w = received id w := by
  have haccounted := accounted_of_reaches htokens hrun hpays
  rw [haccounted.payments s hs, haccounted.receipts s hs,
    settledAmount_of_terminal hterminal]

/-- Opened with 1000, withdrawn from at 60, cancelled at 70. -/
theorem settled_in_full_of_cancel :
    ∃ s, (Sample.play [Sample.openStream 10 1000 10 0,
        Sample.invoke 60 Sample.employee
          (.onStream 1 (.withdraw Sample.employee)),
        Sample.manage 70 (.cancelStream Sample.employer)]).2.streams 1 = some s ∧
      s.status = .cancelled ∧ s.deposit = 1000 ∧
      paidOut 1 (Sample.play [Sample.openStream 10 1000 10 0,
        Sample.invoke 60 Sample.employee
          (.onStream 1 (.withdraw Sample.employee)),
        Sample.manage 70 (.cancelStream Sample.employer)]).2 =
      received 1 (Sample.play [Sample.openStream 10 1000 10 0,
        Sample.invoke 60 Sample.employee
          (.onStream 1 (.withdraw Sample.employee)),
        Sample.manage 70 (.cancelStream Sample.employer)]).2 := by
  have hs : (Sample.play [Sample.openStream 10 1000 10 0,
      Sample.invoke 60 Sample.employee (.onStream 1 (.withdraw Sample.employee)),
      Sample.manage 70 (.cancelStream Sample.employer)]).2.streams 1 = some
      { newStream 1 Sample.employer Sample.employee Sample.token 1000 10 10 0 0 0
          with withdrawn := 600, lastWithdrawTime := 60, status := .cancelled } := by
    decide
  refine ⟨_, hs, rfl, rfl, settled_in_full Sample.host_honest.rejectsNegative
    (Sample.play_reaches _ (by decide)) ?_ hs rfl⟩
  intro entry hentry call s hcall _ _
  simp only [Sample.play, System.replay, List.mem_cons, List.not_mem_nil,
    or_false] at hentry
  rcases hentry with rfl | rfl | rfl
  · cases hcall
    exact trivial
  · cases hcall
    -- no fee is set
    intro gross _
    left
    have hbps : (Sample.play [Sample.openStream 10 1000 10 0]).2.config.feeBps =
        0 := by
      decide
    show gross * ((Sample.play [Sample.openStream 10 1000 10 0]).2.config.feeBps :
      Int) < 10000
    rw [hbps]
    simp
  · cases hcall

/-- A rate update at 60 books 500 as withdrawn; the cancellation refunds the
other 500 and the first half stays in the contract. -/
theorem rate_update_locks_funds :
    ∃ history w s, Reaches Sample.host history w ∧ w.streams 1 = some s ∧
      isTerminal s.status = true ∧ received 1 w = 1000 ∧ paidOut 1 w = 500 ∧
      w.balances Sample.token Sample.self = 500 := by
  have hs : (Sample.play [Sample.openStream 10 1000 10 0,
      Sample.manage 60 (.updateRate Sample.employer 20),
      Sample.manage 60 (.cancelStream Sample.employer)]).2.streams 1 = some
      { newStream 1 Sample.employer Sample.employee Sample.token 1000 20 10 0 0 0
          with withdrawn := 500, lastWithdrawTime := 60, status := .cancelled } := by
    decide
  exact ⟨_, _, _, Sample.play_reaches _ (by decide), hs, rfl, by decide,
    by decide, by decide⟩

end Properties
end Paystream
