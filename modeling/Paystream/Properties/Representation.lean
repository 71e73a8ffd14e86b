import Paystream.Properties.Accrual

/-!
# The representation invariant of stored streams

`WellFormed now s` lists what every stored stream satisfies at ledger time
`now`.  The conjuncts only go through together: the shift in `resume_stream`
stays below `now` because a paused stream has
`last_withdraw_time ≤ paused_at ≤ now`, and `withdrawn ≤ deposit` survives a
withdrawal because the accrual formula is capped, which in turn needs the bounds
on the other fields.

The one assumption about tokens is that they never move a negative amount; it
is what keeps the net deposit of a new stream from being negative.
-/

namespace Paystream
namespace Properties

open Library
open Contract
open Contract.Storage
open Semantics

/-- What holds of a stored stream at ledger time `now`. -/
structure WellFormed (now : Nat) (s : Stream) : Prop extends
    AmountsInBounds s where
  unlocked : s.locked = false
  start_le : s.startTime ≤ s.lastWithdrawTime
  last_le : s.lastWithdrawTime ≤ now
  stop : s.stopTime = 0 ∨ s.startTime < s.stopTime
  cliff_le_stop : 0 < s.cliffTime → 0 < s.stopTime → s.cliffTime ≤ s.stopTime
  active_pausedAt : s.status = .active → s.pausedAt = 0
  paused_last_le : s.status = .paused → s.lastWithdrawTime ≤ s.pausedAt
  paused_le : s.status = .paused → s.pausedAt ≤ now

theorem WellFormed.mono {now now' : Nat} {s : Stream} (h : WellFormed now s)
    (hnow : now ≤ now') : WellFormed now' s :=
  { h with
    last_le := h.last_le.trans hnow
    paused_le := fun hpaused => (h.paused_le hpaused).trans hnow }

/-! ## Creation -/

/-- The deposit of a new stream was moved by a token, so it is not negative. -/
theorem creation_deposit_nonneg {host : Host} {s : Stream}
    {log : List TokenTransfer} {before after : Balances Address Address}
    (htokens : AllTokens host.tokens TokenLaw.RejectsNegative)
    (hpays : CreationTransfers host.self s log)
    (hperformed : Performed host.tokens log before after) : 0 ≤ s.deposit := by
  cases hpays with
  | depositOnly =>
      obtain ⟨_, _, hdeposit⟩ := hperformed
      exact perform_amount_nonneg htokens hdeposit
  | withFee recipient fee =>
      obtain ⟨_, ⟨_, _, hdeposit⟩, _⟩ := hperformed
      exact perform_amount_nonneg htokens hdeposit

theorem WellFormed.of_fresh {now : Nat} {s : Stream} (h : FreshStream now s)
    (hdeposit : 0 ≤ s.deposit) : WellFormed now s where
  withdrawn_nonneg := by rw [h.withdrawn]
  withdrawn_le := by rw [h.withdrawn]; exact hdeposit
  deposit_le := h.deposit_le
  rate_pos := h.rate_pos
  rate_le := h.rate_le
  unlocked := h.unlocked
  start_le := by rw [h.startTime, h.lastWithdrawTime]
  last_le := by rw [h.lastWithdrawTime]
  stop := by
    have hstop := h.stop_after
    have hstart := h.startTime
    omega
  cliff_le_stop := h.cliff_le_stop
  active_pausedAt := fun _ => h.pausedAt
  paused_last_le := fun hpaused => by rw [h.status] at hpaused; cases hpaused
  paused_le := fun hpaused => by rw [h.status] at hpaused; cases hpaused

/-! ## One operation -/

/-- A resume moves the clock of the stream by the paused time, and never past
`now`. -/
theorem WellFormed.resume_last {now : Nat} {s : Stream} (h : WellFormed now s)
    (hnow : now ≤ u64Max) (hpaused : s.status = .paused) :
    saturatingAddU64 s.lastWithdrawTime (now - s.pausedAt) =
      s.lastWithdrawTime + (now - s.pausedAt) := by
  have hlast := h.paused_last_le hpaused
  have hle := h.paused_le hpaused
  apply saturatingAddU64_of_le
  omega

/-- An amount the code computed leaves `withdrawn` within the deposit. -/
theorem WellFormed.claimable_bounds {now : Nat} {s : Stream} (h : WellFormed now s)
    (hnow : now ≤ u64Max) {amount : Int}
    (hclaimable : claimableAmount s now = .ok amount) :
    0 ≤ amount ∧ s.withdrawn + amount ≤ s.deposit := by
  obtain rfl := eq_accrued_of_claimableAmount h.toAmountsInBounds hnow hclaimable
  exact ⟨accrued_nonneg h.toAmountsInBounds now,
    withdrawn_add_accrued_le h.toAmountsInBounds now⟩

/-- Closing a stream keeps the invariant: nothing is said about the clock of a
terminal stream beyond what held before. -/
theorem WellFormed.close {now : Nat} {s : Stream} (h : WellFormed now s)
    {withdrawn : Int} {status : StreamStatus} (hnonneg : 0 ≤ withdrawn)
    (hle : withdrawn ≤ s.deposit) (hterminal : isTerminal status = true) :
    WellFormed now { s with withdrawn, status } :=
  { h with
    withdrawn_nonneg := hnonneg
    withdrawn_le := hle
    active_pausedAt := by rintro rfl; cases hterminal
    paused_last_le := by rintro rfl; cases hterminal
    paused_le := by rintro rfl; cases hterminal }

/-- Booking what an active stream has earned, up to now. -/
theorem WellFormed.book {now : Nat} {s : Stream} (h : WellFormed now s)
    (hnow : now ≤ u64Max) (hactive : s.status = .active) {amount : Int}
    (hclaimable : claimableAmount s now = .ok amount) :
    WellFormed now { s with
      withdrawn := s.withdrawn + amount
      lastWithdrawTime := now } := by
  obtain ⟨hnonneg, hle⟩ := h.claimable_bounds hnow hclaimable
  have hwithdrawn := h.withdrawn_nonneg
  exact { h with
    withdrawn_nonneg := by show 0 ≤ s.withdrawn + amount; omega
    withdrawn_le := hle
    start_le := h.start_le.trans h.last_le
    last_le := le_rfl
    paused_last_le := fun hpaused => by
      change s.status = .paused at hpaused
      rw [hactive] at hpaused
      cases hpaused }

theorem WellFormed.resume {now : Nat} {s : Stream} (h : WellFormed now s)
    (hnow : now ≤ u64Max) (hpaused : s.status = .paused) :
    WellFormed now (StreamOp.resume.next now s) := by
  have hstart := h.start_le
  have hshift := h.resume_last hnow hpaused
  have hlastPaused := h.paused_last_le hpaused
  have hpausedNow := h.paused_le hpaused
  exact { h with
    start_le := by
      show s.startTime ≤ saturatingAddU64 _ _
      rw [hshift]
      omega
    last_le := by
      show saturatingAddU64 _ _ ≤ now
      rw [hshift]
      omega
    active_pausedAt := fun _ => rfl
    paused_last_le := fun hstill => by cases hstill
    paused_le := fun hstill => by cases hstill }

/-- Every operation keeps the invariant. -/
theorem WellFormed.next {now : Nat} {s : Stream} {op : StreamOp}
    (h : WellFormed now s) (hnow : now ≤ u64Max) (hguard : op.Guard now s) :
    WellFormed now (op.next now s) := by
  have hwithdrawn := h.withdrawn_nonneg
  cases op with
  | withdraw gross =>
      obtain ⟨hactive, _, _, hgross⟩ := hguard
      have hrunning : ((StreamOp.withdraw gross).next now s).status ≠ .paused := by
        change (if _ then StreamStatus.exhausted else s.status) ≠ _
        rw [hactive]
        split
        · decide
        · decide
      exact { h.book hnow hactive hgross with
        unlocked := rfl
        active_pausedAt := fun _ => h.active_pausedAt hactive
        paused_last_le := fun hpaused => absurd hpaused hrunning
        paused_le := fun hpaused => absurd hpaused hrunning }
  | topUp amount =>
      obtain ⟨hpos, _, hfits⟩ := hguard
      have hle := h.withdrawn_le
      exact { h with
        withdrawn_le := by show s.withdrawn ≤ s.deposit + amount; omega
        deposit_le := hfits }
  | pause =>
      exact { h with
        active_pausedAt := fun hactive => by cases hactive
        paused_last_le := fun _ => h.last_le
        paused_le := fun _ => le_rfl }
  | resume => exact h.resume hnow hguard
  | cancel owed =>
      obtain ⟨hnonneg, hle⟩ := h.claimable_bounds hnow hguard.2
      exact h.close (by omega) hle rfl
  | reclaim owed =>
      obtain ⟨hnonneg, hle⟩ := h.claimable_bounds hnow hguard.2.2
      exact h.close (by omega) hle rfl
  | updateRate newRate accrued =>
      obtain ⟨hactive, hpos, hmax, haccrued⟩ := hguard
      exact { h.book hnow hactive haccrued with
        rate_pos := hpos
        rate_le := hmax }
  | markExhausted => exact h.close hwithdrawn h.withdrawn_le rfl
  | changeEmployee newEmployee => exact { h with }
  | changeDelegate delegate => exact { h with }
  | changeEmployer newEmployer => exact { h with }

/-! ## Every run -/

/-- Every stored stream is well formed. -/
def AllWellFormed (now : Nat) (w : World) : Prop :=
  ∀ id s, w.streams id = some s → WellFormed now s

theorem AllWellFormed.mono {now now' : Nat} {w : World}
    (h : AllWellFormed now w) (hnow : now ≤ now') : AllWellFormed now' w := by
  intro id s hs
  exact (h id s hs).mono hnow

theorem allWellFormed_of_change {host : Host} {ctx : Context} {w w' : World}
    {call : Call} {now : Nat}
    (htokens : AllTokens host.tokens TokenLaw.RejectsNegative)
    (hchange : ∀ id, StreamChange host ctx w w' id call)
    (hw : AllWellFormed now w) (hnow : now ≤ ctx.now) (hle : ctx.now ≤ u64Max) :
    AllWellFormed ctx.now w' := by
  intro id s hs
  cases hchange id with
  | same hstream _ =>
      rw [hstream] at hs
      exact hw.mono hnow id s hs
  | born new log _ _ hstream _ hfresh hpays hperformed _ =>
      rw [hstream] at hs
      cases hs
      obtain ⟨_, _, hperformed⟩ := hperformed
      exact .of_fresh hfresh
        (creation_deposit_nonneg htokens hpays hperformed)
  | updated old op log _ _ hold _ hupdate hstream _ =>
      rw [hstream] at hs
      cases hs
      exact (hw.mono hnow id old hold).next hle hupdate.guard

theorem allWellFormed_of_reaches {host : Host}
    (htokens : AllTokens host.tokens TokenLaw.RejectsNegative)
    {history : History} {w : World} (hrun : Reaches host history w) :
    AllWellFormed (ledgerTime host history) w := by
  refine Reaches.invariant
    (P := fun history w => AllWellFormed (ledgerTime host history) w) ?_ ?_ ?_ hrun
  · intro balances _ id s hs
    cases hs
  · intro history w inv value w' hrun htime hw hsucceeds
    exact allWellFormed_of_change htokens
      (streamChange_of_succeeds hrun hsucceeds) hw htime inv.now_le
  · intro history w inv _ htime hw _ id s hs
    exact (hw id s hs).mono htime

/-- In every reachable state every stored stream is well formed, and its
claimable amount is defined at every `u64` time, lies between zero and what is
left of the deposit, and never falls as time goes on. -/
theorem representation_invariant {host : Host}
    (htokens : AllTokens host.tokens TokenLaw.RejectsNegative)
    {history : History} {w : World} (hrun : Reaches host history w) {now : Nat}
    (hnow : ledgerTime host history ≤ now) {id : Nat} {s : Stream}
    (hs : w.streams id = some s) :
    WellFormed now s ∧
      (∀ t, t ≤ u64Max → ∃ amount, claimableAmount s t = .ok amount ∧
        0 ≤ amount ∧ s.withdrawn + amount ≤ s.deposit) ∧
      (∀ t t' amount amount', t ≤ t' → t' ≤ u64Max →
        claimableAmount s t = .ok amount → claimableAmount s t' = .ok amount' →
          amount ≤ amount') := by
  have hwell := allWellFormed_of_reaches htokens hrun id s hs
  have hbounds := hwell.toAmountsInBounds
  refine ⟨hwell.mono hnow, ?_, ?_⟩
  · intro t ht
    exact ⟨accrued s t, claimableAmount_eq hbounds ht, accrued_nonneg hbounds t,
      withdrawn_add_accrued_le hbounds t⟩
  · intro t t' amount amount' hle ht' hamount hamount'
    rw [eq_accrued_of_claimableAmount hbounds (hle.trans ht') hamount,
      eq_accrued_of_claimableAmount hbounds ht' hamount']
    exact accrued_mono hbounds hle

/-- A stream opened at 10 and paused at 50, still paused at 60. -/
theorem representation_invariant_of_paused :
    ∃ s, (Sample.play [Sample.openStream 10 1000 10 0,
        Sample.manage 50 (.pauseStream Sample.employer)]).2.streams 1 = some s ∧
      s.status = .paused ∧ WellFormed 60 s ∧
      (∀ t, t ≤ u64Max → ∃ amount, claimableAmount s t = .ok amount ∧
        0 ≤ amount ∧ s.withdrawn + amount ≤ s.deposit) ∧
      (∀ t t' amount amount', t ≤ t' → t' ≤ u64Max →
        claimableAmount s t = .ok amount → claimableAmount s t' = .ok amount' →
          amount ≤ amount') := by
  have hs : (Sample.play [Sample.openStream 10 1000 10 0,
      Sample.manage 50 (.pauseStream Sample.employer)]).2.streams 1 = some
      { StreamContract.newStream 1 Sample.employer Sample.employee Sample.token
          1000 10 10 0 0 0 with pausedAt := 50, status := .paused } := by
    decide
  exact ⟨_, hs, rfl, representation_invariant Sample.host_honest.rejectsNegative
    (Sample.play_reaches _ (by decide)) (by decide) hs⟩

end Properties
end Paystream
