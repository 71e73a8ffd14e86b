import Paystream.Properties.Representation

/-!
# What a pause freezes

`claimable_amount` does not look at `Paused`: it treats a paused stream like an
active one, and only `resume_stream` takes the paused time out again.  While the
pause lasts the two queries and the two settlements therefore see an amount that
goes on growing, unless something else holds it.

`frozen_iff` lists what can hold it: no time has passed, the cliff is still
ahead, the stop time had come before the pause, or the rest of the deposit had
accrued before the pause.
-/

namespace Paystream
namespace Properties

open Library
open Contract
open Contract.Storage
open Contract.StreamContract
open Semantics

/-! ## The amount -/

/-- What keeps the claimable amount of a paused stream at `now` from exceeding
the one at its pause. -/
def HeldSincePause (s : Stream) (now : Nat) : Prop :=
  now = s.pausedAt ∨ now < s.cliffTime ∨
    (0 < s.stopTime ∧ s.stopTime ≤ s.pausedAt) ∨ s.deposit = s.withdrawn ∨
    (s.cliffTime ≤ s.pausedAt ∧ s.deposit - s.withdrawn ≤
      s.ratePerSecond * ((s.pausedAt - s.lastWithdrawTime : Nat) : Int))

/-- Two capped amounts at a positive rate agree when the seconds do, or when
the cap was reached at the smaller of them. -/
theorem min_mul_eq_iff {rate cap : Int} (hrate : 0 < rate) {m n : Nat}
    (hmn : m ≤ n) :
    min (rate * m) cap = min (rate * n) cap ↔ m = n ∨ cap ≤ rate * m := by
  have hle : rate * (m : Int) ≤ rate * n :=
    mul_le_mul_of_nonneg_left (by exact_mod_cast hmn) hrate.le
  constructor
  · intro heq
    by_cases hcap : cap ≤ rate * m
    · exact Or.inr hcap
    · left
      have hbelow : rate * (m : Int) < cap := by omega
      rw [min_eq_left hbelow.le] at heq
      have hsame : rate * (m : Int) = rate * n := by
        rcases le_total (rate * (n : Int)) cap with hn | hn
        · rw [min_eq_left hn] at heq
          exact heq
        · rw [min_eq_right hn] at heq
          omega
      exact_mod_cast mul_left_cancel₀ hrate.ne' hsame
  · rintro (rfl | hcap)
    · rfl
    · rw [min_eq_right hcap, min_eq_right (hcap.trans hle)]

/-- The seconds that count stop growing at a pause only when the clock does or
when the stop time is behind. -/
theorem countedSeconds_eq_iff {now : Nat} {s : Stream}
    (hlast : s.lastWithdrawTime ≤ s.pausedAt) (hnow : s.pausedAt ≤ now) :
    countedSeconds s s.pausedAt = countedSeconds s now ↔
      now = s.pausedAt ∨ (0 < s.stopTime ∧ s.stopTime ≤ s.pausedAt) := by
  have hpause := effectiveEnd_cases s s.pausedAt
  have hthen := effectiveEnd_cases s now
  unfold countedSeconds
  omega

/-- The accrued amount is the one at the pause exactly when something held
it. -/
theorem accrued_eq_iff {now : Nat} {s : Stream} (h : WellFormed s.pausedAt s)
    (hpaused : s.status = .paused) (hnow : s.pausedAt ≤ now) :
    accrued s now = accrued s s.pausedAt ↔ HeldSincePause s now := by
  have hlive : isTerminal s.status = false :=
    (isTerminal_eq_false_iff _).mpr (Or.inr hpaused)
  have hlast := h.paused_last_le hpaused
  have hleft := h.withdrawn_le
  have hcliffStop := h.cliff_le_stop
  have hseconds := countedSeconds_eq_iff hlast hnow
  have hmono := countedSeconds_mono s hnow
  unfold HeldSincePause
  by_cases hbefore : now < s.cliffTime
  · -- before the cliff both amounts are zero
    rw [accrued_of_lt_cliff hbefore, accrued_of_lt_cliff (by omega)]
    simp [hbefore]
  · by_cases hpauseBefore : s.pausedAt < s.cliffTime
    · -- the cliff lies inside the pause: everything since the last withdrawal
      -- becomes claimable at once
      have hcounted : 0 < countedSeconds s now := by
        have hne : ¬ countedSeconds s s.pausedAt = countedSeconds s now := by
          rw [hseconds]
          omega
        omega
      have hearned : 0 < s.ratePerSecond * (countedSeconds s now : Int) :=
        mul_pos h.rate_pos (by exact_mod_cast hcounted)
      rw [accrued_of_lt_cliff hpauseBefore,
        accrued_of_cliff_le hlive (by omega)]
      omega
    · rw [accrued_of_cliff_le hlive (by omega),
        accrued_of_cliff_le hlive (by omega), eq_comm,
        min_mul_eq_iff h.rate_pos hmono, hseconds]
      have hearned : 0 ≤ s.ratePerSecond * (countedSeconds s s.pausedAt : Int) :=
        mul_nonneg h.rate_pos.le (by positivity)
      by_cases hstopped : 0 < s.stopTime ∧ s.stopTime ≤ s.pausedAt
      · simp [hstopped]
      · have hcounted : countedSeconds s s.pausedAt =
            s.pausedAt - s.lastWithdrawTime := by
          have := effectiveEnd_cases s s.pausedAt
          unfold countedSeconds
          omega
        rw [hcounted] at hearned ⊢
        omega

/-! ## Queries and settlements -/

/-- What the employee was paid on account of the stream, in the whole log. -/
def salaryPaid (id : Nat) (w : World) : Int :=
  totalFor (fun purpose => decide (purpose = .salary id)) w.transfers

/-- At ledger time `now` the stream stands where it stood at its pause, for
every reader of the accrual formula: the formula itself, the two queries, and
the employee's share of the two settlements. -/
structure FrozenSincePause (host : Host) (w : World) (id : Nat) (s : Stream)
    (now : Nat) : Prop where
  amount : claimableAmount s now = claimableAmount s s.pausedAt
  claimable : ∀ ctx : Context, ctx.now = now →
    StreamContract.claimable ctx id w = claimableAmount s s.pausedAt
  claimableAt : StreamContract.claimableAt id now w =
    claimableAmount s s.pausedAt
  settlement : ∀ (ctx : Context) (employer : Address) (w' : World),
    ctx.now = now → (cancelStream host ctx employer id w = .ok w' ∨
      reclaimExpired host ctx employer id w = .ok w') →
    claimableAmount s s.pausedAt = .ok (salaryPaid id w' - salaryPaid id w)

theorem totalFor_salary_settlementTransfers (self : Address) (s : Stream)
    {owed : Int} (howed : 0 ≤ owed) :
    totalFor (fun purpose => decide (purpose = .salary s.id))
      (settlementTransfers self s owed) = owed := by
  unfold settlementTransfers
  simp only [totalFor_append]
  split
  · split
    · simp
    · simp
      omega
  · split
    · simp
    · simp
      omega

/-- A settlement pays the employee what is claimable at its time. -/
theorem settlement_salary {host : Host} {ctx : Context} {employer : Address}
    {id : Nat} {w w' : World} {s : Stream} (hkeyed : Keyed w)
    (hs : w.streams id = some s)
    (h : cancelStream host ctx employer id w = .ok w' ∨
      reclaimExpired host ctx employer id w = .ok w') :
    claimableAmount s ctx.now = .ok (salaryPaid id w' - salaryPaid id w) := by
  obtain rfl : s.id = id := (hkeyed id s hs).1
  have hpaid : ∀ {owed : Int} {op : StreamOp} {log : List TokenTransfer},
      StreamUpdate host ctx w w' s op log →
      log = settlementTransfers host.self s owed →
      claimableAmount s ctx.now = .ok owed →
      claimableAmount s ctx.now = .ok (salaryPaid s.id w' - salaryPaid s.id w) := by
    intro owed op log hupdate hlog howed
    unfold salaryPaid
    rw [hupdate.transfers, hlog, totalFor_append,
      totalFor_salary_settlementTransfers _ _ (claimableAmount_nonneg howed), howed]
    congr 1
    omega
  rcases h with h | h
  · rcases (cancelStream_spec h).effect with
      ⟨hidle, _⟩ | ⟨_, _, _, hfound, hissues, hupdate⟩
    · cases hidle
    · rw [hs] at hfound
      cases hfound
      cases hissues with
      | cancel owed _ => exact hpaid hupdate hupdate.pays hupdate.guard.2
  · rcases (reclaimExpired_spec h).effect with
      ⟨hidle, _⟩ | ⟨_, _, _, hfound, hissues, hupdate⟩
    · cases hidle
    · rw [hs] at hfound
      cases hfound
      cases hissues with
      | reclaim owed _ => exact hpaid hupdate hupdate.pays hupdate.guard.2.2

theorem FrozenSincePause.of_amount {host : Host} {w : World} {id now : Nat}
    {s : Stream} (hkeyed : Keyed w) (hs : w.streams id = some s)
    (h : claimableAmount s now = claimableAmount s s.pausedAt) :
    FrozenSincePause host w id s now where
  amount := h
  claimable := by
    rintro ctx rfl
    have hload := (loadStream_eq_ok_iff w id s).mpr hs
    simp only [StreamContract.claimable, hload]
    exact h
  claimableAt := by
    have hload := (loadStream_eq_ok_iff w id s).mpr hs
    simp only [StreamContract.claimableAt, hload]
    exact h
  settlement := by
    rintro ctx employer w' rfl hsettle
    rw [← h]
    exact settlement_salary hkeyed hs hsettle

/-- A stream paused in a reachable state is frozen at a later `u64` time exactly
when something held its amount since the pause. -/
theorem frozen_iff {host : Host}
    (htokens : AllTokens host.tokens TokenLaw.RejectsNegative)
    {history : History} {w : World} (hrun : Reaches host history w) {id : Nat}
    {s : Stream} (hs : w.streams id = some s) (hpaused : s.status = .paused)
    {now : Nat} (hnow : s.pausedAt ≤ now) (hmax : now ≤ u64Max) :
    FrozenSincePause host w id s now ↔ HeldSincePause s now := by
  have hwell := allWellFormed_of_reaches htokens hrun id s hs
  have hpausedWell : WellFormed s.pausedAt s :=
    { hwell with
      last_le := hwell.paused_last_le hpaused
      paused_le := fun _ => le_rfl }
  have hbounds := hwell.toAmountsInBounds
  rw [← accrued_eq_iff hpausedWell hpaused hnow]
  constructor
  · intro hfrozen
    have hamount := hfrozen.amount
    rw [claimableAmount_eq hbounds hmax,
      claimableAmount_eq hbounds (hnow.trans hmax)] at hamount
    exact Except.ok.inj hamount
  · intro hsame
    apply FrozenSincePause.of_amount (keyed_of_reaches hrun) hs
    rw [claimableAmount_eq hbounds hmax,
      claimableAmount_eq hbounds (hnow.trans hmax), hsame]

/-- A stream that is paused after its deposit has fully accrued is frozen. -/
theorem frozen_of_fully_accrued :
    ∃ s, (Sample.play [Sample.openStream 10 1000 10 0,
        Sample.manage 200 (.pauseStream Sample.employer)]).2.streams 1 = some s ∧
      FrozenSincePause Sample.host (Sample.play [Sample.openStream 10 1000 10 0,
        Sample.manage 200 (.pauseStream Sample.employer)]).2 1 s 300 := by
  have hs : (Sample.play [Sample.openStream 10 1000 10 0,
      Sample.manage 200 (.pauseStream Sample.employer)]).2.streams 1 = some
      { newStream 1 Sample.employer Sample.employee Sample.token 1000 10 10 0 0 0
          with pausedAt := 200, status := .paused } := by
    decide
  have hfrozen := frozen_iff Sample.host_honest.rejectsNegative
    (Sample.play_reaches [Sample.openStream 10 1000 10 0,
      Sample.manage 200 (.pauseStream Sample.employer)] (by decide)) hs rfl
    (show 200 ≤ 300 by decide) (by decide)
  refine ⟨_, hs, hfrozen.mpr ?_⟩
  exact Or.inr (Or.inr (Or.inr (Or.inr ⟨by decide, by decide⟩)))

/-- A stream paused at 50 with 400 accrued: at 100 the amount is 900. -/
theorem paused_stream_accrues :
    ∃ history w s, Reaches Sample.host history w ∧ w.streams 1 = some s ∧
      s.status = .paused ∧ s.pausedAt = 50 ∧
      claimableAmount s 50 = .ok 400 ∧ claimableAmount s 100 = .ok 900 ∧
      ¬ FrozenSincePause Sample.host w 1 s 100 := by
  have hs : (Sample.play [Sample.openStream 10 1000 10 0,
      Sample.manage 50 (.pauseStream Sample.employer)]).2.streams 1 = some
      { newStream 1 Sample.employer Sample.employee Sample.token 1000 10 10 0 0 0
          with pausedAt := 50, status := .paused } := by
    decide
  refine ⟨_, _, _, Sample.play_reaches _ (by decide), hs, rfl, rfl, rfl, rfl, ?_⟩
  intro hfrozen
  have hamount := hfrozen.amount
  revert hamount
  decide

end Properties
end Paystream
