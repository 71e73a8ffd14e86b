import Paystream.Contract.Balance
import Paystream.Properties.Accrual

/-!
# The balance module against the contract

`balance.rs` and `claimable_amount` compute the same quantity with branches of
their own.  Both are evaluated here on the amounts that occur in runs
(`SoundAmounts`, an invariant that needs no assumption on the tokens), and
`balance_agrees_iff` says for which streams and times they coincide: the balance
module knows no cliff, and it takes a paused stream to have earned nothing since
its last withdrawal.
-/

namespace Paystream
namespace Properties

open Library
open Contract
open Contract.Storage
open Contract.StreamContract
open Semantics

/-! ## Amounts of a run, whatever the tokens do -/

/-- The bounds every stored stream keeps. -/
structure SoundAmounts (s : Stream) : Prop where
  withdrawn_nonneg : 0 ≤ s.withdrawn
  deposit_le : s.deposit ≤ i128Max
  rate_pos : 0 < s.ratePerSecond
  rate_le : s.ratePerSecond ≤ maxRatePerSecond

theorem SoundAmounts.of_fresh {now : Nat} {s : Stream} (h : FreshStream now s) :
    SoundAmounts s :=
  ⟨h.withdrawn.ge, h.deposit_le, h.rate_pos, h.rate_le⟩

/-- Every operation keeps the bounds: what it books was claimable. -/
theorem SoundAmounts.next {now : Nat} {s : Stream} {op : StreamOp}
    (h : SoundAmounts s) (hguard : op.Guard now s) :
    SoundAmounts (op.next now s) := by
  have hwithdrawn := h.withdrawn_nonneg
  have hbooked : ∀ {amount : Int}, claimableAmount s now = .ok amount →
      0 ≤ s.withdrawn + amount := by
    intro amount hamount
    have := claimableAmount_nonneg hamount
    omega
  cases op with
  | withdraw gross => exact ⟨hbooked hguard.2.2.2, h.deposit_le, h.rate_pos, h.rate_le⟩
  | topUp amount => exact { h with deposit_le := hguard.2.2 }
  | cancel owed => exact { h with withdrawn_nonneg := hbooked hguard.2 }
  | reclaim owed => exact { h with withdrawn_nonneg := hbooked hguard.2.2 }
  | updateRate newRate accrued =>
      exact ⟨hbooked hguard.2.2.2, h.deposit_le, hguard.2.1, hguard.2.2.1⟩
  | _ => exact { h with }

theorem soundAmounts_of_reaches {host : Host} {history : History} {w : World}
    (hrun : Reaches host history w) {id : Nat} {s : Stream}
    (hs : w.streams id = some s) : SoundAmounts s := by
  refine stored_of_reaches ?_ ?_ hrun hs
  · intro inv w w' call id s p _ hfresh _
    exact .of_fresh hfresh
  · intro now s op hguard hsound
    exact hsound.next hguard

/-! ## The two formulas, evaluated -/

/-- What is left of the deposit, nothing if more was withdrawn. -/
def leftOf (s : Stream) : Int := max (s.deposit - s.withdrawn) 0

theorem checkedSub_left {s : Stream} (h : SoundAmounts s) :
    max ((checkedSub s.deposit s.withdrawn).getD 0) 0 = leftOf s := by
  have hwithdrawn := h.withdrawn_nonneg
  have hdeposit := h.deposit_le
  unfold checkedSub checked leftOf
  split
  · rfl
  · rename_i hrange
    -- out of range can only mean too low, and then nothing is left
    have hlow : s.deposit - s.withdrawn < i128Min := by
      by_contra hge
      exact hrange ⟨by omega, by omega⟩
    have hmin : i128Min ≤ 0 := by decide
    rw [Option.getD_none, max_self, max_eq_right (by omega)]

theorem saturatingSub_left {s : Stream} (h : SoundAmounts s) :
    max (saturatingSub s.deposit s.withdrawn) 0 = leftOf s := by
  have hwithdrawn := h.withdrawn_nonneg
  have hdeposit := h.deposit_le
  have hmin : i128Min ≤ 0 := by decide
  unfold saturatingSub saturate leftOf
  omega

/-- Seconds at the rate of a stored stream never overflow. -/
theorem checkedMul_seconds {s : Stream} (h : SoundAmounts s) {seconds : Nat}
    (hseconds : seconds ≤ u64Max) :
    checkedMul (seconds : Int) s.ratePerSecond =
      some ((seconds : Int) * s.ratePerSecond) :=
  (checkedMul_eq_some_iff _ _ _).mpr
    ⟨inI128_mul_of_le hseconds h.rate_pos.le h.rate_le (by decide), rfl⟩

/-- The seconds at the stream's rate, up to what is left. -/
def earnedIn (s : Stream) (seconds : Nat) : Int :=
  min ((seconds : Int) * s.ratePerSecond) (leftOf s)

theorem earnedIn_nonneg {s : Stream} (h : SoundAmounts s) (seconds : Nat) :
    0 ≤ earnedIn s seconds := by
  have hearned : 0 ≤ (seconds : Int) * s.ratePerSecond :=
    mul_nonneg (by positivity) h.rate_pos.le
  exact le_min hearned (le_max_right _ _)

@[simp] theorem earnedIn_zero (s : Stream) : earnedIn s 0 = 0 := by
  have hleft : 0 ≤ leftOf s := le_max_right _ _
  simp [earnedIn, hleft]

/-- Nothing is earned in no time, and nothing once all of the deposit is
withdrawn. -/
theorem earnedIn_eq_zero_iff {s : Stream} (h : SoundAmounts s) (seconds : Nat) :
    earnedIn s seconds = 0 ↔ seconds = 0 ∨ s.deposit ≤ s.withdrawn := by
  have hrate := h.rate_pos
  constructor
  · intro hzero
    by_contra hnot
    rw [not_or] at hnot
    obtain ⟨hseconds, hleft⟩ := hnot
    have hpos : 0 < earnedIn s seconds := by
      refine lt_min (mul_pos ?_ hrate) ?_
      · exact_mod_cast Nat.pos_of_ne_zero hseconds
      · unfold leftOf
        omega
    omega
  · rintro (rfl | hall)
    · exact earnedIn_zero s
    · have hleft : leftOf s = 0 := by
        unfold leftOf
        omega
      have hearned : 0 ≤ (seconds : Int) * s.ratePerSecond :=
        mul_nonneg (by positivity) hrate.le
      unfold earnedIn
      rw [hleft, min_eq_right hearned]

/-- `claimable_amount` on the amounts of a run. -/
theorem claimableAmount_of_sound {s : Stream} (h : SoundAmounts s) {t : Nat}
    (ht : t ≤ u64Max) :
    claimableAmount s t = .ok (if isTerminal s.status = true ∨ t < s.cliffTime
      then 0 else earnedIn s (countedSeconds s t)) := by
  have hseconds : countedSeconds s t ≤ u64Max := by
    have := effectiveEnd_le s t
    unfold countedSeconds
    omega
  cases hlive : isTerminal s.status with
  | true =>
      rw [claimableAmount_of_isTerminal hlive, if_pos (Or.inl rfl)]
  | false =>
      have hbody : claimableAmount s t =
          if 0 < s.cliffTime ∧ t < s.cliffTime then .ok 0
          else if countedSeconds s t = 0 then .ok 0
          else do
            let earned ← expect
              (checkedMul (countedSeconds s t : Int) s.ratePerSecond) errOverflow
            return max (min earned
              (max ((checkedSub s.deposit s.withdrawn).getD 0) 0)) 0 := by
        unfold claimableAmount
        rcases (isTerminal_eq_false_iff _).mp hlive with hactive | hpaused
        · rw [hactive]
          rfl
        · rw [hpaused]
          rfl
      rw [hbody, checkedMul_seconds h hseconds, checkedSub_left h]
      by_cases hcliff : t < s.cliffTime
      · rw [if_pos ⟨by omega, hcliff⟩, if_pos (Or.inr hcliff)]
      · have hpast : ¬ (false = true ∨ t < s.cliffTime) := by simp [hcliff]
        rw [if_neg (by omega), if_neg hpast]
        by_cases hzero : countedSeconds s t = 0
        · rw [if_pos hzero, hzero, earnedIn_zero]
        · rw [if_neg hzero]
          exact congrArg Except.ok (max_eq_left (earnedIn_nonneg h _))

/-- `claimable_at` on the amounts of a run. -/
theorem claimableAt_of_sound {s : Stream} (h : SoundAmounts s) {t : Nat}
    (ht : t ≤ u64Max) :
    Balance.claimableAt s t = .ok (if isTerminal s.status = true then 0
      else if s.status = .paused then 0 else earnedIn s (countedSeconds s t)) := by
  have hseconds : Balance.effectiveTime s t - s.lastWithdrawTime ≤ u64Max := by
    unfold Balance.effectiveTime
    split
    · omega
    · split
      · omega
      · omega
  have hbody : isTerminal s.status = false → Balance.claimableAt s t =
      .ok (earnedIn s (Balance.effectiveTime s t - s.lastWithdrawTime)) := by
    intro hlive
    have hunfolded : Balance.claimableAt s t = do
        let earned ← expect (checkedMul
          ((Balance.effectiveTime s t - s.lastWithdrawTime : Nat) : Int)
          s.ratePerSecond) errOverflow
        return max (min earned
          (max (saturatingSub s.deposit s.withdrawn) 0)) 0 := by
      unfold Balance.claimableAt
      rcases (isTerminal_eq_false_iff _).mp hlive with hactive | hpaused
      · rw [hactive]
      · rw [hpaused]
    rw [hunfolded, checkedMul_seconds h hseconds, saturatingSub_left h]
    exact congrArg Except.ok (max_eq_left (earnedIn_nonneg h _))
  cases hstatus : s.status with
  | active =>
      rw [hbody (by rw [hstatus]; rfl)]
      have hseconds : Balance.effectiveTime s t - s.lastWithdrawTime =
          countedSeconds s t := by
        simp [Balance.effectiveTime, countedSeconds, effectiveEnd, hstatus]
      rw [hseconds]
      rfl
  | paused =>
      -- `effective_time` is the last withdrawal: what was earned since is dropped
      rw [hbody (by rw [hstatus]; rfl)]
      have hnone : Balance.effectiveTime s t - s.lastWithdrawTime = 0 := by
        simp [Balance.effectiveTime, hstatus]
      rw [hnone, earnedIn_zero]
      rfl
  | cancelled => simp [Balance.claimableAt, hstatus, isTerminal]
  | exhausted => simp [Balance.claimableAt, hstatus, isTerminal]

/-- The snapshot shows what `claimable_at` computes. -/
theorem balanceSnapshot_claimable {s : Stream} (h : SoundAmounts s) {t : Nat}
    (ht : t ≤ u64Max) :
    ∃ snapshot, Balance.balanceSnapshot s t = .ok snapshot ∧
      Balance.claimableAt s t = .ok snapshot.claimable := by
  have hclaimable := claimableAt_of_sound h ht
  have hrate : ¬ s.ratePerSecond ≤ 0 := by
    have := h.rate_pos
    omega
  cases hstatus : s.status with
  | active =>
      simp [Balance.balanceSnapshot, Balance.remainingDuration, hstatus, hclaimable,
        hrate, isTerminal]
  | paused =>
      simp [Balance.balanceSnapshot, Balance.remainingDuration, hstatus, hclaimable,
        hrate, isTerminal]
  | cancelled => simp [Balance.balanceSnapshot, Balance.claimableAt, hstatus]
  | exhausted => simp [Balance.balanceSnapshot, Balance.claimableAt, hstatus]

/-! ## What the entry points settle -/

/-- The entry points that settle an amount for the employee. -/
def settlesForEmployee : StreamCall → Bool
  | .withdraw _ => true
  | .cancelStream _ => true
  | .reclaimExpired _ => true
  | _ => false

/-- They take the claimable amount out of the stream. -/
theorem claimable_settled {host : Host} {history : History} {w w' : World}
    {inv : Invocation} {value : Value} {id : Nat} {call : StreamCall} {s : Stream}
    (hrun : Reaches host history w) (hs : w.streams id = some s)
    (h : Succeeds host w inv value w') (hcall : inv.call = .onStream id call)
    (hsettles : settlesForEmployee call = true) :
    ∃ s' amount, w'.streams id = some s' ∧
      claimableAmount s inv.now = .ok amount ∧
      s'.withdrawn = s.withdrawn + amount := by
  cases call with
  | withdraw employee =>
      obtain ⟨found, hfound, _, _, hcases⟩ := withdraw_of_succeeds h hcall
      obtain rfl : found = s := Option.some.inj (hfound.symm.trans hs)
      -- a withdrawal of nothing returns early, before the stream is saved
      rcases hcases with ⟨hzero, hsame, _⟩ | ⟨gross, fee, _, _, hupdate⟩
      · refine ⟨found, 0, ?_, hzero, (add_zero _).symm⟩
        rw [hsame]
        exact hs
      · obtain rfl : found.id = id := (keyed_of_reaches hrun id found hs).1
        refine ⟨(StreamOp.withdraw gross).next inv.now found, gross, ?_,
          hupdate.guard.2.2.2, rfl⟩
        rw [hupdate.streams, Function.update_self]
  | cancelStream employer =>
      obtain ⟨found, op, hfound, hissues, hguard, hafter⟩ :=
        updated_of_succeeds hrun h hcall rfl
      obtain rfl : found = s := Option.some.inj (hfound.symm.trans hs)
      cases hissues with
      | cancel owed _ => exact ⟨_, owed, hafter, hguard.2, rfl⟩
  | reclaimExpired employer =>
      obtain ⟨found, op, hfound, hissues, hguard, hafter⟩ :=
        updated_of_succeeds hrun h hcall rfl
      obtain rfl : found = s := Option.some.inj (hfound.symm.trans hs)
      cases hissues with
      | reclaim owed _ => exact ⟨_, owed, hafter, hguard.2.2, rfl⟩
  | _ => cases hsettles

/-! ## Agreement -/

/-- The balance module tells of the stream `s`, stored under `id`, what the
contract would do at `now`. -/
structure BalanceAgrees (host : Host) (w : World) (id : Nat) (s : Stream)
    (now : Nat) : Prop where
  claimable : Balance.claimableAt s now = claimableAmount s now
  /-- the snapshot returns, and shows what each settling call that returns takes
  out of the stream -/
  snapshot : ∃ snapshot, Balance.balanceSnapshot s now = .ok snapshot ∧
    ∀ inv value w' call, inv.now = now → inv.call = .onStream id call →
      settlesForEmployee call = true → Succeeds host w inv value w' →
        ∃ s', w'.streams id = some s' ∧
          s'.withdrawn = s.withdrawn + snapshot.claimable

/-- The two formulas agree on terminal streams, where nothing was earned since
the last withdrawal, on active streams from the cliff on, and on paused streams
before it. -/
theorem claimableAt_eq_iff {s : Stream} (h : SoundAmounts s) {now : Nat}
    (hmax : now ≤ u64Max) :
    Balance.claimableAt s now = claimableAmount s now ↔
      isTerminal s.status = true ∨ effectiveEnd s now ≤ s.lastWithdrawTime ∨
        s.deposit ≤ s.withdrawn ∨ (s.status = .active ∧ s.cliffTime ≤ now) ∨
          (s.status = .paused ∧ now < s.cliffTime) := by
  have hnothing : earnedIn s (countedSeconds s now) = 0 ↔
      effectiveEnd s now ≤ s.lastWithdrawTime ∨ s.deposit ≤ s.withdrawn := by
    rw [earnedIn_eq_zero_iff h]
    unfold countedSeconds
    rw [Nat.sub_eq_zero_iff_le]
  rw [claimableAt_of_sound h hmax, claimableAmount_of_sound h hmax,
    Except.ok.injEq]
  cases hstatus : s.status with
  | active =>
      by_cases hcliff : now < s.cliffTime
      · have hbefore : ¬ s.cliffTime ≤ now := by omega
        simp [isTerminal, hcliff, hbefore, hnothing]
      · have hpast : s.cliffTime ≤ now := by omega
        simp [isTerminal, hcliff, hpast]
  | paused =>
      by_cases hcliff : now < s.cliffTime
      · simp [isTerminal, hcliff]
      · have hsymm : 0 = earnedIn s (countedSeconds s now) ↔
            effectiveEnd s now ≤ s.lastWithdrawTime ∨ s.deposit ≤ s.withdrawn := by
          rw [← hnothing]
          exact eq_comm
        simp [isTerminal, hcliff, hsymm]
  | cancelled => simp [isTerminal]
  | exhausted => simp [isTerminal]

/-- For every stored stream of every run and every time, the present one and those
to come among them, the balance module agrees with the contract exactly for
terminal streams, for streams that earned nothing since the last withdrawal, for
active streams from the cliff on, and for paused ones before it. -/
theorem balance_agrees_iff {host : Host} {history : History} {w : World}
    (hrun : Reaches host history w) {id : Nat} {s : Stream}
    (hs : w.streams id = some s) {now : Nat} (hmax : now ≤ u64Max) :
    BalanceAgrees host w id s now ↔
      isTerminal s.status = true ∨ effectiveEnd s now ≤ s.lastWithdrawTime ∨
        s.deposit ≤ s.withdrawn ∨ (s.status = .active ∧ s.cliffTime ≤ now) ∨
          (s.status = .paused ∧ now < s.cliffTime) := by
  have hsound := soundAmounts_of_reaches hrun hs
  rw [← claimableAt_eq_iff hsound hmax]
  constructor
  · intro hagrees
    exact hagrees.claimable
  · intro hequal
    refine ⟨hequal, ?_⟩
    obtain ⟨snapshot, hsnapshot, hclaimable⟩ :=
      balanceSnapshot_claimable hsound hmax
    refine ⟨snapshot, hsnapshot, ?_⟩
    rintro inv value w' call rfl hcall hsettles hsucceeds
    obtain ⟨s', amount, hs', hamount, hbooked⟩ :=
      claimable_settled hrun hs hsucceeds hcall hsettles
    refine ⟨s', hs', ?_⟩
    rw [hbooked]
    have hsame : Except.ok snapshot.claimable = Except.ok amount :=
      hclaimable.symm.trans (hequal.trans hamount)
    rw [Except.ok.inj hsame]

/-- An active stream without a cliff: the snapshot at 60 shows the 500 that a
withdrawal would settle then. -/
theorem balance_agrees_of_active :
    ∃ w s, (∃ history, Reaches Sample.host history w) ∧ w.streams 1 = some s ∧
      claimableAmount s 60 = .ok 500 ∧ BalanceAgrees Sample.host w 1 s 60 := by
  have hrun := Sample.play_reaches [Sample.openStream 10 1000 10 0] (by decide)
  exact ⟨_, _, ⟨_, hrun⟩, rfl, by decide,
    (balance_agrees_iff hrun rfl (by decide)).mpr (by decide)⟩

/-- A stream that started at 10 and has its cliff at 100, and one that is paused
at 50: the balance module promises 400 where nothing can be claimed, and nothing
where a cancellation settles 500. -/
theorem balance_disagrees :
    (∃ history w s, Reaches Sample.host history w ∧ w.streams 1 = some s ∧
      ledgerTime Sample.host history ≤ 50 ∧ Balance.claimableAt s 50 = .ok 400 ∧
      claimableAmount s 50 = .ok 0 ∧ ¬ BalanceAgrees Sample.host w 1 s 50) ∧
    (∃ history w s, Reaches Sample.host history w ∧ w.streams 1 = some s ∧
      ledgerTime Sample.host history ≤ 60 ∧ Balance.claimableAt s 60 = .ok 0 ∧
      claimableAmount s 60 = .ok 500 ∧ ¬ BalanceAgrees Sample.host w 1 s 60) := by
  constructor
  · have hrun := Sample.play_reaches [Sample.invoke 10 Sample.employer
      (.create (.createStream Sample.employer Sample.employee Sample.token 1000 10
        0 0 100))] (by decide)
    refine ⟨_, _, _, hrun, rfl, by decide, by decide, by decide, ?_⟩
    intro hagrees
    exact absurd hagrees.claimable (by decide)
  · have hrun := Sample.play_reaches [Sample.openStream 10 1000 10 0,
      Sample.manage 50 (.pauseStream Sample.employer)] (by decide)
    refine ⟨_, _, _, hrun, rfl, by decide, by decide, by decide, ?_⟩
    intro hagrees
    exact absurd hagrees.claimable (by decide)

end Properties
end Paystream
