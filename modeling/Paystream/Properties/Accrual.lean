import Paystream.Semantics.StreamView

/-!
# The accrual formula

`claimable_amount` multiplies, subtracts and clamps in `i128`.  On a stream with
its fields in bounds none of that overflows, and the result is the formula one
would write on paper (`accrued`): the seconds since the last withdrawal, up to
the stop time, at the stream's rate, but no more than what is left of the
deposit.

What the formula says about bounds and about growth in time is read off here
once; the invariants of the later modules use these lemmas and not the code.
-/

namespace Paystream
namespace Properties

open Library
open Contract
open Contract.Storage
open Semantics

/-- The bounds under which the accrual arithmetic is exact. -/
structure AmountsInBounds (s : Stream) : Prop where
  withdrawn_nonneg : 0 ≤ s.withdrawn
  withdrawn_le : s.withdrawn ≤ s.deposit
  deposit_le : s.deposit ≤ i128Max
  rate_pos : 0 < s.ratePerSecond
  rate_le : s.ratePerSecond ≤ maxRatePerSecond

/-- The seconds that count at time `t`. -/
def countedSeconds (s : Stream) (t : Nat) : Nat :=
  effectiveEnd s t - s.lastWithdrawTime

/-- What has accrued and is not withdrawn at time `t`. -/
def accrued (s : Stream) (t : Nat) : Int :=
  if isTerminal s.status = true ∨ t < s.cliffTime then 0
  else min (s.ratePerSecond * countedSeconds s t) (s.deposit - s.withdrawn)

/-- The two values of `effectiveEnd`, for arithmetic. -/
theorem effectiveEnd_cases (s : Stream) (t : Nat) :
    (0 < s.stopTime ∧ s.stopTime < t ∧ effectiveEnd s t = s.stopTime) ∨
      ((s.stopTime = 0 ∨ t ≤ s.stopTime) ∧ effectiveEnd s t = t) := by
  unfold effectiveEnd
  by_cases hstopped : 0 < s.stopTime ∧ s.stopTime < t
  · rw [if_pos hstopped]
    omega
  · rw [if_neg hstopped]
    omega

theorem effectiveEnd_le (s : Stream) (t : Nat) : effectiveEnd s t ≤ t := by
  have := effectiveEnd_cases s t
  omega

theorem effectiveEnd_mono (s : Stream) {t t' : Nat} (h : t ≤ t') :
    effectiveEnd s t ≤ effectiveEnd s t' := by
  have := effectiveEnd_cases s t
  have := effectiveEnd_cases s t'
  omega

theorem countedSeconds_mono (s : Stream) {t t' : Nat} (h : t ≤ t') :
    countedSeconds s t ≤ countedSeconds s t' := by
  have := effectiveEnd_mono s h
  unfold countedSeconds
  omega

theorem accrued_of_isTerminal {s : Stream} (h : isTerminal s.status = true)
    (t : Nat) : accrued s t = 0 := by
  unfold accrued
  rw [if_pos (Or.inl h)]

theorem accrued_of_lt_cliff {s : Stream} {t : Nat} (h : t < s.cliffTime) :
    accrued s t = 0 := by
  unfold accrued
  rw [if_pos (Or.inr h)]

/-- Past the cliff of a live stream, the formula without its guards. -/
theorem accrued_of_cliff_le {s : Stream} {t : Nat}
    (hlive : isTerminal s.status = false) (hcliff : s.cliffTime ≤ t) :
    accrued s t =
      min (s.ratePerSecond * countedSeconds s t) (s.deposit - s.withdrawn) := by
  unfold accrued
  rw [if_neg]
  rintro (hterminal | hbefore)
  · rw [hlive] at hterminal
    cases hterminal
  · omega

/-- The body of `claimable_amount` for a live stream past its cliff, with the
arithmetic known to be exact. -/
theorem claimableAmount_of_exact {s : Stream} {t : Nat}
    (hlive : isTerminal s.status = false) (hcliff : s.cliffTime ≤ t)
    (hproduct : InI128 ((countedSeconds s t : Int) * s.ratePerSecond))
    (hremaining : checkedSub s.deposit s.withdrawn =
      some (s.deposit - s.withdrawn)) :
    claimableAmount s t = .ok (if countedSeconds s t = 0 then 0 else
      max (min ((countedSeconds s t : Int) * s.ratePerSecond)
        (max (s.deposit - s.withdrawn) 0)) 0) := by
  have hbody : claimableAmount s t =
      if 0 < s.cliffTime ∧ t < s.cliffTime then .ok 0
      else if countedSeconds s t = 0 then .ok 0
      else do
        let earned ← expect
          (checkedMul (countedSeconds s t : Int) s.ratePerSecond) errOverflow
        return max (min earned
          (max ((checkedSub s.deposit s.withdrawn).getD 0) 0)) 0 := by
    unfold claimableAmount
    cases hstatus : s.status with
    | active => rfl
    | paused => rfl
    | cancelled => rw [hstatus] at hlive; cases hlive
    | exhausted => rw [hstatus] at hlive; cases hlive
  have hpast : ¬ (0 < s.cliffTime ∧ t < s.cliffTime) := by omega
  rw [hbody, if_neg hpast]
  by_cases hzero : countedSeconds s t = 0
  · rw [if_pos hzero, if_pos hzero]
  · rw [if_neg hzero, if_neg hzero, hremaining,
      (checkedMul_eq_some_iff _ _ _).mpr ⟨hproduct, rfl⟩]
    rfl

/-- The paper formula is what the code computes, at every `u64` time. -/
theorem claimableAmount_eq {s : Stream} (hs : AmountsInBounds s) {t : Nat}
    (ht : t ≤ u64Max) : claimableAmount s t = .ok (accrued s t) := by
  cases hlive : isTerminal s.status with
  | true => rw [claimableAmount_of_isTerminal hlive, accrued_of_isTerminal hlive]
  | false =>
      by_cases hcliff : t < s.cliffTime
      · rw [accrued_of_lt_cliff hcliff]
        unfold claimableAmount
        have hguard : 0 < s.cliffTime ∧ t < s.cliffTime := by omega
        cases hstatus : s.status with
        | active => simp only [if_pos hguard]
        | paused => simp only [if_pos hguard]
        | cancelled => rfl
        | exhausted => rfl
      · have hpast : s.cliffTime ≤ t := by omega
        have hseconds : countedSeconds s t ≤ u64Max := by
          have := effectiveEnd_le s t
          unfold countedSeconds
          omega
        -- the product stays far below the `i128` bound
        have hproduct : InI128 ((countedSeconds s t : Int) * s.ratePerSecond) :=
          inI128_mul_of_le hseconds hs.rate_pos.le hs.rate_le (by decide)
        have hremaining := checkedSub_of_le hs.withdrawn_nonneg hs.withdrawn_le
          hs.deposit_le
        have hleft : 0 ≤ s.deposit - s.withdrawn := by
          have := hs.withdrawn_le
          omega
        have hearned : 0 ≤ s.ratePerSecond * (countedSeconds s t : Int) :=
          mul_nonneg hs.rate_pos.le (by positivity)
        rw [claimableAmount_of_exact hlive hpast hproduct hremaining,
          accrued_of_cliff_le hlive hpast, mul_comm (countedSeconds s t : Int)]
        by_cases hzero : countedSeconds s t = 0
        · rw [if_pos hzero, hzero]
          simp only [Nat.cast_zero, mul_zero, min_eq_left hleft]
        · rw [if_neg hzero, max_eq_left hleft,
            max_eq_left (le_min hearned hleft)]

/-! ## Bounds and growth -/

theorem accrued_nonneg {s : Stream} (hs : AmountsInBounds s) (t : Nat) :
    0 ≤ accrued s t := by
  unfold accrued
  split
  · exact le_rfl
  · have hearned : 0 ≤ s.ratePerSecond * (countedSeconds s t : Int) :=
      mul_nonneg hs.rate_pos.le (by positivity)
    have := hs.withdrawn_le
    exact le_min hearned (by omega)

/-- No more accrues than is left of the deposit. -/
theorem withdrawn_add_accrued_le {s : Stream} (hs : AmountsInBounds s)
    (t : Nat) : s.withdrawn + accrued s t ≤ s.deposit := by
  have hle := hs.withdrawn_le
  unfold accrued
  split
  · omega
  · have := min_le_right (s.ratePerSecond * (countedSeconds s t : Int))
      (s.deposit - s.withdrawn)
    omega

theorem accrued_mono {s : Stream} (hs : AmountsInBounds s) {t t' : Nat}
    (h : t ≤ t') : accrued s t ≤ accrued s t' := by
  by_cases hzero : isTerminal s.status = true ∨ t < s.cliffTime
  · have hnone : accrued s t = 0 := by
      unfold accrued
      rw [if_pos hzero]
    rw [hnone]
    exact accrued_nonneg hs t'
  · rw [not_or, Bool.not_eq_true] at hzero
    obtain ⟨hlive, hpast⟩ := hzero
    rw [accrued_of_cliff_le hlive (by omega),
      accrued_of_cliff_le hlive (by omega)]
    have hseconds : (countedSeconds s t : Int) ≤ countedSeconds s t' := by
      exact_mod_cast countedSeconds_mono s h
    have hearned : s.ratePerSecond * (countedSeconds s t : Int) ≤
        s.ratePerSecond * countedSeconds s t' :=
      mul_le_mul_of_nonneg_left hseconds hs.rate_pos.le
    exact min_le_min_right _ hearned

/-- A claimable amount the code returned is the formula's. -/
theorem eq_accrued_of_claimableAmount {s : Stream} (hs : AmountsInBounds s)
    {t : Nat} (ht : t ≤ u64Max) {amount : Int}
    (h : claimableAmount s t = .ok amount) : amount = accrued s t := by
  rw [claimableAmount_eq hs ht] at h
  exact (Except.ok.inj h).symm

end Properties
end Paystream
