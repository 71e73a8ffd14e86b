import Paystream.Properties.BalanceModule

/-!
# How long the deposit lasts

`remaining_duration` is meant to be the time until the whole deposit is vested.
It narrows the unstreamed rest to 64 bits and divides it by the rate, rounding
down.  A rest that the rate does not divide leaves a part of a second over, and a
rest of `2 ^ 64` and more loses its upper bits.

`remaining_duration_iff` says that the result is the least time to full vesting
exactly when the rest fits and the rate divides it (and the deposit covers what
was withdrawn, which can fail only where a token lets the contract take a negative
deposit).  It is never too long: what is wrong with it is always that the stream
is not yet vested.
-/

namespace Paystream
namespace Properties

open Library
open Contract
open Semantics

/-! ## Rounding down a narrowed quotient -/

/-- Rounded down and narrowed, the quotient never reaches beyond the amount. -/
theorem narrowed_div_mul_le (amount modulus rate : Nat) :
    amount % modulus / rate * rate ≤ amount :=
  calc amount % modulus / rate * rate ≤ amount % modulus :=
        Nat.div_mul_le_self _ _
    _ ≤ amount := Nat.mod_le _ _

/-- It reaches the amount only where nothing is cut off. -/
theorem le_narrowed_div_mul_iff {amount modulus rate : Nat}
    (hmodulus : 0 < modulus) :
    amount ≤ amount % modulus / rate * rate ↔
      rate ∣ amount ∧ amount < modulus := by
  constructor
  · intro hle
    have hdiv := Nat.div_mul_le_self (amount % modulus) rate
    have hmod := Nat.mod_le amount modulus
    have hsame : amount % modulus = amount := le_antisymm hmod (hle.trans hdiv)
    refine ⟨?_, ?_⟩
    · rw [hsame] at hle hdiv
      exact ⟨amount / rate, by rw [mul_comm]; exact le_antisymm hle hdiv⟩
    · rw [← hsame]
      exact Nat.mod_lt _ hmodulus
  · rintro ⟨hdvd, hlt⟩
    rw [Nat.mod_eq_of_lt hlt, Nat.div_mul_cancel hdvd]

/-- The same over the integers, as the amounts of a stream are. -/
theorem le_narrowed_div_mul_iff_int {amount rate : Int} (hamount : 0 ≤ amount)
    (hrate : 0 ≤ rate) :
    amount ≤ ((amount.toNat % 2 ^ 64 / rate.toNat : Nat) : Int) * rate ↔
      rate ∣ amount ∧ amount < 2 ^ 64 := by
  obtain ⟨a, rfl⟩ := Int.eq_ofNat_of_zero_le hamount
  obtain ⟨b, rfl⟩ := Int.eq_ofNat_of_zero_le hrate
  have hcut : a ≤ a % 2 ^ 64 / b * b ↔ b ∣ a ∧ a < 2 ^ 64 :=
    le_narrowed_div_mul_iff (by decide)
  rw [Int.toNat_natCast, Int.toNat_natCast]
  exact_mod_cast hcut

/-! ## Running streams -/

/-- What the stream has not streamed at `now`. -/
def unstreamedAt (s : Stream) (now : Nat) : Int :=
  max (s.deposit - s.withdrawn -
    ((now : Int) - s.lastWithdrawTime) * s.ratePerSecond) 0

theorem unstreamedAt_nonneg (s : Stream) (now : Nat) : 0 ≤ unstreamedAt s now :=
  le_max_right _ _

/-- `r` is the least number of seconds after which the whole deposit is
vested. -/
def IsTimeToFullVesting (s : Stream) (now r : Nat) : Prop :=
  Balance.claimableAt s (now + r) = .ok (s.deposit - s.withdrawn) ∧
    ∀ q < r, Balance.claimableAt s (now + q) ≠ .ok (s.deposit - s.withdrawn)

section Running

variable {s : Stream} {now : Nat} (hsound : SoundAmounts s)
  (hactive : s.status = .active) (hstop : s.stopTime = 0)
  (hclock : s.lastWithdrawTime ≤ now)

include hsound hactive hstop

theorem claimableAt_running {t : Nat} (ht : t ≤ u64Max) :
    Balance.claimableAt s t = .ok (earnedIn s (t - s.lastWithdrawTime)) := by
  have hseconds : countedSeconds s t = t - s.lastWithdrawTime := by
    unfold countedSeconds Storage.effectiveEnd
    rw [hstop, if_neg (by omega)]
  rw [claimableAt_of_sound hsound ht, hseconds, hactive]
  rfl

include hclock

/-- The whole deposit is vested once the rate has covered the rest. -/
theorem fully_vested_iff {q : Nat} (hq : now + q ≤ u64Max) :
    Balance.claimableAt s (now + q) = .ok (s.deposit - s.withdrawn) ↔
      s.withdrawn ≤ s.deposit ∧ unstreamedAt s now ≤ q * s.ratePerSecond := by
  have hrate := hsound.rate_pos
  have helapsed : ((now + q - s.lastWithdrawTime : Nat) : Int) *
      s.ratePerSecond = ((now : Int) - s.lastWithdrawTime) * s.ratePerSecond +
        q * s.ratePerSecond := by
    rw [← add_mul]
    congr 1
    omega
  have hlater : 0 ≤ (q : Int) * s.ratePerSecond := by positivity
  have hearned : 0 ≤ ((now : Int) - s.lastWithdrawTime) * s.ratePerSecond :=
    mul_nonneg (by omega) hrate.le
  rw [claimableAt_running hsound hactive hstop hq, Except.ok.injEq]
  unfold earnedIn unstreamedAt leftOf
  rw [helapsed]
  omega

/-- The value of `remaining_duration`. -/
theorem remainingDuration_running (hnow : now ≤ u64Max) :
    Balance.remainingDuration s now = .ok
      ((unstreamedAt s now).toNat % 2 ^ 64 / s.ratePerSecond.toNat) := by
  have hrate := hsound.rate_pos
  have hnarrow := hsound.rate_le
  unfold maxRatePerSecond at hnarrow
  have hearned : 0 ≤ ((now : Int) - s.lastWithdrawTime) * s.ratePerSecond :=
    mul_nonneg (by omega) hrate.le
  have hleft : leftOf s ≤ i128Max := by
    have := hsound.deposit_le
    have := hsound.withdrawn_nonneg
    have hzero : (0 : Int) ≤ i128Max := by decide
    unfold leftOf
    omega
  have hrest : leftOf s - earnedIn s (now - s.lastWithdrawTime) =
      unstreamedAt s now := by
    unfold earnedIn unstreamedAt leftOf
    rw [Nat.cast_sub hclock]
    omega
  have hnonneg := unstreamedAt_nonneg s now
  -- what is left is no larger than the deposit, so nothing saturates
  have hinside : saturatingSub (leftOf s)
      (earnedIn s (now - s.lastWithdrawTime)) = unstreamedAt s now := by
    have hmin : i128Min ≤ 0 := by decide
    have hpositive := earnedIn_nonneg hsound (now - s.lastWithdrawTime)
    unfold saturatingSub
    rw [hrest]
    exact saturate_of_inI128 ⟨by omega, by omega⟩
  have hbody : Balance.remainingDuration s now = .ok
      (castU64 (unstreamedAt s now) / max (castU64 s.ratePerSecond) 1) := by
    unfold Balance.remainingDuration
    rw [hactive]
    simp only [if_neg (not_le.mpr hrate), saturatingSub_left hsound,
      claimableAt_running hsound hactive hstop hnow]
    rw [← hinside]
    rfl
  rw [hbody]
  congr 2
  · unfold castU64
    omega
  · unfold castU64
    omega

/-- Before the time it returns has passed, the deposit is not vested. -/
theorem not_vested_before {q : Nat}
    (hq : q < (unstreamedAt s now).toNat % 2 ^ 64 / s.ratePerSecond.toNat)
    (hmax : now + q ≤ u64Max) :
    Balance.claimableAt s (now + q) ≠ .ok (s.deposit - s.withdrawn) := by
  intro hvested
  have hrate := hsound.rate_pos
  have hcovers := ((fully_vested_iff hsound hactive hstop hclock hmax).mp
    hvested).2
  have hreach := narrowed_div_mul_le (unstreamedAt s now).toNat (2 ^ 64)
    s.ratePerSecond.toNat
  have hstrict := Nat.mul_lt_mul_of_pos_right hq
    (show 0 < s.ratePerSecond.toNat by omega)
  have hbelow : ((q * s.ratePerSecond.toNat : Nat) : Int) <
      unstreamedAt s now := by
    omega
  rw [Nat.cast_mul, Int.toNat_of_nonneg hrate.le] at hbelow
  omega

end Running

/-- On every running stream of every run `remaining_duration` returns, and its
result is the least time to full vesting exactly when the unstreamed rest fits in
64 bits and is a multiple of the rate. -/
theorem remaining_duration_iff {host : Host} {history : History} {w : World}
    (hrun : Reaches host history w) {id : Nat} {s : Stream}
    (hs : w.streams id = some s) (hactive : s.status = .active)
    (hstop : s.stopTime = 0) {now : Nat} (hclock : s.lastWithdrawTime ≤ now)
    (hnow : now ≤ u64Max) :
    ∃ r, Balance.remainingDuration s now = .ok r ∧ (now + r ≤ u64Max →
      (IsTimeToFullVesting s now r ↔ s.withdrawn ≤ s.deposit ∧
        s.ratePerSecond ∣ unstreamedAt s now ∧ unstreamedAt s now < 2 ^ 64)) := by
  have hsound := soundAmounts_of_reaches hrun hs
  refine ⟨_, remainingDuration_running hsound hactive hstop hclock hnow, ?_⟩
  intro hmax
  rw [← le_narrowed_div_mul_iff_int (unstreamedAt_nonneg s now)
      hsound.rate_pos.le,
    ← fully_vested_iff hsound hactive hstop hclock hmax]
  constructor
  · intro hleast
    exact hleast.1
  · intro hvested
    refine ⟨hvested, ?_⟩
    intro q hq
    exact not_vested_before hsound hactive hstop hclock hq (by omega)

/-- A thousand tokens at ten a second, a tenth of them streamed: ninety seconds
are left. -/
theorem remaining_duration_of_even_rate :
    ∃ history w s, Reaches Sample.host history w ∧ w.streams 1 = some s ∧
      Balance.remainingDuration s 20 = .ok 90 ∧ IsTimeToFullVesting s 20 90 := by
  have hrun := Sample.play_reaches [Sample.openStream 10 1000 10 0] (by decide)
  have hs : (Sample.play [Sample.openStream 10 1000 10 0]).2.streams 1 =
      some (StreamContract.newStream 1 Sample.employer Sample.employee Sample.token
        1000 10 10 0 0 0) := rfl
  have hclock : (StreamContract.newStream 1 Sample.employer Sample.employee
      Sample.token 1000 10 10 0 0 0).lastWithdrawTime ≤ 20 := by decide
  obtain ⟨r, hr, hleast⟩ :=
    remaining_duration_iff hrun hs rfl rfl hclock (by decide)
  obtain rfl : r = 90 := Except.ok.inj hr.symm
  exact ⟨_, _, _, hrun, hs, hr, (hleast (by decide)).mpr (by decide)⟩

/-- A thousand tokens at sixteen a second last sixty-two seconds and a half: after
the sixty-two that are returned, eight tokens are not vested. -/
theorem remaining_duration_rounds_down :
    ∃ history w s, Reaches Sample.host history w ∧ w.streams 1 = some s ∧
      s.status = .active ∧ s.stopTime = 0 ∧ s.cliffTime = 0 ∧
      s.lastWithdrawTime = 10 ∧ s.deposit - s.withdrawn = 1000 ∧
      Balance.remainingDuration s 10 = .ok 62 ∧
      Balance.claimableAt s (10 + 62) = .ok 992 ∧
      ¬ IsTimeToFullVesting s 10 62 := by
  have hrun := Sample.play_reaches [Sample.openStream 10 1000 16 0] (by decide)
  refine ⟨_, _, _, hrun, rfl, rfl, rfl, rfl, rfl, by decide, by decide, by decide,
    ?_⟩
  rintro ⟨hvested, _⟩
  exact absurd hvested (by decide)

end Properties
end Paystream
