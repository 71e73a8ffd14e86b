import Paystream.Properties.BalanceModule
import Paystream.Properties.PauseHistory
import Paystream.Properties.PausedTime

/-!
# The balance service against the contract

Both exclude the time a stream was paused.  The contract does it when the stream
is resumed, by moving `last_withdraw_time` forward; the service subtracts the
pauses of the recorded history from the window that starts at
`last_withdraw_time`.  A pause that lies in this window is therefore excluded
twice, and `service_agrees_iff` says when that makes no difference.

`calcPausedSeconds_eq` is what the loop over the history comes to on a stored
history: the number of seconds of the window during which the stream was paused.
-/

namespace Paystream
namespace Properties

open Library
open Contract
open Contract.Storage
open Contract.StreamContract
open Semantics
open Services
open Services.BalanceService

/-! ## The loop over the pause history -/

/-- The history as the service reads it. -/
def entriesOf (history : List PauseEvent) : List PauseEntry :=
  history.map fun event => ⟨event.timestamp, event.isPause⟩

/-- The seconds from `fromTime` up to `toTime` in which a recorded pause was
open. -/
def pausedSeconds (history : List PauseEvent) (fromTime toTime : Nat) : Nat :=
  openSeconds PauseEvent.timestamp PauseEvent.isPause history fromTime toTime

theorem alternating_entriesOf {first : Bool} {history : List PauseEvent}
    (h : Alternating PauseEvent.isPause first history) :
    Alternating PauseEntry.isPause first (entriesOf history) := by
  induction history generalizing first with
  | nil => trivial
  | cons event later ih => exact ⟨h.1, ih h.2⟩

theorem ordered_entriesOf {history : List PauseEvent}
    (h : (history.map PauseEvent.timestamp).Pairwise (· ≤ ·)) :
    ((entriesOf history).map PauseEntry.timestamp).Pairwise (· ≤ ·) := by
  rw [List.pairwise_map] at h
  rw [entriesOf, List.map_map, List.pairwise_map]
  refine h.imp ?_
  intro event later hle
  exact Int.ofNat_le.mpr hle

/-- The length of the paused intervals is the number of the paused seconds. -/
theorem pausedLength_entriesOf {history : List PauseEvent}
    (halternates : Alternating PauseEvent.isPause true history)
    (hordered : (history.map PauseEvent.timestamp).Pairwise (· ≤ ·))
    (fromTime toTime : Nat) :
    pausedLength (entriesOf history) fromTime toTime =
      pausedSeconds history fromTime toTime := by
  rw [pausedLength_eq_openTime]
  unfold entriesOf pausedSeconds
  rw [openTime_map]
  exact openTime_natCast halternates hordered fromTime toTime

/-- `calcPausedSeconds` counts the paused seconds of the window. -/
theorem calcPausedSeconds_eq {history : List PauseEvent}
    (halternates : Alternating PauseEvent.isPause true history)
    (hordered : (history.map PauseEvent.timestamp).Pairwise (· ≤ ·))
    {fromTime toTime : Nat} (hwindow : fromTime ≤ toTime) :
    calcPausedSeconds (entriesOf history) fromTime toTime =
      pausedSeconds history fromTime toTime := by
  rw [calcPausedSeconds_eq_pausedLength (alternating_entriesOf halternates)
      (ordered_entriesOf hordered) (by exact_mod_cast hwindow),
    pausedLength_entriesOf halternates hordered]

/-! ## The service's formula -/

/-- The seconds the service counts: those of the window that lie in no recorded
pause. -/
def serviceSeconds (s : Stream) (history : List PauseEvent) (now : Nat) : Nat :=
  countedSeconds s now -
    pausedSeconds history s.lastWithdrawTime (effectiveEnd s now)

theorem pausedSeconds_le (s : Stream) (history : List PauseEvent) (now : Nat) :
    pausedSeconds history s.lastWithdrawTime (effectiveEnd s now) ≤
      countedSeconds s now :=
  openSeconds_le _ _ _

/-- Seconds that are left out make no difference exactly when there are none, or
when the others earn all that is left. -/
theorem earnedIn_sub_eq_iff {s : Stream} (h : SoundAmounts s) {seconds without : Nat}
    (hle : without ≤ seconds) :
    earnedIn s seconds = earnedIn s (seconds - without) ↔
      without = 0 ∨
        s.deposit - s.withdrawn ≤ (seconds - without : Nat) * s.ratePerSecond := by
  have hrate := h.rate_pos
  have hsplit : (seconds : Int) * s.ratePerSecond =
      (seconds - without : Nat) * s.ratePerSecond + without * s.ratePerSecond := by
    rw [← add_mul]
    congr 1
    omega
  have hothers : 0 ≤ ((seconds - without : Nat) : Int) * s.ratePerSecond :=
    mul_nonneg (by positivity) hrate.le
  constructor
  · intro hequal
    by_contra hnot
    rw [not_or] at hnot
    obtain ⟨hsome, hshort⟩ := hnot
    have hextra : 0 < (without : Int) * s.ratePerSecond := by
      refine mul_pos ?_ hrate
      exact_mod_cast Nat.pos_of_ne_zero hsome
    unfold earnedIn leftOf at hequal
    omega
  · rintro (rfl | henough)
    · rfl
    · have hextra : 0 ≤ (without : Int) * s.ratePerSecond :=
        mul_nonneg (by positivity) hrate.le
      unfold earnedIn leftOf
      omega

/-- The end of the window as the service computes it. -/
theorem effectiveEnd_cast (s : Stream) (now : Nat) :
    (if 0 < (s.stopTime : Int) ∧ (s.stopTime : Int) < now
      then (s.stopTime : Int) else now) = (effectiveEnd s now : Int) := by
  unfold effectiveEnd
  split
  · rw [if_pos (by omega)]
  · rw [if_neg (by omega)]

/-- `calculateBalance` on a stored stream that has not ended, evaluated. -/
theorem calculateBalance_claimable {s : Stream}
    (hlive : isTerminal s.status = false) {history : List PauseEvent}
    (halternates : Alternating PauseEvent.isPause true history)
    (hordered : (history.map PauseEvent.timestamp).Pairwise (· ≤ ·))
    (dateNow : Int) (now : Nat) :
    (calculateBalance dateNow (.ofStream s history) (some now)).claimable =
      if now < s.cliffTime then 0
      else earnedIn s (serviceSeconds s history now) := by
  have hrunning : ¬ ((StreamState.ofStream s history).status = .cancelled ∨
      (StreamState.ofStream s history).status = .exhausted) := by
    rcases (isTerminal_eq_false_iff _).mp hlive with hactive | hpaused
    · simp [StreamState.ofStream, hactive]
    · simp [StreamState.ofStream, hpaused]
  -- the body behind the status check, its `windowEnd` written out
  have hbody : calculateBalance dateNow (.ofStream s history) (some now) =
      if 0 < (s.cliffTime : Int) ∧ (now : Int) < s.cliffTime then Balance.zero
      else if (effectiveEnd s now : Int) ≤ s.lastWithdrawTime then Balance.zero
      else
        let pausedSecs := calcPausedSeconds (entriesOf history)
          s.lastWithdrawTime (effectiveEnd s now)
        let activeElapsed :=
          max 0 ((effectiveEnd s now : Int) - s.lastWithdrawTime - pausedSecs)
        ⟨min (activeElapsed * s.ratePerSecond) (max 0 (s.deposit - s.withdrawn)),
          activeElapsed * s.ratePerSecond, activeElapsed, pausedSecs⟩ := by
    rw [← effectiveEnd_cast]
    unfold calculateBalance
    rw [if_neg hrunning]
    rfl
  rw [hbody]
  by_cases hcliff : now < s.cliffTime
  · rw [if_pos (by omega), if_pos hcliff]
    rfl
  · rw [if_neg (by omega), if_neg hcliff]
    by_cases hempty : effectiveEnd s now ≤ s.lastWithdrawTime
    · have hnone : serviceSeconds s history now = 0 := by
        unfold serviceSeconds countedSeconds
        omega
      rw [if_pos (by omega), hnone, earnedIn_zero]
      rfl
    · rw [if_neg (by omega)]
      have hpaused := calcPausedSeconds_eq halternates hordered
        (Nat.le_of_lt (Nat.lt_of_not_le hempty))
      have hle := pausedSeconds_le s history now
      have hseconds : max 0 ((effectiveEnd s now : Int) - s.lastWithdrawTime -
          pausedSeconds history s.lastWithdrawTime (effectiveEnd s now)) =
            (serviceSeconds s history now : Int) := by
        unfold serviceSeconds
        unfold countedSeconds at hle ⊢
        omega
      simp only [hpaused, hseconds, max_comm 0 (s.deposit - s.withdrawn)]
      rfl

/-! ## Agreement -/

/-- Of an active stream of a run, the service shows what the contract would settle
exactly before the cliff, when no second since `last_withdraw_time` lies in a
recorded pause, and when the unpaused seconds alone earn what is left. -/
theorem service_agrees_iff {host : Host} {history : History} {w : World}
    (hrun : Reaches host history w) {id : Nat} {s : Stream}
    (hs : w.streams id = some s) (hactive : s.status = .active) {now : Nat}
    (hexact : now ≤ maxSafeInteger) (dateNow : Int) :
    claimableAmount s now = .ok (calculateBalance dateNow
        (.ofStream s (w.pauseHistory id)) (some now)).claimable ↔
      now < s.cliffTime ∨
        pausedSeconds (w.pauseHistory id) s.lastWithdrawTime
          (effectiveEnd s now) = 0 ∨
        s.deposit - s.withdrawn ≤
          serviceSeconds s (w.pauseHistory id) now * s.ratePerSecond := by
  have hsound := soundAmounts_of_reaches hrun hs
  have hclock := (clockFollowed_of_reaches hrun id).state s hs
  have hmax : now ≤ u64Max := hexact.trans (by decide)
  have hlive : isTerminal s.status = false :=
    (isTerminal_eq_false_iff _).mpr (Or.inl hactive)
  rw [calculateBalance_claimable hlive hclock.alternates hclock.ordered,
    claimableAmount_of_sound hsound hmax, Except.ok.injEq]
  by_cases hcliff : now < s.cliffTime
  · simp [hcliff]
  · have hpast : ¬ (isTerminal s.status = true ∨ now < s.cliffTime) := by
      simp [hactive, hcliff, isTerminal]
    rw [if_neg hpast, if_neg hcliff, or_iff_right hcliff]
    exact earnedIn_sub_eq_iff hsound (pausedSeconds_le s _ now)

/-- A pause that was over when the employee withdrew is behind the window: at 60
both say 200. -/
theorem service_agrees_of_withdrawal_after_pause :
    ∃ history w s, Reaches Sample.host history w ∧ w.streams 1 = some s ∧
      (w.pauseHistory 1).map PauseEvent.timestamp = [20, 30] ∧
      s.lastWithdrawTime = 40 ∧ claimableAmount s 60 = .ok 200 ∧
      claimableAmount s 60 = .ok (calculateBalance 0
        (.ofStream s (w.pauseHistory 1)) (some 60)).claimable := by
  have hrun := Sample.play_reaches [
    Sample.openStream 10 1000 10 0,
    Sample.manage 20 (.pauseStream Sample.employer),
    Sample.manage 30 (.resumeStream Sample.employer),
    Sample.invoke 40 Sample.employee (.onStream 1 (.withdraw Sample.employee))]
    (by decide)
  exact ⟨_, _, _, hrun, rfl, by decide, by decide, by decide,
    (service_agrees_iff hrun rfl (by decide) (by decide) 0).mpr (by decide)⟩

/-- A stream that starts at 1000 and is paused from 1050 to 1080: at 1100 it has
run for 70 seconds, which is what the contract pays, and the service subtracts
the 30 seconds of the pause once more. -/
theorem service_disagrees :
    ∃ history w s, Reaches Sample.host history w ∧ w.streams 1 = some s ∧
      s.status = .active ∧ ledgerTime Sample.host history ≤ 1100 ∧
      claimableAmount s 1100 = .ok 70 ∧
      calculateBalance 0 (.ofStream s (w.pauseHistory 1)) (some 1100) =
        ⟨40, 40, 40, 30⟩ ∧
      claimableAmount s 1100 ≠ .ok (calculateBalance 0
        (.ofStream s (w.pauseHistory 1)) (some 1100)).claimable := by
  have hrun := Sample.play_reaches [
    Sample.openStream 1000 1000 1 0,
    Sample.manage 1050 (.pauseStream Sample.employer),
    Sample.manage 1080 (.resumeStream Sample.employer)] (by decide)
  exact ⟨_, _, _, hrun, rfl, by decide, by decide, by decide, by decide, by decide⟩

end Properties
end Paystream
