import Paystream.Library.ToggleLog
import Paystream.Services.Balance

/-!
# The paused seconds of a window

`calcPausedSeconds` goes through the pause history once, with the start of the
pause that is open, clipped to the window.  On a history that alternates and is in
order it returns how much of the window the paused intervals cover
(`calcPausedSeconds_measure`); it is therefore additive over adjacent windows, and
between zero and the length of the window.
-/

namespace Paystream
namespace Properties

open Library
open Services
open Services.BalanceService

/-! ## Paused intervals -/

/-- The time from a pause to its resume, open-ended without one. -/
structure PauseInterval where
  start : Int
  resume : Option Int

/-- The intervals of a history that starts with a pause. -/
def pauseIntervals : List PauseEntry → List PauseInterval
  | [] => []
  | [pause] => [⟨pause.timestamp, none⟩]
  | pause :: resume :: later =>
      ⟨pause.timestamp, some resume.timestamp⟩ :: pauseIntervals later

/-- The length of the intersection of the interval with the window: from the later
start to the earlier end. -/
def PauseInterval.lengthIn (fromTime toTime : Int) (interval : PauseInterval) : Int :=
  let finish := match interval.resume with
    | some resume => min resume toTime
    | none => toTime
  max 0 (finish - max interval.start fromTime)

/-- The total length of the intersections of all intervals with the window. -/
def pausedLength (history : List PauseEntry) (fromTime toTime : Int) : Int :=
  ((pauseIntervals history).map (PauseInterval.lengthIn fromTime toTime)).sum

theorem pausedLength_cons_cons (pause resume : PauseEntry) (later : List PauseEntry)
    (fromTime toTime : Int) :
    pausedLength (pause :: resume :: later) fromTime toTime =
      max 0 (min resume.timestamp toTime - max pause.timestamp fromTime) +
        pausedLength later fromTime toTime := rfl

theorem pausedLength_singleton (pause : PauseEntry) (fromTime toTime : Int) :
    pausedLength [pause] fromTime toTime =
      max 0 (toTime - max pause.timestamp fromTime) :=
  add_zero _

/-- The intervals are those of the log of events. -/
theorem pausedLength_eq_openTime (history : List PauseEntry) (fromTime toTime : Int) :
    pausedLength history fromTime toTime =
      openTime PauseEntry.timestamp history fromTime toTime := by
  induction history using List.twoStepInduction with
  | nil => rfl
  | singleton pause => exact pausedLength_singleton pause fromTime toTime
  | cons_cons pause resume later ih _ =>
      rw [pausedLength_cons_cons, ih]
      rfl

/-! ## The loop -/

/-- A pause and its resume add what the window has of the interval between them. -/
theorem scan_pair {pause resume : PauseEntry} (hpause : pause.isPause = true)
    (hresume : resume.isPause = false) (hordered : pause.timestamp ≤ resume.timestamp)
    {fromTime toTime : Int} (hwindow : fromTime ≤ toTime) (paused : Int) :
    [pause, resume].foldl (PauseScan.step fromTime toTime) ⟨paused, none⟩ =
      ⟨paused + max 0 (min resume.timestamp toTime - max pause.timestamp fromTime),
        none⟩ := by
  by_cases hbefore : pause.timestamp < toTime
  · simp only [List.foldl_cons, List.foldl_nil, PauseScan.step, hpause, hresume, if_true,
      if_pos hbefore, Bool.false_eq_true, if_false, PauseScan.mk.injEq, and_true]
    split
    · omega
    · omega
  · -- the scan stays closed, and the resume finds no pause to end
    have hnothing : max 0 (min resume.timestamp toTime - max pause.timestamp fromTime) = 0 := by
      omega
    simp only [List.foldl_cons, List.foldl_nil, PauseScan.step, hpause, hresume, if_true,
      if_neg hbefore, Bool.false_eq_true, if_false, hnothing, add_zero]

/-- A pause without a resume lasts to the end of the window. -/
theorem scan_open {pause : PauseEntry} (hpause : pause.isPause = true)
    {fromTime toTime : Int} (hwindow : fromTime ≤ toTime) (paused : Int) :
    ([pause].foldl (PauseScan.step fromTime toTime) ⟨paused, none⟩).total toTime =
      paused + max 0 (toTime - max pause.timestamp fromTime) := by
  by_cases hbefore : pause.timestamp < toTime
  · simp only [List.foldl_cons, List.foldl_nil, PauseScan.step, hpause, if_true,
      if_pos hbefore, PauseScan.total]
    omega
  · simp only [List.foldl_cons, List.foldl_nil, PauseScan.step, hpause, if_true,
      if_neg hbefore, PauseScan.total]
    omega

/-- The loop, from any sum it has reached. -/
theorem scan_total {history : List PauseEntry}
    (halternates : Alternating PauseEntry.isPause true history)
    (hordered : (history.map PauseEntry.timestamp).Pairwise (· ≤ ·))
    {fromTime toTime : Int} (hwindow : fromTime ≤ toTime) (paused : Int) :
    (history.foldl (PauseScan.step fromTime toTime) ⟨paused, none⟩).total toTime =
      paused + pausedLength history fromTime toTime := by
  -- two events at a time: between two intervals no pause is open
  induction history using List.twoStepInduction generalizing paused with
  | nil => exact (add_zero paused).symm
  | singleton pause => rw [scan_open halternates.1 hwindow, pausedLength_singleton]
  | cons_cons pause resume later ih _ =>
      rw [List.map_cons, List.map_cons, List.pairwise_cons, List.pairwise_cons] at hordered
      obtain ⟨hpause, _, hlater⟩ := hordered
      have hpair := hpause _ (List.mem_cons_self ..)
      have hsplit : pause :: resume :: later = [pause, resume] ++ later := rfl
      rw [pausedLength_cons_cons, hsplit, List.foldl_append,
        scan_pair halternates.1 halternates.2.1 hpair hwindow, ih halternates.2.2 hlater,
        add_assoc]

theorem calcPausedSeconds_eq_pausedLength {history : List PauseEntry}
    (halternates : Alternating PauseEntry.isPause true history)
    (hordered : (history.map PauseEntry.timestamp).Pairwise (· ≤ ·))
    {fromTime toTime : Int} (hwindow : fromTime ≤ toTime) :
    calcPausedSeconds history fromTime toTime = pausedLength history fromTime toTime := by
  unfold calcPausedSeconds
  rw [scan_total halternates hordered hwindow, zero_add]

/-- `calcPausedSeconds` measures what the paused intervals have in common with the
window: it is at most the length of the window, and the values of two adjacent
windows add up. -/
theorem calcPausedSeconds_measure (history : List PauseEntry)
    (halternates : Alternating PauseEntry.isPause true history)
    (hordered : (history.map PauseEntry.timestamp).Pairwise (· ≤ ·))
    (fromTime toTime : Int) (hwindow : fromTime ≤ toTime) :
    calcPausedSeconds history fromTime toTime =
      ((pauseIntervals history).map (PauseInterval.lengthIn fromTime toTime)).sum ∧
    0 ≤ calcPausedSeconds history fromTime toTime ∧
    calcPausedSeconds history fromTime toTime ≤ toTime - fromTime ∧
    ∀ middle, fromTime ≤ middle → middle ≤ toTime →
      calcPausedSeconds history fromTime toTime =
        calcPausedSeconds history fromTime middle +
          calcPausedSeconds history middle toTime := by
  rw [calcPausedSeconds_eq_pausedLength halternates hordered hwindow]
  refine ⟨rfl, ?_, ?_, ?_⟩
  · rw [pausedLength_eq_openTime]
    exact openTime_nonneg _ _ _ _
  · rw [pausedLength_eq_openTime]
    exact openTime_le hordered hwindow
  · intro middle hfirst hlast
    rw [calcPausedSeconds_eq_pausedLength halternates hordered hfirst,
      calcPausedSeconds_eq_pausedLength halternates hordered hlast,
      pausedLength_eq_openTime, pausedLength_eq_openTime, pausedLength_eq_openTime]
    exact openTime_add history hfirst hlast

/-- A pause from 10 to 30 and one from 50 on, in the window from 20 to 60, and in
its halves up to 25 and from there. -/
theorem calcPausedSeconds_measure_of_two_pauses :
    calcPausedSeconds [⟨10, true⟩, ⟨30, false⟩, ⟨50, true⟩] 20 60 = 20 ∧
    calcPausedSeconds [⟨10, true⟩, ⟨30, false⟩, ⟨50, true⟩] 20 60 =
      calcPausedSeconds [⟨10, true⟩, ⟨30, false⟩, ⟨50, true⟩] 20 25 +
        calcPausedSeconds [⟨10, true⟩, ⟨30, false⟩, ⟨50, true⟩] 25 60 := by
  have hmeasure := calcPausedSeconds_measure [⟨10, true⟩, ⟨30, false⟩, ⟨50, true⟩]
    ⟨rfl, rfl, rfl, trivial⟩ (by decide) 20 60 (by decide)
  exact ⟨hmeasure.1, hmeasure.2.2.2 25 (by decide) (by decide)⟩

end Properties
end Paystream
