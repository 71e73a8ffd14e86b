import Paystream.Properties.BalanceService
import Paystream.Properties.PayrollWindows

/-!
# Integers for numbers

`Services.Balance` computes over the integers what the service computes in the
rounded numbers of JavaScript.  Up to `2 ^ 53` this makes no difference:
`calculateBalance_ofInt` says so of the whole balance, for a stream whose times,
amounts and earnings stay below.

For a stored history the unpaused time of the report is the number of seconds in
which no pause was open (`unpausedTime_storedHistory`).
-/

namespace Paystream
namespace Properties

open Library
open Library.Format
open Contract
open Services.PayrollReport

/-! ## Exact operations -/

/-- The integer is a number. -/
def Exact (n : Int) : Prop := |n| ≤ 2 ^ 53

theorem ofInt_lt_iff {m n : Int} (hm : Exact m) (hn : Exact n) :
    JsNumber.ofInt m < JsNumber.ofInt n ↔ m < n := by
  show (JsNumber.ofInt m).val < (JsNumber.ofInt n).val ↔ m < n
  rw [val_ofInt hm, val_ofInt hn, Int.cast_lt]

theorem ofInt_le_iff {m n : Int} (hm : Exact m) (hn : Exact n) :
    JsNumber.ofInt m ≤ JsNumber.ofInt n ↔ m ≤ n := by
  rw [← not_lt, ofInt_lt_iff hn hm, not_lt]

theorem ofInt_zero : JsNumber.ofInt 0 = 0 :=
  Subtype.ext ((val_ofInt (by decide)).trans Int.cast_zero)

theorem ofInt_sub {m n : Int} (hm : Exact m) (hn : Exact n) :
    JsNumber.ofInt m - JsNumber.ofInt n = JsNumber.ofInt (m - n) := by
  refine Subtype.ext ?_
  show binary64.round ((JsNumber.ofInt m).val - (JsNumber.ofInt n).val) = binary64.round _
  rw [val_ofInt hm, val_ofInt hn, Int.cast_sub]

theorem ofInt_mul {m n : Int} (hm : Exact m) (hn : Exact n) :
    JsNumber.ofInt m * JsNumber.ofInt n = JsNumber.ofInt (m * n) := by
  refine Subtype.ext ?_
  show binary64.round ((JsNumber.ofInt m).val * (JsNumber.ofInt n).val) = binary64.round _
  rw [val_ofInt hm, val_ofInt hn, Int.cast_mul]

theorem ofInt_max {m n : Int} (hm : Exact m) (hn : Exact n) :
    max (JsNumber.ofInt m) (JsNumber.ofInt n) = JsNumber.ofInt (max m n) := by
  rcases le_total m n with hle | hle
  · rw [max_eq_right hle, max_eq_right ((ofInt_le_iff hm hn).mpr hle)]
  · rw [max_eq_left hle, max_eq_left ((ofInt_le_iff hn hm).mpr hle)]

theorem ofInt_min {m n : Int} (hm : Exact m) (hn : Exact n) :
    min (JsNumber.ofInt m) (JsNumber.ofInt n) = JsNumber.ofInt (min m n) := by
  rcases le_total m n with hle | hle
  · rw [min_eq_left hle, min_eq_left ((ofInt_le_iff hm hn).mpr hle)]
  · rw [min_eq_right hle, min_eq_right ((ofInt_le_iff hn hm).mpr hle)]

/-! ## Paused and unpaused seconds -/

/-- An entry of the integer service, as a number. -/
def ofEntry (entry : Services.BalanceService.PauseEntry) : PauseEntry :=
  ⟨JsNumber.ofInt entry.timestamp, entry.isPause⟩

theorem alternating_map_ofEntry {history : List Services.BalanceService.PauseEntry}
    {first : Bool}
    (h : Alternating Services.BalanceService.PauseEntry.isPause first history) :
    Alternating PauseEntry.isPause first (history.map ofEntry) := by
  induction history generalizing first with
  | nil => trivial
  | cons entry later ih => exact ⟨h.1, ih h.2⟩

section Entries

variable {history : List Services.BalanceService.PauseEntry}
  (hexact : ∀ entry ∈ history, Exact entry.timestamp)

include hexact

theorem map_eventTime_ofEntry :
    (history.map ofEntry).map eventTime =
      history.map fun entry => (entry.timestamp : ℚ) := by
  rw [List.map_map]
  refine List.map_congr_left ?_
  intro entry hentry
  exact val_ofInt (hexact entry hentry)

theorem calcPausedSeconds_ofInt
    (halternates : Alternating Services.BalanceService.PauseEntry.isPause true history)
    (hordered : (history.map Services.BalanceService.PauseEntry.timestamp).Pairwise (· ≤ ·))
    {fromTime toTime : Int} (hfrom : 0 ≤ fromTime) (hwindow : fromTime ≤ toTime)
    (hto : Exact toTime) :
    calcPausedSeconds (history.map ofEntry) (JsNumber.ofInt fromTime)
        (JsNumber.ofInt toTime) =
      JsNumber.ofInt (Services.BalanceService.calcPausedSeconds history fromTime toTime) := by
  have htimes := map_eventTime_ofEntry hexact
  have hle := (abs_le.mp hto).2
  have hexactfrom : Exact fromTime := abs_le.mpr ⟨by omega, by omega⟩
  have hfirst := val_ofInt hexactfrom
  have hlast := val_ofInt hto
  have hentries : Alternating PauseEntry.isPause true (history.map ofEntry) :=
    alternating_map_ofEntry halternates
  have horder : ((history.map ofEntry).map eventTime).Pairwise (· ≤ ·) := by
    rw [htimes, List.pairwise_map]
    rw [List.pairwise_map] at hordered
    exact hordered.imp fun hle => by exact_mod_cast hle
  have hab : JsNumber.ofInt fromTime ≤ JsNumber.ofInt toTime :=
    (ofInt_le_iff hexactfrom hto).mpr hwindow
  have hgrid : OnCommonGrid 0 (history.map ofEntry) (JsNumber.ofInt fromTime)
      (JsNumber.ofInt toTime) := by
    refine ⟨by decide, ?_, ?_, ?_, ?_⟩
    · rw [hfirst]
      exact OnGrid.intCast _ le_rfl
    · rw [hlast]
      exact OnGrid.intCast _ le_rfl
    · intro entry hentry
      obtain ⟨stored, hstored, rfl⟩ := List.mem_map.mp hentry
      rw [eventTime, ofEntry, val_ofInt (hexact stored hstored)]
      exact OnGrid.intCast _ le_rfl
    · have hlength : toTime - fromTime ≤ 2 ^ 53 := by omega
      rw [hfirst, hlast, zpow_zero, mul_one]
      exact_mod_cast hlength
  have hpaused := calcPausedSeconds_number hgrid hentries horder hab
  rw [calcPausedSeconds_eq_pausedLength halternates hordered hwindow,
    pausedLength_eq_openTime]
  have hopen := openTime_le hordered hwindow
  have hnonneg := openTime_nonneg Services.BalanceService.PauseEntry.timestamp history
    fromTime toTime
  rw [hfirst, hlast, openTime_eq_of_map htimes, openTime_intCast] at hpaused
  exact Subtype.ext (hpaused.trans (val_ofInt (abs_le.mpr ⟨by omega, by omega⟩)).symm)

end Entries

/-- The history of a stored stream, as the report reads it. -/
def storedHistory (history : List PauseEvent) : List PauseEntry :=
  history.map fun event => ⟨JsNumber.ofInt event.timestamp, event.isPause⟩

/-- The unpaused time of the report is the number of seconds without a pause. -/
theorem unpausedTime_storedHistory {history : List PauseEvent}
    (halternates : Alternating PauseEvent.isPause true history)
    (hordered : (history.map PauseEvent.timestamp).Pairwise (· ≤ ·))
    (hexact : ∀ event ∈ history, Exact event.timestamp) {first last : Nat}
    (hwindow : first ≤ last) :
    unpausedTime (storedHistory history) first last =
      closedSeconds PauseEvent.timestamp PauseEvent.isPause history first last := by
  have htimes : (storedHistory history).map eventTime =
      history.map fun event => (event.timestamp : ℚ) := by
    rw [storedHistory, List.map_map]
    refine List.map_congr_left ?_
    intro event hevent
    exact val_ofInt (hexact event hevent)
  rw [← closedTime_natCast halternates hordered hwindow]
  unfold unpausedTime closedTime
  rw [openTime_eq_of_map htimes]

/-! ## The balance -/

/-- The state of the integer service, as numbers. -/
def ofState (start : Int) (state : Services.BalanceService.StreamState) : StreamState where
  deposit := JsNumber.ofInt state.deposit
  withdrawn := JsNumber.ofInt state.withdrawn
  ratePerSecond := JsNumber.ofInt state.ratePerSecond
  startTime := JsNumber.ofInt start
  stopTime := JsNumber.ofInt state.stopTime
  lastWithdrawTime := JsNumber.ofInt state.lastWithdrawTime
  cliffTime := JsNumber.ofInt state.cliffTime
  status := state.status
  pauseHistory := state.pauseHistory.map ofEntry

/-- Its balance, as numbers. -/
def ofBalance (balance : Services.BalanceService.Balance) : Balance :=
  ⟨JsNumber.ofInt balance.claimable, JsNumber.ofInt balance.accruedTotal,
    JsNumber.ofInt balance.activeElapsed, JsNumber.ofInt balance.pausedElapsed⟩

/-- All that the balance at `now` is computed from, and what a whole window earns,
are numbers. -/
structure ExactState (state : Services.BalanceService.StreamState) (now : Int) : Prop where
  deposit : Exact state.deposit
  withdrawn : Exact state.withdrawn
  left : Exact (state.deposit - state.withdrawn)
  rate : Exact state.ratePerSecond
  stop : Exact state.stopTime
  cliff : Exact state.cliffTime
  last : Exact state.lastWithdrawTime
  last_nonneg : 0 ≤ state.lastWithdrawTime
  clock : Exact now
  events : ∀ entry ∈ state.pauseHistory, Exact entry.timestamp
  amounts : |state.ratePerSecond| * now ≤ 2 ^ 53

section Balance

variable {state : Services.BalanceService.StreamState} {now : Int}

/-- The end of the window is the same. -/
theorem windowEnd_ofInt (hexact : ExactState state now) :
    (if 0 < JsNumber.ofInt state.stopTime ∧ JsNumber.ofInt state.stopTime < JsNumber.ofInt now
      then JsNumber.ofInt state.stopTime else JsNumber.ofInt now) =
    JsNumber.ofInt (if 0 < state.stopTime ∧ state.stopTime < now then state.stopTime
      else now) := by
  have hzero : Exact 0 := by unfold Exact; decide
  have hstop : (0 < JsNumber.ofInt state.stopTime ∧
      JsNumber.ofInt state.stopTime < JsNumber.ofInt now) ↔
        (0 < state.stopTime ∧ state.stopTime < now) := by
    rw [← ofInt_zero, ofInt_lt_iff hzero hexact.stop, ofInt_lt_iff hexact.stop hexact.clock]
  simp only [hstop]
  split
  · rfl
  · rfl

/-- The balance of a window that is not empty. -/
theorem window_ofInt (hexact : ExactState state now)
    (halternates : Alternating Services.BalanceService.PauseEntry.isPause true
      state.pauseHistory)
    (hordered : (state.pauseHistory.map
      Services.BalanceService.PauseEntry.timestamp).Pairwise (· ≤ ·))
    {last : Int} (hlast : last ≤ now) (hwindow : state.lastWithdrawTime < last) :
    let paused := Services.BalanceService.calcPausedSeconds state.pauseHistory
      state.lastWithdrawTime last
    let active := max 0 (last - state.lastWithdrawTime - paused)
    calcPausedSeconds (state.pauseHistory.map ofEntry)
        (JsNumber.ofInt state.lastWithdrawTime) (JsNumber.ofInt last) =
      JsNumber.ofInt paused ∧
    max 0 (JsNumber.ofInt last - JsNumber.ofInt state.lastWithdrawTime -
      JsNumber.ofInt paused) = JsNumber.ofInt active ∧
    JsNumber.ofInt active * JsNumber.ofInt state.ratePerSecond =
      JsNumber.ofInt (active * state.ratePerSecond) ∧
    Exact (active * state.ratePerSecond) := by
  intro paused active
  have hnow := (abs_le.mp hexact.clock).2
  have hfirst := hexact.last_nonneg
  have hzero : Exact 0 := by unfold Exact; decide
  have hlastexact : Exact last := abs_le.mpr ⟨by omega, by omega⟩
  have hmeasure := calcPausedSeconds_measure state.pauseHistory halternates hordered
    state.lastWithdrawTime last hwindow.le
  have hnonneg : 0 ≤ paused := hmeasure.2.1
  have hle : paused ≤ last - state.lastWithdrawTime := hmeasure.2.2.1
  have hactive : 0 ≤ active := le_max_left _ _
  have hactivele : active ≤ now := max_le (by omega) (by omega)
  have hamount : Exact (active * state.ratePerSecond) := by
    refine le_trans ?_ hexact.amounts
    rw [abs_mul, abs_of_nonneg hactive, mul_comm]
    exact mul_le_mul_of_nonneg_left hactivele (abs_nonneg _)
  have hlength : Exact (last - state.lastWithdrawTime) := abs_le.mpr ⟨by omega, by omega⟩
  have hpaused : Exact paused := abs_le.mpr ⟨by omega, by omega⟩
  have hrest : Exact (last - state.lastWithdrawTime - paused) :=
    abs_le.mpr ⟨by omega, by omega⟩
  refine ⟨calcPausedSeconds_ofInt hexact.events halternates hordered hfirst hwindow.le
    hlastexact, ?_, ofInt_mul (abs_le.mpr ⟨by omega, by omega⟩) hexact.rate, hamount⟩
  rw [ofInt_sub hlastexact hexact.last, ofInt_sub hlength hpaused, ← ofInt_zero,
    ofInt_max hzero hrest]

/-- The balance of the integer service is that of the numbers. -/
theorem calculateBalance_ofInt (hexact : ExactState state now)
    (halternates : Alternating Services.BalanceService.PauseEntry.isPause true
      state.pauseHistory)
    (hordered : (state.pauseHistory.map
      Services.BalanceService.PauseEntry.timestamp).Pairwise (· ≤ ·))
    (start dateNow : Int) :
    calculateBalance dateNow (ofState start state) (some (JsNumber.ofInt now)) =
      ofBalance (Services.BalanceService.calculateBalance dateNow state (some now)) := by
  have hzero : Exact 0 := by unfold Exact; decide
  have hnothing : Balance.zero = ofBalance Services.BalanceService.Balance.zero := by
    unfold ofBalance Balance.zero Services.BalanceService.Balance.zero
    simp only [ofInt_zero]
  have hcliff : (0 < JsNumber.ofInt state.cliffTime ∧
      JsNumber.ofInt now < JsNumber.ofInt state.cliffTime) ↔
        (0 < state.cliffTime ∧ now < state.cliffTime) := by
    rw [← ofInt_zero, ofInt_lt_iff hzero hexact.cliff, ofInt_lt_iff hexact.clock hexact.cliff]
  -- the body of the function, its `windowEnd` written out
  have hbody : calculateBalance dateNow (ofState start state) (some (JsNumber.ofInt now)) =
      if state.status = .cancelled ∨ state.status = .exhausted then Balance.zero
      else if 0 < JsNumber.ofInt state.cliffTime ∧
          JsNumber.ofInt now < JsNumber.ofInt state.cliffTime then Balance.zero
      else
        let windowEnd := if 0 < JsNumber.ofInt state.stopTime ∧
          JsNumber.ofInt state.stopTime < JsNumber.ofInt now
            then JsNumber.ofInt state.stopTime else JsNumber.ofInt now
        if windowEnd ≤ JsNumber.ofInt state.lastWithdrawTime then Balance.zero
        else
          let pausedSecs := calcPausedSeconds (state.pauseHistory.map ofEntry)
            (JsNumber.ofInt state.lastWithdrawTime) windowEnd
          let activeElapsed :=
            max 0 (windowEnd - JsNumber.ofInt state.lastWithdrawTime - pausedSecs)
          let accrued := activeElapsed * JsNumber.ofInt state.ratePerSecond
          ⟨min accrued
              (max 0 (JsNumber.ofInt state.deposit - JsNumber.ofInt state.withdrawn)),
            accrued, activeElapsed, pausedSecs⟩ := rfl
  rw [hbody, windowEnd_ofInt hexact]
  unfold Services.BalanceService.calculateBalance
  simp only [Option.getD_some, hcliff]
  by_cases hended : state.status = .cancelled ∨ state.status = .exhausted
  · rw [if_pos hended, if_pos hended, hnothing]
  rw [if_neg hended, if_neg hended]
  by_cases hearly : 0 < state.cliffTime ∧ now < state.cliffTime
  · rw [if_pos hearly, if_pos hearly, hnothing]
  rw [if_neg hearly, if_neg hearly]
  have hlast : (if 0 < state.stopTime ∧ state.stopTime < now then state.stopTime
      else now) ≤ now := by
    split
    · omega
    · exact le_rfl
  have hlastexact : Exact (if 0 < state.stopTime ∧ state.stopTime < now then state.stopTime
      else now) := by
    split
    · exact hexact.stop
    · exact hexact.clock
  generalize (if 0 < state.stopTime ∧ state.stopTime < now then state.stopTime
    else now) = last at hlast hlastexact ⊢
  simp only [ofInt_le_iff hlastexact hexact.last]
  by_cases hempty : last ≤ state.lastWithdrawTime
  · rw [if_pos hempty, if_pos hempty, hnothing]
  rw [if_neg hempty, if_neg hempty]
  obtain ⟨hpaused, hactive, haccrued, hamount⟩ :=
    window_ofInt hexact halternates hordered hlast (not_le.mp hempty)
  have hleft : Exact (max 0 (state.deposit - state.withdrawn)) := by
    rcases max_choice 0 (state.deposit - state.withdrawn) with h | h
    · rw [h]
      exact hzero
    · rw [h]
      exact hexact.left
  simp only [hpaused, hactive, haccrued]
  rw [ofInt_sub hexact.deposit hexact.withdrawn, ← ofInt_zero, ofInt_max hzero hexact.left,
    ofInt_min hamount hleft]
  rfl

end Balance

end Properties
end Paystream
