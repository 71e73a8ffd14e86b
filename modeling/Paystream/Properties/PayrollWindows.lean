import Paystream.Library.ToggleLog
import Paystream.Services.Payroll

/-!
# The windows of the payroll report

What a period of the report earns, in rounded numbers.  Everything that is
subtracted and added on the way to its unpaused seconds lies between the ends of
the window, so it is exact as soon as these and the pauses lie on one grid that is
fine enough (`OnCommonGrid`).  Windows that start at a whole second have such a
grid, and so have all that are not longer than the time before them
(`exists_onCommonGrid`).
-/

namespace Paystream
namespace Properties

open Library
open Library.Format
open Contract
open Services.PayrollReport

/-! ## Paused and unpaused time -/

/-- The time of an event, in seconds. -/
def eventTime (event : PauseEntry) : ℚ := event.timestamp.val

/-- The seconds, with their parts, of a window in which no recorded pause was
open. -/
def unpausedTime (history : List PauseEntry) (a b : ℚ) : ℚ :=
  closedTime eventTime history a b

theorem unpausedTime_nonneg {history : List PauseEntry}
    (hordered : (history.map eventTime).Pairwise (· ≤ ·)) (a b : ℚ) :
    0 ≤ unpausedTime history a b := closedTime_nonneg hordered a b

theorem unpausedTime_add (history : List PauseEntry) {a b c : ℚ} (hab : a ≤ b)
    (hbc : b ≤ c) :
    unpausedTime history a c = unpausedTime history a b + unpausedTime history b c :=
  closedTime_add history hab hbc

theorem unpausedTime_le (history : List PauseEntry) {a b : ℚ} (h : a ≤ b) :
    unpausedTime history a b ≤ b - a := closedTime_le eventTime history h

theorem unpausedTime_eq_zero (history : List PauseEntry) {a b : ℚ} (h : b ≤ a) :
    unpausedTime history a b = 0 := closedTime_eq_zero history h

/-! ## Windows without rounding -/

/-- Between times on a grid the paused time is on it. -/
theorem onGrid_openTime {e : ℤ} {history : List PauseEntry}
    (hevent : ∀ entry ∈ history, OnGrid e (eventTime entry)) {a b : ℚ} (ha : OnGrid e a)
    (hb : OnGrid e b) : OnGrid e (openTime eventTime history a b) := by
  have hzero : OnGrid e 0 := ⟨0, by simp⟩
  induction history using List.twoStepInduction with
  | nil => exact hzero
  | singleton pause =>
      exact hzero.max (hb.sub ((hevent pause (by simp)).max ha))
  | cons_cons pause resume later ih _ =>
      have hpause := hevent pause (by simp)
      have hresume := hevent resume (by simp)
      have hlater := ih fun entry hentry => hevent entry (by simp [hentry])
      exact (hzero.max ((hresume.min hb).sub (hpause.max ha))).add hlater

theorem onGrid_unpausedTime {e : ℤ} {history : List PauseEntry}
    (hevent : ∀ entry ∈ history, OnGrid e (eventTime entry)) {a b : ℚ} (ha : OnGrid e a)
    (hb : OnGrid e b) : OnGrid e (unpausedTime history a b) :=
  (OnGrid.max ⟨0, by simp⟩ (hb.sub ha)).sub (onGrid_openTime hevent ha hb)

/-- The window and the pauses lie on a grid that is fine enough for its length. -/
structure OnCommonGrid (e : ℤ) (history : List PauseEntry) (a b : JsNumber) : Prop where
  fine : binary64.minExponent ≤ e
  first : OnGrid e a.val
  last : OnGrid e b.val
  event : ∀ entry ∈ history, OnGrid e (eventTime entry)
  length_le : b.val - a.val ≤ 2 ^ 53 * 2 ^ e

/-- The events carry whole seconds. -/
def WholeEvents (history : List PauseEntry) : Prop :=
  ∀ entry ∈ history, ∃ t : ℤ, eventTime entry = t

theorem isNumber_intCast {n : ℤ} (h : |n| ≤ 2 ^ 53) : binary64.IsNumber n :=
  ⟨n, 0, h, by decide, by simp⟩

theorem val_ofInt {n : ℤ} (h : |n| ≤ 2 ^ 53) : (JsNumber.ofInt n).val = n :=
  Number.val_ofRat (isNumber_intCast h)

/-- A number is within reach of its own grid. -/
theorem le_zpow_min_exponent {x : JsNumber} (hnonneg : 0 ≤ x) (hle : x.val ≤ 2 ^ 53) :
    x.val ≤ 2 ^ 53 * 2 ^ min (binary64.exponent x.val) 0 := by
  rcases min_choice (binary64.exponent x.val) 0 with h | h
  · have hlt := abs_lt_zpow (f := binary64) x.val
    rw [abs_of_nonneg hnonneg, zpow_add₀ two_ne_zero, zpow_natCast] at hlt
    rw [h]
    exact hlt.le
  · rw [h, zpow_zero, mul_one]
    exact hle

theorem exists_onCommonGrid {history : List PauseEntry} (hevents : WholeEvents history)
    {a b : JsNumber} (ha : 0 ≤ a) (hab : a ≤ b) (hb : b.val ≤ 2 ^ 53)
    (hwindow : (∃ n : ℤ, a.val = n) ∨ b.val ≤ 2 * a.val) :
    ∃ e, OnCommonGrid e history a b := by
  have hevent : ∀ x : ℚ, ∀ entry ∈ history,
      OnGrid (min (binary64.exponent x) 0) (eventTime entry) := by
    intro x entry hentry
    obtain ⟨t, ht⟩ := hevents entry hentry
    rw [ht]
    exact OnGrid.intCast t (min_le_right _ _)
  have hfine : ∀ x, binary64.minExponent ≤ min (binary64.exponent x) 0 :=
    fun x => le_min (minExponent_le x) (by decide)
  have hnonneg : (0 : ℚ) ≤ a.val := ha
  have hle : a.val ≤ b.val := hab
  have hwhole : (∃ n : ℤ, a.val = n) → ∃ e, OnCommonGrid e history a b := by
    rintro ⟨n, hn⟩
    refine ⟨_, hfine b.val, ?_, ?_, hevent b.val, ?_⟩
    · rw [hn]
      exact OnGrid.intCast n (min_le_right _ _)
    · exact b.property.onGrid_exponent.of_le (min_le_left _ _)
    · have hreach := le_zpow_min_exponent (ha.trans hab) hb
      linarith
  rcases hwindow with hinteger | hshort
  · exact hwhole hinteger
  rcases hnonneg.eq_or_lt with hzero | hpos
  · exact hwhole ⟨0, by rw [← hzero, Int.cast_zero]⟩
  · refine ⟨_, hfine a.val, ?_, ?_, hevent a.val, ?_⟩
    · exact a.property.onGrid_exponent.of_le (min_le_left _ _)
    · exact (b.property.onGrid_of_le hpos hle).of_le (min_le_left _ _)
    · have hreach := le_zpow_min_exponent ha (hle.trans hb)
      linarith

/-! ## The loop over the pauses -/

section Scan

variable {e : ℤ} {history : List PauseEntry} {a b : JsNumber}

/-- What lies on the grid and in the window is a number. -/
theorem OnCommonGrid.isNumber (h : OnCommonGrid e history a b) {x : ℚ} (hx : OnGrid e x)
    (hnonneg : 0 ≤ x) (hle : x ≤ b.val - a.val) : binary64.IsNumber x := by
  refine isNumber_of_onGrid hx h.fine ?_
  rw [abs_of_nonneg hnonneg]
  exact hle.trans h.length_le

/-- A pause is added without rounding. -/
theorem val_add_pause (h : OnCommonGrid e history a b) {paused opened closed : JsNumber}
    (hpaused : OnGrid e paused.val) (hnonneg : 0 ≤ paused.val)
    (hopened : OnGrid e opened.val) (hclosed : OnGrid e closed.val)
    (hle : opened.val ≤ closed.val)
    (hroom : paused.val + (closed.val - opened.val) ≤ b.val - a.val) :
    (paused + (closed - opened)).val = paused.val + (closed.val - opened.val) := by
  have hlength := h.isNumber (hclosed.sub hopened) (sub_nonneg.mpr hle) (by linarith)
  have hdifference := Number.val_sub hlength
  have hsum := h.isNumber (hpaused.add (hclosed.sub hopened)) (by linarith) hroom
  rw [← hdifference] at hsum ⊢
  exact Number.val_add hsum

/-- A pause and its resume add what the window has of the interval between them. -/
theorem scan_pair_number (h : OnCommonGrid e history a b) {pause resume : PauseEntry}
    (hpause : pause.isPause = true) (hresume : resume.isPause = false)
    (hfirst : OnGrid e (eventTime pause)) (hsecond : OnGrid e (eventTime resume))
    {paused : JsNumber} (hpaused : OnGrid e paused.val) (hnonneg : 0 ≤ paused.val)
    (hroom : paused.val + max 0 (min (eventTime resume) b.val -
      max (eventTime pause) a.val) ≤ b.val - a.val) :
    ∃ added : JsNumber,
      [pause, resume].foldl (PauseScan.step a b) ⟨paused, none⟩ = ⟨added, none⟩ ∧
      added.val = paused.val +
        max 0 (min (eventTime resume) b.val - max (eventTime pause) a.val) := by
  have hopened : (max pause.timestamp a).val = max (eventTime pause) a.val :=
    Number.val_max _ _
  have hclosed : (min resume.timestamp b).val = min (eventTime resume) b.val :=
    Number.val_min _ _
  rw [← hopened, ← hclosed] at hroom ⊢
  by_cases hbefore : pause.timestamp < b
  · simp only [List.foldl_cons, List.foldl_nil, PauseScan.step, hpause, hresume, if_true,
      if_pos hbefore, Bool.false_eq_true, if_false]
    refine ⟨_, rfl, ?_⟩
    by_cases hlt : max pause.timestamp a < min resume.timestamp b
    · have hle : (max pause.timestamp a).val ≤ (min resume.timestamp b).val := hlt.le
      rw [max_eq_right (sub_nonneg.mpr hle)] at hroom ⊢
      rw [if_pos hlt]
      refine val_add_pause h hpaused hnonneg ?_ ?_ hle hroom
      · rw [hopened]
        exact hfirst.max h.first
      · rw [hclosed]
        exact hsecond.min h.last
    · have hle : (min resume.timestamp b).val ≤ (max pause.timestamp a).val :=
        not_lt.mp hlt
      rw [if_neg hlt, max_eq_left (sub_nonpos.mpr hle), add_zero]
  · -- the scan stays closed, and the resume finds no pause to end
    have hpast : b.val ≤ (max pause.timestamp a).val :=
      (show b.val ≤ pause.timestamp.val from not_lt.mp hbefore).trans
        (le_max_left pause.timestamp a)
    have hle : (min resume.timestamp b).val ≤ (max pause.timestamp a).val :=
      (show (min resume.timestamp b).val ≤ b.val from min_le_right _ _).trans hpast
    refine ⟨paused, ?_, ?_⟩
    · simp only [List.foldl_cons, List.foldl_nil, PauseScan.step, hpause, hresume, if_true,
        if_neg hbefore, Bool.false_eq_true, if_false]
    · rw [max_eq_left (sub_nonpos.mpr hle), add_zero]

/-- A pause without a resume lasts to the end of the window. -/
theorem scan_open_number (h : OnCommonGrid e history a b) {pause : PauseEntry}
    (hpause : pause.isPause = true) (hfirst : OnGrid e (eventTime pause))
    (hab : a ≤ b) {paused : JsNumber} (hpaused : OnGrid e paused.val)
    (hnonneg : 0 ≤ paused.val)
    (hroom : paused.val + max 0 (b.val - max (eventTime pause) a.val) ≤
      b.val - a.val) :
    (([pause].foldl (PauseScan.step a b) ⟨paused, none⟩).total b).val =
      paused.val + max 0 (b.val - max (eventTime pause) a.val) := by
  have hopened : (max pause.timestamp a).val = max (eventTime pause) a.val :=
    Number.val_max _ _
  rw [← hopened] at hroom ⊢
  by_cases hbefore : pause.timestamp < b
  · have hle : (max pause.timestamp a).val ≤ b.val :=
      Subtype.coe_le_coe.mpr (max_le hbefore.le hab)
    rw [max_eq_right (sub_nonneg.mpr hle)] at hroom ⊢
    simp only [List.foldl_cons, List.foldl_nil, PauseScan.step, hpause, if_true,
      if_pos hbefore, PauseScan.total]
    refine val_add_pause h hpaused hnonneg ?_ h.last hle hroom
    rw [hopened]
    exact hfirst.max h.first
  · have hpast : b.val ≤ (max pause.timestamp a).val :=
      (show b.val ≤ pause.timestamp.val from not_lt.mp hbefore).trans
        (le_max_left pause.timestamp a)
    simp only [List.foldl_cons, List.foldl_nil, PauseScan.step, hpause, if_true,
      if_neg hbefore, PauseScan.total]
    rw [max_eq_left (sub_nonpos.mpr hpast), add_zero]

/-- The loop, from any sum it has reached. -/
theorem scan_total_number {pauses : List PauseEntry} (h : OnCommonGrid e pauses a b)
    (halternates : Alternating PauseEntry.isPause true pauses) (hab : a ≤ b)
    (paused : JsNumber) (hpaused : OnGrid e paused.val) (hnonneg : 0 ≤ paused.val)
    (hroom : paused.val + openTime eventTime pauses a.val b.val ≤ b.val - a.val) :
    ((pauses.foldl (PauseScan.step a b) ⟨paused, none⟩).total b).val =
      paused.val + openTime eventTime pauses a.val b.val := by
  induction pauses using List.twoStepInduction generalizing paused with
  | nil => exact (add_zero _).symm
  | singleton pause =>
      exact scan_open_number h halternates.1 (h.event pause (by simp)) hab hpaused hnonneg
        hroom
  | cons_cons pause resume later ih _ =>
      have hpause := h.event pause (by simp)
      have hresume := h.event resume (by simp)
      have hlater : OnCommonGrid e later a b :=
        { h with event := fun entry hentry => h.event entry (by simp [hentry]) }
      have hrest := openTime_nonneg eventTime later a.val b.val
      simp only [openTime] at hroom ⊢
      obtain ⟨added, hscan, hadded⟩ := scan_pair_number h halternates.1 halternates.2.1
        hpause hresume hpaused hnonneg (by linarith)
      have hinterval := le_max_left 0 (min (eventTime resume) b.val -
        max (eventTime pause) a.val)
      have hgrid : OnGrid e added.val := by
        rw [hadded]
        refine hpaused.add (OnGrid.max ⟨0, by simp⟩ ?_)
        exact (hresume.min h.last).sub (hpause.max h.first)
      have hsplit : pause :: resume :: later = [pause, resume] ++ later := rfl
      rw [hsplit, List.foldl_append, hscan, ih hlater halternates.2.2 _ hgrid (by linarith)
        (by linarith), hadded, add_assoc]

theorem calcPausedSeconds_number (h : OnCommonGrid e history a b)
    (halternates : Alternating PauseEntry.isPause true history)
    (hordered : (history.map eventTime).Pairwise (· ≤ ·)) (hab : a ≤ b) :
    (calcPausedSeconds history a b).val = openTime eventTime history a.val b.val := by
  have hroom := openTime_le hordered (show a.val ≤ b.val from hab)
  have htotal := scan_total_number h halternates hab 0 ⟨0, by simp⟩ le_rfl
    (by rwa [Number.val_zero, zero_add])
  rwa [Number.val_zero, zero_add] at htotal

end Scan

/-! ## One period -/

/-- What the unpaused time of a window earns, as a number. -/
def windowEarned (stream : StreamState) (a b : ℚ) : JsNumber :=
  Number.ofRat (stream.ratePerSecond.val * unpausedTime stream.pauseHistory a b)

section Slice

variable {stream : StreamState} (hlive : stream.status = .active ∨ stream.status = .paused)
  (hcliff : stream.cliffTime = 0) (hwithdrawn : stream.withdrawn = 0)
  (halternates : Alternating PauseEntry.isPause true stream.pauseHistory)
  (hordered : (stream.pauseHistory.map eventTime).Pairwise (· ≤ ·))

include hlive hcliff hwithdrawn halternates hordered

/-- A period earns its unpaused time, up to the whole deposit. -/
theorem sliceEarned_eq (dateNow : Int) {a b : JsNumber} (hab : a < b) {e : ℤ}
    (h : OnCommonGrid e stream.pauseHistory a b) :
    sliceEarned dateNow stream ⟨a, some b⟩ =
      some (min (windowEarned stream a.val b.val) (max 0 stream.deposit)) := by
  have hrunning : ¬ (stream.status = .cancelled ∨ stream.status = .exhausted) := by
    rcases hlive with hactive | hpaused
    · simp [hactive]
    · simp [hpaused]
  have hle : a.val ≤ b.val := hab.le
  have hpaused := calcPausedSeconds_number h halternates hordered hab.le
  have hopen := openTime_le hordered hle
  have hclosed := unpausedTime_nonneg hordered a.val b.val
  have htotal : (b - a).val = b.val - a.val :=
    Number.val_sub (h.isNumber (h.last.sub h.first) (sub_nonneg.mpr hle) le_rfl)
  have hunpaused : unpausedTime stream.pauseHistory a.val b.val =
      b.val - a.val - openTime eventTime stream.pauseHistory a.val b.val := by
    unfold unpausedTime closedTime
    rw [max_eq_right (sub_nonneg.mpr hle)]
  have hactive : (max 0 (b - a - calcPausedSeconds stream.pauseHistory a b)).val =
      unpausedTime stream.pauseHistory a.val b.val := by
    have hgrid := onGrid_openTime h.event h.first h.last
    have hnumber : binary64.IsNumber
        ((b - a).val - (calcPausedSeconds stream.pauseHistory a b).val) := by
      rw [htotal, hpaused]
      refine h.isNumber ((h.last.sub h.first).sub hgrid) (sub_nonneg.mpr hopen) ?_
      have hnonneg := openTime_nonneg eventTime stream.pauseHistory a.val b.val
      linarith
    rw [Number.val_max, Number.val_sub hnumber, htotal, hpaused, ← hunpaused]
    exact max_eq_right hclosed
  have haccrued : max 0 (b - a - calcPausedSeconds stream.pauseHistory a b) *
      stream.ratePerSecond = windowEarned stream a.val b.val := by
    refine Subtype.ext ?_
    show binary64.round (_ * stream.ratePerSecond.val) = binary64.round _
    rw [hactive, mul_comm]
  unfold sliceEarned calculateBalance
  simp only [hrunning, hcliff, hwithdrawn, lt_self_iff_false, false_and, and_false, if_false,
    Option.getD_some, not_le.mpr hab, Number.sub_zero, haccrued]

end Slice

end Properties
end Paystream
