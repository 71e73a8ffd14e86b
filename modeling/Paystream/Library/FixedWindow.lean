import Mathlib.Algebra.Order.Group.Defs
import Mathlib.Data.List.Count
import Mathlib.Tactic

/-!
# Limits by fixed windows

A counter that starts again when an event comes later than `length` after the
window was opened, and that admits an event as long as it counts to at most
`limit`.

An interval of the length of a window may meet two windows, so up to twice the
limit is admitted in it, and no more (`admitted_le_twice`).  In the other
direction, whoever stays below the limit in the last `length` is admitted
(`admits_of_few`).  Lists of times are newest first.
-/

namespace Paystream
namespace Library

/-- An open window. -/
structure Window (Time : Type) where
  count : Nat
  since : Time

namespace Window

variable {Time : Type} [LinearOrder Time]

/-- Newest first. -/
def Ordered (times : List Time) : Prop :=
  times.Pairwise fun later earlier => earlier ≤ later

theorem Ordered.of_cons {now : Time} {earlier : List Time}
    (h : Ordered (now :: earlier)) :
    (∀ time ∈ earlier, time ≤ now) ∧ Ordered earlier :=
  List.pairwise_cons.mp h

variable [AddCommGroup Time]

section Definitions

variable (length : Time)

/-- The window in which an event at `now` is counted, and this count. -/
def next (current : Option (Window Time)) (now : Time) : Window Time :=
  match current with
  | none => ⟨1, now⟩
  | some w => if length < now - w.since then ⟨1, now⟩ else ⟨w.count + 1, w.since⟩

def after : List Time → Option (Window Time)
  | [] => none
  | now :: earlier => some (next length (after earlier) now)

variable (limit : Nat)

/-- After these events, one at `now` is within the limit. -/
def admits (earlier : List Time) (now : Time) : Bool :=
  decide ((next length (after length earlier) now).count ≤ limit)

def admitted : List Time → List Time
  | [] => []
  | now :: earlier =>
      if admits length limit earlier now then now :: admitted earlier
      else admitted earlier

end Definitions

variable {length : Time} {limit : Nat}

/-- The next event is counted in the open window, or opens one. -/
theorem next_cases (current : Option (Window Time)) (now : Time) :
    (∃ w, current = some w ∧ now - w.since ≤ length ∧
        next length current now = ⟨w.count + 1, w.since⟩) ∨
      ((∀ w, current = some w → length < now - w.since) ∧
        next length current now = ⟨1, now⟩) := by
  cases current with
  | none => exact Or.inr ⟨nofun, rfl⟩
  | some w =>
      by_cases hover : length < now - w.since
      · refine Or.inr ⟨?_, if_pos hover⟩
        rintro _ ⟨⟩
        exact hover
      · exact Or.inl ⟨w, rfl, not_lt.mp hover, if_neg hover⟩

theorem since_mem {times : List Time} {w : Window Time}
    (h : after length times = some w) : w.since ∈ times := by
  induction times generalizing w with
  | nil => cases h
  | cons now earlier ih =>
      obtain rfl := Option.some.inj h
      rcases @next_cases _ _ _ length (after length earlier) now with
        ⟨w, hw, _, hnext⟩ | ⟨_, hnext⟩
      · have hmem := ih hw
        rw [hnext]
        exact List.mem_cons_of_mem now hmem
      · rw [hnext]
        exact List.mem_cons_self

/-- A window counts events that came after it was opened. -/
theorem count_le {times : List Time} (horder : Ordered times) {w : Window Time}
    (h : after length times = some w) :
    w.count ≤ times.countP fun time => decide (w.since ≤ time) := by
  induction times generalizing w with
  | nil => cases h
  | cons now earlier ih =>
      obtain rfl := Option.some.inj h
      obtain ⟨hnewest, hearlier⟩ := horder.of_cons
      rcases @next_cases _ _ _ length (after length earlier) now with
        ⟨w, hw, _, hnext⟩ | ⟨_, hnext⟩
      · rw [hnext]
        have hopened : w.since ≤ now := hnewest _ (since_mem hw)
        rw [List.countP_cons_of_pos (by simpa using hopened)]
        exact Nat.succ_le_succ (ih hearlier hw)
      · rw [hnext, List.countP_cons_of_pos (by simp)]
        exact Nat.succ_le_succ (Nat.zero_le _)

/-- An event that comes after fewer than `limit` others in the last `length` is
admitted. -/
theorem admits_of_few [IsOrderedAddMonoid Time] {earlier : List Time} {now : Time}
    (horder : Ordered (now :: earlier))
    (hfew : earlier.countP (fun time => decide (now - length ≤ time)) < limit) :
    admits length limit earlier now = true := by
  refine decide_eq_true ?_
  rcases @next_cases _ _ _ length (after length earlier) now with
    ⟨w, hw, hopen, hnext⟩ | ⟨_, hnext⟩
  · rw [hnext]
    have hcount := count_le horder.of_cons.2 hw
    have hrecent : earlier.countP (fun time => decide (w.since ≤ time)) ≤
        earlier.countP fun time => decide (now - length ≤ time) := by
      refine List.countP_mono_left fun time _ hsince => ?_
      simp only [decide_eq_true_eq] at hsince ⊢
      exact le_trans (sub_le_comm.mp hopen) hsince
    show w.count + 1 ≤ limit
    omega
  · rw [hnext]
    exact Nat.one_le_of_lt hfew

/-! ## In an interval of the length of a window -/

section Interval

variable (length limit)

/-- How many events of an interval were admitted. -/
def admittedFrom (start : Time) (times : List Time) : Nat :=
  (admitted length limit times).countP fun time =>
    decide (start ≤ time ∧ time ≤ start + length)

theorem admittedFrom_cons_le (start now : Time) (earlier : List Time) :
    admittedFrom length limit start (now :: earlier) ≤
      admittedFrom length limit start earlier +
        if (next length (after length earlier) now).count ≤ limit then 1 else 0 := by
  unfold admittedFrom
  rw [admitted]
  split
  · rename_i hadmits
    rw [if_pos (of_decide_eq_true hadmits), List.countP_cons]
    split <;> omega
  · exact Nat.le_add_right _ _

variable {length limit}

theorem admitted_sublist (times : List Time) :
    (admitted length limit times).Sublist times := by
  induction times with
  | nil => exact List.Sublist.refl _
  | cons now earlier ih =>
      unfold admitted
      split
      · exact ih.cons_cons now
      · exact ih.cons now

/-- An event outside the interval does not matter. -/
theorem admittedFrom_cons_of_outside {start now : Time}
    (houtside : start ≤ now → start + length < now) (earlier : List Time) :
    admittedFrom length limit start (now :: earlier) =
      admittedFrom length limit start earlier := by
  unfold admittedFrom
  rw [admitted]
  split
  · rw [List.countP_cons_of_neg]
    simpa using houtside
  · rfl

theorem admittedFrom_eq_zero {start : Time} {times : List Time}
    (h : ∀ time ∈ times, time < start) : admittedFrom length limit start times = 0 := by
  refine List.countP_eq_zero.mpr fun time htime => ?_
  have hearly := h time ((admitted_sublist times).subset htime)
  simp [not_le.mpr hearly]

/-- What the open window says about the events admitted in an interval.  The three
cases are a window opened before the interval, in it, and after it. -/
structure InsideBound (length : Time) (limit : Nat) (start : Time) (w : Window Time)
    (total : Nat) : Prop where
  before : w.since < start → total ≤ min w.count limit
  inside : start ≤ w.since → w.since ≤ start + length →
    total ≤ limit + min w.count limit
  behind : start + length < w.since → total ≤ 2 * limit

theorem InsideBound.total_le {start : Time} {w : Window Time} {total : Nat}
    (h : InsideBound length limit start w total) : total ≤ 2 * limit := by
  rcases lt_or_ge w.since start with hbefore | hstart
  · have htotal := h.before hbefore
    omega
  · rcases le_or_gt w.since (start + length) with hinside | hbehind
    · have htotal := h.inside hstart hinside
      omega
    · exact h.behind hbehind

/-- One more event in the open window. -/
theorem InsideBound.count {start : Time} {earlier : List Time} {w : Window Time}
    (h : InsideBound length limit start w (admittedFrom length limit start earlier))
    {now : Time} (hopened : w.since ≤ now)
    (hnext : next length (after length earlier) now = ⟨w.count + 1, w.since⟩) :
    InsideBound length limit start ⟨w.count + 1, w.since⟩
      (admittedFrom length limit start (now :: earlier)) := by
  have hmore := admittedFrom_cons_le length limit start now earlier
  rw [hnext] at hmore
  dsimp only at hmore
  refine ⟨fun hbefore => ?_, fun hstart hinside => ?_, fun hbehind => ?_⟩
  · have htotal := h.before hbefore
    show _ ≤ min (w.count + 1) limit
    split at hmore <;> omega
  · have htotal := h.inside hstart hinside
    show _ ≤ limit + min (w.count + 1) limit
    split at hmore <;> omega
  · have houtside : start + length < now := lt_of_lt_of_le hbehind hopened
    rw [admittedFrom_cons_of_outside fun _ => houtside]
    exact h.behind hbehind

variable [IsOrderedAddMonoid Time]

/-- An event that opens a window: no window opened in the interval can be over
before the interval is. -/
theorem InsideBound.opened {start : Time} {earlier : List Time} {now : Time}
    (hnewest : ∀ time ∈ earlier, time ≤ now)
    (hover : ∀ w, after length earlier = some w → length < now - w.since)
    (hnext : next length (after length earlier) now = ⟨1, now⟩)
    (h : ∀ w, after length earlier = some w →
      InsideBound length limit start w (admittedFrom length limit start earlier)) :
    InsideBound length limit start ⟨1, now⟩
      (admittedFrom length limit start (now :: earlier)) := by
  have hmore := admittedFrom_cons_le length limit start now earlier
  rw [hnext] at hmore
  dsimp only at hmore
  refine ⟨fun hbefore => ?_, fun _ hinside => ?_, fun hbehind => ?_⟩
  · rw [admittedFrom_eq_zero]
    · exact Nat.zero_le _
    · refine List.forall_mem_cons.mpr ⟨hbefore, fun time htime => ?_⟩
      exact lt_of_le_of_lt (hnewest time htime) hbefore
  · have hearlier : admittedFrom length limit start earlier ≤ limit := by
      cases hafter : after length earlier with
      | none =>
          cases earlier with
          | nil => exact Nat.zero_le _
          | cons _ _ => cases hafter
      | some w =>
          have hsince : w.since < start := by
            have hlate := lt_sub_iff_add_lt'.mp (hover w hafter)
            exact lt_of_add_lt_add_right (lt_of_lt_of_le hlate hinside)
          have htotal := (h w hafter).before hsince
          omega
    show _ ≤ limit + min 1 limit
    split at hmore <;> omega
  · rw [admittedFrom_cons_of_outside fun _ => hbehind]
    cases hafter : after length earlier with
    | none =>
        cases earlier with
        | nil => exact Nat.zero_le _
        | cons _ _ => cases hafter
    | some w => exact (h w hafter).total_le

theorem insideBound (start : Time) {times : List Time} (horder : Ordered times)
    {w : Window Time} (h : after length times = some w) :
    InsideBound length limit start w (admittedFrom length limit start times) := by
  induction times generalizing w with
  | nil => cases h
  | cons now earlier ih =>
      obtain rfl := Option.some.inj h
      obtain ⟨hnewest, hearlier⟩ := horder.of_cons
      rcases @next_cases _ _ _ length (after length earlier) now with
        ⟨w, hw, _, hnext⟩ | ⟨hover, hnext⟩
      · have hcount := (ih hearlier hw).count (hnewest _ (since_mem hw)) hnext
        rw [← hnext] at hcount
        exact hcount
      · have hopened := InsideBound.opened hnewest hover hnext fun w hw => ih hearlier hw
        rw [← hnext] at hopened
        exact hopened

/-- An interval of the length of a window admits at most twice the limit. -/
theorem admitted_le_twice (start : Time) {times : List Time} (horder : Ordered times) :
    admittedFrom length limit start times ≤ 2 * limit := by
  cases times with
  | nil => exact Nat.zero_le _
  | cons now earlier => exact (insideBound start horder rfl).total_le

end Interval

end Window
end Library
end Paystream
