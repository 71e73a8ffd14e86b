import Mathlib.Tactic
import Mathlib.Order.Interval.Finset.Nat

/-!
# Logs of opening and closing events

A log keeps, oldest first, the events that open and close an interval in turn.

* `Alternating` says that they do take turns;
* `isOpen` says whether the last event opened an interval that is still open;
* `closedAfter` adds up the lengths of the intervals that were closed after a
  given time, reading the log two events at a time;
* `openSeconds` counts the seconds of a window during which the log is open, and
  `closedSeconds` the others;
* `openTime` measures the open part of a window whose ends need not be whole
  seconds; where they are it is `openSeconds` (`openTime_natCast`).

The lemmas follow a log that grows at its end: an opening event changes no
length, a closing one adds its interval.
-/

namespace Paystream
namespace Library

variable {Event : Type}

/-- The events open and close in turn, the first one as `first` says. -/
def Alternating (opens : Event → Bool) : Bool → List Event → Prop
  | _, [] => True
  | first, event :: later =>
      opens event = first ∧ Alternating opens (!first) later

/-- The last event opened an interval. -/
def isOpen (opens : Event → Bool) (log : List Event) : Bool :=
  match log.getLast? with
  | some event => opens event
  | none => false

/-- The total length of the intervals closed after `t`. -/
def closedAfter (time : Event → Nat) (t : Nat) : List Event → Nat
  | opening :: closing :: later =>
      (if t < time closing then time closing - time opening else 0) +
        closedAfter time t later
  | _ => 0

@[simp] theorem isOpen_append_singleton (opens : Event → Bool)
    (log : List Event) (event : Event) :
    isOpen opens (log ++ [event]) = opens event := by
  simp [isOpen]

/-- An alternating log that starts with an opening event is open when its length
is odd. -/
theorem Alternating.isOpen_eq {opens : Event → Bool} {log : List Event}
    (h : Alternating opens true log) :
    isOpen opens log = decide (log.length % 2 = 1) := by
  match log, h with
  | [], _ => rfl
  | [event], h => exact h.1
  | opening :: closing :: later, h =>
      have hrest : Alternating opens true later := h.2.2
      cases later with
      | nil => simpa [isOpen] using h.2.1
      | cons event later =>
          have hlast : isOpen opens (opening :: closing :: event :: later) =
              isOpen opens (event :: later) := by
            simp [isOpen, List.getLast?_cons_cons]
          rw [hlast, hrest.isOpen_eq]
          simp only [List.length_cons, decide_eq_decide]
          omega

/-- One more event, of the other kind than the last one. -/
theorem Alternating.push {opens : Event → Bool} {log : List Event}
    (h : Alternating opens true log) {event : Event}
    (hevent : opens event = !isOpen opens log) :
    Alternating opens true (log ++ [event]) := by
  rw [h.isOpen_eq] at hevent
  induction log using List.twoStepInduction with
  | nil => exact ⟨hevent, trivial⟩
  | singleton opening => exact ⟨h.1, hevent, trivial⟩
  | cons_cons opening closing later ih _ =>
      refine ⟨h.1, h.2.1, ih h.2.2 ?_⟩
      rw [hevent]
      simp only [List.length_cons, Bool.not_inj_iff, decide_eq_decide]
      omega

/-- A log of complete intervals does not read into what follows it. -/
theorem closedAfter_append (time : Event → Nat) (t : Nat) {log : List Event}
    (heven : log.length % 2 = 0) (later : List Event) :
    closedAfter time t (log ++ later) =
      closedAfter time t log + closedAfter time t later := by
  induction log using List.twoStepInduction with
  | nil => simp [closedAfter]
  | singleton event => simp at heven
  | cons_cons opening closing rest ih _ =>
      simp only [List.length_cons] at heven
      have hrest := ih (by omega)
      simp only [List.cons_append, closedAfter, hrest]
      omega

/-- Nothing was closed after a time that all events precede. -/
theorem closedAfter_eq_zero {time : Event → Nat} {t : Nat} {log : List Event}
    (h : ∀ event ∈ log, time event ≤ t) : closedAfter time t log = 0 := by
  induction log using List.twoStepInduction with
  | nil => rfl
  | singleton event => rfl
  | cons_cons opening closing later ih _ =>
      have hclosing : ¬ t < time closing := by
        have := h closing (by simp)
        omega
      have hlater := ih (fun event hevent => h event (by simp [hevent]))
      simp only [closedAfter, if_neg hclosing, hlater]

section Growth

variable {time : Event → Nat} {opens : Event → Bool} {log : List Event}

/-- An opening event closes nothing. -/
theorem closedAfter_open (halternating : Alternating opens true log)
    (hclosed : isOpen opens log = false) (t : Nat) (event : Event) :
    closedAfter time t (log ++ [event]) = closedAfter time t log := by
  rw [halternating.isOpen_eq, decide_eq_false_iff_not] at hclosed
  rw [closedAfter_append time t (by omega)]
  rfl

/-- A closing event adds its interval, if it comes after `t`. -/
theorem closedAfter_close (halternating : Alternating opens true log)
    (hopen : isOpen opens log = true) {opening : Event}
    (hlast : log.getLast? = some opening) (t : Nat) (closing : Event) :
    closedAfter time t (log ++ [closing]) = closedAfter time t log +
      if t < time closing then time closing - time opening else 0 := by
  rw [halternating.isOpen_eq, decide_eq_true_eq] at hopen
  obtain ⟨before, rfl⟩ := List.getLast?_eq_some_iff.mp hlast
  rw [List.length_append, List.length_singleton] at hopen
  have heven : before.length % 2 = 0 := by omega
  rw [List.append_assoc, closedAfter_append time t heven,
    closedAfter_append time t heven [opening]]
  simp [closedAfter]

end Growth

/-! ## Open seconds of a window -/

/-- The log is open at `t`: the last event up to then opened an interval. -/
def openAt (time : Event → Nat) (opens : Event → Bool) (log : List Event)
    (t : Nat) : Bool :=
  isOpen opens (log.filter fun event => decide (time event ≤ t))

/-- How many seconds from `first` up to `last`, itself not counted, the log is
open. -/
def openSeconds (time : Event → Nat) (opens : Event → Bool) (log : List Event)
    (first last : Nat) : Nat :=
  ((Finset.Ico first last).filter fun t => openAt time opens log t = true).card

/-- How many of these seconds it is not open. -/
def closedSeconds (time : Event → Nat) (opens : Event → Bool)
    (log : List Event) (first last : Nat) : Nat :=
  ((Finset.Ico first last).filter fun t => openAt time opens log t = false).card

section Window

variable {time : Event → Nat} {opens : Event → Bool}

@[simp] theorem openSeconds_nil (first last : Nat) :
    openSeconds time opens [] first last = 0 := by
  simp [openSeconds, openAt, isOpen]

theorem openSeconds_le (log : List Event) (first last : Nat) :
    openSeconds time opens log first last ≤ last - first := by
  have hle := Finset.card_filter_le (Finset.Ico first last)
    (fun t => openAt time opens log t = true)
  rw [Nat.card_Ico] at hle
  exact hle

/-- Nothing happens before the first event of an ordered log. -/
theorem openAt_eq_false_of_lt {log : List Event} {t : Nat}
    (h : ∀ event ∈ log, t < time event) : openAt time opens log t = false := by
  have hnone : log.filter (fun event => decide (time event ≤ t)) = [] := by
    rw [List.filter_eq_nil_iff]
    intro event hevent
    have := h event hevent
    simp only [decide_eq_true_eq]
    omega
  unfold openAt
  rw [hnone]
  rfl

theorem openAt_singleton {opening : Event} (hopens : opens opening = true)
    (t : Nat) :
    openAt time opens [opening] t = true ↔ time opening ≤ t := by
  by_cases hbefore : time opening ≤ t
  · simp [openAt, isOpen, hbefore, hopens]
  · simp [openAt, isOpen, hbefore]

/-- A log that starts with an interval is open inside it, and where the rest of
the log is. -/
theorem openAt_cons_cons {opening closing : Event} {later : List Event}
    (halternating : Alternating opens true (opening :: closing :: later))
    (hordered : ((opening :: closing :: later).map time).Pairwise (· ≤ ·))
    (t : Nat) :
    openAt time opens (opening :: closing :: later) t = true ↔
      (time opening ≤ t ∧ t < time closing) ∨
        (time closing ≤ t ∧ openAt time opens later t = true) := by
  simp only [List.map_cons, List.pairwise_cons, List.mem_cons, List.mem_map,
    forall_eq_or_imp, forall_exists_index, and_imp,
    forall_apply_eq_imp_iff₂] at hordered
  obtain ⟨⟨hpair, _⟩, hrest, _⟩ := hordered
  obtain ⟨hopens, hcloses, _⟩ := halternating
  by_cases hclosed : time closing ≤ t
  · -- the interval is over, and says nothing about what follows
    have hopened : time opening ≤ t := hpair.trans hclosed
    have hstill : ¬ t < time closing := by omega
    unfold openAt
    rw [List.filter_cons_of_pos (by simpa using hopened),
      List.filter_cons_of_pos (by simpa using hclosed)]
    cases hlater : later.filter (fun event => decide (time event ≤ t)) with
    | nil => simp [isOpen, hcloses, hstill]
    | cons event rest =>
        simp [isOpen, hclosed, hstill, List.getLast?_cons_cons]
  · have hnone : later.filter (fun event => decide (time event ≤ t)) = [] := by
      rw [List.filter_eq_nil_iff]
      intro event hevent
      have := hrest event hevent
      simp only [decide_eq_true_eq]
      omega
    unfold openAt
    rw [List.filter_cons, List.filter_cons_of_neg (by simpa using hclosed), hnone]
    by_cases hopened : time opening ≤ t
    · have hinside : t < time closing := by omega
      simp [isOpen, hopened, hopens, hinside]
    · simp [isOpen, hopened, hclosed]

/-- The part of a window inside one interval. -/
theorem card_filter_Ico (first last opened closed : Nat) :
    ((Finset.Ico first last).filter fun t => opened ≤ t ∧ t < closed).card =
      min closed last - max opened first := by
  have hset : (Finset.Ico first last).filter (fun t => opened ≤ t ∧ t < closed) =
      Finset.Ico (max opened first) (min closed last) := by
    ext t
    simp only [Finset.mem_filter, Finset.mem_Ico]
    omega
  rw [hset, Nat.card_Ico]

theorem openSeconds_singleton {opening : Event} (hopens : opens opening = true)
    (first last : Nat) :
    openSeconds time opens [opening] first last =
      last - max (time opening) first := by
  have hset : (Finset.Ico first last).filter
      (fun t => openAt time opens [opening] t = true) =
        Finset.Ico (max (time opening) first) last := by
    ext t
    simp only [Finset.mem_filter, Finset.mem_Ico, openAt_singleton hopens]
    omega
  unfold openSeconds
  rw [hset, Nat.card_Ico]

theorem openSeconds_cons_cons {opening closing : Event} {later : List Event}
    (halternating : Alternating opens true (opening :: closing :: later))
    (hordered : ((opening :: closing :: later).map time).Pairwise (· ≤ ·))
    (first last : Nat) :
    openSeconds time opens (opening :: closing :: later) first last =
      (min (time closing) last - max (time opening) first) +
        openSeconds time opens later first last := by
  have hlater : ∀ t, openAt time opens later t = true → time closing ≤ t := by
    intro t hopen
    by_contra hbefore
    have hrest : ∀ event ∈ later, t < time event := by
      intro event hevent
      simp only [List.map_cons, List.pairwise_cons, List.mem_map] at hordered
      have := hordered.2.1 (time event) ⟨event, hevent, rfl⟩
      omega
    rw [openAt_eq_false_of_lt hrest] at hopen
    cases hopen
  -- the interval and the rest of the log are open at different times
  have hsplit : (Finset.Ico first last).filter
      (fun t => openAt time opens (opening :: closing :: later) t = true) =
        (Finset.Ico first last).filter
            (fun t => time opening ≤ t ∧ t < time closing) ∪
          (Finset.Ico first last).filter
            (fun t => openAt time opens later t = true) := by
    ext t
    have := hlater t
    simp only [Finset.mem_union, Finset.mem_filter,
      openAt_cons_cons halternating hordered]
    tauto
  have hdisjoint : Disjoint
      ((Finset.Ico first last).filter
        (fun t => time opening ≤ t ∧ t < time closing))
      ((Finset.Ico first last).filter
        (fun t => openAt time opens later t = true)) := by
    rw [Finset.disjoint_left]
    intro t hinside hopen
    have := hlater t (Finset.mem_filter.mp hopen).2
    have := (Finset.mem_filter.mp hinside).2.2
    omega
  unfold openSeconds
  rw [hsplit, Finset.card_union_of_disjoint hdisjoint, card_filter_Ico]

theorem openSeconds_add_closedSeconds (log : List Event) (first last : Nat) :
    openSeconds time opens log first last +
      closedSeconds time opens log first last = last - first := by
  have hsplit := Finset.card_filter_add_card_filter_not (s := Finset.Ico first last)
    (fun t => openAt time opens log t = true)
  simp only [Bool.not_eq_true, Nat.card_Ico] at hsplit
  exact hsplit

end Window

/-! ## Open time of a window -/

section Measure

variable {α : Type} [CommRing α] [LinearOrder α]

/-- How much of the time from `first` to `last` lies between an opening event and
the closing one that follows it. -/
def openTime (time : Event → α) : List Event → α → α → α
  | [], _, _ => 0
  | [opening], first, last => max 0 (last - max (time opening) first)
  | opening :: closing :: later, first, last =>
      max 0 (min (time closing) last - max (time opening) first) +
        openTime time later first last

/-- The rest of the time. -/
def closedTime (time : Event → α) (log : List Event) (first last : α) : α :=
  max 0 (last - first) - openTime time log first last

/-- The events may be read as others that carry the same times. -/
theorem openTime_map {Other : Type} (time : Event → α) (read : Other → Event)
    (log : List Other) (first last : α) :
    openTime time (log.map read) first last =
      openTime (fun event => time (read event)) log first last := by
  induction log using List.twoStepInduction with
  | nil => rfl
  | singleton opening => rfl
  | cons_cons opening closing later ih _ =>
      simp only [List.map_cons, openTime]
      rw [ih]

/-- Only the times of the events matter. -/
theorem openTime_eq_of_map {Other : Type} {time : Event → α} {read : Other → α}
    {log : List Event} {other : List Other} (h : log.map time = other.map read)
    (first last : α) : openTime time log first last = openTime read other first last := by
  have htime := openTime_map (fun t : α => t) time log first last
  have hread := openTime_map (fun t : α => t) read other first last
  rw [← htime, h, hread]

variable [IsStrictOrderedRing α]

theorem openTime_nonneg (time : Event → α) (log : List Event) (first last : α) :
    0 ≤ openTime time log first last := by
  induction log using List.twoStepInduction with
  | nil => exact le_rfl
  | singleton opening => exact le_max_left _ _
  | cons_cons opening closing later ih _ => exact add_nonneg (le_max_left _ _) ih

variable {time : Event → α}

/-- Each interval is cut at `middle` into its parts in the two windows. -/
theorem openTime_add (log : List Event) {first middle last : α}
    (hfirst : first ≤ middle) (hlast : middle ≤ last) :
    openTime time log first last =
      openTime time log first middle + openTime time log middle last := by
  have hinterval : ∀ opened closed : α,
      max 0 (min closed last - max opened first) =
        max 0 (min closed middle - max opened first) +
          max 0 (min closed last - max opened middle) := by
    intro opened closed
    grind
  induction log using List.twoStepInduction with
  | nil => exact (add_zero 0).symm
  | singleton opening =>
      have hrest := hinterval (time opening) last
      rw [min_self, min_eq_right hlast] at hrest
      exact hrest
  | cons_cons opening closing later ih _ =>
      simp only [openTime]
      rw [ih, hinterval]
      ring

/-- The intervals of an ordered log do not overlap, so together they cover no more
than what the window has left behind the start of the first. -/
theorem openTime_le_of_first {start : α} {log : List Event}
    (hordered : (start :: log.map time).Pairwise (· ≤ ·)) (first last : α) :
    openTime time log first last ≤ max 0 (last - max start first) := by
  induction log using List.twoStepInduction generalizing start with
  | nil => exact le_max_left _ _
  | singleton opening =>
      simp only [List.map_cons, List.map_nil, List.pairwise_cons, List.mem_cons] at hordered
      have hstart := hordered.1 _ (Or.inl rfl)
      exact max_le_max le_rfl (sub_le_sub_left (max_le_max hstart le_rfl) _)
  | cons_cons opening closing later ih _ =>
      rw [List.map_cons, List.map_cons, List.pairwise_cons, List.pairwise_cons] at hordered
      obtain ⟨hfirst, hopening, hlater⟩ := hordered
      have hstart := hfirst _ (List.mem_cons_self ..)
      have hpair := hopening _ (List.mem_cons_self ..)
      have hrest := ih hlater
      simp only [openTime]
      grind

theorem openTime_le {log : List Event} (hordered : (log.map time).Pairwise (· ≤ ·))
    {first last : α} (hwindow : first ≤ last) :
    openTime time log first last ≤ last - first := by
  cases log with
  | nil => exact sub_nonneg.mpr hwindow
  | cons opening later =>
      have hfirst : ∀ t ∈ (opening :: later).map time, time opening ≤ t := by
        rw [List.map_cons, List.pairwise_cons] at hordered
        intro t ht
        rcases List.mem_cons.mp ht with rfl | hlater
        · exact le_rfl
        · exact hordered.1 t hlater
      refine (openTime_le_of_first (List.pairwise_cons.mpr ⟨hfirst, hordered⟩) first
        last).trans (max_le (sub_nonneg.mpr hwindow) ?_)
      exact sub_le_sub_left (le_max_right _ _) _

theorem openTime_eq_zero (log : List Event) {first last : α} (h : last ≤ first) :
    openTime time log first last = 0 := by
  have hinterval : ∀ opened closed : α,
      max 0 (min closed last - max opened first) = 0 := by
    intro opened closed
    grind
  induction log using List.twoStepInduction with
  | nil => rfl
  | singleton opening =>
      have hnone := hinterval (time opening) last
      rwa [min_self] at hnone
  | cons_cons opening closing later ih _ =>
      simp only [openTime]
      rw [ih, hinterval, add_zero]

theorem closedTime_nonneg {log : List Event}
    (hordered : (log.map time).Pairwise (· ≤ ·)) (first last : α) :
    0 ≤ closedTime time log first last := by
  unfold closedTime
  rcases le_total first last with hwindow | hempty
  · have hle := openTime_le hordered hwindow
    rw [max_eq_right (sub_nonneg.mpr hwindow)]
    exact sub_nonneg.mpr hle
  · rw [openTime_eq_zero log hempty, sub_zero]
    exact le_max_left _ _

theorem closedTime_le (time : Event → α) (log : List Event) {first last : α}
    (hwindow : first ≤ last) : closedTime time log first last ≤ last - first := by
  unfold closedTime
  rw [max_eq_right (sub_nonneg.mpr hwindow)]
  exact sub_le_self _ (openTime_nonneg time log first last)

theorem closedTime_eq_zero (log : List Event) {first last : α} (h : last ≤ first) :
    closedTime time log first last = 0 := by
  unfold closedTime
  rw [openTime_eq_zero log h, max_eq_left (sub_nonpos.mpr h), sub_zero]

/-- The closed time of two windows, one after the other. -/
theorem closedTime_add (log : List Event) {first middle last : α}
    (hfirst : first ≤ middle) (hlast : middle ≤ last) :
    closedTime time log first last =
      closedTime time log first middle + closedTime time log middle last := by
  unfold closedTime
  rw [openTime_add log hfirst hlast, max_eq_right (sub_nonneg.mpr (hfirst.trans hlast)),
    max_eq_right (sub_nonneg.mpr hfirst), max_eq_right (sub_nonneg.mpr hlast)]
  ring

theorem openTime_intCast (time : Event → ℤ) (log : List Event) (first last : ℤ) :
    openTime (fun event => (time event : α)) log first last =
      (openTime time log first last : ℤ) := by
  induction log using List.twoStepInduction with
  | nil => exact Int.cast_zero.symm
  | singleton opening =>
      simp only [openTime]
      push_cast
      rfl
  | cons_cons opening closing later ih _ =>
      simp only [openTime]
      rw [ih]
      push_cast
      rfl

/-- Between whole seconds the open time is the number of the open seconds. -/
theorem openTime_natCast {time : Event → Nat} {opens : Event → Bool} {log : List Event}
    (halternating : Alternating opens true log)
    (hordered : (log.map time).Pairwise (· ≤ ·)) (first last : Nat) :
    openTime (fun event => (time event : α)) log first last =
      (openSeconds time opens log first last : α) := by
  have hcast : ∀ m n : Nat, ((m - n : Nat) : α) = max 0 ((m : α) - n) := by
    intro m n
    rcases le_total n m with hle | hle
    · have hle' : (n : α) ≤ m := by exact_mod_cast hle
      rw [Nat.cast_sub hle, max_eq_right (sub_nonneg.mpr hle')]
    · have hle' : (m : α) ≤ n := by exact_mod_cast hle
      rw [Nat.sub_eq_zero_of_le hle, Nat.cast_zero, max_eq_left (sub_nonpos.mpr hle')]
  induction log using List.twoStepInduction with
  | nil =>
      rw [openSeconds_nil, Nat.cast_zero]
      rfl
  | singleton opening =>
      rw [openSeconds_singleton halternating.1, hcast, Nat.cast_max]
      rfl
  | cons_cons opening closing later ih _ =>
      have hlater : (later.map time).Pairwise (· ≤ ·) := by
        rw [List.map_cons, List.map_cons, List.pairwise_cons, List.pairwise_cons] at hordered
        exact hordered.2.2
      rw [openSeconds_cons_cons halternating hordered, Nat.cast_add, hcast, Nat.cast_max,
        Nat.cast_min, ← ih halternating.2.2 hlater]
      rfl

theorem closedTime_natCast {time : Event → Nat} {opens : Event → Bool} {log : List Event}
    (halternating : Alternating opens true log)
    (hordered : (log.map time).Pairwise (· ≤ ·)) {first last : Nat}
    (hwindow : first ≤ last) :
    closedTime (fun event => (time event : α)) log first last =
      (closedSeconds time opens log first last : α) := by
  have hall : openSeconds time opens log first last +
      closedSeconds time opens log first last = last - first :=
    openSeconds_add_closedSeconds log first last
  have hlast : last = first +
      (openSeconds time opens log first last + closedSeconds time opens log first last) := by
    omega
  have hcast : (last : α) = first + ((openSeconds time opens log first last : Nat) +
      (closedSeconds time opens log first last : Nat)) := by
    exact_mod_cast hlast
  have hle : (first : α) ≤ last := by exact_mod_cast hwindow
  unfold closedTime
  rw [openTime_natCast halternating hordered, max_eq_right (sub_nonneg.mpr hle), hcast]
  ring

end Measure

end Library
end Paystream
