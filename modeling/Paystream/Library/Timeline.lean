import Mathlib.Data.List.Nodup
import Mathlib.Tactic

/-!
# Timestamped items in a list

Items are appended at the end of a list, the list is cut to its newest items, and
items below a threshold are cleaned away.

* `latestAt` looks an item up by taking the last one that is not too late.  It
  finds the greatest timestamp (`LooksUp`) as long as no item is appended below the
  ones that stay (`looksUp_append_iff`).
* `Retains` says which of the items that were ever recorded are still there, from
  the events alone.  Recording and cleaning keep it (`Retains.record`,
  `Retains.clean`).
-/

namespace Paystream
namespace Library
namespace Timeline

variable {α τ : Type}

/-! ## Cutting -/

/-- Cut a list to its last `limit` items. -/
def newest (limit : Nat) (items : List α) : List α :=
  items.drop (items.length - limit)

theorem length_newest_le (limit : Nat) (items : List α) :
    (newest limit items).length ≤ limit := by
  unfold newest
  rw [List.length_drop]
  omega

theorem newest_suffix (limit : Nat) (items : List α) :
    newest limit items <:+ items :=
  List.drop_suffix _ _

/-! ## Recordings -/

/-- What happens to the list, in the order in which it happens. -/
inductive Event (α τ : Type)
  | recorded (item : α)
  | cleaned (threshold : τ)

/-- A recorded item, with everything that happened later.  Two recordings of equal
items differ in what happened later. -/
structure Recording (α τ : Type) where
  item : α
  later : List (Event α τ)

/-- The recordings among some events, oldest first. -/
def recordings : List (Event α τ) → List (Recording α τ)
  | [] => []
  | .recorded item :: later => ⟨item, later⟩ :: recordings later
  | .cleaned _ :: later => recordings later

/-- The recording, one event later. -/
def Recording.addLater (event : Event α τ) (r : Recording α τ) : Recording α τ :=
  ⟨r.item, r.later ++ [event]⟩

theorem recordings_append_singleton (events : List (Event α τ)) (event : Event α τ) :
    recordings (events ++ [event]) =
      (recordings events).map (Recording.addLater event) ++ recordings [event] := by
  induction events with
  | nil => rfl
  | cons first later ih =>
      cases first with
      | recorded item =>
          show Recording.mk item (later ++ [event]) :: recordings (later ++ [event]) =
            _
          rw [ih]
          rfl
      | cleaned threshold => exact ih

/-- The recordings, with a new one after them. -/
def addRecording (x : α) (rs : List (Recording α τ)) : List (Recording α τ) :=
  rs.map (Recording.addLater (.recorded x)) ++ [⟨x, []⟩]

theorem recordings_append_recorded (events : List (Event α τ)) (x : α) :
    recordings (events ++ [.recorded x]) = addRecording x (recordings events) :=
  recordings_append_singleton events (.recorded x)

theorem map_item_addRecording (x : α) (rs : List (Recording α τ)) :
    (addRecording x rs).map Recording.item = rs.map Recording.item ++ [x] := by
  unfold addRecording
  rw [List.map_append, List.map_map]
  rfl

theorem length_addRecording (x : α) (rs : List (Recording α τ)) :
    (addRecording x rs).length = rs.length + 1 := by
  simp [addRecording]

theorem addLater_injective (event : Event α τ) :
    Function.Injective (Recording.addLater event) := by
  rintro ⟨item, later⟩ ⟨item', later'⟩ h
  simp only [Recording.addLater, Recording.mk.injEq, List.append_cancel_right_eq] at h
  rw [h.1, h.2]

theorem length_later_lt {events : List (Event α τ)} {r : Recording α τ}
    (hr : r ∈ recordings events) :
    (recordings r.later).length < (recordings events).length := by
  induction events with
  | nil => cases hr
  | cons first later ih =>
      cases first with
      | recorded item =>
          rcases List.mem_cons.mp hr with rfl | hr
          · exact Nat.lt_succ_self _
          · exact (ih hr).trans (Nat.lt_succ_self _)
      | cleaned threshold => exact ih hr

/-- The later a recording, the fewer come after it. -/
theorem recordings_pairwise (events : List (Event α τ)) :
    (recordings events).Pairwise fun a b =>
      (recordings b.later).length < (recordings a.later).length := by
  induction events with
  | nil => exact .nil
  | cons first later ih =>
      cases first with
      | recorded item => exact .cons (fun r hr => length_later_lt hr) ih
      | cleaned threshold => exact ih

theorem recordings_nodup (events : List (Event α τ)) : (recordings events).Nodup := by
  refine (recordings_pairwise events).imp ?_
  intro a b hlt heq
  rw [heq] at hlt
  exact Nat.lt_irrefl _ hlt

/-- Decreasing numbers below `n`: no more than `n` of them. -/
theorem length_le_of_decreasing {β : Type} {rank : β → Nat} {items : List β} {n : Nat}
    (hpairs : items.Pairwise fun a b => rank b < rank a)
    (hbelow : ∀ x ∈ items, rank x < n) : items.length ≤ n := by
  induction items generalizing n with
  | nil => exact Nat.zero_le _
  | cons x rest ih =>
      rw [List.pairwise_cons] at hpairs
      have hrest := ih hpairs.2 hpairs.1
      have hx := hbelow x List.mem_cons_self
      rw [List.length_cons]
      omega

section Ordered

variable [LinearOrder τ] (ts : α → τ)

/-- The items that are not below the threshold. -/
def cleaned (threshold : τ) (items : List α) : List α :=
  items.filter fun x => decide (threshold ≤ ts x)

/-! ## Looking up -/

/-- The last item that is not after `bound`. -/
def latestAt (items : List α) (bound : τ) : Option α :=
  (items.filter fun x => decide (ts x ≤ bound)).getLast?

/-- What a lookup should find: the greatest of the timestamps that are not after
`bound`, and nothing when there is none. -/
def FindsLatest (items : List α) (bound : τ) (found : Option α) : Prop :=
  (found = none ↔ ∀ y ∈ items, ¬ ts y ≤ bound) ∧
    ∀ x, found = some x →
      x ∈ items ∧ ts x ≤ bound ∧ ∀ y ∈ items, ts y ≤ bound → ts y ≤ ts x

/-- Every lookup in the list finds what it should. -/
def LooksUp (items : List α) : Prop :=
  ∀ bound, FindsLatest ts items bound (latestAt ts items bound)

variable {ts}

theorem latestAt_eq_none_iff {items : List α} {bound : τ} :
    latestAt ts items bound = none ↔ ∀ y ∈ items, ¬ ts y ≤ bound := by
  simp only [latestAt, List.getLast?_eq_none_iff, List.filter_eq_nil_iff,
    decide_eq_true_eq]

theorem mem_of_latestAt {items : List α} {bound : τ} {x : α}
    (h : latestAt ts items bound = some x) : x ∈ items ∧ ts x ≤ bound := by
  have hmem := List.mem_filter.mp (List.mem_of_getLast? h)
  exact ⟨hmem.1, of_decide_eq_true hmem.2⟩

/-- What is found is never too late, so only the greatest timestamp is to show. -/
theorem looksUp_iff {items : List α} :
    LooksUp ts items ↔ ∀ bound x, latestAt ts items bound = some x →
      ∀ y ∈ items, ts y ≤ bound → ts y ≤ ts x := by
  constructor
  · intro h bound x hx
    exact ((h bound).2 x hx).2.2
  · intro h bound
    refine ⟨latestAt_eq_none_iff, ?_⟩
    intro x hx
    obtain ⟨hmem, hle⟩ := mem_of_latestAt hx
    exact ⟨hmem, hle, h bound x hx⟩

theorem looksUp_nil : LooksUp ts ([] : List α) := by
  rw [looksUp_iff]
  intro bound x hx
  cases hx

theorem latestAt_append_singleton (items : List α) (x : α) (bound : τ) :
    latestAt ts (items ++ [x]) bound =
      if ts x ≤ bound then some x else latestAt ts items bound := by
  unfold latestAt
  rw [List.filter_append, List.filter_singleton]
  split
  · next hle => simp [hle]
  · next hlt => simp [hlt]

/-- What a suffix finds, the whole list finds. -/
theorem latestAt_of_suffix {items whole : List α} (h : items <:+ whole)
    {bound : τ} {x : α} (hx : latestAt ts items bound = some x) :
    latestAt ts whole bound = some x := by
  obtain ⟨front, rfl⟩ := h
  unfold latestAt at hx ⊢
  rw [List.filter_append, List.getLast?_append, hx]
  rfl

theorem LooksUp.of_suffix {items whole : List α} (hwhole : LooksUp ts whole)
    (h : items <:+ whole) : LooksUp ts items := by
  rw [looksUp_iff] at hwhole ⊢
  intro bound x hx y hy
  exact hwhole bound x (latestAt_of_suffix h hx) y (h.subset hy)

theorem LooksUp.cleaned {items : List α} (h : LooksUp ts items) (threshold : τ) :
    LooksUp ts (cleaned ts threshold items) := by
  rw [looksUp_iff]
  intro bound x hx y hy hle
  obtain ⟨hmem, hkept⟩ := List.mem_filter.mp hy
  -- the item that the whole list finds has not been cleaned away
  cases hfound : latestAt ts items bound with
  | none => exact absurd hle (latestAt_eq_none_iff.mp hfound y hmem)
  | some z =>
      have hgreatest := ((h bound).2 z hfound).2.2
      have hyz := hgreatest y hmem hle
      have hz : threshold ≤ ts z := (of_decide_eq_true hkept).trans hyz
      have hsame : latestAt ts (Timeline.cleaned ts threshold items) bound =
          some z := by
        unfold latestAt Timeline.cleaned at *
        rw [List.filter_filter, List.filter_congr fun w _ => Bool.and_comm _ _,
          ← List.filter_filter]
        obtain ⟨front, hfront⟩ := List.getLast?_eq_some_iff.mp hfound
        rw [hfront, List.filter_append, List.filter_singleton]
        simp [hz]
      rw [hsame] at hx
      obtain rfl := Option.some.inj hx
      exact hyz

/-- A new item leaves the lookups right exactly if no item beside it is later. -/
theorem looksUp_append_iff {items : List α} (h : LooksUp ts items) (x : α) :
    LooksUp ts (items ++ [x]) ↔ ∀ y ∈ items, ts y ≤ ts x := by
  rw [looksUp_iff]
  constructor
  · intro hall y hy
    by_contra hlater
    have hlt := lt_of_not_ge hlater
    have hfound : latestAt ts (items ++ [x]) (ts y) = some x := by
      rw [latestAt_append_singleton, if_pos hlt.le]
    exact hlater (hall (ts y) x hfound y (List.mem_append_left _ hy) le_rfl)
  · intro hbelow bound z hz y hy hle
    rw [latestAt_append_singleton] at hz
    rw [List.mem_append, List.mem_singleton] at hy
    split at hz
    · obtain rfl := Option.some.inj hz
      rcases hy with hold | rfl
      · exact hbelow y hold
      · exact le_rfl
    · next hlate =>
        rcases hy with hold | rfl
        · exact looksUp_iff.mp h bound z hz y hold hle
        · exact absurd hle hlate

/-! ## What is retained -/

variable (ts)

/-- A recording that may be missing: it was cleaned away, or there were enough
newer ones. -/
def MayMiss (limit : Nat) (r : Recording α τ) : Prop :=
  (∃ threshold, Event.cleaned threshold ∈ r.later ∧ ts r.item < threshold) ∨
    limit ≤ (recordings r.later).length

/-- The list holds at most `limit` items, in the order in which they were recorded
and none of them twice, and only recordings that may be missing are missing. -/
structure Retains (limit : Nat) (events : List (Event α τ)) (items : List α) :
    Prop where
  bounded : items.length ≤ limit
  kept : ∃ kept : List (Recording α τ),
    kept.map Recording.item = items ∧ kept.Sublist (recordings events) ∧
      kept.Nodup ∧ ∀ r ∈ recordings events, r ∉ kept → MayMiss ts limit r

variable {ts}

theorem MayMiss.addLater {limit : Nat} {r : Recording α τ}
    (h : MayMiss ts limit r) (event : Event α τ) :
    MayMiss ts limit (r.addLater event) := by
  rcases h with ⟨threshold, hmem, hlt⟩ | henough
  · exact Or.inl ⟨threshold, List.mem_append_left _ hmem, hlt⟩
  · refine Or.inr (henough.trans ?_)
    show _ ≤ (recordings (r.later ++ [event])).length
    rw [recordings_append_singleton, List.length_append, List.length_map]
    exact Nat.le_add_right _ _

/-- What is cut off has enough newer recordings. -/
theorem mayMiss_of_cut {limit : Nat} {events : List (Event α τ)}
    {kept : List (Recording α τ)} (hkept : kept.Sublist (recordings events))
    {r : Recording α τ} (hr : r ∈ kept) (hcut : r ∉ newest limit kept) :
    MayMiss ts limit r := by
  unfold newest at hcut
  have hpairs := (recordings_pairwise events).sublist hkept
  rw [← List.take_append_drop (kept.length - limit) kept, List.pairwise_append]
    at hpairs
  have hfront : r ∈ kept.take (kept.length - limit) := by
    rw [← List.take_append_drop (kept.length - limit) kept, List.mem_append] at hr
    exact hr.resolve_right hcut
  have hlength : (kept.drop (kept.length - limit)).length = limit := by
    have hpos : 0 < (kept.take (kept.length - limit)).length :=
      List.length_pos_of_mem hfront
    rw [List.length_take] at hpos
    rw [List.length_drop]
    omega
  refine Or.inr ?_
  rw [← hlength]
  exact length_le_of_decreasing hpairs.2.1 (hpairs.2.2 r hfront)

theorem retains_nil (limit : Nat) : Retains ts limit [] [] where
  bounded := Nat.zero_le _
  kept := ⟨[], rfl, List.Sublist.refl _, List.nodup_nil, fun r hr => by cases hr⟩

theorem Retains.record {limit : Nat} {events : List (Event α τ)} {items : List α}
    (h : Retains ts limit events items) (x : α) :
    Retains ts limit (events ++ [.recorded x]) (newest limit (items ++ [x])) where
  bounded := length_newest_le _ _
  kept := by
    obtain ⟨kept, rfl, hsublist, _, hmissing⟩ := h.kept
    have hall := recordings_append_recorded events x
    have hsub : (addRecording x kept).Sublist (recordings (events ++ [.recorded x])) := by
      rw [hall]
      exact (hsublist.map _).append (List.Sublist.refl _)
    have hcut := (newest_suffix limit (addRecording x kept)).sublist.trans hsub
    refine ⟨newest limit (addRecording x kept), ?_, hcut,
      (recordings_nodup _).sublist hcut, ?_⟩
    · simp only [newest, List.map_drop, map_item_addRecording, length_addRecording,
        List.length_append, List.length_map, List.length_singleton]
    · intro r hr hnot
      by_cases hbefore : r ∈ addRecording x kept
      · exact mayMiss_of_cut hsub hbefore hnot
      · -- it was missing already
        unfold addRecording at hbefore
        rw [List.mem_append, not_or] at hbefore
        rw [hall, addRecording, List.mem_append] at hr
        obtain ⟨old, hold, rfl⟩ := List.mem_map.mp (hr.resolve_right hbefore.2)
        refine (hmissing old hold ?_).addLater _
        intro hkept
        exact hbefore.1 (List.mem_map_of_mem hkept)

theorem Retains.clean {limit : Nat} {events : List (Event α τ)} {items : List α}
    (h : Retains ts limit events items) (threshold : τ) :
    Retains ts limit (events ++ [.cleaned threshold])
      (cleaned ts threshold items) where
  bounded := (List.length_filter_le _ _).trans h.bounded
  kept := by
    obtain ⟨kept, rfl, hsublist, hnodup, hmissing⟩ := h.kept
    have hall : recordings (events ++ [.cleaned threshold]) =
        (recordings events).map (Recording.addLater (.cleaned threshold)) := by
      rw [recordings_append_singleton]
      exact List.append_nil _
    refine ⟨(kept.filter fun r => decide (threshold ≤ ts r.item)).map
      (Recording.addLater (.cleaned threshold)), ?_, ?_, ?_, ?_⟩
    · unfold cleaned
      rw [List.map_map, List.filter_map]
      rfl
    · rw [hall]
      exact (List.filter_sublist.trans hsublist).map _
    · exact (hnodup.filter _).map (addLater_injective _)
    · intro r hr hnot
      rw [hall] at hr
      obtain ⟨old, hold, rfl⟩ := List.mem_map.mp hr
      by_cases hkept : old ∈ kept
      · -- it was there and below the threshold
        refine Or.inl ⟨threshold, List.mem_append_right _ List.mem_cons_self, ?_⟩
        by_contra hle
        refine hnot (List.mem_map_of_mem (List.mem_filter.mpr ⟨hkept, ?_⟩))
        exact decide_eq_true (le_of_not_gt hle)
      · exact (hmissing old hold hkept).addLater _

end Ordered

end Timeline
end Library
end Paystream
