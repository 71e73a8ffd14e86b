import Mathlib.Tactic
import Mathlib.Data.List.FinRange
import Mathlib.Data.List.Perm.Subperm

/-!
# A table that skips conflicting rows

Rows are appended to a table unless their key is there already; a row without a
key never conflicts.  The rows to be written arrive in any order and some of them
several times.

`written_perm_iff` says when the table ends with exactly one row for each of
them: the keys are pairwise distinct, and every row without a key arrived once.
-/

namespace Paystream
namespace Library

variable {Row Key : Type} [DecidableEq Key] (key : Row → Option Key)

/-- The row has a key that is in the table. -/
def conflicts (rows : List Row) (row : Row) : Prop :=
  key row ≠ none ∧ key row ∈ rows.map key

instance (rows : List Row) (row : Row) : Decidable (conflicts key rows row) :=
  inferInstanceAs (Decidable (key row ≠ none ∧ key row ∈ rows.map key))

/-- Insert a row, and do nothing on a conflict. -/
def insertNew (rows : List Row) (row : Row) : List Row :=
  if conflicts key rows row then rows else rows ++ [row]

/-- The table after all arrivals. -/
def written (arrivals : List Row) (rows : List Row) : List Row :=
  arrivals.foldl (insertNew key) rows

variable {key}

theorem insertNew_of_none {row : Row} (h : key row = none) (rows : List Row) :
    insertNew key rows row = rows ++ [row] := by
  unfold insertNew
  rw [if_neg]
  intro hconflict
  exact hconflict.1 h

/-! ## What one table keeps -/

theorem mem_written {arrivals rows : List Row} {row : Row}
    (h : row ∈ written key arrivals rows) : row ∈ rows ∨ row ∈ arrivals := by
  induction arrivals generalizing rows with
  | nil => exact Or.inl h
  | cons first later ih =>
      rcases ih h with hmem | hmem
      · unfold insertNew at hmem
        split at hmem
        · exact Or.inl hmem
        · rcases List.mem_append.mp hmem with hold | hnew
          · exact Or.inl hold
          · exact Or.inr (by simp [List.mem_singleton.mp hnew])
      · exact Or.inr (by simp [hmem])

/-- Rows without a key are all written, one for each arrival. -/
theorem filter_written (arrivals rows : List Row) :
    (written key arrivals rows).filter (fun row => decide (key row = none)) =
      rows.filter (fun row => decide (key row = none)) ++
        arrivals.filter fun row => decide (key row = none) := by
  induction arrivals generalizing rows with
  | nil => simp [written]
  | cons first later ih =>
      have hstep : written key (first :: later) rows =
          written key later (insertNew key rows first) := rfl
      rw [hstep, ih]
      cases hkey : key first with
      | none =>
          rw [insertNew_of_none hkey]
          simp [hkey, List.filter_append]
      | some k =>
          unfold insertNew
          split
          · simp [hkey]
          · simp [hkey, List.filter_append]

theorem nodup_keys_insertNew {rows : List Row} (h : (rows.filterMap key).Nodup)
    (row : Row) : ((insertNew key rows row).filterMap key).Nodup := by
  unfold insertNew
  split
  · exact h
  · rename_i hfree
    cases hkey : key row with
    | none => simpa [List.filterMap_append, hkey] using h
    | some k =>
        rw [List.filterMap_append]
        simp only [List.filterMap_cons, hkey, List.filterMap_nil]
        refine h.append (List.nodup_singleton k) ?_
        rw [List.disjoint_singleton]
        intro hmem
        obtain ⟨other, hother, hsame⟩ := List.mem_filterMap.mp hmem
        apply hfree
        refine ⟨by simp [hkey], ?_⟩
        rw [hkey, ← hsame]
        exact List.mem_map_of_mem hother

theorem nodup_keys_written {rows : List Row} (h : (rows.filterMap key).Nodup)
    (arrivals : List Row) : ((written key arrivals rows).filterMap key).Nodup := by
  induction arrivals generalizing rows with
  | nil => exact h
  | cons first later ih => exact ih (nodup_keys_insertNew h first)

theorem mem_keys_written_of_mem {rows : List Row} {k : Key}
    (h : some k ∈ rows.map key) (arrivals : List Row) :
    some k ∈ (written key arrivals rows).map key := by
  induction arrivals generalizing rows with
  | nil => exact h
  | cons first later ih =>
      apply ih
      unfold insertNew
      split
      · exact h
      · rw [List.map_append]
        exact List.mem_append_left _ h

/-- A key that arrived is in the table. -/
theorem mem_keys_written {arrivals rows : List Row} {row : Row} {k : Key}
    (hrow : row ∈ arrivals) (hkey : key row = some k) :
    some k ∈ (written key arrivals rows).map key := by
  induction arrivals generalizing rows with
  | nil => cases hrow
  | cons first later ih =>
      rcases List.mem_cons.mp hrow with rfl | hlater
      · show some k ∈ (written key later (insertNew key rows row)).map key
        apply mem_keys_written_of_mem
        unfold insertNew
        split
        · rename_i hconflict
          rw [← hkey]
          exact hconflict.2
        · simp [hkey]
      · exact ih hlater

/-! ## One row for each -/

section Arrivals

variable {n : Nat} {emitted : Fin n → Row} {arrivals : List (Fin n)}

theorem ofFn_filter_eq_map (test : Row → Bool) :
    (List.ofFn emitted).filter test =
      ((List.finRange n).filter fun p => test (emitted p)).map emitted := by
  rw [List.ofFn_eq_map, List.filter_map]
  rfl

omit [DecidableEq Key] in
/-- In an enumeration of places, the keys are distinct when different places have
different ones. -/
theorem nodup_keys_ofFn_iff :
    ((List.ofFn emitted).filterMap key).Nodup ↔
      ∀ p q k, key (emitted p) = some k → key (emitted q) = some k → p = q := by
  have hmap : (List.ofFn emitted).filterMap key =
      (List.finRange n).filterMap fun p => key (emitted p) := by
    rw [List.ofFn_eq_map, List.filterMap_map]
    rfl
  rw [hmap, List.Nodup, List.pairwise_filterMap]
  constructor
  · intro hpairwise p q k hp hq
    by_contra hne
    have hsymm : Std.Symm fun p q : Fin n =>
        ∀ k, key (emitted p) = some k → ∀ k', key (emitted q) = some k' → k ≠ k' :=
      ⟨fun p q h k hk k' hk' => (h k' hk' k hk).symm⟩
    exact hpairwise.forall (List.mem_finRange p) (List.mem_finRange q) hne k hp k hq
      rfl
  · intro hinj
    refine (List.nodup_finRange n).imp ?_
    intro p q hne k hk k' hk' hsame
    subst hsame
    exact hne (hinj p q k hk hk')

/-- Rows without a key: as many arrived as there are places exactly when each
place arrived once. -/
theorem filter_perm_iff (hall : ∀ p, p ∈ arrivals) (test : Fin n → Bool) :
    (arrivals.filter test).length = ((List.finRange n).filter test).length ↔
      ∀ p, test p = true → arrivals.count p = 1 := by
  have hnodup : ((List.finRange n).filter test).Nodup :=
    (List.nodup_finRange n).filter _
  have hsubset : (List.finRange n).filter test ⊆ arrivals.filter test := by
    intro p hp
    rw [List.mem_filter] at hp ⊢
    exact ⟨hall p, hp.2⟩
  constructor
  · intro hlength p hp
    have hperm : ((List.finRange n).filter test).Perm (arrivals.filter test) :=
      (List.subperm_of_subset hnodup hsubset).perm_of_length_le hlength.le
    have hcount := hperm.count_eq p
    have hplace : p ∈ (List.finRange n).filter test := by
      rw [List.mem_filter]
      exact ⟨List.mem_finRange p, hp⟩
    rw [List.count_eq_one_of_mem hnodup hplace, List.count_filter hp] at hcount
    exact hcount.symm
  · intro honce
    have hnodup' : (arrivals.filter test).Nodup := by
      rw [List.nodup_iff_count_le_one]
      intro p
      by_cases hp : test p = true
      · rw [List.count_filter hp, honce p hp]
      · have habsent : p ∉ arrivals.filter test := by
          rw [List.mem_filter]
          simp [hp]
        rw [List.count_eq_zero.mpr habsent]
        exact Nat.zero_le 1
    have hperm : ((List.finRange n).filter test).Perm (arrivals.filter test) := by
      rw [List.perm_ext_iff_of_nodup hnodup hnodup']
      intro p
      simp [hall p]
    exact hperm.length_eq.symm

/-- The rows without a key are those of the arrivals without one. -/
theorem unkeyed_written :
    (written key (arrivals.map emitted) []).filter
        (fun row => decide (key row = none)) =
      (arrivals.filter fun p => decide (key (emitted p) = none)).map emitted := by
  rw [filter_written, List.filter_nil, List.nil_append, List.filter_map]
  rfl

omit [DecidableEq Key] in
/-- Rows with distinct keys are distinct. -/
theorem nodup_keyed {rows : List Row} (h : (rows.filterMap key).Nodup) :
    (rows.filter fun row => decide (key row ≠ none)).Nodup := by
  rw [List.Nodup, List.pairwise_filterMap] at h
  refine List.pairwise_filter.mpr (h.imp ?_)
  rintro row other hdiffer hrow _ rfl
  obtain ⟨k, hk⟩ := Option.ne_none_iff_exists'.mp (of_decide_eq_true hrow)
  exact hdiffer k hk k hk rfl

/-- The rows with a key: both sides are enumerations without repetition. -/
theorem keyed_perm (hall : ∀ p, p ∈ arrivals)
    (hkeys : ∀ p q k, key (emitted p) = some k → key (emitted q) = some k → p = q) :
    ((written key (arrivals.map emitted) []).filter
        fun row => decide (key row ≠ none)).Perm
      ((List.ofFn emitted).filter fun row => decide (key row ≠ none)) := by
  rw [List.perm_ext_iff_of_nodup (nodup_keyed (nodup_keys_written (by simp) _))
    (nodup_keyed (nodup_keys_ofFn_iff.mpr hkeys))]
  intro row
  simp only [List.mem_filter, decide_eq_true_eq]
  refine and_congr_left ?_
  intro hrow
  rw [List.mem_ofFn]
  constructor
  · intro hmem
    rcases mem_written hmem with hnone | harrived
    · cases hnone
    · obtain ⟨p, _, hp⟩ := List.mem_map.mp harrived
      exact ⟨p, hp⟩
  · rintro ⟨p, rfl⟩
    obtain ⟨k, hk⟩ := Option.ne_none_iff_exists'.mp hrow
    have hpresent : some k ∈ (written key (arrivals.map emitted) []).map key :=
      mem_keys_written (List.mem_map_of_mem (hall p)) hk
    obtain ⟨other, hother, hsame⟩ := List.mem_map.mp hpresent
    -- the row that is there came from the only place with this key
    rcases mem_written hother with hnone | harrived
    · cases hnone
    · obtain ⟨q, _, rfl⟩ := List.mem_map.mp harrived
      rw [hkeys p q k hk hsame]
      exact hother

/-- The rows without a key, where each of their places arrived once. -/
theorem unkeyed_perm (hall : ∀ p, p ∈ arrivals)
    (honce : ∀ p, key (emitted p) = none → arrivals.count p = 1) :
    ((written key (arrivals.map emitted) []).filter
        fun row => decide (key row = none)).Perm
      ((List.ofFn emitted).filter fun row => decide (key row = none)) := by
  have hlength := (filter_perm_iff hall fun p => decide (key (emitted p) = none)).mpr
    fun p hp => honce p (of_decide_eq_true hp)
  rw [unkeyed_written, ofFn_filter_eq_map]
  apply List.Perm.map
  refine ((List.subperm_of_subset ((List.nodup_finRange n).filter _)
    ?_).perm_of_length_le hlength.le).symm
  intro p hp
  rw [List.mem_filter] at hp ⊢
  exact ⟨hall p, hp.2⟩

/-- The table holds exactly one row for each place exactly when no two places
share a key and every place without a key arrived once. -/
theorem written_perm_iff (hall : ∀ p, p ∈ arrivals) :
    (written key (arrivals.map emitted) []).Perm (List.ofFn emitted) ↔
      (∀ p q k, key (emitted p) = some k → key (emitted q) = some k → p = q) ∧
        ∀ p, key (emitted p) = none → arrivals.count p = 1 := by
  constructor
  · intro hperm
    constructor
    · rw [← nodup_keys_ofFn_iff]
      exact (hperm.filterMap key).nodup_iff.mp (nodup_keys_written (by simp) _)
    · have honce := filter_perm_iff hall fun p => decide (key (emitted p) = none)
      simp only [decide_eq_true_eq] at honce
      rw [← honce]
      have hlength := (hperm.filter fun row => decide (key row = none)).length_eq
      rw [unkeyed_written, ofFn_filter_eq_map, List.length_map,
        List.length_map] at hlength
      exact hlength
  · rintro ⟨hkeys, honce⟩
    have hparts := (unkeyed_perm hall honce).append (keyed_perm hall hkeys)
    simp only [ne_eq, decide_not] at hparts
    exact ((List.filter_append_perm _ _).symm.trans hparts).trans
      (List.filter_append_perm _ _)

end Arrivals

end Library
end Paystream
