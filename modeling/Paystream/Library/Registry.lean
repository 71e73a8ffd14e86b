import Mathlib.Tactic
import Mathlib.Algebra.BigOperators.Group.Finset.Basic
import Mathlib.Order.Interval.Finset.Nat

/-!
# Registries

A registry stores records under the ids `1, 2, .., count`, handed out in
order; `Numbered` says so, and is kept when a record is overwritten or one is
stored under the next id.

`registryTotal` adds up a weight over the records it holds.  Two equations are
all a client needs to follow the total along a run: what replacing one record
changes, and what a record under the next id adds.  A total of weights that are
not negative covers each of them (`weight_le_registryTotal`).

A registry may list its ids under a key of each record.  `Indexed` says that
these lists divide the ids up, and `Indexed.extend` that they still do when new
ids are appended to the lists of their records' keys.
-/

namespace Paystream
namespace Library

variable {Record : Type}

/-! ## Ids in order -/

/-- Every record is stored under its own id, one of `1, .., count`. -/
def Numbered (idOf : Record → Nat) (records : Nat → Option Record)
    (count : Nat) : Prop :=
  ∀ id record, records id = some record →
    idOf record = id ∧ 1 ≤ id ∧ id ≤ count

section Numbered

variable {idOf : Record → Nat} {records : Nat → Option Record} {count : Nat}

theorem Numbered.empty (idOf : Record → Nat) :
    Numbered idOf (fun _ => none) 0 := by
  intro id record hrecord
  cases hrecord

/-- No id is given out twice: the next one is free. -/
theorem Numbered.next_free (h : Numbered idOf records count) :
    records (count + 1) = none := by
  cases hrecord : records (count + 1) with
  | none => rfl
  | some record =>
      have := (h (count + 1) record hrecord).2.2
      omega

theorem Numbered.overwrite (h : Numbered idOf records count) {id : Nat}
    {old new : Record} (hold : records id = some old) (hnew : idOf new = id) :
    Numbered idOf (Function.update records id (some new)) count := by
  intro other found hfound
  by_cases hother : other = id
  · subst hother
    rw [Function.update_self] at hfound
    cases hfound
    exact ⟨hnew, (h other old hold).2⟩
  · rw [Function.update_of_ne hother] at hfound
    exact h other found hfound

theorem Numbered.push (h : Numbered idOf records count) {new : Record}
    (hnew : idOf new = count + 1) :
    Numbered idOf (Function.update records (count + 1) (some new))
      (count + 1) := by
  intro other found hfound
  by_cases hother : other = count + 1
  · subst hother
    rw [Function.update_self] at hfound
    cases hfound
    exact ⟨hnew, by omega, le_rfl⟩
  · rw [Function.update_of_ne hother] at hfound
    have := h other found hfound
    omega

end Numbered

/-! ## Totals -/

/-- The sum of the weights of the records under the ids `1` to `count`. -/
def registryTotal (weight : Record → Int) (records : Nat → Option Record)
    (count : Nat) : Int :=
  ∑ id ∈ Finset.Icc 1 count, (records id).elim 0 weight

@[simp] theorem registryTotal_zero (weight : Record → Int)
    (records : Nat → Option Record) : registryTotal weight records 0 = 0 := by
  simp [registryTotal]

/-- Replacing a record changes the total by the difference of the weights. -/
theorem registryTotal_update (weight : Record → Int)
    {records : Nat → Option Record} {count id : Nat} {old : Record}
    (hlow : 1 ≤ id) (hhigh : id ≤ count) (hold : records id = some old)
    (new : Record) :
    registryTotal weight (Function.update records id (some new)) count =
      registryTotal weight records count + (weight new - weight old) := by
  have hmem : id ∈ Finset.Icc 1 count := Finset.mem_Icc.mpr ⟨hlow, hhigh⟩
  have hrest : ∑ other ∈ (Finset.Icc 1 count).erase id,
        (Function.update records id (some new) other).elim 0 weight =
      ∑ other ∈ (Finset.Icc 1 count).erase id, (records other).elim 0 weight := by
    apply Finset.sum_congr rfl
    intro other hother
    rw [Function.update_of_ne (Finset.ne_of_mem_erase hother)]
  unfold registryTotal
  rw [← Finset.add_sum_erase _ _ hmem, hrest, Function.update_self,
    ← Finset.add_sum_erase _ (fun other => (records other).elim 0 weight) hmem, hold]
  simp only [Option.elim_some]
  ring

/-- A record under the next id adds its weight. -/
theorem registryTotal_push (weight : Record → Int)
    (records : Nat → Option Record) (count : Nat) (new : Record) :
    registryTotal weight (Function.update records (count + 1) (some new))
        (count + 1) =
      registryTotal weight records count + weight new := by
  have hrest : ∑ id ∈ Finset.Icc 1 count,
        (Function.update records (count + 1) (some new) id).elim 0 weight =
      ∑ id ∈ Finset.Icc 1 count, (records id).elim 0 weight := by
    apply Finset.sum_congr rfl
    intro id hid
    have hle := (Finset.mem_Icc.mp hid).2
    rw [Function.update_of_ne (by omega)]
  unfold registryTotal
  rw [Finset.sum_Icc_succ_top (by omega), hrest, Function.update_self]
  rfl

/-- Where no weight is negative, each one is within the total. -/
theorem weight_le_registryTotal {weight : Record → Int}
    {records : Nat → Option Record} {count id : Nat} {record : Record}
    (hlow : 1 ≤ id) (hhigh : id ≤ count) (hrecord : records id = some record)
    (hnonneg : ∀ other found, records other = some found → 0 ≤ weight found) :
    weight record ≤ registryTotal weight records count := by
  have hmem : id ∈ Finset.Icc 1 count := Finset.mem_Icc.mpr ⟨hlow, hhigh⟩
  have hterm : ∀ other ∈ Finset.Icc 1 count,
      0 ≤ (records other).elim 0 weight := by
    intro other _
    cases hother : records other with
    | none => exact le_rfl
    | some found => exact hnonneg other found hother
  have hle := Finset.single_le_sum hterm hmem
  rw [hrecord] at hle
  exact hle

/-! ## Index lists -/

section Index

variable {Key : Type}

/-- The lists are strictly increasing, no id is in two of them, and together they
hold the ids from `1` to `count`. -/
structure Indexed (index : Key → List Nat) (count : Nat) : Prop where
  increasing : ∀ key, (index key).Pairwise (· < ·)
  disjoint : ∀ key other, key ≠ other → List.Disjoint (index key) (index other)
  covers : ∀ id, (∃ key, id ∈ index key) ↔ 1 ≤ id ∧ id ≤ count

theorem Indexed.empty : Indexed (fun _ : Key => []) 0 where
  increasing _ := List.Pairwise.nil
  disjoint _ _ _ := List.disjoint_nil_left _
  covers id := by
    simp only [List.not_mem_nil, exists_false, false_iff]
    omega

theorem Indexed.le_count {index : Key → List Nat} {count id : Nat} {key : Key}
    (h : Indexed index count) (hid : id ∈ index key) : id ≤ count :=
  ((h.covers id).mp ⟨key, hid⟩).2

variable [DecidableEq Key]

/-- The ids of the new records that have this key. -/
def idsUnder (news : List Record) (idOf : Record → Nat) (keyOf : Record → Key)
    (key : Key) : List Nat :=
  (news.filter (fun record => decide (keyOf record = key))).map idOf

section News

variable {news : List Record} {idOf : Record → Nat} {keyOf : Record → Key}
  {count : Nat}

theorem mem_idsUnder {key : Key} {id : Nat} :
    id ∈ idsUnder news idOf keyOf key ↔
      ∃ record ∈ news, keyOf record = key ∧ idOf record = id := by
  simp only [idsUnder, List.mem_map, List.mem_filter, decide_eq_true_eq, and_assoc]

theorem mem_news_iff (hids : news.map idOf = List.range' (count + 1) news.length)
    (id : Nat) : id ∈ news.map idOf ↔ count < id ∧ id ≤ count + news.length := by
  rw [hids, List.mem_range'_1]
  omega

theorem idsUnder_range (hids : news.map idOf = List.range' (count + 1) news.length)
    {key : Key} {id : Nat} (hid : id ∈ idsUnder news idOf keyOf key) :
    count < id ∧ id ≤ count + news.length :=
  (mem_news_iff hids id).mp (List.map_subset idOf (List.filter_subset_self _) hid)

theorem idsUnder_increasing
    (hids : news.map idOf = List.range' (count + 1) news.length) (key : Key) :
    (idsUnder news idOf keyOf key).Pairwise (· < ·) := by
  have hsorted : (news.map idOf).Pairwise (· < ·) := by
    rw [hids]
    exact List.pairwise_lt_range'
  exact hsorted.sublist (List.filter_sublist.map idOf)

/-- A new id belongs to one record, and so to one key. -/
theorem idsUnder_disjoint
    (hids : news.map idOf = List.range' (count + 1) news.length) {key other : Key}
    (hne : key ≠ other) :
    List.Disjoint (idsUnder news idOf keyOf key) (idsUnder news idOf keyOf other) := by
  have hnodup : (news.map idOf).Nodup := by
    rw [hids]
    exact List.nodup_range'
  intro id hkey hother
  obtain ⟨first, hfirst, rfl, rfl⟩ := mem_idsUnder.mp hkey
  obtain ⟨second, hsecond, rfl, hsame⟩ := mem_idsUnder.mp hother
  exact hne (by rw [List.inj_on_of_nodup_map hnodup hsecond hfirst hsame])

/-- New records under the next ids, each appended to the list of its key. -/
theorem Indexed.extend {index : Key → List Nat} (h : Indexed index count)
    (news : List Record) (idOf : Record → Nat) (keyOf : Record → Key)
    (hids : news.map idOf = List.range' (count + 1) news.length) :
    Indexed (fun key => index key ++
      (news.filter (fun record => decide (keyOf record = key))).map idOf)
      (count + news.length) := by
  change Indexed (fun key => index key ++ idsUnder news idOf keyOf key) _
  refine ⟨?_, ?_, ?_⟩
  · intro key
    rw [List.pairwise_append]
    refine ⟨h.increasing key, idsUnder_increasing hids key, ?_⟩
    intro old hold new hnew
    exact lt_of_le_of_lt (h.le_count hold) (idsUnder_range hids hnew).1
  · intro key other hne id hkey hother
    rcases List.mem_append.mp hkey with hkey | hkey
    · have hle := h.le_count hkey
      rcases List.mem_append.mp hother with hother | hother
      · exact h.disjoint key other hne hkey hother
      · have hlt := (idsUnder_range hids hother).1
        omega
    · have hlt := (idsUnder_range hids hkey).1
      rcases List.mem_append.mp hother with hother | hother
      · have hle := h.le_count hother
        omega
      · exact idsUnder_disjoint hids hne hkey hother
  · intro id
    constructor
    · rintro ⟨key, hid⟩
      rcases List.mem_append.mp hid with hold | hnew
      · have hold := (h.covers id).mp ⟨key, hold⟩
        omega
      · have hlt := idsUnder_range hids hnew
        omega
    · intro hid
      by_cases hle : id ≤ count
      · obtain ⟨key, hkey⟩ := (h.covers id).mpr ⟨hid.1, hle⟩
        exact ⟨key, List.mem_append_left _ hkey⟩
      · have hmem := (mem_news_iff hids id).mpr ⟨by omega, hid.2⟩
        obtain ⟨record, hrecord, rfl⟩ := List.mem_map.mp hmem
        exact ⟨keyOf record, List.mem_append_right _
          (mem_idsUnder.mpr ⟨record, hrecord, rfl, rfl⟩)⟩

end News

end Index

end Library
end Paystream
