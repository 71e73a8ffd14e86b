import Mathlib.Data.List.Basic
import Mathlib.Tactic

/-!
# Pages of a list, and stable sorting

`page size k` is the `k`-th page of a list, and `pageCount` the number of pages.
The pages give the list back, all but the last are full, and the last is not empty.

A stable sort leaves items that are equal in its order as they were:
`filter_mergeSort` says so of any class of such items.
-/

namespace Paystream
namespace Library

/-! ## Pages -/

section Pages

variable {α : Type*}

/-- The `k`-th page, counted from zero. -/
def page (size k : Nat) (items : List α) : List α :=
  (items.drop (k * size)).take size

/-- The number of pages: the quotient, rounded up. -/
def pageCount (total size : Nat) : Nat :=
  if 0 < total % size then total / size + 1 else total / size

theorem pageCount_le_iff {total size : Nat} (hsize : 0 < size) (k : Nat) :
    pageCount total size ≤ k ↔ total ≤ k * size := by
  have hdivision := Nat.div_add_mod total size
  have hrest := Nat.mod_lt total hsize
  rw [mul_comm] at hdivision
  have hround : pageCount total size ≤ k ↔
      total / size < k ∨ total / size = k ∧ total % size = 0 := by
    unfold pageCount
    split
    · omega
    · omega
  rw [hround]
  rcases Nat.lt_trichotomy (total / size) k with hlt | heq | hgt
  · have hmul : (total / size + 1) * size ≤ k * size := Nat.mul_le_mul_right size hlt
    rw [add_mul, one_mul] at hmul
    omega
  · rw [heq] at hdivision
    omega
  · have hmul : (k + 1) * size ≤ total / size * size := Nat.mul_le_mul_right size hgt
    rw [add_mul, one_mul] at hmul
    omega

theorem lt_pageCount_iff {total size : Nat} (hsize : 0 < size) (k : Nat) :
    k < pageCount total size ↔ k * size < total := by
  rw [← not_le, pageCount_le_iff hsize, not_le]

theorem flatMap_page (size : Nat) (items : List α) (n : Nat) :
    (List.range n).flatMap (fun k => page size k items) = items.take (n * size) := by
  induction n with
  | zero => simp
  | succ n ih =>
      rw [List.range_succ, List.flatMap_append, ih, List.flatMap_singleton, page,
        add_mul, one_mul, List.take_add]

/-- All pages together are the list. -/
theorem flatMap_page_pageCount {size : Nat} (hsize : 0 < size) (items : List α) :
    (List.range (pageCount items.length size)).flatMap
      (fun k => page size k items) = items := by
  rw [flatMap_page]
  exact List.take_of_length_le ((pageCount_le_iff hsize _).mp le_rfl)

theorem length_page (size k : Nat) (items : List α) :
    (page size k items).length = min size (items.length - k * size) := by
  unfold page
  rw [List.length_take, List.length_drop]

/-- A page that is not the last is full. -/
theorem length_page_of_lt {size k : Nat} (hsize : 0 < size) {items : List α}
    (h : k + 1 < pageCount items.length size) :
    (page size k items).length = size := by
  rw [lt_pageCount_iff hsize, add_mul, one_mul] at h
  rw [length_page]
  omega

/-- No page is empty. -/
theorem length_page_pos {size k : Nat} (hsize : 0 < size) {items : List α}
    (h : k < pageCount items.length size) : 0 < (page size k items).length := by
  rw [lt_pageCount_iff hsize] at h
  rw [length_page]
  omega

/-- There is nothing on a page exactly if it starts after the last item. -/
theorem take_drop_eq_nil_iff {size start : Nat} (hsize : 0 < size) (items : List α) :
    (items.drop start).take size = [] ↔ items.length ≤ start := by
  rw [List.take_eq_nil_iff, List.drop_eq_nil_iff]
  omega

end Pages

/-! ## Stable sorting -/

section Sorting

variable {α : Type*} {le : α → α → Bool}
  (trans : ∀ a b c, le a b = true → le b c = true → le a c = true)
  (total : ∀ a b, (le a b || le b a) = true)

include trans total

/-- Items of a class whose members are all equal in the order stay as they were. -/
theorem filter_mergeSort {p : α → Bool}
    (hclass : ∀ a b, p a = true → p b = true → le a b = true) (items : List α) :
    (items.mergeSort le).filter p = items.filter p := by
  have hpairs : (items.filter p).Pairwise fun a b => le a b = true := by
    refine List.Pairwise.imp_of_mem ?_ (List.pairwise_of_forall fun _ _ => trivial)
    intro a b ha hb _
    exact hclass a b (List.mem_filter.mp ha).2 (List.mem_filter.mp hb).2
  have hsublist : (items.filter p).Sublist (items.mergeSort le) :=
    List.sublist_mergeSort trans total hpairs List.filter_sublist
  have hfiltered := hsublist.filter p
  rw [List.filter_filter] at hfiltered
  simp only [Bool.and_self] at hfiltered
  have hlength := ((List.mergeSort_perm items le).filter p).length_eq
  exact (hfiltered.eq_of_length hlength.symm).symm

end Sorting

end Library
end Paystream
