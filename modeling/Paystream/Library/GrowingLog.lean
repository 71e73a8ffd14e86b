import Mathlib.Data.List.Basic
import Mathlib.Tactic

/-!
# Reading a growing log in pages

The newest entry of a log comes first, and new entries only join in front: what the
log was is a suffix of what it is.  A reader goes on where it stopped, in one of two
ways.  By a token, with the entries older than the last one it has read
(`olderThan`): whatever has joined since, they are the ones that come next
(`olderThan_of_grown`).  Or by skipping as many entries as it has read: then it
misses nothing either (`take_subset_of_offset`), but reads some entries again when
others have joined.
-/

namespace Paystream
namespace Library

/-! ## By a token -/

section Tokens

variable {Item Token : Type} [DecidableEq Token] (token : Item → Token)

/-- The entries older than the one with the token. -/
def olderThan (cursor : Token) (log : List Item) : List Item :=
  (log.dropWhile fun item => decide (token item ≠ cursor)).tail

variable {token}

theorem olderThan_append_cons {newer older : List Item} {last : Item}
    (h : ∀ item ∈ newer, token item ≠ token last) :
    olderThan token (token last) (newer ++ last :: older) = older := by
  unfold olderThan
  rw [List.dropWhile_append_of_pos fun item hitem => decide_eq_true (h item hitem),
    List.dropWhile_cons_of_neg (by simp), List.tail_cons]

/-- After the last entry that was read, the next ones are those that followed it
when the reading began. -/
theorem olderThan_of_grown {first log read rest : List Item} {last : Item}
    (hgrown : first <:+ log) (hdistinct : (log.map token).Nodup)
    (hfirst : first = read ++ rest) (hlast : read.getLast? = some last) :
    olderThan token (token last) log = rest := by
  obtain ⟨newer, rfl⟩ := hgrown
  obtain ⟨before, rfl⟩ := List.getLast?_eq_some_iff.mp hlast
  have hsplit : newer ++ first = (newer ++ before) ++ last :: rest := by
    rw [hfirst]
    simp
  rw [hsplit] at hdistinct ⊢
  refine olderThan_append_cons fun item hitem heq => ?_
  rw [List.map_append, List.map_cons] at hdistinct
  have hdisjoint := (List.nodup_append.mp hdistinct).2.2
  exact hdisjoint _ (List.mem_map_of_mem hitem) _ List.mem_cons_self heq

end Tokens

/-! ## By an offset -/

section Offsets

variable {Item : Type}

/-- What has been read of the log as it was, after one more page. -/
theorem take_subset_of_offset {first log read : List Item} {offset limit : Nat}
    (hgrown : first <:+ log)
    (hread : first.take (offset - (log.length - first.length)) ⊆ read) :
    first.take (offset + limit - (log.length - first.length)) ⊆
      read ++ (log.drop offset).take limit := by
  obtain ⟨newer, rfl⟩ := hgrown
  rw [List.length_append, Nat.add_sub_cancel] at hread ⊢
  intro item hitem
  obtain ⟨i, hi, rfl⟩ := List.mem_iff_getElem.mp hitem
  rw [List.length_take] at hi
  rw [List.getElem_take, List.mem_append]
  by_cases hbefore : i < offset - newer.length
  · left
    refine hread (List.mem_iff_getElem.mpr ⟨i, ?_, List.getElem_take⟩)
    rw [List.length_take]
    omega
  · right
    -- the entry has moved back by the number of the newer ones
    refine List.mem_iff_getElem.mpr ⟨i + newer.length - offset, ?_, ?_⟩
    · rw [List.length_take, List.length_drop, List.length_append]
      omega
    · rw [List.getElem_take, List.getElem_drop,
        List.getElem_append_right (by omega)]
      congr 1
      omega

/-- A page that is not full ends the log. -/
theorem length_le_of_short {log : List Item} {offset limit : Nat}
    (h : ((log.drop offset).take limit).length < limit) :
    log.length ≤ offset + limit := by
  rw [List.length_take, List.length_drop] at h
  omega

end Offsets

end Library
end Paystream
