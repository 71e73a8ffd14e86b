import Mathlib.Tactic
import Mathlib.Data.Finset.Card

/-!
# Quorums

Votes are listed as they were cast, and some of them do not count.  A quorum is a
number of different voters with a vote that counts.

Where the votes only just reach the number that is needed, they make a quorum
exactly when each of them counts and no voter cast two
(`quorum_iff_of_just_enough`).
-/

namespace Paystream
namespace Library

variable {Vote Voter : Type} (voter : Vote → Voter) (counts : Vote → Prop)

/-- At least `needed` different voters cast a vote that counts. -/
def Quorum (votes : List Vote) (needed : ℚ) : Prop :=
  ∃ voters : Finset Voter,
    (∀ v ∈ voters, ∃ vote ∈ votes, voter vote = v ∧ counts vote) ∧
      needed ≤ voters.card

/-- Every vote counts, and no voter cast two. -/
structure AllCount (votes : List Vote) : Prop where
  distinct : (votes.map voter).Nodup
  counts : ∀ vote ∈ votes, counts vote

variable {voter counts} {votes : List Vote} {needed : ℚ}

theorem quorum_of_nonpos (h : needed ≤ 0) : Quorum voter counts votes needed := by
  refine ⟨∅, ?_, ?_⟩
  · intro v hv
    cases hv
  · rw [Finset.card_empty, Nat.cast_zero]
    exact h

variable [DecidableEq Voter]

theorem AllCount.quorum (h : AllCount voter counts votes)
    (hneeded : needed ≤ votes.length) : Quorum voter counts votes needed := by
  refine ⟨(votes.map voter).toFinset, ?_, ?_⟩
  · intro v hv
    obtain ⟨vote, hvote, rfl⟩ := List.mem_map.mp (List.mem_toFinset.mp hv)
    exact ⟨vote, hvote, rfl, h.counts vote hvote⟩
  · rw [List.toFinset_card_of_nodup h.distinct, List.length_map]
    exact hneeded

open Classical in
/-- As many voters as there are votes leave no vote out. -/
theorem allCount_of_card_le {voters : Finset Voter}
    (hvoters : ∀ v ∈ voters, ∃ vote ∈ votes, voter vote = v ∧ counts vote)
    (hcard : votes.length ≤ voters.card) : AllCount voter counts votes := by
  have hsubset : voters ⊆ ((votes.filter counts).map voter).toFinset := by
    intro v hv
    obtain ⟨vote, hvote, hvoter, hcounts⟩ := hvoters v hv
    rw [List.mem_toFinset, List.mem_map]
    exact ⟨vote, List.mem_filter.mpr ⟨hvote, decide_eq_true hcounts⟩, hvoter⟩
  have hle : votes.length ≤ ((votes.filter counts).map voter).toFinset.card :=
    hcard.trans (Finset.card_le_card hsubset)
  have hcounted : ((votes.filter counts).map voter).toFinset.card ≤
      (votes.filter counts).length := by
    rw [← List.length_map voter]
    exact List.toFinset_card_le _
  have hlength : (votes.filter counts).length = votes.length :=
    le_antisymm (List.length_filter_le _ _) (hle.trans hcounted)
  have hfilter : votes.filter counts = votes :=
    List.filter_sublist.eq_of_length hlength
  rw [hfilter] at hle
  refine ⟨?_, ?_⟩
  · rw [← Multiset.coe_nodup, ← Multiset.toFinset_card_eq_card_iff_nodup]
    apply le_antisymm (Multiset.toFinset_card_le _)
    rw [Multiset.coe_card, List.length_map]
    exact hle
  · intro vote hvote
    rw [← hfilter] at hvote
    exact of_decide_eq_true (List.mem_filter.mp hvote).2

/-- Just enough votes are a quorum when all of them count. -/
theorem quorum_iff_of_just_enough (henough : needed ≤ votes.length)
    (hjust : (votes.length : ℚ) < needed + 1) :
    Quorum voter counts votes needed ↔ AllCount voter counts votes := by
  constructor
  · rintro ⟨voters, hvoters, hcard⟩
    apply allCount_of_card_le hvoters
    have hlt : (votes.length : ℚ) < voters.card + 1 := by linarith
    have hnat : votes.length < voters.card + 1 := by exact_mod_cast hlt
    omega
  · intro h
    exact h.quorum henough

end Library
end Paystream
