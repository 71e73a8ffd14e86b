import Mathlib.Algebra.BigOperators.Finprod
import Paystream.Library.TokenLedger

/-!
# What the accounts of a token hold together

There is no list of the accounts of a token, so the sum of the holdings runs over
all of them; it is a sum because only finitely many hold anything.  `AddsUpTo`
states both.  Rewriting one account changes the sum by the difference, and moving
an amount from one account to another, or to the same one, does not change it,
whatever the sign of the amount.

Where no account is negative, each of them is within the sum (`AddsUpTo.le`).
-/

namespace Paystream
namespace Library

variable {Account : Type}

/-- Finitely many accounts hold something, and `total` is what they hold
together. -/
structure AddsUpTo (holdings : Account → Int) (total : Int) : Prop where
  finite : (Function.support holdings).Finite
  sum : finsum holdings = total

theorem AddsUpTo.zero : AddsUpTo (fun _ : Account => 0) 0 where
  finite := by simp
  sum := finsum_zero

variable [DecidableEq Account]

/-- Rewriting one account. -/
theorem AddsUpTo.update {holdings : Account → Int} {total : Int}
    (h : AddsUpTo holdings total) (account : Account) (amount : Int) :
    AddsUpTo (Function.update holdings account amount)
      (total + (amount - holdings account)) := by
  have hsplit : Function.update holdings account amount =
      fun other => holdings other +
        (Pi.single account (amount - holdings account) : Account → Int) other := by
    ext other
    by_cases hother : other = account
    · subst hother
      simp
    · simp [Function.update_of_ne hother, Pi.single_eq_of_ne hother]
  have hsingle : (Function.support
      (Pi.single account (amount - holdings account) : Account → Int)).Finite :=
    (Set.finite_singleton account).subset Pi.support_single_subset
  constructor
  · refine (h.finite.union (Set.finite_singleton account)).subset ?_
    intro other hother
    by_cases hsame : other = account
    · exact Or.inr hsame
    · rw [Function.mem_support, Function.update_of_ne hsame] at hother
      exact Or.inl hother
  · rw [hsplit, finsum_add_distrib h.finite hsingle, h.sum,
      finsum_eq_single _ account (fun other hother => Pi.single_eq_of_ne hother _),
      Pi.single_eq_same]

/-- A transfer of any amount, between any two accounts. -/
theorem AddsUpTo.move {holdings : Account → Int} {total : Int}
    (h : AddsUpTo holdings total) (source target : Account) (amount : Int) :
    AddsUpTo (move holdings source target amount) total := by
  have hmoved := (h.update source (holdings source - amount)).update target
    (Function.update holdings source (holdings source - amount) target + amount)
  have htotal : total + (holdings source - amount - holdings source) +
      (Function.update holdings source (holdings source - amount) target + amount -
        Function.update holdings source (holdings source - amount) target) =
      total := by
    ring
  rw [htotal] at hmoved
  exact hmoved

omit [DecidableEq Account] in
/-- Where no account is negative, each is within the sum. -/
theorem AddsUpTo.le {holdings : Account → Int} {total : Int}
    (h : AddsUpTo holdings total) (hnonneg : ∀ account, 0 ≤ holdings account)
    (account : Account) : holdings account ≤ total := by
  have hsingle := single_le_finsum account h.finite hnonneg
  rw [h.sum] at hsingle
  exact hsingle

end Library
end Paystream
