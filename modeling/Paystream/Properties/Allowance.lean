import Paystream.Properties.TokenSupply

/-!
# What a spender may still take

An owner grants a spender an amount, and the spender takes parts of it until the
ledger deletes what is left.  `Budget` is this and nothing else, read off the calls
and expiries of a run.  The stored allowance is what the budget leaves
(`allowance_eq_rest`), so no spender ever takes more than the owner granted last,
whatever the calls of the others in between (`spending_within_budget`).

What a `transfer_from` takes is counted with its sign: the code does not look at
it, and a negative amount gives back what it moves the other way.
-/

namespace Paystream
namespace Properties

open Library
open Contract
open Contract.TokenContract
open Semantics

/-! ## Budgets -/

/-- What the owner granted last, and what the spender took since; nothing is granted
once the allowance has expired. -/
structure Budget where
  granted : Int
  spent : Int
  deriving DecidableEq

namespace Budget

def rest (budget : Budget) : Int := budget.granted - budget.spent

def take (budget : Budget) (amount : Int) : Budget :=
  { budget with spent := budget.spent + amount }

/-- Never more was taken than granted. -/
def Within (budget : Budget) : Prop := budget.spent ≤ max budget.granted 0

/-- What a call that returned, or an expiry, makes of the budget of `spender` at
`owner`. -/
def after (owner spender : Address) (budget : Budget) : TokenCall → Budget
  | .approve source taker amount =>
      if source = owner ∧ taker = spender then ⟨amount, 0⟩ else budget
  | .transferFrom taker source _ amount =>
      if source = owner ∧ taker = spender then budget.take amount else budget
  | .burnFrom taker source amount =>
      if source = owner ∧ taker = spender then budget.take amount else budget
  | .allowanceExpires source taker =>
      if source = owner ∧ taker = spender then ⟨0, 0⟩ else budget
  | _ => budget

@[simp] theorem rest_take (budget : Budget) (amount : Int) :
    (budget.take amount).rest = budget.rest - amount := by
  show budget.granted - (budget.spent + amount) = budget.granted - budget.spent - amount
  omega

theorem Within.take {budget : Budget} {amount : Int}
    (hamount : amount ≤ budget.rest) : (budget.take amount).Within := by
  show budget.spent + amount ≤ max budget.granted 0
  unfold rest at hamount
  omega

end Budget

/-- The budget after a history. -/
def budgetOf (owner spender : Address) : TokenHistory → Budget
  | [] => ⟨0, 0⟩
  | entry :: older =>
      if tokenReturned entry then
        (budgetOf owner spender older).after owner spender entry.input.call
      else budgetOf owner spender older

/-! ## The stored allowance -/

theorem allowances_setAllowance (t : TokenState) (owner spender source taker : Address)
    (amount : Int) :
    (setAllowance t source taker amount).allowances owner spender =
      if source = owner ∧ taker = spender then amount
      else t.allowances owner spender := by
  by_cases howner : owner = source
  · subst howner
    by_cases hspender : spender = taker
    · subst hspender
      simp [setAllowance]
    · simp [setAllowance, hspender, Ne.symm hspender]
  · simp [setAllowance, howner, Ne.symm howner]

/-- A call leaves of the allowance what it leaves of the budget. -/
theorem rest_after_of_effect {ctx : Context} {call : TokenCall} {t t' : TokenState}
    (heffect : TokenEffect ctx t call t') {owner spender : Address} {budget : Budget}
    (h : t.allowances owner spender = budget.rest) (hwithin : budget.Within) :
    t'.allowances owner spender = (budget.after owner spender call).rest ∧
      (budget.after owner spender call).Within := by
  cases heffect with
  | approved source taker amount _ =>
      simp only [Budget.after]
      rw [allowances_setAllowance]
      split
      · exact ⟨(Int.sub_zero amount).symm, le_max_right amount 0⟩
      · exact ⟨h, hwithin⟩
  | transferredFrom taker source target amount _ hallowed _ _ =>
      simp only [Budget.after]
      show (spend t source taker amount).allowances owner spender = _ ∧ _
      rw [spend, allowances_setAllowance]
      split
      · rename_i hpair
        obtain ⟨rfl, rfl⟩ := hpair
        rw [h] at hallowed ⊢
        exact ⟨(budget.rest_take amount).symm, .take hallowed⟩
      · exact ⟨h, hwithin⟩
  | burnedFrom taker source amount _ _ hallowed _ _ =>
      simp only [Budget.after]
      show (spend t source taker amount).allowances owner spender = _ ∧ _
      rw [spend, allowances_setAllowance]
      split
      · rename_i hpair
        obtain ⟨rfl, rfl⟩ := hpair
        rw [h] at hallowed ⊢
        exact ⟨(budget.rest_take amount).symm, .take hallowed⟩
      · exact ⟨h, hwithin⟩
  | allowanceExpired source taker =>
      simp only [Budget.after]
      rw [allowances_setAllowance]
      split
      · exact ⟨rfl, le_rfl⟩
      · exact ⟨h, hwithin⟩
  | _ => exact ⟨h, hwithin⟩

theorem budgetOf_cons_of_succeeds (owner spender : Address) (history : TokenHistory)
    {t t' : TokenState} {inv : TokenInvocation} (h : TokenSucceeds t inv t') :
    budgetOf owner spender (⟨t, inv, tokenStep t inv⟩ :: history) =
      (budgetOf owner spender history).after owner spender inv.call := by
  rw [budgetOf, if_pos h.returned_eq]

theorem budgetOf_cons_of_fails (owner spender : Address) (history : TokenHistory)
    {t : TokenState} {inv : TokenInvocation} (h : TokenFails t inv) :
    budgetOf owner spender (⟨t, inv, tokenStep t inv⟩ :: history) =
      budgetOf owner spender history := by
  rw [budgetOf, if_neg]
  rw [h.returned_eq]
  decide

/-- The allowance is what the budget leaves, and no more was taken than granted. -/
theorem allowance_eq_rest {history : TokenHistory} {t : TokenState}
    (hrun : TokenReaches history t) (owner spender : Address) :
    t.allowances owner spender = (budgetOf owner spender history).rest ∧
      (budgetOf owner spender history).Within := by
  induction hrun using System.Run.induction with
  | start t hstart =>
      rw [show t = TokenState.deployed from hstart]
      exact ⟨rfl, le_rfl⟩
  | next history t inv _ _ ih =>
      obtain ⟨hrest, hwithin⟩ := ih
      show (tokenStep t inv).allowances owner spender =
          (budgetOf owner spender (⟨t, inv, tokenStep t inv⟩ :: history)).rest ∧
        (budgetOf owner spender (⟨t, inv, tokenStep t inv⟩ :: history)).Within
      rcases tokenStep_cases t inv with hsucceeds | ⟨hfails, hsame⟩
      · rw [budgetOf_cons_of_succeeds owner spender history hsucceeds]
        exact rest_after_of_effect (tokenEffect_of_succeeds hsucceeds) hrest hwithin
      · rw [budgetOf_cons_of_fails owner spender history hfails, hsame]
        exact ⟨hrest, hwithin⟩

/-! ## Which calls of a spender return -/

/-- The call returns in this state. -/
def TokenAnswers (t : TokenState) (inv : TokenInvocation) : Prop :=
  ∃ t', TokenSucceeds t inv t'

theorem transferFrom_answers_iff (t : TokenState) (inv : TokenInvocation)
    {owner spender target : Address} {amount : Int}
    (hcall : inv.call = .transferFrom spender owner target amount) :
    TokenAnswers t inv ↔ spender ∈ inv.auth ∧
      amount ≤ t.allowances owner spender ∧ amount ≤ t.balances owner ∧
        InI128 (t.allowances owner spender - amount) ∧
          TransferFits t.balances owner target amount := by
  unfold TokenAnswers TokenSucceeds
  rw [hcall]
  simp only [execToken, transferFrom, bind_eq_ok_iff, requireAuth_eq_ok_iff,
    ensure_eq_ok_iff, decide_eq_true_eq, sub_eq_ok_iff, moveBalance_eq_ok_iff]
  constructor
  · rintro ⟨_, _, hauth, _, hallowed, _, hcovered, _, ⟨hrest, rfl⟩, hfits, _⟩
    exact ⟨hauth, hallowed, hcovered, hrest, hfits⟩
  · rintro ⟨hauth, hallowed, hcovered, hrest, hfits⟩
    exact ⟨_, (), hauth, (), hallowed, (), hcovered, _, ⟨hrest, rfl⟩, hfits, rfl⟩

theorem burnFrom_answers_iff (t : TokenState) (inv : TokenInvocation)
    {owner spender : Address} {amount : Int}
    (hcall : inv.call = .burnFrom spender owner amount) :
    TokenAnswers t inv ↔ spender ∈ inv.auth ∧ 0 < amount ∧
      amount ≤ t.allowances owner spender ∧ amount ≤ t.balances owner ∧
        InI128 (t.allowances owner spender - amount) ∧
          InI128 (t.balances owner - amount) ∧ InI128 (t.totalSupply - amount) := by
  unfold TokenAnswers TokenSucceeds
  rw [hcall]
  simp only [execToken, burnFrom, burnBalance, bind_eq_ok_iff,
    requireAuth_eq_ok_iff, ensure_eq_ok_iff, decide_eq_true_eq, sub_eq_ok_iff,
    pure_eq_ok_iff]
  constructor
  · rintro ⟨_, _, hauth, _, hpos, _, hallowed, _, hcovered, _, ⟨hrest, rfl⟩, _,
      ⟨hdebit, rfl⟩, _, ⟨hsupply, rfl⟩, _⟩
    exact ⟨hauth, hpos, hallowed, hcovered, hrest, hdebit, hsupply⟩
  · rintro ⟨hauth, hpos, hallowed, hcovered, hrest, hdebit, hsupply⟩
    exact ⟨_, (), hauth, (), hpos, (), hallowed, (), hcovered, _, ⟨hrest, rfl⟩, _,
      ⟨hdebit, rfl⟩, _, ⟨hsupply, rfl⟩, rfl⟩

def AllowancesFit (t : TokenState) : Prop :=
  ∀ owner spender, InI128 (t.allowances owner spender)

theorem AllowancesFit.set {t : TokenState} (h : AllowancesFit t)
    (source taker : Address) {amount : Int} (hamount : InI128 amount) :
    AllowancesFit (setAllowance t source taker amount) := by
  intro owner spender
  rw [allowances_setAllowance]
  split
  · exact hamount
  · exact h owner spender

theorem AllowancesFit.next {t t' : TokenState} {inv : TokenInvocation}
    (h : AllowancesFit t) (hsucceeds : TokenSucceeds t inv t') :
    AllowancesFit t' := by
  have heffect := tokenEffect_of_succeeds hsucceeds
  have hrange := inv.inRange
  generalize hcall : inv.call = call at heffect hrange
  cases heffect with
  | approved source taker amount _ => exact h.set source taker (of_decide_eq_true hrange)
  | transferredFrom taker source target amount _ _ _ _ =>
      obtain ⟨_, _, _, hrest, _⟩ :=
        (transferFrom_answers_iff t inv hcall).mp ⟨_, hsucceeds⟩
      exact h.set source taker hrest
  | burnedFrom taker source amount _ _ _ _ _ =>
      obtain ⟨_, _, _, _, hrest, _⟩ :=
        (burnFrom_answers_iff t inv hcall).mp ⟨_, hsucceeds⟩
      exact h.set source taker hrest
  | allowanceExpired source taker => exact h.set source taker (by decide)
  | _ => exact h

/-- Everything stored fits into `i128`. -/
theorem fit_of_run {history : TokenHistory} {t : TokenState}
    (hrun : TokenReaches history t) : BalancesFit t.balances ∧ AllowancesFit t := by
  induction hrun using System.Run.induction with
  | start t hstart =>
      rw [show t = TokenState.deployed from hstart]
      have hzero : InI128 0 := by decide
      exact ⟨fun _ => hzero, fun _ _ => hzero⟩
  | next history t inv _ _ ih =>
      obtain ⟨hbalances, hallowances⟩ := ih
      show BalancesFit (tokenStep t inv).balances ∧ AllowancesFit (tokenStep t inv)
      rcases tokenStep_cases t inv with hsucceeds | ⟨_, hsame⟩
      · exact ⟨balancesFit_of_effect (tokenEffect_of_succeeds hsucceeds) hbalances,
          hallowances.next hsucceeds⟩
      · rw [hsame]
        exact ⟨hbalances, hallowances⟩

/-- A positive part of an `i128` value leaves one. -/
theorem inI128_sub {total amount : Int} (h : InI128 total) (hpos : 0 < amount)
    (hle : amount ≤ total) : InI128 (total - amount) := by
  obtain ⟨_, hhigh⟩ := h
  exact ⟨le_trans (by decide) (Int.sub_nonneg_of_le hle), by omega⟩

/-- What a spender took since the last grant or expiry never exceeds what is granted,
the stored allowance is the rest, and the rest decides with the balance whether the
next call of the spender returns. -/
theorem spending_within_budget {history : TokenHistory} {t : TokenState}
    (hrun : TokenReaches history t) (owner spender : Address) (inv : TokenInvocation)
    {amount : Int} (hpos : 0 < amount) :
    (budgetOf owner spender history).spent ≤
        max (budgetOf owner spender history).granted 0 ∧
      t.allowances owner spender = (budgetOf owner spender history).granted -
        (budgetOf owner spender history).spent ∧
      (∀ target, inv.call = .transferFrom spender owner target amount →
        (TokenAnswers t inv ↔ spender ∈ inv.auth ∧
          amount ≤ (budgetOf owner spender history).rest ∧
            amount ≤ t.balances owner ∧
              InI128 (move t.balances owner target amount target))) ∧
      (inv.call = .burnFrom spender owner amount →
        (TokenAnswers t inv ↔ spender ∈ inv.auth ∧
          amount ≤ (budgetOf owner spender history).rest ∧
            amount ≤ t.balances owner ∧ InI128 (t.totalSupply - amount))) := by
  obtain ⟨hrest, hwithin⟩ := allowance_eq_rest hrun owner spender
  obtain ⟨hbalances, hallowances⟩ := fit_of_run hrun
  have hbalance := hbalances owner
  have hallowance := hallowances owner spender
  refine ⟨hwithin, hrest, ?_, ?_⟩
  · intro target hcall
    rw [transferFrom_answers_iff t inv hcall, ← hrest]
    constructor
    · rintro ⟨hauth, hallowed, hcovered, _, _, hcredit⟩
      exact ⟨hauth, hallowed, hcovered, hcredit⟩
    · rintro ⟨hauth, hallowed, hcovered, hcredit⟩
      exact ⟨hauth, hallowed, hcovered, inI128_sub hallowance hpos hallowed,
        inI128_sub hbalance hpos hcovered, hcredit⟩
  · intro hcall
    rw [burnFrom_answers_iff t inv hcall, ← hrest]
    constructor
    · rintro ⟨hauth, _, hallowed, hcovered, _, _, hsupply⟩
      exact ⟨hauth, hallowed, hcovered, hsupply⟩
    · rintro ⟨hauth, hallowed, hcovered, hsupply⟩
      exact ⟨hauth, hpos, hallowed, hcovered, inI128_sub hallowance hpos hallowed,
        inI128_sub hbalance hpos hcovered, hsupply⟩

/-- A grant of 900 expires; after a new one of 300 and two payments from it 30 are
left, so a burn of 50 is too much. -/
theorem spending_within_budget_of_grant :
    ∃ (history : TokenHistory) (t : TokenState) (inv : TokenInvocation),
      TokenReaches history t ∧
        inv.call = .burnFrom Sample.employer Sample.admin 50 ∧
        Sample.employer ∈ inv.auth ∧ 50 ≤ t.balances Sample.admin ∧
        t.allowances Sample.admin Sample.employer = 30 ∧ ¬ TokenAnswers t inv := by
  have hrun := Sample.playToken_reaches [
    Sample.invokeToken 1 Sample.admin (.initializeToken Sample.admin 500),
    Sample.invokeToken 2 Sample.admin (.approve Sample.admin Sample.employer 900),
    Sample.invokeToken 3 Sample.admin
      (.allowanceExpires Sample.admin Sample.employer),
    Sample.invokeToken 3 Sample.admin (.approve Sample.admin Sample.employer 300),
    Sample.invokeToken 3 Sample.employer (.transferFrom Sample.employer
      Sample.admin Sample.employee 200),
    Sample.invokeToken 4 Sample.employer (.burnFrom Sample.employer
      Sample.admin 70)] (by decide)
  have hinv : (Sample.invokeToken 5 Sample.employer
      (.burnFrom Sample.employer Sample.admin 50)).call =
        .burnFrom Sample.employer Sample.admin 50 := rfl
  obtain ⟨_, hrest, _, hburn⟩ := @spending_within_budget _ _ hrun Sample.admin
    Sample.employer (Sample.invokeToken 5 Sample.employer
      (.burnFrom Sample.employer Sample.admin 50)) 50 (by decide)
  refine ⟨_, _, _, hrun, hinv, by decide, by decide, hrest.trans (by decide), ?_⟩
  rw [hburn hinv]
  decide

end Properties
end Paystream
