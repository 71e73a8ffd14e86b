import Mathlib.Tactic
import Mathlib.Algebra.BigOperators.Group.List.Basic

/-!
# Token balances as a replayed transfer log

A contract that holds tokens does not own the code that moves them.  The
token is therefore a parameter: `TokenLaw.transfer` answers a transfer request
with the new holdings or refuses it.  What a client relies on is stated as a
property of that answer:

* `TokenLaw.RejectsNegative`: no negative amount is ever moved;
* `TokenLaw.Honest`: a transfer succeeds exactly when
  `0 ≤ amount ≤ balance`, and then it moves exactly `amount`.

A client keeps the transfers it made in a log, newest first.  `Performed`
relates the balances before and after such a log, and under honest tokens every
balance is the old one plus the net flow of the log
(`Performed.balance_eq`).  Each transfer carries a purpose, so the same log also
answers how much was moved on whose account (`totalFor`).
-/

namespace Paystream
namespace Library

/-- How one token contract answers `transfer(source, target, amount)`: the
holdings afterwards, or a refusal. -/
structure TokenLaw (Account : Type) where
  transfer : (Account → Int) → Account → Account → Int → Option (Account → Int)

/-- One transfer of the log, with the purpose it was made for. -/
structure Transfer (Purpose Token Account : Type) where
  purpose : Purpose
  token : Token
  source : Account
  target : Account
  amount : Int

/-- A token that never moves a negative amount. -/
def TokenLaw.RejectsNegative {Account : Type} (law : TokenLaw Account) : Prop :=
  ∀ holdings source target amount holdings',
    law.transfer holdings source target amount = some holdings' → 0 ≤ amount

/-- Holdings of every account in every token. -/
abbrev Balances (Token Account : Type) := Token → Account → Int

section Laws

variable {Account : Type} [DecidableEq Account]

/-- Debit the source, then credit the target.  On a self-transfer the credit
reads the debited balance, so nothing moves. -/
def move (holdings : Account → Int) (source target : Account) (amount : Int) :
    Account → Int :=
  let debited := Function.update holdings source (holdings source - amount)
  Function.update debited target (debited target + amount)

theorem move_apply (holdings : Account → Int) (source target account : Account)
    (amount : Int) :
    move holdings source target amount account =
      holdings account + ((if target = account then amount else 0) -
        (if source = account then amount else 0)) := by
  unfold move
  by_cases htarget : target = account
  · subst htarget
    by_cases hsource : source = target
    · subst hsource
      simp
    · simp [hsource, Ne.symm hsource]
  · by_cases hsource : source = account
    · subst hsource
      simp [htarget, Ne.symm htarget]
      ring
    · simp [htarget, hsource, Ne.symm htarget, Ne.symm hsource]

/-- A transfer succeeds exactly when `0 ≤ amount ≤ balance` and then moves
exactly `amount`. -/
def TokenLaw.Honest (law : TokenLaw Account) : Prop :=
  ∀ holdings source target amount holdings',
    law.transfer holdings source target amount = some holdings' ↔
      0 ≤ amount ∧ amount ≤ holdings source ∧
        holdings' = move holdings source target amount

theorem TokenLaw.Honest.rejectsNegative {law : TokenLaw Account}
    (h : law.Honest) : law.RejectsNegative := by
  intro holdings source target amount holdings' htransfer
  exact ((h holdings source target amount holdings').mp htransfer).1

/-- The SEP-41 behaviour itself. -/
def sep41 : TokenLaw Account where
  transfer holdings source target amount :=
    if 0 ≤ amount ∧ amount ≤ holdings source then
      some (move holdings source target amount)
    else
      none

theorem sep41_honest : (sep41 : TokenLaw Account).Honest := by
  intro holdings source target amount holdings'
  by_cases h : 0 ≤ amount ∧ amount ≤ holdings source
  · simp only [sep41, if_pos h, Option.some.injEq]
    constructor
    · intro heq
      exact ⟨h.1, h.2, heq.symm⟩
    · intro hmove
      exact hmove.2.2.symm
  · simp only [sep41, if_neg h]
    constructor
    · intro heq
      cases heq
    · intro hmove
      exact absurd ⟨hmove.1, hmove.2.1⟩ h

end Laws

section Performing

variable {Purpose Token Account : Type} [DecidableEq Token]

/-- Ask the token of a transfer to make it. -/
def perform (tokens : Token → Option (TokenLaw Account))
    (transfer : Transfer Purpose Token Account)
    (balances : Balances Token Account) : Option (Balances Token Account) :=
  match tokens transfer.token with
  | none => none
  | some law =>
      match law.transfer (balances transfer.token) transfer.source
          transfer.target transfer.amount with
      | none => none
      | some holdings =>
          some (Function.update balances transfer.token holdings)

/-- A transfer is what its token makes of it. -/
theorem perform_eq_some_iff {tokens : Token → Option (TokenLaw Account)}
    {transfer : Transfer Purpose Token Account} {law : TokenLaw Account}
    (hlaw : tokens transfer.token = some law)
    (before after : Balances Token Account) :
    perform tokens transfer before = some after ↔
      ∃ holdings, law.transfer (before transfer.token) transfer.source
          transfer.target transfer.amount = some holdings ∧
        after = Function.update before transfer.token holdings := by
  simp only [perform, hlaw]
  cases law.transfer (before transfer.token) transfer.source transfer.target
      transfer.amount with
  | none => simp
  | some holdings =>
      simp only [Option.some.injEq, exists_eq_left']
      exact eq_comm

/-- The balances after a log of transfers, newest first. -/
def Performed (tokens : Token → Option (TokenLaw Account)) :
    List (Transfer Purpose Token Account) → Balances Token Account →
      Balances Token Account → Prop
  | [], before, after => after = before
  | transfer :: earlier, before, after =>
      ∃ middle, Performed tokens earlier before middle ∧
        perform tokens transfer middle = some after

theorem Performed.single {tokens : Token → Option (TokenLaw Account)}
    {transfer : Transfer Purpose Token Account}
    {before after : Balances Token Account}
    (h : perform tokens transfer before = some after) :
    Performed tokens [transfer] before after :=
  ⟨before, rfl, h⟩

theorem Performed.append {tokens : Token → Option (TokenLaw Account)}
    {later earlier : List (Transfer Purpose Token Account)}
    {before middle after : Balances Token Account}
    (hearlier : Performed tokens earlier before middle)
    (hlater : Performed tokens later middle after) :
    Performed tokens (later ++ earlier) before after := by
  induction later generalizing after with
  | nil =>
      change after = middle at hlater
      subst hlater
      exact hearlier
  | cons transfer later ih =>
      obtain ⟨between, hbetween, hlast⟩ := hlater
      exact ⟨between, ih hbetween, hlast⟩

/-- What a token's own transfers keep about its holdings, a log keeps. -/
theorem Performed.holdings {tokens : Token → Option (TokenLaw Account)}
    {token : Token} {law : TokenLaw Account} (hlaw : tokens token = some law)
    {P : (Account → Int) → Prop}
    (hkeeps : ∀ holdings source target amount holdings',
      law.transfer holdings source target amount = some holdings' → P holdings →
        P holdings')
    {log : List (Transfer Purpose Token Account)}
    {before after : Balances Token Account}
    (h : Performed tokens log before after) (hbefore : P (before token)) :
    P (after token) := by
  induction log generalizing after with
  | nil =>
      change after = before at h
      rw [h]
      exact hbefore
  | cons transfer earlier ih =>
      obtain ⟨middle, hearlier, hlast⟩ := h
      have hmiddle := ih hearlier
      unfold perform at hlast
      split at hlast
      · cases hlast
      · rename_i made hmade
        split at hlast
        · cases hlast
        · rename_i holdings hholdings
          cases hlast
          by_cases htoken : transfer.token = token
          · rw [htoken] at hmade hholdings ⊢
            obtain rfl : law = made := Option.some.inj (hlaw.symm.trans hmade)
            rw [Function.update_self]
            exact hkeeps _ _ _ _ _ hholdings hmiddle
          · rw [Function.update_of_ne (Ne.symm htoken)]
            exact hmiddle

/-- Every token of the environment satisfies the predicate. -/
def AllTokens (tokens : Token → Option (TokenLaw Account))
    (P : TokenLaw Account → Prop) : Prop :=
  ∀ token law, tokens token = some law → P law

theorem perform_amount_nonneg {tokens : Token → Option (TokenLaw Account)}
    (htokens : AllTokens tokens TokenLaw.RejectsNegative)
    {transfer : Transfer Purpose Token Account}
    {before after : Balances Token Account}
    (h : perform tokens transfer before = some after) :
    0 ≤ transfer.amount := by
  unfold perform at h
  split at h
  · cases h
  · rename_i law hlaw
    split at h
    · cases h
    · rename_i holdings hholdings
      exact htokens _ _ hlaw _ _ _ _ _ hholdings

theorem Performed.amount_nonneg {tokens : Token → Option (TokenLaw Account)}
    (htokens : AllTokens tokens TokenLaw.RejectsNegative)
    {log : List (Transfer Purpose Token Account)}
    {before after : Balances Token Account}
    (h : Performed tokens log before after) :
    ∀ transfer ∈ log, 0 ≤ transfer.amount := by
  induction log generalizing after with
  | nil =>
      intro transfer hmem
      cases hmem
  | cons newest earlier ih =>
      obtain ⟨middle, hearlier, hlast⟩ := h
      intro transfer hmem
      rcases List.mem_cons.mp hmem with rfl | hold
      · exact perform_amount_nonneg htokens hlast
      · exact ih hearlier transfer hold

variable [DecidableEq Account]

omit [DecidableEq Token] in
theorem AllTokens.rejectsNegative {tokens : Token → Option (TokenLaw Account)}
    (h : AllTokens tokens TokenLaw.Honest) :
    AllTokens tokens TokenLaw.RejectsNegative := by
  intro token law hlaw
  exact (h token law hlaw).rejectsNegative

/-- What one transfer adds to an account's holding of a token. -/
def Transfer.flow (transfer : Transfer Purpose Token Account)
    (token : Token) (account : Account) : Int :=
  if transfer.token = token then
    (if transfer.target = account then transfer.amount else 0) -
      (if transfer.source = account then transfer.amount else 0)
  else
    0

/-- What a log adds to an account's holding of a token. -/
def netFlow (token : Token) (account : Account) :
    List (Transfer Purpose Token Account) → Int
  | [] => 0
  | transfer :: earlier =>
      transfer.flow token account + netFlow token account earlier

theorem perform_balance_eq {tokens : Token → Option (TokenLaw Account)}
    (htokens : AllTokens tokens TokenLaw.Honest)
    {transfer : Transfer Purpose Token Account}
    {before after : Balances Token Account}
    (h : perform tokens transfer before = some after)
    (token : Token) (account : Account) :
    after token account = before token account + transfer.flow token account := by
  unfold perform at h
  split at h
  · cases h
  · rename_i law hlaw
    split at h
    · cases h
    · rename_i holdings hholdings
      obtain ⟨_hnonneg, _hcovered, hmove⟩ :=
        (htokens _ _ hlaw _ _ _ _ _).mp hholdings
      cases h
      by_cases htoken : transfer.token = token
      · subst htoken
        simp [Transfer.flow, hmove, move_apply]
      · simp [Transfer.flow, htoken, Function.update_of_ne (Ne.symm htoken)]

/-- An honest token makes every transfer with `0 ≤ amount ≤ balance`. -/
theorem perform_of_covered {tokens : Token → Option (TokenLaw Account)}
    (htokens : AllTokens tokens TokenLaw.Honest)
    {transfer : Transfer Purpose Token Account} {balances : Balances Token Account}
    (hknown : (tokens transfer.token).isSome = true)
    (hnonneg : 0 ≤ transfer.amount)
    (hcovered : transfer.amount ≤ balances transfer.token transfer.source) :
    ∃ after, perform tokens transfer balances = some after := by
  obtain ⟨law, hlaw⟩ := Option.isSome_iff_exists.mp hknown
  have htransfer := (htokens _ _ hlaw _ transfer.source transfer.target _ _).mpr
    ⟨hnonneg, hcovered, rfl⟩
  unfold perform
  simp only [hlaw, htransfer]
  exact ⟨_, rfl⟩

theorem covered_of_perform {tokens : Token → Option (TokenLaw Account)}
    (htokens : AllTokens tokens TokenLaw.Honest)
    {transfer : Transfer Purpose Token Account}
    {before after : Balances Token Account}
    (h : perform tokens transfer before = some after) :
    transfer.amount ≤ before transfer.token transfer.source := by
  unfold perform at h
  split at h
  · cases h
  · rename_i law hlaw
    split at h
    · cases h
    · rename_i holdings hholdings
      exact ((htokens _ _ hlaw _ _ _ _ _).mp hholdings).2.1

omit [DecidableEq Account] in
/-- Only a token that answers makes a transfer. -/
theorem isSome_of_perform {tokens : Token → Option (TokenLaw Account)}
    {transfer : Transfer Purpose Token Account}
    {before after : Balances Token Account}
    (h : perform tokens transfer before = some after) :
    (tokens transfer.token).isSome = true := by
  unfold perform at h
  split at h
  · cases h
  · rename_i law hlaw
    rw [hlaw]
    rfl

/-- Under honest tokens the log explains every balance. -/
theorem Performed.balance_eq {tokens : Token → Option (TokenLaw Account)}
    (htokens : AllTokens tokens TokenLaw.Honest)
    {log : List (Transfer Purpose Token Account)}
    {before after : Balances Token Account}
    (h : Performed tokens log before after)
    (token : Token) (account : Account) :
    after token account = before token account + netFlow token account log := by
  induction log generalizing after with
  | nil =>
      change after = before at h
      simp [h, netFlow]
  | cons transfer earlier ih =>
      obtain ⟨middle, hearlier, hlast⟩ := h
      rw [perform_balance_eq htokens hlast, ih hearlier, netFlow]
      ring

end Performing

/-! ## Amounts booked under a purpose -/

section Totals

variable {Purpose Token Account : Type}

/-- The sum of the amounts a log moved for the selected purposes. -/
def totalFor (selected : Purpose → Bool) :
    List (Transfer Purpose Token Account) → Int
  | [] => 0
  | transfer :: earlier =>
      (if selected transfer.purpose then transfer.amount else 0) +
        totalFor selected earlier

@[simp] theorem totalFor_nil (selected : Purpose → Bool) :
    totalFor selected ([] : List (Transfer Purpose Token Account)) = 0 := rfl

@[simp] theorem totalFor_cons (selected : Purpose → Bool)
    (transfer : Transfer Purpose Token Account)
    (earlier : List (Transfer Purpose Token Account)) :
    totalFor selected (transfer :: earlier) =
      (if selected transfer.purpose then transfer.amount else 0) +
        totalFor selected earlier := rfl

@[simp] theorem totalFor_append (selected : Purpose → Bool)
    (later earlier : List (Transfer Purpose Token Account)) :
    totalFor selected (later ++ earlier) =
      totalFor selected later + totalFor selected earlier := by
  induction later with
  | nil => simp
  | cons transfer later ih => simp [ih, add_assoc]

/-! ## Flows against totals -/

variable [DecidableEq Token] [DecidableEq Account]

/-- A transfer takes at most its amount from an account. -/
theorem Transfer.neg_amount_le_flow {transfer : Transfer Purpose Token Account}
    (h : 0 ≤ transfer.amount) (token : Token) (account : Account) :
    -transfer.amount ≤ transfer.flow token account := by
  unfold Transfer.flow
  split
  · split
    · split
      · omega
      · omega
    · split
      · omega
      · omega
  · omega

/-- A transfer made from another account takes nothing. -/
theorem Transfer.flow_nonneg {transfer : Transfer Purpose Token Account}
    (h : 0 ≤ transfer.amount) (token : Token) {account : Account}
    (hsource : transfer.source ≠ account) : 0 ≤ transfer.flow token account := by
  unfold Transfer.flow
  rw [if_neg hsource]
  split
  · split
    · omega
    · omega
  · exact le_rfl

/-- A log takes at most its total from an account. -/
theorem neg_totalFor_le_netFlow {selected : Purpose → Bool}
    {log : List (Transfer Purpose Token Account)}
    (h : ∀ transfer ∈ log, selected transfer.purpose = true ∧ 0 ≤ transfer.amount)
    (token : Token) (account : Account) :
    -totalFor selected log ≤ netFlow token account log := by
  induction log with
  | nil => exact le_rfl
  | cons transfer earlier ih =>
      obtain ⟨⟨hselected, hnonneg⟩, hearlier⟩ := List.forall_mem_cons.mp h
      have hfirst := Transfer.neg_amount_le_flow hnonneg token account
      have hrest := ih hearlier
      rw [totalFor_cons, hselected, netFlow]
      simp only [if_true]
      omega

/-- A log in other tokens moves nothing of this one. -/
theorem netFlow_of_other_token {log : List (Transfer Purpose Token Account)}
    {token : Token} (h : ∀ transfer ∈ log, transfer.token ≠ token)
    (account : Account) : netFlow token account log = 0 := by
  induction log with
  | nil => rfl
  | cons transfer earlier ih =>
      obtain ⟨hfirst, hearlier⟩ := List.forall_mem_cons.mp h
      rw [netFlow, ih hearlier, Transfer.flow, if_neg hfirst]
      rfl

end Totals

end Library
end Paystream
