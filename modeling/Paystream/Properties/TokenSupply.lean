import Paystream.Contract.Exec
import Paystream.Library.Supply
import Paystream.Semantics.TokenOps

/-!
# Supply and ownership of the token

Two properties of the repository's own token over whole runs.

* `supply_conserved`: after one `initialize`, whatever else is called with
  whatever amounts, the balances add up to the supply, and the supply stays
  within its cap.
* `ownership_iff`: balances stay non-negative and fall only by the owner's will,
  exactly when no `transfer_from` with a negative amount returned; such a call
  takes tokens from its target.
-/

namespace Paystream
namespace Properties

open Library
open Contract
open Contract.TokenContract
open Semantics

/-! ## Conservation of the supply -/

def isInitialize : TokenCall → Bool
  | .initializeToken _ _ => true
  | _ => false

/-- The run starts with an `initialize` and has no other. -/
structure OnceInitialized (later : TokenHistory) (first : TokenEntry) : Prop where
  starts : isInitialize first.input.call = true
  once : ∀ entry ∈ later, isInitialize entry.input.call = false

/-- The balances add up to the supply, and the supply is within its cap. -/
def SupplyConserved (t : TokenState) : Prop :=
  AddsUpTo t.balances t.totalSupply ∧ t.totalSupply ≤ maxSupply

theorem supplyConserved_deployed : SupplyConserved TokenState.deployed :=
  ⟨.zero, by decide⟩

/-- Minting and burning change one balance and the supply by the same amount. -/
theorem addsUpTo_issued {t : TokenState} (h : AddsUpTo t.balances t.totalSupply)
    (account : Address) (amount : Int) :
    AddsUpTo (issued t account amount).balances
      (issued t account amount).totalSupply := by
  have hupdate := h.update account (t.balances account + amount)
  have hdifference : t.totalSupply + (t.balances account + amount -
      t.balances account) = t.totalSupply + amount := by
    ring
  rw [hdifference] at hupdate
  exact hupdate

/-- Every call but `initialize` conserves the supply. -/
theorem supplyConserved_of_effect {ctx : Context} {t t' : TokenState}
    {call : TokenCall} (heffect : TokenEffect ctx t call t')
    (hother : isInitialize call = false) (h : SupplyConserved t) :
    SupplyConserved t' := by
  obtain ⟨hadds, hcap⟩ := h
  cases heffect with
  | initialized admin initialSupply _ _ _ => cases hother
  | transferred source target amount _ _ _ _ =>
      exact ⟨hadds.move source target amount, hcap⟩
  | transferredFrom spender source target amount _ _ _ _ =>
      exact ⟨hadds.move source target amount, hcap⟩
  | minted caller target amount _ _ _ hbelow _ =>
      exact ⟨addsUpTo_issued hadds target amount, hbelow⟩
  | burned source amount _ hpos _ _ =>
      refine ⟨addsUpTo_issued hadds source (-amount), ?_⟩
      show t.totalSupply + -amount ≤ maxSupply
      omega
  | burnedFrom spender source amount _ hpos _ _ _ =>
      have hspent : AddsUpTo (spend t source spender amount).balances
          (spend t source spender amount).totalSupply := hadds
      refine ⟨addsUpTo_issued hspent source (-amount), ?_⟩
      show t.totalSupply + -amount ≤ maxSupply
      omega
  | _ => exact ⟨hadds, hcap⟩

/-- The first `initialize` starts from no tokens at all. -/
theorem supplyConserved_of_deployed {t t' : TokenState} {inv : TokenInvocation}
    (hdeployed : t = TokenState.deployed) (hsucceeds : TokenSucceeds t inv t')
    (hstarts : isInitialize inv.call = true) : SupplyConserved t' := by
  subst hdeployed
  have heffect := tokenEffect_of_succeeds hsucceeds
  generalize inv.call = call at heffect hstarts
  cases heffect with
  | initialized admin initialSupply _ _ hhigh =>
      refine ⟨?_, hhigh⟩
      have hzero : AddsUpTo (fun _ : Address => 0) 0 := .zero
      have hupdate := hzero.update admin initialSupply
      simp only [Int.sub_zero, Int.zero_add] at hupdate
      exact hupdate
  | _ => cases hstarts

theorem supplyConserved_of_first {first : TokenEntry} {t : TokenState}
    (hrun : TokenReaches [first] t)
    (hstarts : isInitialize first.input.call = true) : SupplyConserved first.after := by
  have hfirst : TokenReaches ([] ++ first :: []) t := hrun
  obtain ⟨hbefore, hcases⟩ := hfirst.entry_cases
  have hdeployed : first.before = TokenState.deployed := hbefore.of_nil
  rcases hcases with hsucceeds | ⟨_, hsame⟩
  · exact supplyConserved_of_deployed hdeployed hsucceeds hstarts
  · rw [hsame, hdeployed]
    exact supplyConserved_deployed

/-- In every run with one `initialize`, at its start, the balances of all accounts
add up to the supply, and the supply is within its cap. -/
theorem supply_conserved {later : TokenHistory} {first : TokenEntry}
    {t : TokenState} (hrun : TokenReaches (later ++ [first]) t)
    (honce : OnceInitialized later first) :
    AddsUpTo t.balances t.totalSupply ∧ t.totalSupply ≤ maxSupply := by
  refine System.Run.persists (P := SupplyConserved)
    (Q := fun _ inv => isInitialize inv.call = false) ?_ hrun honce.once
    (supplyConserved_of_first hrun.upTo honce.starts)
  intro history t inv _ _ hother h
  rcases tokenStep_cases t inv with hsucceeds | ⟨_, hsame⟩
  · exact supplyConserved_of_effect (tokenEffect_of_succeeds hsucceeds) hother h
  · show SupplyConserved (tokenStep t inv)
    rw [hsame]
    exact h

/-- A self-transfer, a `transfer_from` with a negative amount that leaves a balance
below zero, and a burn. -/
theorem supply_conserved_of_negative_transfer :
    ∃ (later : TokenHistory) (first : TokenEntry) (t : TokenState),
      TokenReaches (later ++ [first]) t ∧ OnceInitialized later first ∧
        t.balances Sample.employee = -200 ∧ t.totalSupply = 900 ∧
        AddsUpTo t.balances t.totalSupply ∧ t.totalSupply ≤ maxSupply := by
  have hrun := Sample.playToken_reaches [
    Sample.invokeToken 1 Sample.admin (.initializeToken Sample.admin 500),
    Sample.invokeToken 2 Sample.admin (.mint Sample.admin Sample.employer 500),
    Sample.invokeToken 3 Sample.admin (.transfer Sample.admin Sample.admin 70),
    Sample.invokeToken 4 Sample.treasury (.transferFrom Sample.treasury
      Sample.treasury Sample.employee (-200)),
    Sample.invokeToken 5 Sample.employer (.burn Sample.employer 100)] (by decide)
  have hsplit : TokenReaches ([_, _, _, _] ++ [_]) _ := hrun
  exact ⟨_, _, _, hsplit, ⟨rfl, by decide⟩, by decide, by decide,
    supply_conserved hsplit ⟨rfl, by decide⟩⟩

/-! ## Ownership -/

/-- A spender the call is signed by gave up the amount that left the owner's
balance from its allowance. -/
structure AllowanceSpent (ctx : Context) (t t' : TokenState)
    (owner spender : Address) (amount : Int) : Prop where
  signed : spender ∈ ctx.auth
  positive : 0 < amount
  balance : t'.balances owner = t.balances owner - amount
  allowance : t'.allowances owner spender = t.allowances owner spender - amount

/-- The calls that may lower the balance of an owner. -/
inductive DebitAuthorised (ctx : Context) (t t' : TokenState) (owner : Address) :
    TokenCall → Prop
  | transfer (target : Address) (amount : Int) (hsigned : owner ∈ ctx.auth) :
      DebitAuthorised ctx t t' owner (.transfer owner target amount)
  | burn (amount : Int) (hsigned : owner ∈ ctx.auth) :
      DebitAuthorised ctx t t' owner (.burn owner amount)
  | transferFrom (spender target : Address) (amount : Int)
      (hspent : AllowanceSpent ctx t t' owner spender amount) :
      DebitAuthorised ctx t t' owner (.transferFrom spender owner target amount)
  | burnFrom (spender : Address) (amount : Int)
      (hspent : AllowanceSpent ctx t t' owner spender amount) :
      DebitAuthorised ctx t t' owner (.burnFrom spender owner amount)

/-- Every account that lost something in a call lost it by its own will. -/
def DebitsAuthorised (ctx : Context) (t t' : TokenState) (call : TokenCall) :
    Prop :=
  ∀ owner, t'.balances owner < t.balances owner →
    DebitAuthorised ctx t t' owner call

def BalancesNonneg (t : TokenState) : Prop :=
  ∀ account, 0 ≤ t.balances account

/-- The call does not move a negative amount to another account. -/
def SparesTarget (call : TokenCall) : Prop :=
  ∀ spender source target amount,
    call = .transferFrom spender source target amount →
      0 ≤ amount ∨ source = target

/-- Moving an amount takes it from the source alone, and only when the target is
another account. -/
theorem source_of_move_lt {balances : Address → Int} {source target : Address}
    {amount : Int} (hspares : 0 ≤ amount ∨ source = target) {owner : Address}
    (hless : move balances source target amount owner < balances owner) :
    source = owner ∧ 0 < amount ∧
      move balances source target amount owner = balances owner - amount := by
  rw [move_apply] at hless ⊢
  by_cases hsource : source = owner
  · by_cases htarget : target = owner
    · rw [if_pos hsource, if_pos htarget] at hless
      omega
    · rw [if_pos hsource, if_neg htarget] at hless ⊢
      exact ⟨hsource, by omega, by omega⟩
  · by_cases htarget : target = owner
    · rw [if_neg hsource, if_pos htarget] at hless
      rcases hspares with hnonneg | rfl
      · omega
      · exact absurd htarget hsource
    · rw [if_neg hsource, if_neg htarget] at hless
      omega

/-- A covered amount leaves no balance negative. -/
theorem move_nonneg {balances : Address → Int} {source target : Address}
    {amount : Int} (hspares : 0 ≤ amount ∨ source = target)
    (hcovered : amount ≤ balances source) (h : ∀ account, 0 ≤ balances account)
    (account : Address) : 0 ≤ move balances source target amount account := by
  have hbefore := h account
  by_cases hless : move balances source target amount account < balances account
  · obtain ⟨rfl, _, hmoved⟩ := source_of_move_lt hspares hless
    omega
  · omega

theorem update_nonneg {balances : Address → Int} {amount : Int}
    (hamount : 0 ≤ amount) (h : ∀ account, 0 ≤ balances account)
    (owner : Address) :
    ∀ account, 0 ≤ Function.update balances owner amount account := by
  refine (Function.forall_update_iff balances fun _ balance => 0 ≤ balance).mpr ?_
  exact ⟨hamount, fun account _ => h account⟩

/-- No call that spares its target makes a balance negative. -/
theorem balancesNonneg_of_effect {ctx : Context} {t t' : TokenState}
    {call : TokenCall} (heffect : TokenEffect ctx t call t')
    (hspares : SparesTarget call) (h : BalancesNonneg t) : BalancesNonneg t' := by
  cases heffect with
  | initialized admin initialSupply _ hlow _ => exact update_nonneg hlow h admin
  | transferred source target amount _ hpos hcovered _ =>
      exact move_nonneg (Or.inl (le_of_lt hpos)) hcovered h
  | transferredFrom spender source target amount _ _ hcovered _ =>
      exact move_nonneg (hspares spender source target amount rfl) hcovered h
  | minted caller target amount _ _ hpos _ _ =>
      exact update_nonneg (Int.add_nonneg (h target) (le_of_lt hpos)) h target
  | burned source amount _ _ hcovered _ =>
      exact update_nonneg (by omega) h source
  | burnedFrom spender source amount _ _ _ hcovered _ =>
      have hrest : 0 ≤ t.balances source + -amount := by omega
      exact update_nonneg hrest h source
  | _ => exact h

/-- Rewriting one balance lowers no other one. -/
theorem eq_of_update_lt {balances : Address → Int} {account owner : Address}
    {amount : Int}
    (hless : Function.update balances account amount owner < balances owner) :
    owner = account ∧ amount < balances owner := by
  by_cases hsame : owner = account
  · subst hsame
    rw [Function.update_self] at hless
    exact ⟨rfl, hless⟩
  · rw [Function.update_of_ne hsame] at hless
    exact absurd hless (lt_irrefl _)

theorem allowance_of_spend (t : TokenState) (owner spender : Address)
    (amount : Int) :
    (spend t owner spender amount).allowances owner spender =
      t.allowances owner spender - amount := by
  simp [spend, setAllowance]

/-- Every call after the start that spares its target takes only from owners who
agreed. -/
theorem debitsAuthorised_of_effect {ctx : Context} {t t' : TokenState}
    {call : TokenCall} (heffect : TokenEffect ctx t call t')
    (hother : isInitialize call = false) (hspares : SparesTarget call) :
    DebitsAuthorised ctx t t' call := by
  intro owner hless
  cases heffect with
  | initialized admin initialSupply _ _ _ => cases hother
  | transferred source target amount hauth hpos _ _ =>
      obtain ⟨rfl, _⟩ := source_of_move_lt (Or.inl (le_of_lt hpos)) hless
      exact .transfer target amount hauth
  | transferredFrom spender source target amount hauth _ _ _ =>
      obtain ⟨rfl, hpos, hmoved⟩ :=
        source_of_move_lt (hspares spender source target amount rfl) hless
      exact .transferFrom spender target amount
        ⟨hauth, hpos, hmoved, allowance_of_spend t source spender amount⟩
  | minted caller target amount _ _ hpos _ _ =>
      obtain ⟨rfl, hlower⟩ := eq_of_update_lt hless
      omega
  | burned source amount hauth _ _ _ =>
      obtain ⟨rfl, _⟩ := eq_of_update_lt hless
      exact .burn amount hauth
  | burnedFrom spender source amount hauth hpos _ _ _ =>
      obtain ⟨rfl, _⟩ := eq_of_update_lt hless
      refine .burnFrom spender amount
        ⟨hauth, hpos, ?_, allowance_of_spend t owner spender amount⟩
      exact Function.update_self owner (t.balances owner + -amount) t.balances
  | _ => exact absurd hless (lt_irrefl _)

/-- A negative amount is taken from the target, who has no part in the call. -/
theorem sparesTarget_of_debitsAuthorised {ctx : Context} {t t' : TokenState}
    {call : TokenCall} (heffect : TokenEffect ctx t call t')
    (h : DebitsAuthorised ctx t t' call) : SparesTarget call := by
  intro spender source target amount hcall
  subst hcall
  by_contra hneither
  obtain ⟨hnegative, hne⟩ := not_or.mp hneither
  cases heffect with
  | transferredFrom _ _ _ _ _ _ _ _ =>
      have hless : move t.balances source target amount target <
          t.balances target := by
        rw [move_apply, if_pos rfl, if_neg hne]
        omega
      cases h target hless with
      | transferFrom _ _ _ _ => exact hne rfl

/-- The call of an entry panicked, or it moved no negative amount to another
account. -/
def Spares (t : TokenState) (inv : TokenInvocation) : Prop :=
  SparesTarget inv.call ∨ TokenFails t inv

theorem sparesTarget_at_start {call : TokenCall}
    (h : isInitialize call = true) : SparesTarget call := by
  intro spender source target amount hcall
  subst hcall
  cases h

theorem balancesNonneg_of_run {history : TokenHistory} {t : TokenState}
    (hrun : TokenReaches history t)
    (hspares : ∀ entry ∈ history, Spares entry.before entry.input) :
    BalancesNonneg t := by
  induction hrun using System.Run.induction with
  | start t hstart =>
      intro account
      rw [show t = TokenState.deployed from hstart]
      exact le_rfl
  | next history t inv _ _ ih =>
      obtain ⟨hlast, hearlier⟩ := List.forall_mem_cons.mp hspares
      show BalancesNonneg (tokenStep t inv)
      rcases tokenStep_cases t inv with hsucceeds | ⟨_, hsame⟩
      · rcases hlast with hsparesTarget | hfails
        · exact balancesNonneg_of_effect (tokenEffect_of_succeeds hsucceeds)
            hsparesTarget (ih hearlier)
        · exact absurd hfails hsucceeds.not_fails
      · rw [hsame]
        exact ih hearlier

theorem debitsAuthorised_of_same (ctx : Context) (t : TokenState)
    (call : TokenCall) : DebitsAuthorised ctx t t call :=
  fun _ hless => absurd hless (lt_irrefl _)

/-- The first `initialize` takes nothing from anybody. -/
theorem debitsAuthorised_of_first {first : TokenEntry} {t : TokenState}
    (hrun : TokenReaches [first] t)
    (hstarts : isInitialize first.input.call = true) :
    DebitsAuthorised first.input.toContext first.before first.after
      first.input.call := by
  have hfirst : TokenReaches ([] ++ first :: []) t := hrun
  intro owner hless
  have hnonneg : BalancesNonneg first.after := by
    refine balancesNonneg_of_run hfirst.upTo (List.forall_mem_singleton.mpr ?_)
    exact Or.inl (sparesTarget_at_start hstarts)
  have hzero : first.before.balances owner = 0 := by
    rw [show first.before = TokenState.deployed from hfirst.entry_cases.1.of_nil]
    rfl
  have hafter := hnonneg owner
  omega

/-- In every run with one `initialize`, at its start: all balances stay
non-negative and every debit is authorised, exactly when no `transfer_from` that
returned moved a negative amount to another account. -/
theorem ownership_iff {later : TokenHistory} {first : TokenEntry} {t : TokenState}
    (hrun : TokenReaches (later ++ [first]) t)
    (honce : OnceInitialized later first) :
    (System.Throughout BalancesNonneg (later ++ [first]) t ∧
        ∀ entry ∈ later ++ [first], DebitsAuthorised entry.input.toContext
          entry.before entry.after entry.input.call) ↔
      ∀ entry ∈ later, Spares entry.before entry.input := by
  constructor
  · rintro ⟨_, hdebits⟩ entry hentry
    have hmem : entry ∈ later ++ [first] := List.mem_append_left _ hentry
    obtain ⟨newer, older, hsplit⟩ := List.append_of_mem hmem
    rw [hsplit] at hrun
    rcases hrun.entry_cases.2 with hsucceeds | ⟨hfails, _⟩
    · exact Or.inl (sparesTarget_of_debitsAuthorised
        (tokenEffect_of_succeeds hsucceeds) (hdebits entry hmem))
    · exact Or.inr hfails
  · intro hspares
    -- the first call finds no balance to take from
    have hall : ∀ entry ∈ later ++ [first], Spares entry.before entry.input := by
      refine List.forall_mem_append.mpr
        ⟨hspares, List.forall_mem_singleton.mpr (Or.inl ?_)⟩
      exact sparesTarget_at_start honce.starts
    refine ⟨⟨balancesNonneg_of_run hrun hall, ?_⟩, ?_⟩
    · intro entry hentry
      obtain ⟨newer, older, hsplit⟩ := List.append_of_mem hentry
      rw [hsplit] at hrun hall
      refine balancesNonneg_of_run hrun.entry_cases.1 ?_
      intro earlier hearlier
      exact hall earlier (List.mem_append_right newer (List.mem_cons_of_mem _ hearlier))
    · rw [List.forall_mem_append, List.forall_mem_singleton]
      refine ⟨?_, debitsAuthorised_of_first hrun.upTo honce.starts⟩
      intro entry hentry
      obtain ⟨newer, older, hsplit⟩ :=
        List.append_of_mem (List.mem_append_left [first] hentry)
      rw [hsplit] at hrun
      rcases hrun.entry_cases.2 with hsucceeds | ⟨_, hsame⟩
      · rcases hspares entry hentry with hsparesTarget | hfails
        · exact debitsAuthorised_of_effect (tokenEffect_of_succeeds hsucceeds)
            (honce.once entry hentry) hsparesTarget
        · exact absurd hfails hsucceeds.not_fails
      · rw [hsame]
        exact debitsAuthorised_of_same _ _ _

/-- A spender moves tokens within its allowance. -/
theorem ownership_of_allowance :
    ∃ (later : TokenHistory) (first : TokenEntry) (t : TokenState),
      TokenReaches (later ++ [first]) t ∧ OnceInitialized later first ∧
        t.balances Sample.employee = 200 ∧
        System.Throughout BalancesNonneg (later ++ [first]) t ∧
        ∀ entry ∈ later ++ [first], DebitsAuthorised entry.input.toContext
          entry.before entry.after entry.input.call := by
  have hrun := Sample.playToken_reaches [
    Sample.invokeToken 1 Sample.admin (.initializeToken Sample.admin 500),
    Sample.invokeToken 2 Sample.admin (.approve Sample.admin Sample.employer 300),
    Sample.invokeToken 3 Sample.employer (.transferFrom Sample.employer
      Sample.admin Sample.employee 200)] (by decide)
  have hsplit : TokenReaches ([_, _] ++ [_]) _ := hrun
  refine ⟨_, _, _, hsplit, ⟨rfl, by decide⟩, by decide,
    (ownership_iff hsplit ⟨rfl, by decide⟩).mpr ?_⟩
  intro entry hentry
  left
  simp only [List.mem_cons, List.not_mem_nil, or_false] at hentry
  rcases hentry with rfl | rfl
  · rintro spender source target amount ⟨⟩
    exact Or.inl (by decide)
  · rintro spender source target amount ⟨⟩

/-- Without any allowance, somebody takes 600 tokens from the administrator, who
has 500. -/
theorem negative_transfer_takes_tokens :
    ∃ (later : TokenHistory) (first : TokenEntry) (t : TokenState),
      TokenReaches (later ++ [first]) t ∧ OnceInitialized later first ∧
        t.balances Sample.admin = -100 ∧ t.balances Sample.treasury = 600 ∧
        ¬ (System.Throughout BalancesNonneg (later ++ [first]) t ∧
          ∀ entry ∈ later ++ [first], DebitsAuthorised entry.input.toContext
            entry.before entry.after entry.input.call) := by
  have hrun := Sample.playToken_reaches [
    Sample.invokeToken 1 Sample.admin (.initializeToken Sample.admin 500),
    Sample.invokeToken 2 Sample.treasury (.transferFrom Sample.treasury
      Sample.treasury Sample.admin (-600))] (by decide)
  have hsplit : TokenReaches ([_] ++ [_]) _ := hrun
  refine ⟨_, _, _, hsplit, ⟨rfl, by decide⟩, by decide, by decide, ?_⟩
  rintro ⟨⟨hnonneg, _⟩, _⟩
  exact absurd (hnonneg Sample.admin) (by decide)

end Properties
end Paystream
