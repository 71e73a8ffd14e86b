import Paystream.Contract.Token

/-!
# What one call on the token does

`TokenEffect` says what each entry point of the token found and what it leaves,
in terms of the stored maps before the call; the order in which the code reads
and writes two balances has become the one function `move`.
`tokenEffect_of_succeeds` shows that a call that returned did exactly that.

Of the checks for overflow those on balances are kept, so that every stored
balance is an `i128` value (`balancesFit_of_effect`).
-/

namespace Paystream
namespace Semantics

open Library
open Contract
open Contract.TokenContract

/-- The allowance of a spender reduced by an amount. -/
def spend (t : TokenState) (owner spender : Address) (amount : Int) : TokenState :=
  setAllowance t owner spender (t.allowances owner spender - amount)

/-- The balances after a transfer. -/
def moved (t : TokenState) (source target : Address) (amount : Int) :
    TokenState :=
  { t with balances := move t.balances source target amount }

/-- One balance and the supply changed by the same amount. -/
def issued (t : TokenState) (account : Address) (amount : Int) : TokenState :=
  { t with
    balances := Function.update t.balances account (t.balances account + amount)
    totalSupply := t.totalSupply + amount }

/-- Neither the debit nor the credit of a transfer overflows. -/
def TransferFits (balances : Address → Int) (source target : Address)
    (amount : Int) : Prop :=
  InI128 (balances source - amount) ∧
    InI128 (move balances source target amount target)

/-- What a call found, and the state it leaves. -/
inductive TokenEffect (ctx : Context) (t : TokenState) :
    TokenCall → TokenState → Prop
  | initialized (admin : Address) (initialSupply : Int)
      (hauth : admin ∈ ctx.auth) (hlow : 0 ≤ initialSupply)
      (hhigh : initialSupply ≤ maxSupply) :
      TokenEffect ctx t (.initializeToken admin initialSupply)
        (setTotalSupply (setBalance (setAdmin t admin) admin initialSupply)
          initialSupply)
  | transferred (source target : Address) (amount : Int)
      (hauth : source ∈ ctx.auth) (hpos : 0 < amount)
      (hcovered : amount ≤ t.balances source)
      (hfits : TransferFits t.balances source target amount) :
      TokenEffect ctx t (.transfer source target amount)
        (moved t source target amount)
  | approved (owner spender : Address) (amount : Int) (hauth : owner ∈ ctx.auth) :
      TokenEffect ctx t (.approve owner spender amount)
        (setAllowance t owner spender amount)
  | minterAdded (admin minter : Address) (hauth : admin ∈ ctx.auth)
      (hadmin : t.admin = some admin) :
      TokenEffect ctx t (.addMinter admin minter) (setMinter t minter true)
  | minterRemoved (admin minter : Address) (hauth : admin ∈ ctx.auth)
      (hadmin : t.admin = some admin) :
      TokenEffect ctx t (.removeMinter admin minter) (setMinter t minter false)
  | transferredFrom (spender source target : Address) (amount : Int)
      (hauth : spender ∈ ctx.auth)
      (hallowed : amount ≤ t.allowances source spender)
      (hcovered : amount ≤ t.balances source)
      (hfits : TransferFits t.balances source target amount) :
      TokenEffect ctx t (.transferFrom spender source target amount)
        (moved (spend t source spender amount) source target amount)
  | minted (caller target : Address) (amount : Int) (hauth : caller ∈ ctx.auth)
      (hentitled : t.admin = some caller ∨ t.minters caller = true)
      (hpos : 0 < amount) (hcap : t.totalSupply + amount ≤ maxSupply)
      (hfits : InI128 (t.balances target + amount)) :
      TokenEffect ctx t (.mint caller target amount) (issued t target amount)
  | burned (source : Address) (amount : Int) (hauth : source ∈ ctx.auth)
      (hpos : 0 < amount) (hcovered : amount ≤ t.balances source)
      (hfits : InI128 (t.balances source + -amount)) :
      TokenEffect ctx t (.burn source amount) (issued t source (-amount))
  | burnedFrom (spender source : Address) (amount : Int)
      (hauth : spender ∈ ctx.auth) (hpos : 0 < amount)
      (hallowed : amount ≤ t.allowances source spender)
      (hcovered : amount ≤ t.balances source)
      (hfits : InI128 (t.balances source + -amount)) :
      TokenEffect ctx t (.burnFrom spender source amount)
        (issued (spend t source spender amount) source (-amount))
  | allowanceExpired (owner spender : Address) :
      TokenEffect ctx t (.allowanceExpires owner spender)
        (setAllowance t owner spender 0)
  | totalSupply : TokenEffect ctx t .totalSupply t
  | balance (owner : Address) : TokenEffect ctx t (.balance owner) t
  | isMinter (address : Address) : TokenEffect ctx t (.isMinter address) t

/-! ## Parts of the entry points -/

theorem add_eq_ok_iff (a b c : Int) :
    add a b = .ok c ↔ InI128 (a + b) ∧ a + b = c := by
  rw [add, expect_eq_ok_iff, checkedAdd_eq_some_iff]

theorem sub_eq_ok_iff (a b c : Int) :
    sub a b = .ok c ↔ InI128 (a - b) ∧ a - b = c := by
  rw [sub, expect_eq_ok_iff, checkedSub_eq_some_iff]

/-- The two writes of a transfer return exactly when the debit and the credit
stay within `i128`. -/
theorem moveBalance_eq_ok_iff (source target : Address) (amount : Int)
    (t t' : TokenState) :
    moveBalance source target amount t = .ok t' ↔
      TransferFits t.balances source target amount ∧
        t' = moved t source target amount := by
  have hcredited : move t.balances source target amount target =
      (setBalance t source (t.balances source - amount)).balances target + amount := by
    simp [move, setBalance]
  simp only [moveBalance, bind_eq_ok_iff, sub_eq_ok_iff, add_eq_ok_iff,
    pure_eq_ok_iff, TransferFits, hcredited]
  constructor
  · rintro ⟨_, ⟨hdebit, rfl⟩, _, ⟨hcredit, rfl⟩, rfl⟩
    exact ⟨⟨hdebit, hcredit⟩, rfl⟩
  · rintro ⟨⟨hdebit, hcredit⟩, rfl⟩
    exact ⟨_, ⟨hdebit, rfl⟩, _, ⟨hcredit, rfl⟩, rfl⟩

/-- `transfer` returns exactly when the source signed for a positive amount it
has, and nothing overflows. -/
theorem transfer_eq_ok_iff (ctx : Context) (source target : Address) (amount : Int)
    (t t' : TokenState) :
    transfer ctx source target amount t = .ok t' ↔
      source ∈ ctx.auth ∧ 0 < amount ∧ amount ≤ t.balances source ∧
        TransferFits t.balances source target amount ∧
        t' = moved t source target amount := by
  simp only [transfer, bind_eq_ok_iff, requireAuth_eq_ok_iff, ensure_eq_ok_iff,
    decide_eq_true_eq, moveBalance_eq_ok_iff, exists_const]

theorem burnBalance_ok {source : Address} {amount : Int} {t t' : TokenState}
    (h : burnBalance source amount t = .ok t') :
    InI128 (t.balances source + -amount) ∧ t' = issued t source (-amount) := by
  simp only [burnBalance, bind_eq_ok_iff, sub_eq_ok_iff, pure_eq_ok_iff] at h
  obtain ⟨_, ⟨hdebit, rfl⟩, _, ⟨_, rfl⟩, rfl⟩ := h
  exact ⟨hdebit, rfl⟩

theorem requireAdminOrMinter_ok {t : TokenState} {caller : Address}
    {result : Unit} (h : requireAdminOrMinter t caller = .ok result) :
    t.admin = some caller ∨ t.minters caller = true := by
  simp only [requireAdminOrMinter, getAdmin, bind_eq_ok_iff,
    expect_eq_ok_iff] at h
  obtain ⟨admin, hadmin, h⟩ := h
  split at h
  · rename_i hcaller
    exact Or.inl (hcaller ▸ hadmin)
  · exact Or.inr ((ensure_eq_ok_iff _ _ _).mp h)

theorem markMinter_ok {enabled : Bool} {ctx : Context} {admin minter : Address}
    {t t' : TokenState} (h : markMinter enabled ctx admin minter t = .ok t') :
    admin ∈ ctx.auth ∧ t.admin = some admin ∧ t' = setMinter t minter enabled := by
  simp only [markMinter, getAdmin, bind_eq_ok_iff, requireAuth_eq_ok_iff,
    expect_eq_ok_iff, ensure_eq_ok_iff, decide_eq_true_eq, pure_eq_ok_iff] at h
  obtain ⟨_, hauth, _, hadmin, _, rfl, rfl⟩ := h
  exact ⟨hauth, hadmin, rfl⟩

/-! ## All calls -/

theorem execToken_effect {ctx : Context} {call : TokenCall} {t t' : TokenState}
    (h : execToken ctx call t = .ok t') : TokenEffect ctx t call t' := by
  cases call with
  | initializeToken admin initialSupply =>
      simp only [execToken, initializeToken, bind_eq_ok_iff,
        requireAuth_eq_ok_iff, ensure_eq_ok_iff, decide_eq_true_eq,
        pure_eq_ok_iff] at h
      obtain ⟨_, hauth, _, hlow, _, hhigh, rfl⟩ := h
      exact .initialized admin initialSupply hauth hlow hhigh
  | transfer source target amount =>
      obtain ⟨hauth, hpos, hcovered, hfits, rfl⟩ :=
        (transfer_eq_ok_iff ctx source target amount t t').mp h
      exact .transferred source target amount hauth hpos hcovered hfits
  | approve owner spender amount =>
      simp only [execToken, approve, bind_eq_ok_iff, requireAuth_eq_ok_iff,
        pure_eq_ok_iff] at h
      obtain ⟨_, hauth, rfl⟩ := h
      exact .approved owner spender amount hauth
  | addMinter admin minter =>
      obtain ⟨hauth, hadmin, rfl⟩ := markMinter_ok h
      exact .minterAdded admin minter hauth hadmin
  | removeMinter admin minter =>
      obtain ⟨hauth, hadmin, rfl⟩ := markMinter_ok h
      exact .minterRemoved admin minter hauth hadmin
  | transferFrom spender source target amount =>
      simp only [execToken, transferFrom, bind_eq_ok_iff, requireAuth_eq_ok_iff,
        ensure_eq_ok_iff, decide_eq_true_eq, sub_eq_ok_iff,
        moveBalance_eq_ok_iff] at h
      obtain ⟨_, hauth, _, hallowed, _, hcovered, _, ⟨_, rfl⟩, hfits, rfl⟩ := h
      exact .transferredFrom spender source target amount hauth hallowed hcovered
        hfits
  | mint caller target amount =>
      simp only [execToken, mint, bind_eq_ok_iff, requireAuth_eq_ok_iff,
        ensure_eq_ok_iff, decide_eq_true_eq, expect_eq_ok_iff,
        checkedAdd_eq_some_iff, add_eq_ok_iff, pure_eq_ok_iff] at h
      obtain ⟨_, hauth, _, hentitled, _, hpos, _, ⟨_, rfl⟩, _, hcap, _,
        ⟨hfits, rfl⟩, rfl⟩ := h
      exact .minted caller target amount hauth (requireAdminOrMinter_ok hentitled)
        hpos hcap hfits
  | burn source amount =>
      simp only [execToken, burn, bind_eq_ok_iff, requireAuth_eq_ok_iff,
        ensure_eq_ok_iff, decide_eq_true_eq] at h
      obtain ⟨_, hauth, _, hpos, _, hcovered, h⟩ := h
      obtain ⟨hfits, rfl⟩ := burnBalance_ok h
      exact .burned source amount hauth hpos hcovered hfits
  | burnFrom spender source amount =>
      simp only [execToken, burnFrom, bind_eq_ok_iff, requireAuth_eq_ok_iff,
        ensure_eq_ok_iff, decide_eq_true_eq, sub_eq_ok_iff] at h
      obtain ⟨_, hauth, _, hpos, _, hallowed, _, hcovered, _, ⟨_, rfl⟩, h⟩ := h
      obtain ⟨hfits, rfl⟩ := burnBalance_ok h
      exact .burnedFrom spender source amount hauth hpos hallowed hcovered hfits
  | allowanceExpires owner spender =>
      cases h
      exact .allowanceExpired owner spender
  | totalSupply =>
      cases h
      exact .totalSupply
  | balance owner =>
      cases h
      exact .balance owner
  | isMinter address =>
      cases h
      exact .isMinter address

theorem tokenEffect_of_succeeds {t t' : TokenState} {inv : TokenInvocation}
    (h : TokenSucceeds t inv t') : TokenEffect inv.toContext t inv.call t' :=
  execToken_effect h

/-! ## The type of the balances -/

/-- The balances are `i128` values. -/
def BalancesFit (balances : Address → Int) : Prop :=
  ∀ account, InI128 (balances account)

theorem BalancesFit.update {balances : Address → Int} (h : BalancesFit balances)
    {amount : Int} (hamount : InI128 amount) (owner : Address) :
    BalancesFit (Function.update balances owner amount) := by
  refine (Function.forall_update_iff balances fun _ balance => InI128 balance).mpr ?_
  exact ⟨hamount, fun account _ => h account⟩

/-- A transfer rewrites the source and then the target. -/
theorem BalancesFit.move {balances : Address → Int} (h : BalancesFit balances)
    {source target : Address} {amount : Int}
    (hfits : TransferFits balances source target amount) :
    BalancesFit (move balances source target amount) := by
  obtain ⟨hdebit, hcredit⟩ := hfits
  have hcredited : InI128 (Function.update balances source
      (balances source - amount) target + amount) := by
    simpa only [Library.move, Function.update_self] using hcredit
  exact (h.update hdebit source).update hcredited target

/-- No call stores a balance outside `i128`. -/
theorem balancesFit_of_effect {ctx : Context} {t t' : TokenState}
    {call : TokenCall} (heffect : TokenEffect ctx t call t')
    (h : BalancesFit t.balances) : BalancesFit t'.balances := by
  cases heffect with
  | initialized admin initialSupply _ hlow hhigh =>
      have hfits : InI128 initialSupply :=
        ⟨le_trans (by decide) hlow, le_trans hhigh (by decide)⟩
      exact h.update hfits admin
  | transferred source target amount _ _ _ hfits => exact h.move hfits
  | transferredFrom spender source target amount _ _ _ hfits => exact h.move hfits
  | minted caller target amount _ _ _ _ hfits => exact h.update hfits target
  | burned source amount _ _ _ hfits => exact h.update hfits source
  | burnedFrom spender source amount _ _ _ _ hfits => exact h.update hfits source
  | _ => exact h

end Semantics
end Paystream
