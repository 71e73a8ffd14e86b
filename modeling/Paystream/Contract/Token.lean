import Paystream.Contract.World
import Paystream.Library.History

/-!
# The token contract

The repository's own token, function by function: `lib.rs` and `storage.rs` of
the token crate.  A missing balance or allowance reads as `0`, a missing minter
mark as `false`, and reading the administrator before one is stored panics.

The release profile keeps overflow checks on, so the plain `+` and `-` on `i128`
panic outside the range (`add`, `sub`).  As in the stream contract, persistent and
instance entries are never archived in the model.  Allowances live in temporary
storage and nothing extends their life, so the ledger deletes them at some time:
`allowanceExpires` stands among the calls, at any place of a run.
-/

namespace Paystream
namespace Contract

open Library

/-- The storage of the token contract. -/
structure TokenState where
  balances : Address → Int
  /-- by owner, then by spender -/
  allowances : Address → Address → Int
  totalSupply : Int
  admin : Option Address
  minters : Address → Bool

/-- A freshly deployed token. -/
def TokenState.deployed : TokenState where
  balances := fun _ => 0
  allowances := fun _ _ => 0
  totalSupply := 0
  admin := none
  minters := fun _ => false

namespace TokenContract

def maxSupply : Int := 1000000000000000000

def errSupplyCapExceeded : String := "supply cap exceeded"
def errNotAuthorizedMint : String := "not authorized to mint"

/-! ## Storage -/

def setBalance (t : TokenState) (owner : Address) (amount : Int) : TokenState :=
  { t with balances := Function.update t.balances owner amount }

def setAllowance (t : TokenState) (owner spender : Address) (amount : Int) :
    TokenState :=
  { t with
    allowances := Function.update t.allowances owner
      (Function.update (t.allowances owner) spender amount) }

def setTotalSupply (t : TokenState) (supply : Int) : TokenState :=
  { t with totalSupply := supply }

/-- `get_admin`. -/
def getAdmin (t : TokenState) : Except String Address :=
  expect t.admin "admin not set"

def setAdmin (t : TokenState) (admin : Address) : TokenState :=
  { t with admin := some admin }

def setMinter (t : TokenState) (address : Address) (enabled : Bool) :
    TokenState :=
  { t with minters := Function.update t.minters address enabled }

/-- The plain `+` of `i128`. -/
def add (a b : Int) : Except String Int :=
  expect (checkedAdd a b) "attempt to add with overflow"

/-- The plain `-` of `i128`. -/
def sub (a b : Int) : Except String Int :=
  expect (checkedSub a b) "attempt to subtract with overflow"

/-! ## Entry points -/

/-- `initialize`.  Nothing keeps it from being called again. -/
def initializeToken (ctx : Context) (admin : Address) (initialSupply : Int)
    (t : TokenState) : Except String TokenState := do
  requireAuth ctx admin
  ensure (decide (0 ≤ initialSupply)) "amount must be positive"
  ensure (decide (initialSupply ≤ maxSupply)) errSupplyCapExceeded
  return setTotalSupply (setBalance (setAdmin t admin) admin initialSupply)
    initialSupply

/-- The two writes of a transfer.  The target's balance is read after the source
was debited. -/
def moveBalance (source target : Address) (amount : Int) (t : TokenState) :
    Except String TokenState := do
  let debited ← sub (t.balances source) amount
  let t := setBalance t source debited
  let credited ← add (t.balances target) amount
  return setBalance t target credited

/-- `transfer`. -/
def transfer (ctx : Context) (source target : Address) (amount : Int)
    (t : TokenState) : Except String TokenState := do
  requireAuth ctx source
  ensure (decide (0 < amount)) "amount must be positive"
  ensure (decide (amount ≤ t.balances source)) "insufficient balance"
  moveBalance source target amount t

/-- `approve`. -/
def approve (ctx : Context) (owner spender : Address) (amount : Int)
    (t : TokenState) : Except String TokenState := do
  requireAuth ctx owner
  return setAllowance t owner spender amount

/-- `require_admin_or_minter`. -/
def requireAdminOrMinter (t : TokenState) (caller : Address) :
    Except String Unit := do
  let admin ← getAdmin t
  if caller = admin then
    return ()
  else
    ensure (t.minters caller) errNotAuthorizedMint

/-- `add_minter` and `remove_minter`, which differ in the mark they write. -/
def markMinter (enabled : Bool) (ctx : Context) (admin minter : Address)
    (t : TokenState) : Except String TokenState := do
  requireAuth ctx admin
  let stored ← getAdmin t
  ensure (decide (stored = admin)) "not admin"
  return setMinter t minter enabled

/-- `add_minter`. -/
def addMinter : Context → Address → Address → TokenState →
    Except String TokenState :=
  markMinter true

/-- `remove_minter`. -/
def removeMinter : Context → Address → Address → TokenState →
    Except String TokenState :=
  markMinter false

/-- `transfer_from`: unlike the other calls that move tokens, it does not look at
the sign of the amount. -/
def transferFrom (ctx : Context) (spender source target : Address) (amount : Int)
    (t : TokenState) : Except String TokenState := do
  requireAuth ctx spender
  let allowed := t.allowances source spender
  ensure (decide (amount ≤ allowed)) "allowance exceeded"
  ensure (decide (amount ≤ t.balances source)) "insufficient balance"
  let rest ← sub allowed amount
  moveBalance source target amount (setAllowance t source spender rest)

/-- `mint`. -/
def mint (ctx : Context) (caller target : Address) (amount : Int)
    (t : TokenState) : Except String TokenState := do
  requireAuth ctx caller
  requireAdminOrMinter t caller
  ensure (decide (0 < amount)) "amount must be positive"
  let newSupply ← expect (checkedAdd t.totalSupply amount) "supply overflow"
  ensure (decide (newSupply ≤ maxSupply)) errSupplyCapExceeded
  let credited ← add (t.balances target) amount
  return setTotalSupply (setBalance t target credited) newSupply

/-- The two writes of a burn. -/
def burnBalance (source : Address) (amount : Int) (t : TokenState) :
    Except String TokenState := do
  let debited ← sub (t.balances source) amount
  let t := setBalance t source debited
  let supply ← sub t.totalSupply amount
  return setTotalSupply t supply

/-- `burn`. -/
def burn (ctx : Context) (source : Address) (amount : Int) (t : TokenState) :
    Except String TokenState := do
  requireAuth ctx source
  ensure (decide (0 < amount)) "amount must be positive"
  ensure (decide (amount ≤ t.balances source)) "insufficient balance"
  burnBalance source amount t

/-- `burn_from`. -/
def burnFrom (ctx : Context) (spender source : Address) (amount : Int)
    (t : TokenState) : Except String TokenState := do
  requireAuth ctx spender
  ensure (decide (0 < amount)) "amount must be positive"
  let allowed := t.allowances source spender
  ensure (decide (amount ≤ allowed)) "allowance exceeded"
  ensure (decide (amount ≤ t.balances source)) "insufficient balance"
  let rest ← sub allowed amount
  burnBalance source amount (setAllowance t source spender rest)

end TokenContract

/-! ## Calls and runs -/

/-- The ledger deletes the entry of an allowance, which then reads as `0`. -/
def expireAllowance (t : TokenState) (owner spender : Address) : TokenState :=
  TokenContract.setAllowance t owner spender 0

/-- The entry points, and the deletion of an expired allowance by the ledger, which
nobody calls or signs.  The last three return a stored value and leave everything as
it is. -/
inductive TokenCall
  | initializeToken (admin : Address) (initialSupply : Int)
  | transfer (source target : Address) (amount : Int)
  | approve (owner spender : Address) (amount : Int)
  | addMinter (admin minter : Address)
  | removeMinter (admin minter : Address)
  | transferFrom (spender source target : Address) (amount : Int)
  | mint (caller target : Address) (amount : Int)
  | burn (source : Address) (amount : Int)
  | burnFrom (spender source : Address) (amount : Int)
  | allowanceExpires (owner spender : Address)
  | totalSupply
  | balance (owner : Address)
  | isMinter (address : Address)
  deriving DecidableEq

def execToken (ctx : Context) (call : TokenCall) (t : TokenState) :
    Except String TokenState :=
  match call with
  | .initializeToken admin initialSupply =>
      TokenContract.initializeToken ctx admin initialSupply t
  | .transfer source target amount =>
      TokenContract.transfer ctx source target amount t
  | .approve owner spender amount =>
      TokenContract.approve ctx owner spender amount t
  | .addMinter admin minter => TokenContract.addMinter ctx admin minter t
  | .removeMinter admin minter => TokenContract.removeMinter ctx admin minter t
  | .transferFrom spender source target amount =>
      TokenContract.transferFrom ctx spender source target amount t
  | .mint caller target amount => TokenContract.mint ctx caller target amount t
  | .burn source amount => TokenContract.burn ctx source amount t
  | .burnFrom spender source amount =>
      TokenContract.burnFrom ctx spender source amount t
  | .allowanceExpires owner spender => .ok (expireAllowance t owner spender)
  | .totalSupply => .ok t
  | .balance _ => .ok t
  | .isMinter _ => .ok t

/-- The amounts of a call are `i128` values. -/
def TokenCall.inRange : TokenCall → Bool
  | .initializeToken _ initialSupply => decide (InI128 initialSupply)
  | .transfer _ _ amount => decide (InI128 amount)
  | .approve _ _ amount => decide (InI128 amount)
  | .transferFrom _ _ _ amount => decide (InI128 amount)
  | .mint _ _ amount => decide (InI128 amount)
  | .burn _ amount => decide (InI128 amount)
  | .burnFrom _ _ amount => decide (InI128 amount)
  | _ => true

/-- A call on the token as the ledger carries it out. -/
structure TokenInvocation extends Context where
  call : TokenCall
  inRange : call.inRange = true

/-- One invocation: a panic reverts everything. -/
def tokenStep (t : TokenState) (inv : TokenInvocation) : TokenState :=
  match execToken inv.toContext inv.call t with
  | .ok t' => t'
  | .error _ => t

/-- The token contract as a clocked system; its code never reads the clock. -/
def tokenSystem : System TokenState TokenInvocation where
  initial t := t = TokenState.deployed
  time inv := inv.now
  step := tokenStep

abbrev TokenEntry := Entry TokenState TokenInvocation

/-- The entries of a run of the token, newest first. -/
abbrev TokenHistory := List TokenEntry

abbrev TokenReaches (history : TokenHistory) (t : TokenState) : Prop :=
  tokenSystem.Run history t

/-- An invocation returned and left this state. -/
def TokenSucceeds (t : TokenState) (inv : TokenInvocation) (t' : TokenState) :
    Prop :=
  execToken inv.toContext inv.call t = .ok t'

/-- An invocation panicked. -/
def TokenFails (t : TokenState) (inv : TokenInvocation) : Prop :=
  ∃ message, execToken inv.toContext inv.call t = .error message

theorem TokenSucceeds.not_fails {t t' : TokenState} {inv : TokenInvocation}
    (h : TokenSucceeds t inv t') : ¬ TokenFails t inv := by
  rintro ⟨message, hmessage⟩
  unfold TokenSucceeds at h
  rw [hmessage] at h
  cases h

/-- A step either returned, or it panicked and left the state as it was. -/
theorem tokenStep_cases (t : TokenState) (inv : TokenInvocation) :
    TokenSucceeds t inv (tokenStep t inv) ∨
      (TokenFails t inv ∧ tokenStep t inv = t) := by
  unfold TokenSucceeds TokenFails tokenStep
  cases hexec : execToken inv.toContext inv.call t with
  | error message => exact Or.inr ⟨⟨message, rfl⟩, rfl⟩
  | ok t' => exact Or.inl rfl

/-- The call of an entry returned. -/
def tokenReturned (entry : TokenEntry) : Bool :=
  match execToken entry.input.toContext entry.input.call entry.before with
  | .ok _ => true
  | .error _ => false

theorem TokenSucceeds.returned_eq {t t' after : TokenState}
    {inv : TokenInvocation} (h : TokenSucceeds t inv t') :
    tokenReturned ⟨t, inv, after⟩ = true := by
  unfold TokenSucceeds at h
  simp only [tokenReturned, h]

theorem TokenFails.returned_eq {t after : TokenState} {inv : TokenInvocation}
    (h : TokenFails t inv) : tokenReturned ⟨t, inv, after⟩ = false := by
  obtain ⟨message, hmessage⟩ := h
  simp only [tokenReturned, hmessage]

/-- An entry of a run: the call returned, or it panicked and changed nothing. -/
theorem TokenReaches.entry_cases {later earlier : TokenHistory}
    {entry : TokenEntry} {t : TokenState}
    (hrun : TokenReaches (later ++ entry :: earlier) t) :
    TokenReaches earlier entry.before ∧
      (TokenSucceeds entry.before entry.input entry.after ∨
        (TokenFails entry.before entry.input ∧ entry.after = entry.before)) := by
  obtain ⟨hbefore, hafter, _⟩ := hrun.of_split
  change entry.after = tokenStep entry.before entry.input at hafter
  rw [hafter]
  exact ⟨hbefore, tokenStep_cases entry.before entry.input⟩

/-! ## Concrete runs -/

namespace Sample

/-- A call on the token with one signer. -/
def invokeToken (now : Nat) (signer : Address) (call : TokenCall)
    (inRange : call.inRange = true := by decide) : TokenInvocation where
  now := now
  auth := [signer]
  call := call
  inRange := inRange

/-- The run of a list of calls on the token from its deployment on. -/
def playToken (invocations : List TokenInvocation) : TokenHistory × TokenState :=
  tokenSystem.replay [] TokenState.deployed invocations

theorem playToken_reaches (invocations : List TokenInvocation)
    (horder : tokenSystem.InOrder 0 invocations = true) :
    TokenReaches (playToken invocations).1 (playToken invocations).2 :=
  ⟨TokenState.deployed, rfl, System.Path.stay.replay horder⟩

end Sample

end Contract
end Paystream
