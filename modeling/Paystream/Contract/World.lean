import Paystream.Contract.Types
import Paystream.Library.Checked
import Paystream.Library.TokenLedger

/-!
# The state an invocation runs in

`World` holds everything one call of the stream contract can read or write: the
contract's own storage, the balances of every token, and two logs nothing
reads back, the transfers made and the events published (both newest first).

`Host` is what stays fixed over a run: the contract's own address, the token
contract behind each address, if there is one, and the rate limiter the batch
calls, which the crate does not define.  `Context` is what changes from
call to call: the ledger timestamp and the addresses that signed.

Entries with a time to live are never archived in the model: the `extend_ttl`
calls leave every stored value as it is.
-/

namespace Paystream
namespace Contract

open Library

/-- A transfer of the log. -/
abbrev TokenTransfer := Transfer Purpose Address Address

/-- The storage of the stream contract, the token balances and the logs. -/
structure World where
  streams : Nat → Option Stream
  streamCount : Nat
  admin : Option Address
  pendingAdmin : Option Address
  config : ContractConfig
  feeRecipient : Option Address
  feeBalance : Address → Int
  pendingEmployer : Nat → Option Address
  employerStreams : Address → List Nat
  employeeStreams : Address → List Nat
  pauseHistory : Nat → List PauseEvent
  proposals : Nat → Option Proposal
  proposalCount : Nat
  voted : Nat → Address → Bool
  allowedTokens : List Address
  multisigConfig : Option MultisigConfig
  pendingOps : Nat → Option PendingAdminOp
  pendingOpCount : Nat
  /-- The hash installed by the last `upgrade`, if there was one. -/
  wasmHash : Option (BitVec 256)
  /-- What the rate limiter of the batch keeps, whatever that is. -/
  rateState : Nat
  balances : Balances Address Address
  transfers : List TokenTransfer
  events : List Event

/-- A freshly deployed contract, with tokens already in circulation. -/
def World.deployed (balances : Balances Address Address) : World where
  streams := fun _ => none
  streamCount := 0
  admin := none
  pendingAdmin := none
  config := ContractConfig.default
  feeRecipient := none
  feeBalance := fun _ => 0
  pendingEmployer := fun _ => none
  employerStreams := fun _ => []
  employeeStreams := fun _ => []
  pauseHistory := fun _ => []
  proposals := fun _ => none
  proposalCount := 0
  voted := fun _ _ => false
  allowedTokens := []
  multisigConfig := none
  pendingOps := fun _ => none
  pendingOpCount := 0
  wasmHash := none
  rateState := 0
  balances := balances
  transfers := []
  events := []

/-- What stays fixed over a run. -/
structure Host where
  /-- `env.current_contract_address()` -/
  self : Address
  /-- the token contract at an address; `none` when the address does not
  answer the token interface -/
  tokens : Address → Option (TokenLaw Address)
  /-- the rate limiter behind `check_and_bump_rate`: it reads the time, the
  employer and its own state, and panics or returns its next state -/
  rateLimit : Nat → Address → Nat → Except String Nat

/-- What a call is made in: the ledger timestamp and the signers. -/
structure Context where
  now : Nat
  auth : List Address

/-- `address.require_auth()`. -/
def requireAuth (ctx : Context) (address : Address) : Except String Unit :=
  ensure (decide (address ∈ ctx.auth)) "authorization failed"

@[simp] theorem requireAuth_eq_ok_iff (ctx : Context) (address : Address)
    (result : Unit) :
    requireAuth ctx address = .ok result ↔ address ∈ ctx.auth := by
  simp [requireAuth]

/-- `token_client.try_balance(..).expect(ERR_INVALID_TOKEN)`: only whether the
address answers matters, the balance is discarded. -/
def requireToken (host : Host) (token : Address) : Except String Unit :=
  ensure (host.tokens token).isSome errInvalidToken

/-- `token_client.transfer(source, target, amount)`. -/
def tokenTransfer (host : Host) (transfer : TokenTransfer) (w : World) :
    Except String World :=
  match perform host.tokens transfer w.balances with
  | some balances =>
      .ok { w with balances := balances, transfers := transfer :: w.transfers }
  | none => .error "token transfer failed"

/-- `env.events().publish(..)`. -/
def World.emit (w : World) (event : Event) : World :=
  { w with events := event :: w.events }

@[simp] theorem tokenTransfer_eq_ok_iff (host : Host) (transfer : TokenTransfer)
    (w w' : World) :
    tokenTransfer host transfer w = .ok w' ↔
      ∃ balances, perform host.tokens transfer w.balances = some balances ∧
        w' = { w with
          balances := balances, transfers := transfer :: w.transfers } := by
  unfold tokenTransfer
  cases hperform : perform host.tokens transfer w.balances with
  | none => simp
  | some balances =>
      simp only [Except.ok.injEq, Option.some.injEq, exists_eq_left']
      exact eq_comm

end Contract
end Paystream
