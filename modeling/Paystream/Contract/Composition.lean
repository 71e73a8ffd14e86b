import Paystream.Contract.Exec
import Paystream.Contract.Token

/-!
# The stream contract on the repository's own token

The stream contract takes any token contract; here one of them is the token of
`Contract.Token`.  `ownToken` is what the stream contract sees of it, the
`transfer` of that contract with the source as its signer.

A `Pair` is the state of both contracts.  The balances of the token appear on
either side, and `shared` keeps the two views equal.  A run of the pair is any
interleaving of calls on the stream contract and calls on the token.
-/

namespace Paystream
namespace Contract

open Library

/-- `transfer` of the token contract, signed by the source.  It reads and writes
balances only, so the rest of the token's storage does not matter. -/
def ownToken : TokenLaw Address where
  transfer holdings source target amount :=
    match TokenContract.transfer ⟨0, [source]⟩ source target amount
        { TokenState.deployed with balances := holdings } with
    | .ok t => some t.balances
    | .error _ => none

/-- The stream contract, and the token contract at `token`. -/
structure Pair (token : Address) where
  world : World
  tokenState : TokenState
  shared : world.balances token = tokenState.balances

inductive PairInput
  | onContract (inv : Invocation)
  | onToken (inv : TokenInvocation)

def PairInput.now : PairInput → Nat
  | .onContract inv => inv.now
  | .onToken inv => inv.now

/-- One invocation of either contract; what it does to the balances of the token
shows on the other side. -/
def pairStep (host : Host) {token : Address} (p : Pair token) :
    PairInput → Pair token
  | .onContract inv =>
      { world := step host p.world inv
        tokenState :=
          { p.tokenState with balances := (step host p.world inv).balances token }
        shared := rfl }
  | .onToken inv =>
      { world :=
          { p.world with
            balances := Function.update p.world.balances token
              (tokenStep p.tokenState inv).balances }
        tokenState := tokenStep p.tokenState inv
        shared := Function.update_self token _ _ }

/-- Both contracts are freshly deployed; other tokens may be in circulation. -/
def pairSystem (host : Host) (token : Address) : System (Pair token) PairInput where
  initial p := p.tokenState = TokenState.deployed ∧
    ∃ balances : Balances Address Address,
      (∀ other account, 0 ≤ balances other account) ∧
        p.world = World.deployed balances
  time := PairInput.now
  step := pairStep host

abbrev PairEntry (token : Address) := Entry (Pair token) PairInput

/-- The entries of a run of the pair, newest first. -/
abbrev PairHistory (token : Address) := List (PairEntry token)

abbrev PairReaches (host : Host) {token : Address} (history : PairHistory token)
    (p : Pair token) : Prop :=
  (pairSystem host token).Run history p

/-! ## Concrete runs -/

namespace Sample

/-- The sample deployment with the repository's own token. -/
def ownHost : Host where
  self := self
  tokens := fun address => if address = token then some ownToken else none
  rateLimit := fun _ _ state => .ok state

def pairStart : Pair token where
  world := World.deployed fun _ _ => 0
  tokenState := TokenState.deployed
  shared := rfl

/-- The run of a list of calls on the two contracts. -/
def playPair (inputs : List PairInput) : PairHistory token × Pair token :=
  (pairSystem ownHost token).replay [] pairStart inputs

theorem playPair_reaches (inputs : List PairInput)
    (horder : (pairSystem ownHost token).InOrder 0 inputs = true) :
    PairReaches ownHost (playPair inputs).1 (playPair inputs).2 := by
  refine ⟨pairStart, ⟨rfl, fun _ _ => 0, ?_, rfl⟩, System.Path.stay.replay horder⟩
  intro _ _
  exact le_rfl

end Sample

end Contract
end Paystream
