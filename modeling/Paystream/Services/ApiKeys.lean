import Mathlib.Data.Rat.Defs
import Paystream.Library.History
import Paystream.Library.Json
import Paystream.Library.OrderedMap

/-!
# The API key service

`createKey`, `validateKey`, `checkRateLimit`, `rotateKey` and `revokeById` of
`api/services/apiKeyService.js`.  Keys are stored under the hash of the raw key,
and linked to the key they replace by its id.

`hashKey` stands for the digest of Node's `crypto`.  The random part of a raw key
and the id of a new key come with the call that draws them.  Times are
milliseconds.
-/

namespace Paystream
namespace Services
namespace ApiKeys

open Library

def keyPrefix : Text := "psk_".toList

/-- A limit; a member that is not given compares as false. -/
structure RateLimit where
  windowMs : Option ℚ
  max : Option ℚ
  deriving DecidableEq

def defaultRateLimit : RateLimit := ⟨some (15 * 60 * 1000), some 1000⟩

/-- The metadata of a key. -/
structure Meta (Hash : Type) where
  id : Text
  name : Text
  ownerId : Text
  hash : Hash
  rateLimit : RateLimit
  revoked : Bool
  createdAt : Nat
  lastUsedAt : Option Nat
  rotatedFrom : Option Text
  revokedAt : Option Nat
  deriving DecidableEq

structure Usage where
  count : Nat
  windowStart : Nat
  deriving DecidableEq

structure State (Hash : Type) where
  keys : OrderedMap Hash (Meta Hash)
  usage : OrderedMap Hash Usage

/-- The calls, with what they draw and the time. -/
inductive Action (Hash : Type)
  | createKey (name ownerId : Text) (rateLimit : Option RateLimit)
      (secret id : Text) (now : Nat)
  | validateKey (raw : Text) (now : Nat)
  | checkRateLimit (hash : Hash) (now : Nat)
  | rotateKey (rawOldKey secret id : Text) (now : Nat)
  | revokeById (id : Text) (now : Nat)

inductive Result (Hash : Type)
  | created (key id : Text) (createdAt : Nat)
  | validated (found : Option (Meta Hash))
  | allowed (allowed : Bool)
  | rotated (key id : Text)
  | error (message : String)
  | revoked (found : Bool)

/-- `generateRawKey`. -/
def rawKey (secret : Text) : Text := keyPrefix ++ secret

def errKeyNotFound : String := "Key not found or already revoked"

/-- A key that is revoked now. -/
def Meta.revoke {Hash : Type} (old : Meta Hash) (now : Nat) : Meta Hash :=
  { old with revoked := true, revokedAt := some now }

/-- The key that replaces another one. -/
def Meta.replacement {Hash : Type} (old : Meta Hash) (id : Text) (hash : Hash)
    (now : Nat) : Meta Hash :=
  { id := id
    name := old.name
    ownerId := old.ownerId
    hash := hash
    rateLimit := old.rateLimit
    revoked := false
    createdAt := now
    lastUsedAt := none
    rotatedFrom := some old.id
    revokedAt := none }

section Service

variable {Hash : Type} [DecidableEq Hash] (hashKey : Text → Hash)

def createKey (s : State Hash) (name ownerId : Text) (rateLimit : Option RateLimit)
    (secret id : Text) (now : Nat) : State Hash × Result Hash :=
  let raw := rawKey secret
  let hash := hashKey raw
  let created : Meta Hash :=
    { id := id
      name := name
      ownerId := ownerId
      hash := hash
      rateLimit := rateLimit.getD defaultRateLimit
      revoked := false
      createdAt := now
      lastUsedAt := none
      rotatedFrom := none
      revokedAt := none }
  ({ s with keys := s.keys.set hash created }, .created raw id now)

def validateKey (s : State Hash) (raw : Text) (now : Nat) :
    State Hash × Option (Meta Hash) :=
  if keyPrefix.isPrefixOf raw = false then (s, none)
  else
    let hash := hashKey raw
    match s.keys.get hash with
    | none => (s, none)
    | some found =>
        if found.revoked then (s, none)
        else
          ({ s with keys := s.keys.modify hash fun old =>
              { old with lastUsedAt := some now } },
            some { found with lastUsedAt := some now })

/-- `a > b`, which is false if `b` is not given. -/
def exceeds (a : ℚ) (b : Option ℚ) : Bool := b.any fun b => decide (b < a)

/-- `a <= b`, which is false if `b` is not given. -/
def within (a : ℚ) (b : Option ℚ) : Bool := b.any fun b => decide (a ≤ b)

def checkRateLimit (s : State Hash) (hash : Hash) (now : Nat) : State Hash × Bool :=
  match s.keys.get hash with
  | none => (s, false)
  | some found =>
      let fresh : Usage := ⟨0, now⟩
      let current :=
        match s.usage.get hash with
        | none => fresh
        | some old =>
            if exceeds ((now : ℚ) - old.windowStart) found.rateLimit.windowMs then
              fresh
            else
              old
      let counted : Usage := { current with count := current.count + 1 }
      ({ s with usage := s.usage.set hash counted },
        within counted.count found.rateLimit.max)

def rotateKey (s : State Hash) (rawOldKey secret id : Text) (now : Nat) :
    State Hash × Result Hash :=
  let hash := hashKey rawOldKey
  match s.keys.get hash with
  | none => (s, .error errKeyNotFound)
  | some old =>
      if old.revoked then (s, .error errKeyNotFound)
      else
        let raw := rawKey secret
        let newHash := hashKey raw
        let revoked := s.keys.modify hash fun old => old.revoke now
        ({ s with keys := revoked.set newHash (old.replacement id newHash now) },
          .rotated raw id)

def revokeById (s : State Hash) (id : Text) (now : Nat) : State Hash × Bool :=
  match s.keys.find fun found => decide (found.id = id) with
  | none => (s, false)
  | some (hash, _) =>
      ({ s with keys := s.keys.modify hash fun old => old.revoke now }, true)

def handle (s : State Hash) : Action Hash → State Hash × Result Hash
  | .createKey name ownerId rateLimit secret id now =>
      createKey hashKey s name ownerId rateLimit secret id now
  | .validateKey raw now =>
      let (after, found) := validateKey hashKey s raw now
      (after, .validated found)
  | .checkRateLimit hash now =>
      let (after, allowed) := checkRateLimit s hash now
      (after, .allowed allowed)
  | .rotateKey rawOldKey secret id now => rotateKey hashKey s rawOldKey secret id now
  | .revokeById id now =>
      let (after, found) := revokeById s id now
      (after, .revoked found)

/-- All sequences of calls, from empty maps. -/
def system : System (State Hash) (Action Hash) where
  initial := fun s => s = ⟨.empty, .empty⟩
  time := fun _ => 0
  step := fun s action => (handle hashKey s action).1

end Service

end ApiKeys
end Services
end Paystream
