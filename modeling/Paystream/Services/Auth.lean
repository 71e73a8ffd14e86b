import Mathlib.Logic.Function.Basic
import Paystream.Library.History
import Paystream.Services.Validation

/-!
# Signing in

`POST /auth/challenge` and `POST /auth/verify` of `api/routes/auth.js` over the
`nonceStore`, and the timer that purges it.  Each handler runs to its end without
awaiting anything, so a request is one step.  A request that the rate limiter turns
away does not get here.

Times are what `Date.now` gives, in milliseconds.  `isHexadecimal` stands for the
check of `express-validator`, and `verifies` for the signature check of
`stellar-sdk` on an address, the nonce and the signature, an error of it counting
as a failed check.
-/

namespace Paystream
namespace Services
namespace Auth

open Library

def nonceTtlMs : Nat := 5 * 60 * 1000

def jwtExpiry : String := "24h"

/-- An entry of `nonceStore`. -/
structure NonceEntry where
  nonce : Text
  expiresAt : Nat
  deriving DecidableEq

/-- The address in a body.  A value that is no string may pass the validator too,
inside an array; as a key of a `Map` it is an object that no other request has. -/
inductive Address
  | text (chars : Text)
  | other (accepted : Bool)
  deriving DecidableEq

/-- The validator lets the address through. -/
def Address.valid : Address → Bool
  | .text chars => matchesAddress chars
  | .other accepted => accepted

structure State where
  nonceStore : Text → Option NonceEntry

/-- A request or a tick of the timer, with the time and, for a challenge, the
nonce that was drawn. -/
inductive Action (Signature : Type)
  | challenge (address : Address) (now : Nat) (nonce : Text)
  | verify (address : Address) (signature : Signature) (now : Nat)
  | purge (now : Nat)

inductive Response
  | validationFailed
  | challenge (nonce : Text) (expiresAt : Nat)
  | nonceExpired
  | invalidSignature
  /-- a JWT for the address -/
  | token (sub : Text) (expiresIn : String)
  /-- the timer answers nobody -/
  | nothing
  deriving DecidableEq

def Response.status : Response → Nat
  | .validationFailed => 400
  | .nonceExpired => 401
  | .invalidSignature => 401
  | _ => 200

/-- The error text and the code of a response. -/
def Response.error : Response → Option (String × Option String)
  | .validationFailed => some ("Validation failed", none)
  | .nonceExpired =>
      some ("Nonce expired or not found. Request a new challenge.",
        some "NONCE_EXPIRED")
  | .invalidSignature =>
      some ("Signature verification failed", some "INVALID_SIGNATURE")
  | _ => none

def State.set (s : State) (address : Text) (entry : NonceEntry) : State :=
  ⟨Function.update s.nonceStore address (some entry)⟩

def State.delete (s : State) (address : Text) : State :=
  ⟨Function.update s.nonceStore address none⟩

section Routes

variable {Signature : Type} (isHexadecimal : Signature → Bool)
  (verifies : Text → Text → Signature → Bool)

/-- `POST /challenge`. -/
def challenge (s : State) (address : Address) (now : Nat) (nonce : Text) :
    State × Response :=
  if address.valid = false then (s, .validationFailed)
  else
    let expiresAt := now + nonceTtlMs
    match address with
    | .text chars =>
        (s.set chars ⟨nonce, expiresAt⟩, .challenge nonce expiresAt)
    | .other _ => (s, .challenge nonce expiresAt)

/-- `POST /verify`, for an address that is a string. -/
def verifyText (s : State) (address : Text) (signature : Signature) (now : Nat) :
    State × Response :=
  match s.nonceStore address with
  | none => (s.delete address, .nonceExpired)
  | some entry =>
      if entry.expiresAt < now then (s.delete address, .nonceExpired)
      else if verifies address entry.nonce signature = false then
        (s, .invalidSignature)
      else (s.delete address, .token address jwtExpiry)

/-- `POST /verify`. -/
def verify (s : State) (address : Address) (signature : Signature) (now : Nat) :
    State × Response :=
  if address.valid = false ∨ isHexadecimal signature = false then
    (s, .validationFailed)
  else
    match address with
    | .text chars => verifyText verifies s chars signature now
    | .other _ => (s, .nonceExpired)

/-- The timer. -/
def purge (s : State) (now : Nat) : State :=
  ⟨fun address => (s.nonceStore address).filter fun entry =>
    decide (now ≤ entry.expiresAt)⟩

def handle (s : State) : Action Signature → State × Response
  | .challenge address now nonce => challenge s address now nonce
  | .verify address signature now =>
      verify isHexadecimal verifies s address signature now
  | .purge now => (purge s now, .nothing)

/-- All sequences of requests and ticks, at any times, from an empty store. -/
def system : System State (Action Signature) where
  initial := fun s => ∀ address, s.nonceStore address = none
  time := fun _ => 0
  step := fun s action => (handle isHexadecimal verifies s action).1

/-- The response that an entry of a history sent. -/
def responseOf (entry : Entry State (Action Signature)) : Response :=
  (handle isHexadecimal verifies entry.before entry.input).2

end Routes

end Auth
end Services
end Paystream
