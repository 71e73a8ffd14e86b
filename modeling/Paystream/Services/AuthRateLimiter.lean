import Mathlib.Logic.Function.Basic
import Paystream.Library.History
import Paystream.Library.Json

/-!
# The rate limiter of the sign-in routes

`api/middleware/authRateLimiter.js`: the middleware in front of the sign-in routes,
and what they report to it.  It keeps two maps, the failures of an identifier and its
lockout, which are written and deleted separately.

Times are what `Date.now` gives, in milliseconds, and nothing is assumed about how
they follow each other.  The wait before a request is let through is part of the
answer; nothing else happens while it lasts.
-/

namespace Paystream
namespace Services
namespace AuthRateLimiter

open Library

structure Config where
  maxAttempts : Nat
  lockoutMs : Nat
  baseDelayMs : Nat
  cooldownMultiplier : Nat

/-- `DEFAULTS`. -/
def defaults : Config where
  maxAttempts := 5
  lockoutMs := 15 * 60 * 1000
  baseDelayMs := 500
  cooldownMultiplier := 2

/-- An entry of `failures`. -/
structure FailureEntry where
  count : Nat
  lastFailureAt : Nat
  deriving DecidableEq

/-- The two maps; of a lockout, its `expiresAt`. -/
structure State where
  failures : Text → Option FailureEntry
  lockouts : Text → Option Nat

/-- What is read of a request. -/
structure Request where
  ip : Option Text
  /-- `body.address` as `String` writes it, absent if it is missing or falsy -/
  address : Option Text
  /-- the identifier a pass through the limiter has left in it -/
  authRateLimit : Option Text

inductive Response
  /-- 429 -/
  | tooManyAttempts (retryAfterSeconds : Nat)
  /-- the handler is called, after the wait -/
  | next (identifier : Text) (failureEntry : FailureEntry) (delayMs : Nat)
  deriving DecidableEq

/-- The error text and the code of a response. -/
def Response.error : Response → Option (String × String)
  | .tooManyAttempts _ =>
      some ("Too many failed authentication attempts. Please try again later.",
        "AUTH_RATE_LIMITED")
  | .next .. => none

/-- `text || other`: the empty text is falsy. -/
def orElse (text : Option Text) (other : Text) : Text :=
  match text with
  | some (c :: rest) => c :: rest
  | _ => other

def getIdentifier (request : Request) : Text :=
  orElse request.ip "unknown".toList ++ ':' :: request.address.getD []

/-- The identifier a failure or a success is booked on. -/
def identifierOf (request : Request) : Text :=
  orElse request.authRateLimit (getIdentifier request)

def getFailureEntry (s : State) (identifier : Text) : FailureEntry :=
  (s.failures identifier).getD ⟨0, 0⟩

def recordFailure (s : State) (identifier : Text) (now : Nat) : State × FailureEntry :=
  let entry := getFailureEntry s identifier
  let entry : FailureEntry := ⟨entry.count + 1, now⟩
  ({ s with failures := Function.update s.failures identifier (some entry) }, entry)

def State.setLockout (s : State) (identifier : Text) (expiresAt : Nat) : State :=
  { s with lockouts := Function.update s.lockouts identifier (some expiresAt) }

def State.deleteLockout (s : State) (identifier : Text) : State :=
  { s with lockouts := Function.update s.lockouts identifier none }

/-- `Math.ceil(ms / 1000)`. -/
def secondsUp (ms : Nat) : Nat := (ms + 999) / 1000

/-- The part of `authRateLimiter` behind the check of the lockout. -/
def checkFailures (config : Config) (s : State) (identifier : Text) (now : Nat) :
    State × Response :=
  let failureEntry := getFailureEntry s identifier
  if config.maxAttempts ≤ failureEntry.count then
    (s.setLockout identifier (now + config.lockoutMs),
      .tooManyAttempts (secondsUp config.lockoutMs))
  else
    (s, .next identifier failureEntry
      (config.baseDelayMs * config.cooldownMultiplier ^ failureEntry.count))

/-- `authRateLimiter`. -/
def authRateLimiter (config : Config) (s : State) (request : Request) (now : Nat) :
    State × Response :=
  let identifier := getIdentifier request
  match s.lockouts identifier with
  | some expiresAt =>
      if now < expiresAt then (s, .tooManyAttempts (secondsUp (expiresAt - now)))
      else checkFailures config (s.deleteLockout identifier) identifier now
  | none => checkFailures config s identifier now

/-- `applyAuthFailure`; the clock is read for the failure, and again for the
lockout. -/
def applyAuthFailure (s : State) (request : Request) (now lockedAt : Nat) : State :=
  let identifier := identifierOf request
  let (s, entry) := recordFailure s identifier now
  if defaults.maxAttempts ≤ entry.count then
    s.setLockout identifier (lockedAt + defaults.lockoutMs)
  else
    s

/-- `resetAuthRateLimit`: everything is cleared when no identifier is given. -/
def resetAuthRateLimit (s : State) (identifier : Text) : State :=
  if identifier ≠ [] then
    { failures := Function.update s.failures identifier none
      lockouts := Function.update s.lockouts identifier none }
  else
    ⟨fun _ => none, fun _ => none⟩

def resetAuthFailure (s : State) (request : Request) : State :=
  resetAuthRateLimit s (identifierOf request)

/-- A call of one of the functions, with the times it reads. -/
inductive Action
  | pass (request : Request) (now : Nat)
  | failure (request : Request) (now lockedAt : Nat)
  | success (request : Request)
  /-- by an administrator -/
  | unlock (identifier : Text)

def step (s : State) : Action → State
  | .pass request now => (authRateLimiter defaults s request now).1
  | .failure request now lockedAt => applyAuthFailure s request now lockedAt
  | .success request => resetAuthFailure s request
  | .unlock identifier => resetAuthRateLimit s identifier

/-- All sequences of calls, from empty maps. -/
def system : System State Action where
  initial := fun s => (∀ x, s.failures x = none) ∧ ∀ x, s.lockouts x = none
  time := fun _ => 0
  step := step

end AuthRateLimiter
end Services
end Paystream
