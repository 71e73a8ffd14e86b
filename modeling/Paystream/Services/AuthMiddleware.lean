import Paystream.Services.ApiKeys

/-!
# The authentication middleware

`authMiddleware` of `api/middleware/auth.js` in front of the API key service.  A
request with a bearer token is decided by the token alone; any other one needs a
key that validates and is within its limit.

`verify` stands for `jwt.verify` with the secret of the server, at the time of the
call: `none` if it throws, and else the `sub` of the payload.  An empty header
counts as no header.
-/

namespace Paystream
namespace Services
namespace AuthMiddleware

open Library
open Services.ApiKeys

def bearerPrefix : Text := "Bearer ".toList

/-- The headers that are read, and the three readings of the clock. -/
structure Request where
  authorization : Option Text
  apiKey : Option Text
  verifiedAt : Nat
  validatedAt : Nat
  checkedAt : Nat
  deriving DecidableEq

/-- What the request goes on with, or how it was turned away. -/
inductive Outcome
  | user (stellarAddress : Option Text)
  | key (raw : Text)
  | denied (status : Nat) (error code : String)
  deriving DecidableEq

def invalidJwt : Outcome := .denied 401 "Invalid or expired JWT" "INVALID_JWT"

def invalidApiKey : Outcome :=
  .denied 401 "Invalid or revoked API key" "INVALID_API_KEY"

def rateLimitExceeded : Outcome :=
  .denied 429 "API key rate limit exceeded" "RATE_LIMIT_EXCEEDED"

def missingAuth : Outcome :=
  .denied 401 "Authentication required. Use Bearer <jwt> or X-API-Key header."
    "MISSING_AUTH"

/-- The bearer token of a request, if its header has one. -/
def Request.bearer (req : Request) : Option Text :=
  match req.authorization with
  | none => none
  | some header =>
      if bearerPrefix.isPrefixOf header then some (header.drop 7) else none

/-- The key of a request, if its header is not empty. -/
def Request.rawKey (req : Request) : Option Text :=
  match req.apiKey with
  | none => none
  | some raw => if raw = [] then none else some raw

section Middleware

variable {Hash : Type} [DecidableEq Hash] (verify : Text → Nat → Option (Option Text))
  (hashKey : Text → Hash)

def authMiddleware (req : Request) (s : State Hash) : State Hash × Outcome :=
  match req.bearer with
  | some token =>
      match verify token req.verifiedAt with
      | some sub => (s, .user sub)
      | none => (s, invalidJwt)
  | none =>
      match req.rawKey with
      | none => (s, missingAuth)
      | some raw =>
          match validateKey hashKey s raw req.validatedAt with
          | (s, none) => (s, invalidApiKey)
          | (s, some _) =>
              match checkRateLimit s (hashKey raw) req.checkedAt with
              | (s, false) => (s, rateLimitExceeded)
              | (s, true) => (s, .key raw)

/-- What happens to the service: somebody calls it, or a request comes in. -/
inductive Input (Hash : Type)
  | manage (action : Action Hash)
  | request (req : Request)

def step (s : State Hash) : Input Hash → State Hash
  | .manage action => (handle hashKey s action).1
  | .request req => (authMiddleware verify hashKey req s).1

/-- All sequences of calls and requests, from empty maps. -/
def gateway : System (State Hash) (Input Hash) where
  initial := fun s => s = ⟨.empty, .empty⟩
  time := fun _ => 0
  step := step verify hashKey

end Middleware

end AuthMiddleware
end Services
end Paystream
