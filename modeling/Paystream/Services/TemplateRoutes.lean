import Paystream.Services.Templates

/-!
# The template routes behind the authentication

`/v1/api/stream-templates` as `api/server.js` mounts it: `authMiddleware`, and then
the routes of `api/routes/streamTemplates.js`.  A handler takes the owner of a
template from what the middleware has left in the request.
-/

namespace Paystream
namespace Services
namespace TemplateRoutes

open Library

/-- The owner of a request without an address or a key. -/
def unknownOwner : Text := "unknown".toList

/-- `ownerId` of a request that was let through. -/
def ownerId : AuthMiddleware.Outcome → Option Text
  | .user (some stellarAddress) =>
      if stellarAddress = [] then some unknownOwner else some stellarAddress
  | .user none => some unknownOwner
  | .key raw => some raw
  | .denied _ _ _ => none

structure State (Hash : Type) where
  keys : ApiKeys.State Hash
  templates : Templates.State

/-- Somebody manages the keys; a request comes in, with none for an operation whose
body is not valid. -/
inductive Input (Hash : Type)
  | manage (action : ApiKeys.Action Hash)
  | request (req : AuthMiddleware.Request) (operation : Option Templates.Operation)

inductive Response
  | denied (outcome : AuthMiddleware.Outcome)
  | invalid
  | answered (response : Templates.Response)

section Routes

variable {Hash : Type} [DecidableEq Hash] (verify : Text → Nat → Option (Option Text))
  (hashKey : Text → Hash)

/-- A request: the middleware, the validation of the body, and the handler. -/
def serve (req : AuthMiddleware.Request) (operation : Option Templates.Operation)
    (s : State Hash) : State Hash × Response :=
  match AuthMiddleware.authMiddleware verify hashKey req s.keys with
  | (keys, outcome) =>
      match ownerId outcome, operation with
      | none, _ => (⟨keys, s.templates⟩, .denied outcome)
      | some _, none => (⟨keys, s.templates⟩, .invalid)
      | some owner, some operation =>
          match Templates.handle s.templates ⟨owner, operation⟩ with
          | (templates, response) => (⟨keys, templates⟩, .answered response)

def step (s : State Hash) : Input Hash → State Hash
  | .manage action => { s with keys := (ApiKeys.handle hashKey s.keys action).1 }
  | .request req operation => (serve verify hashKey req operation s).1

/-- All sequences of calls and requests, from no keys and the default templates. -/
def system (draws : List (Text × Nat × Nat)) : System (State Hash) (Input Hash) where
  initial := fun s => s = ⟨⟨.empty, .empty⟩, Templates.loaded draws⟩
  time := fun _ => 0
  step := step verify hashKey

end Routes

end TemplateRoutes
end Services
end Paystream
