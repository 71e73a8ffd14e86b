import Paystream.Library.OrderedMap
import Paystream.Services.AuthMiddleware
import Paystream.Services.Validation

/-!
# Stream templates

`api/services/templateService.js` behind the handlers of
`api/routes/streamTemplates.js`.  A handler takes the owner from the request, calls
the service and answers.

Names, parameters and the `shared` mark come out of the JSON body as they are, and
the service only asks whether `shared` counts as true.  The id of a new template
and the readings of the clock come with the request.
-/

namespace Paystream
namespace Services
namespace Templates

open Library

structure Template where
  id : Text
  ownerId : Text
  name : Json
  params : Json
  shared : Json
  isDefault : Bool
  createdAt : Nat
  updatedAt : Nat

abbrev State := OrderedMap Text Template

/-- The members that an update may set. -/
structure Patch where
  name : Option Json
  params : Option Json
  shared : Option Json

/-! ## The default templates -/

theorem isNumberChar_of_mem_toDigits {n : Nat} {c : Char}
    (h : c ∈ Nat.toDigits 10 n) : isNumberChar c = true := by
  have hdigit : c.isDigit = true :=
    Nat.isDigit_of_mem_toDigits (Nat.zero_lt_succ 9) (Nat.le_refl 10) h
  simp [isNumberChar, hdigit]

def number (n : Nat) : Json :=
  .num ⟨Nat.toDigits 10 n, Nat.toDigits_ne_nil, fun _ => isNumberChar_of_mem_toDigits⟩

def usdc : String := "GBBD47IF6LWK7P7MDEVSCWR7DPUWV3NY3DTQEVFL4NAT4AQH3ZLLFLA5"

def streamParams (deposit : String) (cooldownPeriod : Json) : Json :=
  .obj [("token_address".toList, .str usdc.toList),
    ("deposit".toList, .str deposit.toList),
    ("rate_per_second".toList, .str "1000000".toList),
    ("stop_time".toList, number 0),
    ("cooldown_period".toList, cooldownPeriod),
    ("cliff_time".toList, number 0)]

/-- `DEFAULTS`: names and parameters. -/
def defaults : List (Json × Json) :=
  [(.str "Monthly Salary (USDC)".toList, streamParams "2592000000000" (number 0)),
    (.str "Weekly Contractor (USDC)".toList,
      streamParams "604800000000" (number 86400))]

def systemOwner : Text := "system".toList

/-- Put one default template in, with the id and the times drawn for it. -/
def seed (s : State) (default : Json × Json) (draw : Text × Nat × Nat) : State :=
  s.set draw.1
    { id := draw.1
      ownerId := systemOwner
      name := default.1
      params := default.2
      shared := .bool true
      isDefault := true
      createdAt := draw.2.1
      updatedAt := draw.2.2 }

/-- The store as the module is loaded. -/
def loaded (draws : List (Text × Nat × Nat)) : State :=
  (defaults.zip draws).foldl (fun s pair => seed s pair.1 pair.2) .empty

/-! ## The service -/

def create (s : State) (ownerId : Text) (name params : Json) (shared : Option Json)
    (id : Text) (now : Nat) : State × Template :=
  let created : Template :=
    { id := id
      ownerId := ownerId
      name := name
      params := params
      shared := shared.getD (.bool false)
      isDefault := false
      createdAt := now
      updatedAt := now }
  (s.set id created, created)

/-- The parameters of a stream without its parties. -/
def withoutParties : Json → Json
  | .obj members => .obj (members.filter fun member =>
      decide (member.1 ≠ "employer".toList ∧ member.1 ≠ "employee".toList))
  | other => other

def createFromStream (s : State) (ownerId : Text) (name params : Json) (id : Text)
    (now : Nat) : State × Template :=
  create s ownerId name (withoutParties params) none id now

def Template.visibleTo (t : Template) (ownerId : Text) : Bool :=
  decide (t.ownerId = ownerId) || truthy t.shared

def list (s : State) (ownerId : Text) : List Template :=
  (s.entries.map Prod.snd).filter fun t => t.visibleTo ownerId

def get (s : State) (id ownerId : Text) : Option Template :=
  (OrderedMap.get s id).filter fun t => t.visibleTo ownerId

/-- The template if the owner may change it. -/
def editable (s : State) (id ownerId : Text) : Option Template :=
  (OrderedMap.get s id).filter fun t =>
    decide (t.ownerId = ownerId) && !t.isDefault

def Template.patched (t : Template) (patch : Patch) (now : Nat) : Template :=
  { t with
    name := patch.name.getD t.name
    params := patch.params.getD t.params
    shared := patch.shared.getD t.shared
    updatedAt := now }

def update (s : State) (id ownerId : Text) (patch : Patch) (now : Nat) :
    State × Option Template :=
  match editable s id ownerId with
  | none => (s, none)
  | some t =>
      (s.modify id fun t => t.patched patch now, some (t.patched patch now))

def remove (s : State) (id ownerId : Text) : State × Bool :=
  match editable s id ownerId with
  | none => (s, false)
  | some _ => (s.erase id, true)

def share (s : State) (id ownerId : Text) (shared : Json) (now : Nat) :
    State × Option Template :=
  update s id ownerId ⟨none, none, some shared⟩ now

/-! ## The handlers -/

inductive Operation
  | create (name params : Json) (shared : Option Json) (id : Text) (now : Nat)
  | fromStream (name params : Json) (id : Text) (now : Nat)
  | list
  | get (id : Text)
  | update (id : Text) (patch : Patch) (now : Nat)
  | delete (id : Text)
  | share (id : Text) (shared : Json) (now : Nat)

structure Request where
  ownerId : Text
  operation : Operation

inductive Response
  | created (template : Template)
  | templates (templates : List Template)
  | template (template : Template)
  | deleted
  | notFound (error : String)

def found (error : String) : Option Template → Response
  | some t => .template t
  | none => .notFound error

/-- One handler, after the body was validated. -/
def handle (s : State) (req : Request) : State × Response :=
  match req.operation with
  | .create name params shared id now =>
      let (after, t) := create s req.ownerId name params shared id now
      (after, .created t)
  | .fromStream name params id now =>
      let (after, t) := createFromStream s req.ownerId name params id now
      (after, .created t)
  | .list => (s, .templates (list s req.ownerId))
  | .get id => (s, found "Template not found" (get s id req.ownerId))
  | .update id patch now =>
      let (after, t) := update s id req.ownerId patch now
      (after, found "Template not found or not editable" t)
  | .delete id =>
      let (after, done) := remove s id req.ownerId
      (after, if done then .deleted else .notFound "Template not found or not deletable")
  | .share id shared now =>
      let (after, t) := share s id req.ownerId shared now
      (after, found "Template not found or not shareable" t)

end Templates
end Services
end Paystream
