import Paystream.Library.History
import Paystream.Library.JsonOrder

/-!
# The idempotency middleware

`idempotencyMiddleware` of `api/middleware/idempotency.js` around a route handler.
A request looks its key up (`select`), and if it found no row the handler runs and
answers (`respond`); an answer below 500 is then written to `idempotency_keys` in
the background (`insert`).  The steps of different requests interleave in any
order.

What the handler does is not modelled: it may answer anything at any time.
`sha256` stands for the digest of Node's `crypto`.
-/

namespace Paystream
namespace Services
namespace Idempotency

open Library

inductive Method
  | get
  | head
  | options
  | post
  | put
  | patch
  | delete
  deriving DecidableEq, Repr

/-- The methods the middleware supports. -/
def Method.isWrite : Method → Bool
  | .post | .put | .patch | .delete => true
  | _ => false

/-- What the middleware reads of a request: its method, the `Idempotency-Key`
header, the address that the authentication set, and the parsed body. -/
structure Request where
  method : Method
  idempotencyKey : Option Text
  stellarAddress : Option Text
  body : Json.EngineValue

/-- The columns of the UNIQUE constraint. -/
structure Slot where
  key : Text
  address : Text
  deriving DecidableEq

/-- The row a request is about; a request without one is passed on as it is. -/
def Request.slot (request : Request) : Option Slot :=
  match request.idempotencyKey, request.stellarAddress with
  | some key, some address =>
      if key ≠ [] ∧ request.method.isWrite = true ∧ address ≠ [] then
        some ⟨key, address⟩
      else
        none
  | _, _ => none

structure Response where
  status : Nat
  body : Json
  deriving DecidableEq

/-- A row of `idempotency_keys`, with the values that were written to its JSONB
columns; a read returns them as `Json.readBack`. -/
structure Row where
  requestBody : Json
  responseStatus : Nat
  responseBody : Json
  deriving DecidableEq

/-- No text of the value holds the character a JSONB column cannot. -/
def hasNoNul : Json → Bool
  | .str text => !text.contains '\x00'
  | .obj members => members.all fun member => !member.1.contains '\x00'
  | _ => true

/-- A JSONB column accepts the value. -/
def jsonbAccepts (value : Json) : Bool := value.everywhere hasNoNul

/-- The body, or an empty object if the script takes it for false. -/
def orEmptyObject : Json → Json
  | .null => .obj []
  | .bool false => .obj []
  | .str [] => .obj []
  | .num text => if text.chars = ['0'] then .obj [] else .num text
  | body => body

section Middleware

variable {Digest : Type} [DecidableEq Digest] (sha256 : Text → Digest)

/-- `hashBody`. -/
def hashBody (body : Json) : Digest := sha256 (orEmptyObject body).stringify

/-- How a request that found a row is answered. -/
inductive Answer
  | cached (response : Response)
  | bodyMismatch
  deriving DecidableEq

/-- The response that is sent. -/
def Answer.response : Answer → Response
  | .cached response => response
  | .bodyMismatch =>
      ⟨422, .obj [
        ("error".toList,
          .str "Idempotency key reused with different request body".toList),
        ("code".toList, .str "IDEMPOTENCY_BODY_MISMATCH".toList)]⟩

/-- The branch of the middleware for a row that exists. -/
def answerFrom (row : Row) (body : Json) : Answer :=
  if hashBody sha256 body ≠ hashBody sha256 row.requestBody.readBack then
    .bodyMismatch
  else
    .cached ⟨row.responseStatus, row.responseBody.readBack⟩

/-! ## Interleaved requests -/

/-- How far a request is. -/
inductive Phase
  | arrived
  /-- answered from the table -/
  | replayed (answer : Answer)
  /-- no row was found, the wrapped handler runs -/
  | handling
  /-- the handler answered, and the INSERT is under way -/
  | storing (response : Response)
  | recorded (response : Response)
  /-- the handler answered, and no row was written for it -/
  | unrecorded (response : Response)
  deriving DecidableEq

/-- What the handler answered, if it has. -/
def Phase.handlerResponse : Phase → Option Response
  | .storing response => some response
  | .recorded response => some response
  | .unrecorded response => some response
  | _ => none

structure State where
  table : Slot → Option Row
  phase : Nat → Phase

/-- The steps of the requests, which are numbered. -/
inductive Action
  | select (i : Nat)
  | respond (i : Nat) (response : Response)
  | insert (i : Nat)
  deriving DecidableEq

variable (requests : Nat → Request)

def State.setPhase (s : State) (i : Nat) (phase : Phase) : State :=
  { s with phase := Function.update s.phase i phase }

/-- The SELECT and what follows from it. -/
def select (s : State) (i : Nat) : State :=
  match (requests i).slot with
  | none => s.setPhase i .handling
  | some slot =>
      match s.table slot with
      | some row =>
          s.setPhase i (.replayed (answerFrom sha256 row (requests i).body.val))
      | none => s.setPhase i .handling

/-- The wrapped `res.json`; without a key it is not wrapped. -/
def respond (s : State) (i : Nat) (response : Response) : State :=
  if (requests i).slot.isSome = true ∧ response.status < 500 then
    s.setPhase i (.storing response)
  else
    s.setPhase i (.unrecorded response)

/-- `INSERT ... ON CONFLICT DO NOTHING`; an error of the column is logged and
dropped. -/
def insert (s : State) (i : Nat) (response : Response) : State :=
  match (requests i).slot with
  | none => s
  | some slot =>
      if s.table slot = none ∧ jsonbAccepts (requests i).body.val = true ∧
          jsonbAccepts response.body = true then
        { (s.setPhase i (.recorded response)) with
          table := Function.update s.table slot
            (some ⟨(requests i).body.val, response.status, response.body⟩) }
      else
        s.setPhase i (.unrecorded response)

/-- One step; a step that is not due does nothing. -/
def step (s : State) : Action → State
  | .select i =>
      match s.phase i with
      | .arrived => select sha256 requests s i
      | _ => s
  | .respond i response =>
      match s.phase i with
      | .handling => respond requests s i response
      | _ => s
  | .insert i =>
      match s.phase i with
      | .storing response => insert requests s i response
      | _ => s

/-- All interleavings of the requests, on any table. -/
def system : System State Action where
  initial := fun s => ∀ i, s.phase i = .arrived
  time := fun _ => 0
  step := step sha256 requests

end Middleware

end Idempotency
end Services
end Paystream
