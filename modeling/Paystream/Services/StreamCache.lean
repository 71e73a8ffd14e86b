import Mathlib.Logic.Function.Basic
import Paystream.Library.History
import Paystream.Services.Validation

/-!
# The stream routes and their cache

`GET /:stream_id`, `POST /:stream_id/withdraw` and `POST /:stream_id/top-up` of
`api/routes/streams.js` over the Redis cache of `api/services/cacheService.js`.
A read looks the stream up in the cache, and on a miss reads it from the chain and
sets the cache; a write submits its transaction and then deletes the entry.  The
contract calls and the Redis commands are awaited and atomic, and the steps of
different requests interleave in any order.

The cache is keyed by the text in the path.  `streamId` stands for what becomes of
that text: none if `isInt({ min: 1 })` of `express-validator` refuses it, and
otherwise the number `BigInt` reads.

What the contract does is not modelled here.  A transaction may leave any state,
and every contract call may throw.  The states of a stream are numbered, so that
it can be said which one is older.
-/

namespace Paystream
namespace Services
namespace StreamCache

open Library

/-! ## Requests -/

/-- A request, with the text in its path and what is read of its body. -/
inductive Request
  | get (path : Text)
  | withdraw (path : Text) (employee : Json)
  | topUp (path : Text) (employer amount : Json)

def Request.path : Request → Text
  | .get path => path
  | .withdraw path _ => path
  | .topUp path _ _ => path

/-- The checks of the body. -/
def Request.validBody : Request → Bool
  | .get _ => true
  | .withdraw _ employee => isAddress employee
  | .topUp _ employer amount =>
      isAddress employer && isStringWith matchesAmount amount

/-! ## What is read of a stream -/

/-- A top-up goes on with this stream: it was found, and has no status or is
active. -/
def acceptsTopUp (stream : Json) : Bool :=
  truthy stream &&
    match member "status".toList stream with
    | some status => !truthy status || isText "Active".toList status
    | none => true

/-- A state of a stream, with the number of changes that led to it. -/
structure Reading where
  version : Nat
  value : Json

/-! ## Interleaved requests -/

/-- How far a request is. -/
inductive Phase
  | idle
  /-- its path and body are valid -/
  | arrived
  /-- answered 400 or 404 -/
  | refused
  /-- a contract call threw -/
  | failed
  /-- a read that found nothing in the cache -/
  | missed
  /-- a read that has read the chain -/
  | fetched (reading : Reading)
  /-- a read that is about to answer -/
  | ready (reading : Reading)
  | answered (reading : Reading)
  /-- a top-up that has checked the stream -/
  | checked
  /-- a write whose transaction made this version -/
  | submitted (version : Nat)
  /-- a write that has deleted the cache entry -/
  | invalidated (version : Nat)
  | responded (version : Nat)

structure State where
  chain : Nat → Reading
  cache : Text → Option Reading
  phase : Nat → Phase

/-- The steps of the requests, which are numbered; an entry of the cache expires;
something else changes a stream on the chain. -/
inductive Action
  | start (i : Nat)
  | lookup (i : Nat)
  | read (i : Nat)
  | fill (i : Nat)
  | submit (i : Nat) (value : Json)
  | invalidate (i : Nat)
  | respond (i : Nat)
  | throw (i : Nat)
  | expire (key : Text)
  | change (id : Nat) (value : Json)

/-- `streamKey`. -/
def streamKey (path : Text) : Text := "stream:".toList ++ path

def State.setPhase (s : State) (i : Nat) (phase : Phase) : State :=
  { s with phase := Function.update s.phase i phase }

/-- The chain after one more change of a stream. -/
def State.changed (s : State) (id : Nat) (value : Json) : State :=
  { s with chain := Function.update s.chain id ⟨(s.chain id).version + 1, value⟩ }

def State.setCache (s : State) (key : Text) (entry : Option Reading) : State :=
  { s with cache := Function.update s.cache key entry }

section Routes

variable (streamId : Text → Option Nat) (requests : Nat → Request)

/-- The stream a request is about; none if its path is refused. -/
def streamOf (i : Nat) : Option Nat := streamId (requests i).path

/-- The cache key of a request. -/
def keyOf (i : Nat) : Text := streamKey (requests i).path

/-- Validation. -/
def start (s : State) (i : Nat) : State :=
  if (streamOf streamId requests i).isSome = true ∧
      (requests i).validBody = true then
    s.setPhase i .arrived
  else
    s.setPhase i .refused

/-- `getStream` of a read. -/
def lookup (s : State) (i : Nat) : State :=
  match s.cache (keyOf requests i) with
  | some reading =>
      if truthy reading.value then s.setPhase i (.ready reading)
      else s.setPhase i .missed
  | none => s.setPhase i .missed

/-- The check of a top-up, on the stream as the chain has it. -/
def check (s : State) (i id : Nat) : State :=
  if acceptsTopUp (s.chain id).value then s.setPhase i .checked
  else s.setPhase i .refused

/-- The call of `get_stream`, of a read or of a top-up. -/
def read (s : State) (i id : Nat) : State :=
  match requests i, s.phase i with
  | .get _, .missed => s.setPhase i (.fetched (s.chain id))
  | .topUp _ _ _, .arrived => check s i id
  | _, _ => s

/-- The transaction of a write. -/
def submit (s : State) (i id : Nat) (value : Json) : State :=
  let after := (s.changed id value).setPhase i
    (.submitted ((s.chain id).version + 1))
  match requests i, s.phase i with
  | .withdraw _ _, .arrived => after
  | .topUp _ _ _, .checked => after
  | _, _ => s

/-- A contract call throws instead of answering. -/
def throw (s : State) (i : Nat) : State :=
  match requests i, s.phase i with
  | .get _, .missed => s.setPhase i .failed
  | .withdraw _ _, .arrived => s.setPhase i .failed
  | .topUp _ _ _, .arrived => s.setPhase i .failed
  | .topUp _ _ _, .checked => s.setPhase i .failed
  | _, _ => s

/-- One step; a step that is not due does nothing. -/
def step (s : State) : Action → State
  | .start i =>
      match s.phase i with
      | .idle => start streamId requests s i
      | _ => s
  | .lookup i =>
      match requests i, s.phase i with
      | .get _, .arrived => lookup requests s i
      | _, _ => s
  | .read i =>
      match streamOf streamId requests i with
      | some id => read requests s i id
      | none => s
  | .fill i =>
      match s.phase i with
      | .fetched reading =>
          (s.setCache (keyOf requests i) (some reading)).setPhase i (.ready reading)
      | _ => s
  | .submit i value =>
      match streamOf streamId requests i with
      | some id => submit requests s i id value
      | none => s
  | .invalidate i =>
      match s.phase i with
      | .submitted version =>
          (s.setCache (keyOf requests i) none).setPhase i (.invalidated version)
      | _ => s
  | .respond i =>
      match s.phase i with
      | .ready reading => s.setPhase i (.answered reading)
      | .invalidated version => s.setPhase i (.responded version)
      | _ => s
  | .throw i => throw requests s i
  | .expire key => s.setCache key none
  | .change id value => s.changed id value

/-- All interleavings of the requests, with anything in the cache. -/
def system : System State Action where
  initial := fun s => ∀ i, s.phase i = .idle
  time := fun _ => 0
  step := step streamId requests

end Routes

end StreamCache
end Services
end Paystream
