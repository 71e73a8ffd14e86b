import Mathlib.Logic.Function.Basic
import Paystream.Library.History
import Paystream.Library.Json

/-!
# The cache client

`CacheClient` of `services/cache/src/lib.rs`.  A value is looked up in Redis, and
loaded and set if it is not there; the commands and the loaders are awaited, and the
steps of different calls interleave in any order.

Redis is not modelled: a lookup carries what it answers, none for no value or an
error, and a deletion whether it takes place.  `toText` and `ofText` stand for
`serde_json::to_string` and `from_str` at the type of the values: none if they fail.
-/

namespace Paystream
namespace Services
namespace CacheClient

open Library

/-- `TTL_STREAM`. -/
def ttlStream : Nat := 30

/-- `key_stream`. -/
def keyStream (streamId : Nat) : Text := "ps:stream:".toList ++ Nat.toDigits 10 streamId

/-- What a call is about; a warm-up has the streams it has still to do. -/
structure Job where
  key : Text
  ttlSecs : Nat
  rest : Option (List Nat)
  deriving DecidableEq

/-- How far a call is. -/
inductive Phase (V E : Type)
  | idle
  /-- it awaits its lookup -/
  | looking (job : Job)
  /-- it awaits its loader -/
  | loading (job : Job)
  /-- it awaits its set -/
  | storing (job : Job) (value : V)
  /-- a `get_or_load` has returned -/
  | returned (result : Except E V)
  | warmed

/-- `HITS` and `MISSES`, and the calls by their numbers. -/
structure State (V E : Type) where
  hits : Nat
  misses : Nat
  calls : Nat → Phase V E

/-- The steps of a call. -/
inductive Event (V E : Type)
  | getOrLoad (key : Text) (ttlSecs : Nat)
  | warmStreams (streamIds : List Nat)
  /-- Redis answers its lookup -/
  | lookUp (answer : Option Text)
  /-- its loader is done; for a warm-up an error is none -/
  | loaded (result : Except E V)
  /-- its set is done, or has failed -/
  | store

/-- The steps of the calls, and the commands made directly. -/
inductive Action (V E : Type)
  | call (call : Nat) (event : Event V E)
  | get (key : Text) (answer : Option Text)
  | set (key : Text) (value : V) (ttlSecs : Nat)
  | invalidate (key : Text) (reached : Bool)

/-- What is asked of Redis. -/
inductive Command
  | get (key : Text)
  | setEx (key : Text) (json : Text) (ttlSecs : Nat)
  | del (key : Text)
  deriving DecidableEq

section Client

variable {V E : Type} (toText : V → Option Text) (ofText : Text → Option V)

/-! ## The commands -/

/-- What a lookup finds. -/
def find (answer : Option Text) : Option V :=
  answer.bind ofText

/-- `HITS` and `MISSES` after a lookup. -/
def State.count (s : State V E) (found : Option V) : State V E :=
  match found with
  | some _ => { s with hits := (s.hits + 1) % 2 ^ 64 }
  | none => { s with misses := (s.misses + 1) % 2 ^ 64 }

def get (s : State V E) (answer : Option Text) : State V E × Option V :=
  (s.count (find ofText answer), find ofText answer)

/-- `set` asks for nothing if the value has no text. -/
def set (key : Text) (value : V) (ttlSecs : Nat) : Option Command :=
  (toText value).map fun json => .setEx key json ttlSecs

/-! ## The calls -/

/-- A warm-up goes on with its next stream. -/
def warm : List Nat → Phase V E
  | [] => .warmed
  | streamId :: rest => .looking ⟨keyStream streamId, ttlStream, some rest⟩

/-- What a call does once it has its value, or its loader has failed. -/
def Job.next (job : Job) (result : Except E V) : Phase V E :=
  match job.rest with
  | none => .returned result
  | some rest => warm rest

/-- `get_or_load` and `warm_streams`, from one await to the next; a step that is not due
does nothing. -/
def Phase.next (phase : Phase V E) (event : Event V E) : Phase V E :=
  match phase, event with
  | .idle, .getOrLoad key ttlSecs => .looking ⟨key, ttlSecs, none⟩
  | .idle, .warmStreams streamIds => warm streamIds
  | .looking job, .lookUp answer =>
      match find ofText answer with
      | some value => job.next (.ok value)
      | none => .loading job
  | .loading job, .loaded (.ok value) => .storing job value
  | .loading job, .loaded (.error error) => job.next (.error error)
  | .storing job value, .store => job.next (.ok value)
  | phase, _ => phase

def State.setPhase (s : State V E) (call : Nat) (phase : Phase V E) : State V E :=
  { s with calls := Function.update s.calls call phase }

/-- The lookup of a call is counted. -/
def State.observe (s : State V E) (call : Nat) (event : Event V E) : State V E :=
  match s.calls call, event with
  | .looking _, .lookUp answer => (get ofText s answer).1
  | _, _ => s

def step (s : State V E) : Action V E → State V E
  | .call call event =>
      (s.observe ofText call event).setPhase call ((s.calls call).next ofText event)
  | .get _ answer => (get ofText s answer).1
  | .set _ _ _ => s
  | .invalidate _ _ => s

/-- What a step asks of Redis. -/
def commandOf (s : State V E) : Action V E → Option Command
  | .call call event =>
      match s.calls call, event with
      | .looking job, .lookUp _ => some (.get job.key)
      | .storing job value, .store => set toText job.key value job.ttlSecs
      | _, _ => none
  | .get key _ => some (.get key)
  | .set key value ttlSecs => set toText key value ttlSecs
  | .invalidate key _ => some (.del key)

/-- All interleavings, before any call. -/
def system : System (State V E) (Action V E) where
  initial := fun s => (∀ call, s.calls call = .idle) ∧ s.hits = 0 ∧ s.misses = 0
  time _ := 0
  step := step ofText

end Client

end CacheClient
end Services
end Paystream
