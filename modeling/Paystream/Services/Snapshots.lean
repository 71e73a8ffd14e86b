import Mathlib.Data.Rat.Defs
import Paystream.Library.Json
import Paystream.Library.LoadSave

/-!
# The snapshot store

`SnapshotStore` of `services/snapshot/snapshotStore.js`: `checkpoint` and
`forceCheckpoint` load the snapshots of a stream from the storage backend, append
one, cut the list to the last `retentionLimit` and save it; `cleanup` saves the ones
that are not too old; `query` and `queryAt` read.

The backend is one whose `load` returns a copy of what was saved last.  Both its
operations are awaited, so the calls of one store interleave at them
(`Library.LoadSave`).  `store` is the same store with calls that do not overlap.
-/

namespace Paystream
namespace Services
namespace Snapshots

open Library

/-! ## Streams and snapshots -/

/-- The id of a stream, a number or a string. -/
inductive StreamId
  | num (text : NumberText)
  | str (text : Text)
  deriving DecidableEq

/-- The id in a template string. -/
def StreamId.text : StreamId → Text
  | .num text => text.chars
  | .str text => text

/-- What the store reads of a stream.  It only copies the values. -/
structure StreamState (Value : Type) where
  id : StreamId
  status : Value
  deposit : Value
  withdrawn : Value
  ratePerSecond : Value
  lastWithdrawTime : Value
  deriving DecidableEq

structure Snapshot (Value : Type) where
  ts : ℚ
  id : StreamId
  status : Value
  deposit : Value
  withdrawn : Value
  ratePerSecond : Value
  lastWithdrawTime : Value
  deriving DecidableEq

section Store

variable {Value : Type}

/-- The storage key of a stream. -/
def StreamState.key (stream : StreamState Value) : Text :=
  "stream:".toList ++ stream.id.text

/-- `_compact`. -/
def compact (stream : StreamState Value) (ts : ℚ) : Snapshot Value :=
  { ts := ts
    id := stream.id
    status := stream.status
    deposit := stream.deposit
    withdrawn := stream.withdrawn
    ratePerSecond := stream.ratePerSecond
    lastWithdrawTime := stream.lastWithdrawTime }

/-- `slice(-limit)`; a limit of zero keeps everything, as `slice(-0)` does. -/
def sliceLast {α : Type} (limit : Nat) (items : List α) : List α :=
  if limit = 0 then items else items.drop (items.length - limit)

/-- The options of the constructor. -/
structure Options where
  intervalSecs : ℚ := 3600
  retentionLimit : Nat := 720

/-! ## The two calls, after their load -/

variable (options : Options)

/-- What both calls save, and the snapshot they return. -/
def record (stream : StreamState Value) (now : ℚ)
    (snapshots : List (Snapshot Value)) :
    Snapshot Value × List (Snapshot Value) :=
  let snapshot := compact stream now
  (snapshot, sliceLast options.retentionLimit (snapshots ++ [snapshot]))

/-- The interval has not elapsed since the last snapshot. -/
def tooSoon (now : ℚ) (snapshots : List (Snapshot Value)) : Bool :=
  match snapshots.getLast? with
  | some last => decide (now - last.ts < options.intervalSecs)
  | none => false

def checkpoint (stream : StreamState Value) (now : ℚ)
    (snapshots : List (Snapshot Value)) :
    Option (Snapshot Value × List (Snapshot Value)) :=
  if tooSoon options now snapshots then none
  else some (record options stream now snapshots)

def forceCheckpoint (stream : StreamState Value) (now : ℚ)
    (snapshots : List (Snapshot Value)) :
    Option (Snapshot Value × List (Snapshot Value)) :=
  some (record options stream now snapshots)

/-! ## Interleaved calls -/

inductive Method
  | checkpoint
  | forceCheckpoint
  deriving DecidableEq

/-- A call, with its arguments and the clock (in milliseconds) when it starts. -/
structure Call (Value : Type) where
  method : Method
  stream : StreamState Value
  nowSecs : Option ℚ
  clock : Nat

/-- The timestamp of a call. -/
def Call.now (call : Call Value) : ℚ :=
  call.nowSecs.getD (call.clock / 1000 : Nat)

/-- What a call does with the snapshots it has loaded. -/
def Call.body (call : Call Value) (snapshots : List (Snapshot Value)) :
    Option (Snapshot Value × List (Snapshot Value)) :=
  match call.method with
  | .checkpoint => checkpoint options call.stream call.now snapshots
  | .forceCheckpoint => forceCheckpoint options call.stream call.now snapshots

/-- The calls as calls that load and save. -/
def loadSave (calls : List (Call Value)) : LoadSave.Calls Text (Snapshot Value) where
  count := calls.length
  key i := ((calls[i]?).map fun call => call.stream.key).getD []
  body i snapshots := (calls[i]?).bind fun call => call.body options snapshots

/-- All interleavings of the calls of a store, from an empty backend. -/
def system (calls : List (Call Value)) :
    System (LoadSave.State Text (Snapshot Value)) LoadSave.Action :=
  LoadSave.system (loadSave options calls)

/-! ## Calls that do not overlap -/

/-- The storage key that `query` and `cleanup` form of an id. -/
def StreamId.key (id : StreamId) : Text :=
  "stream:".toList ++ id.text

/-- The storage backend. -/
abbrev Storage (Value : Type) := Text → Option (List (Snapshot Value))

/-- `await load(key) || []`. -/
def Storage.load (storage : Storage Value) (key : Text) : List (Snapshot Value) :=
  (storage key).getD []

/-- `await save(key, snapshots)`. -/
def Storage.save (storage : Storage Value) (key : Text)
    (snapshots : List (Snapshot Value)) : Storage Value :=
  Function.update storage key (some snapshots)

/-- What `cleanup` saves, and the number of snapshots it deletes. -/
def cleanup (olderThanTs : ℚ) (snapshots : List (Snapshot Value)) :
    Nat × List (Snapshot Value) :=
  let kept := snapshots.filter fun s => decide (s.ts ≥ olderThanTs)
  (snapshots.length - kept.length, kept)

/-- The snapshots of a stream in a range; a bound that is not given does not
restrict it. -/
def query (storage : Storage Value) (streamId : StreamId)
    (fromTs toTs : Option ℚ) : List (Snapshot Value) :=
  (storage.load streamId.key).filter fun s =>
    !(fromTs.any fun first => decide (s.ts < first)) &&
      !(toTs.any fun last => decide (s.ts > last))

def queryAt (storage : Storage Value) (streamId : StreamId) (atTs : ℚ) :
    Option (Snapshot Value) :=
  (query storage streamId none (some atTs)).getLast?

/-- A call that writes. -/
inductive Operation (Value : Type)
  | take (call : Call Value)
  | cleanup (streamId : StreamId) (olderThanTs : ℚ)

inductive Result (Value : Type)
  | taken (snapshot : Option (Snapshot Value))
  | deleted (count : Nat)

def Operation.run (storage : Storage Value) :
    Operation Value → Result Value × Storage Value
  | .take call =>
      match call.body options (storage.load call.stream.key) with
      | none => (.taken none, storage)
      | some (snapshot, trimmed) =>
          (.taken (some snapshot), storage.save call.stream.key trimmed)
  | .cleanup streamId olderThanTs =>
      let (count, kept) := Snapshots.cleanup olderThanTs (storage.load streamId.key)
      (.deleted count, storage.save streamId.key kept)

/-- One call after the other, from an empty backend.  Nothing is assumed of their
timestamps, nor of the clock. -/
def store : System (Storage Value) (Operation Value) where
  initial storage := ∀ key, storage key = none
  time _ := 0
  step storage operation := (operation.run options storage).2

end Store

end Snapshots
end Services
end Paystream
