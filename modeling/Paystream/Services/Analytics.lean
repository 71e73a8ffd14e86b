import Mathlib.Data.List.AList
import Paystream.Services.Events

/-!
# The analytics service

`services/analytics/src/index.js`: `computeStats` walks the pages of the
contract's events, oldest first, and rebuilds from them the number of streams, the
amounts and the status of every stream.

A record gives each of its values bare or in a `value` field; both are read the
same way.  The values are assumed to be decoded, as the service reads them: a symbol
or an address is text, an integer of any width a number, a vector an array.  By
`docs/indexer.md` the topics and values of a page are XDR-encoded, and nothing in the
service decodes them.  How an address and a byte string are written is a parameter
(`Rendering`).
-/

namespace Paystream
namespace Services
namespace Analytics

open Library
open Contract

/-! ## Records -/

structure Record where
  topic : List ScVal
  value : ScVal

def Record.of (event : Published) : Record where
  topic := event.topic
  value := event.value

/-- What the SDK and the runtime write for an address and for a byte string. -/
structure Rendering where
  strkey : Address → Text
  utf8 : BitVec 256 → Text

/-- The value of the two halves of an `i128`. -/
def ofHalves (hi : Int) (lo : Nat) : Int :=
  hi * 2 ^ 64 + lo

mutual

/-- `String(value ?? "")`. -/
def textOf (rendering : Rendering) : ScVal → Text
  | .void => []
  | .bool value => (if value then "true" else "false").toList
  | .u32 value => Nat.toDigits 10 value
  | .u64 value => Nat.toDigits 10 value
  | .i128 hi lo => (toString (ofHalves hi lo)).toList
  | .bytes value => rendering.utf8 value
  | .symbol name => name
  | .address address => rendering.strkey address
  | .vec items => textsOf rendering items
termination_by structural value => value

/-- The texts of an array, with commas between them. -/
def textsOf (rendering : Rendering) : List ScVal → Text
  | [] => []
  | [item] => textOf rendering item
  | item :: next :: items =>
      textOf rendering item ++ ',' :: textsOf rendering (next :: items)
termination_by structural items => items

end

/-- `data?.[i]`.  The events that are read have an array for their data. -/
def item (i : Nat) : ScVal → Option ScVal
  | .vec items => items[i]?
  | _ => none

/-- `BigInt(value ?? 0)`, none where it throws.  What is no number is read as
text, and no event has a numeral for a text. -/
def bigInt : Option ScVal → Option Int
  | none => some 0
  | some .void => some 0
  | some (.bool value) => some (if value then 1 else 0)
  | some (.u32 value) => some value
  | some (.u64 value) => some value
  | some (.i128 hi lo) => some (ofHalves hi lo)
  | some (.bytes _) => none
  | some (.symbol _) => none
  | some (.address _) => none
  | some (.vec _) => none

/-! ## The replay -/

/-- What is tracked of a stream. -/
structure Tracked where
  deposit : Int
  withdrawn : Int
  status : Text
  deriving DecidableEq

/-- The variables of the loop.  The map is one from texts; nothing depends on
its order. -/
structure Replay where
  totalStreams : Nat
  totalWithdrawn : Int
  streams : AList fun _ : Text => Tracked

def Replay.start : Replay where
  totalStreams := 0
  totalWithdrawn := 0
  streams := ∅

/-- `if (streams.has(streamId)) ... streams.get(streamId)`, to change what is
tracked of a stream. -/
def Replay.change (replay : Replay) (streamId : Text) (f : Tracked → Tracked) :
    Replay :=
  match replay.streams.lookup streamId with
  | some tracked =>
      { replay with streams := replay.streams.replace streamId (f tracked) }
  | none => replay

/-- The body of the loop over the records of a page. -/
def readRecord (rendering : Rendering) (replay : Replay) (record : Record) :
    Option Replay :=
  let type := textOf rendering (record.topic[0]?.getD .void)
  let streamId := textOf rendering (record.topic[1]?.getD .void)
  if type = "created".toList then do
    -- the rate stands in for the deposit, which the event does not carry
    let deposit ← bigInt (item 2 record.value)
    return { replay with
      totalStreams := replay.totalStreams + 1
      streams := replay.streams.insert streamId ⟨deposit, 0, "Active".toList⟩ }
  else if type = "withdraw".toList then do
    let amount ← bigInt (item 1 record.value)
    return { replay with totalWithdrawn := replay.totalWithdrawn + amount }.change
      streamId fun tracked =>
        { tracked with withdrawn := tracked.withdrawn + amount }
  else if type = "topup".toList then do
    let amount ← bigInt (item 1 record.value)
    return replay.change streamId fun tracked =>
      { tracked with deposit := tracked.deposit + amount }
  else if type = "status".toList then
    let status := textOf rendering record.value
    return replay.change streamId fun tracked => { tracked with status }
  else
    return replay

/-- The page size. -/
def pageLimit : Nat := 200

/-- The pages, one after the other: a page that is not full is the last one. -/
def walkPages (rendering : Rendering) (replay : Replay) (records : List Record) :
    Option Replay :=
  let page := records.take pageLimit
  match page.foldlM (readRecord rendering) replay with
  | none => none
  | some replay =>
      if page.length < pageLimit then some replay
      else walkPages rendering replay (records.drop pageLimit)
termination_by records.length
decreasing_by
  rename_i hfull
  have hlimit : 0 < pageLimit := by decide
  have hlength : min pageLimit records.length = page.length :=
    List.length_take.symm
  rw [List.length_drop]
  omega

/-! ## The statistics -/

structure Stats where
  totalStreams : Nat
  totalValueLocked : Int
  totalWithdrawn : Int
  activeStreamCount : Nat
  deriving DecidableEq

/-- What is counted as locked in a stream. -/
def Tracked.locked (tracked : Tracked) : Int :=
  max 0 (tracked.deposit - tracked.withdrawn)

/-- The loop over `streams.values()`. -/
def Replay.stats (replay : Replay) : Stats :=
  let active := (replay.streams.entries.map Sigma.snd).filter
    fun tracked => decide (tracked.status = "Active".toList)
  { totalStreams := replay.totalStreams
    totalValueLocked := (active.map Tracked.locked).sum
    totalWithdrawn := replay.totalWithdrawn
    activeStreamCount := active.length }

/-- `computeStats`, from the records of all pages; none where it throws. -/
def computeStats (rendering : Rendering) (records : List Record) : Option Stats :=
  (walkPages rendering .start records).map Replay.stats

end Analytics
end Services
end Paystream
