import Mathlib.Data.Int.Bitwise
import Paystream.Library.Dedup
import Paystream.Library.History
import Paystream.Services.Events

/-!
# The event indexer

`services/indexer/src/index.js`: `indexEvents` polls the RPC server from the stored
cursor on and puts a job for each event into a queue; a worker writes each job to
`stream_events`, whose UNIQUE constraint drops what it takes for a repetition.

Polls run on a timer and may overlap, so each of them is cut at its awaits.
The SDK's rendering of addresses and of the values the decoder has no case for is
a parameter (`Encoding`).
-/

namespace Paystream
namespace Services
namespace Indexer

open Library
open Contract

/-! ## Fetched events -/

/-- An event as `getEvents` returns it. -/
structure RawEvent where
  ledger : Nat
  txHash : Text
  topic : List ScVal
  value : ScVal

/-- The event published in this transaction. -/
def RawEvent.of (ledger : Nat) (txHash : Text) (event : Published) : RawEvent where
  ledger := ledger
  txHash := txHash
  topic := event.topic
  value := event.value

/-! ## Decoding -/

/-- What the SDK writes for an address, and for a value as base64 XDR. -/
structure Encoding where
  strkey : Address → Text
  toXDR : ScVal → Text

/-- The decimal text of an integer. -/
def intText (value : Int) : Text :=
  if value < 0 then '-' :: Nat.toDigits 10 value.natAbs
  else Nat.toDigits 10 value.natAbs

mutual

/-- `decodeScVal`. -/
def decodeScVal (encoding : Encoding) : ScVal → Json
  | .symbol name => .str name
  | .u64 value => .str (Nat.toDigits 10 value)
  | .i128 hi lo => .str (intText (Int.lor (hi <<< 64) lo))
  | .address address => .str (encoding.strkey address)
  | .bool value => .bool value
  | .vec items => .arr (decodeScVals encoding items)
  | .void => .str (encoding.toXDR .void)
  | .u32 value => .str (encoding.toXDR (.u32 value))
  | .bytes value => .str (encoding.toXDR (.bytes value))
termination_by structural value => value

def decodeScVals (encoding : Encoding) : List ScVal → List Json
  | [] => []
  | item :: items => decodeScVal encoding item :: decodeScVals encoding items
termination_by structural items => items

end

/-- The nearest double, ties to even. -/
def toDouble (n : Nat) : Nat :=
  if n < 2 ^ 53 then
    n
  else
    let unit := 2 ^ (n.log2 - 52)
    let down := n / unit
    let rest := n % unit
    if 2 * rest < unit ∨ (2 * rest = unit ∧ down % 2 = 0) then down * unit
    else (down + 1) * unit

/-- `Number(text)` for the text of a natural number, none for `NaN`. -/
def numberOf : Json → Option Nat
  | .str text =>
      if text ≠ [] ∧ text.all Char.isDigit then
        some (toDouble (Nat.ofDigitChars 10 text 0))
      else
        none
  | _ => none

/-- `String(topic)` for the text of a symbol. -/
def stringOf : Json → Text
  | .str text => text
  | value => value.stringify

/-- A job of the queue, and the row the worker writes for it. -/
structure Job where
  ledger : Nat
  txHash : Text
  eventType : Text
  streamId : Option Nat
  topics : List Json
  data : Json
  deriving DecidableEq

/-- `parseEvent`, and the job `indexEvents` makes of it. -/
def jobOf (encoding : Encoding) (raw : RawEvent) : Job :=
  let topics := raw.topic.map (decodeScVal encoding)
  { ledger := raw.ledger
    txHash := raw.txHash
    eventType := stringOf (topics[0]?.getD (.str "unknown".toList))
    streamId := topics[1]?.bind numberOf
    topics := topics
    data := decodeScVal encoding raw.value }

/-! ## The worker -/

/-- The columns of the UNIQUE constraint.  A NULL is distinct from every value,
so a row without a stream has no key to conflict with. -/
def Job.uniqueKey (job : Job) : Option (Text × Text × Nat) :=
  job.streamId.map fun streamId => (job.txHash, job.eventType, streamId)

/-- The worker: `INSERT ... ON CONFLICT (tx_hash, event_type, stream_id) DO
NOTHING`.  A number outside the range of BIGINT is an error, and the job fails. -/
def runJob (rows : List Job) (job : Job) : Option (List Job) :=
  if job.streamId.getD 0 < 2 ^ 63 then some (insertNew Job.uniqueKey rows job)
  else none

/-- The runs of a list of jobs, all of which complete. -/
def runJobs (jobs : List Job) : Option (List Job) :=
  jobs.foldlM runJob []

/-! ## Polling -/

/-- The contract events of each ledger, those to come included. -/
structure Chain where
  eventsAt : Nat → List RawEvent
  ledger_eq : ∀ ledger, ∀ raw ∈ eventsAt ledger, raw.ledger = ledger
  /-- ledgers are counted from one -/
  none_at_zero : eventsAt 0 = []

/-- The events of the ledgers from `first` to `last`. -/
def Chain.between (chain : Chain) (first last : Nat) : List RawEvent :=
  (List.range' first (last + 1 - first)).flatMap chain.eventsAt

/-- A poll whose `getEvents` has returned: the events it has yet to enqueue. -/
structure Poll where
  lastLedger : Nat
  maxLedger : Nat
  events : List RawEvent
  latestLedger : Option Nat

/-- How far a poll is. -/
inductive Phase
  | idle
  /-- it has read the cursor -/
  | started (lastLedger : Nat)
  | indexing (poll : Poll)

structure State where
  tip : Nat
  /-- `indexer_cursor.last_ledger` -/
  cursor : Nat
  /-- the jobs added so far -/
  queue : List Job
  phase : Nat → Phase

/-- What happens: the chain grows, or one of the polls, which are numbered, takes
its next step or ends with an error. -/
inductive Action
  | grow (ledgers : Nat)
  | start (i : Nat)
  | fetch (i : Nat)
  | enqueue (i : Nat)
  | finish (i : Nat)
  | abort (i : Nat)

/-- `startLedger`, one on the first run. -/
def startLedger (lastLedger : Nat) : Nat :=
  if 0 < lastLedger then lastLedger + 1 else 1

section Polling

variable (encoding : Encoding) (chain : Chain) (limit : Nat)

/-- `getEvents`: a page of the events up to the tip, with the tip. -/
def getEvents (tip start : Nat) : List RawEvent × Option Nat :=
  ((chain.between start tip).take limit, some tip)

def State.setPhase (s : State) (i : Nat) (phase : Phase) : State :=
  { s with phase := Function.update s.phase i phase }

/-- One step; a step that is not due does nothing. -/
def step (s : State) : Action → State
  | .grow ledgers => { s with tip := s.tip + ledgers }
  | .start i =>
      match s.phase i with
      | .idle => s.setPhase i (.started s.cursor)
      | _ => s
  | .fetch i =>
      match s.phase i with
      | .started lastLedger =>
          let result := getEvents chain limit s.tip (startLedger lastLedger)
          s.setPhase i (.indexing ⟨lastLedger, lastLedger, result.1, result.2⟩)
      | _ => s
  | .enqueue i =>
      match s.phase i with
      | .indexing ⟨lastLedger, maxLedger, raw :: events, latestLedger⟩ =>
          { (s.setPhase i (.indexing
              ⟨lastLedger, max maxLedger raw.ledger, events, latestLedger⟩)) with
            queue := s.queue ++ [jobOf encoding raw] }
      | _ => s
  | .finish i =>
      match s.phase i with
      | .indexing ⟨lastLedger, maxLedger, [], latestLedger⟩ =>
          let latest := latestLedger.getD maxLedger
          { (s.setPhase i .idle) with
            cursor := if lastLedger < latest then latest else s.cursor }
      | _ => s
  | .abort i => s.setPhase i .idle

/-- All runs of the indexer on this chain, from the migrated tables on. -/
def system : System State Action where
  initial := fun s => s.cursor = 0 ∧ s.queue = [] ∧ ∀ i, s.phase i = .idle
  time := fun _ => 0
  step := step encoding chain limit

end Polling

end Indexer
end Services
end Paystream
