import Paystream.Library.History
import Paystream.Services.CsvExport

/-!
# The transaction history

The hook `useTransactionHistory` of the demo, which shows the operations of an
account page by page, and the export of all records that a function serves:
`exportAllHistory` of `csvExport.ts`, with the `handleExportCsv` of `App.tsx` that
passes it one.

Horizon is not modelled.  The export asks it through a parameter, and in the hook an
action carries what it answers.  `TxRecord` is the record without its `id`, which the
CSV file leaves out.
-/

namespace Paystream
namespace Services
namespace TransactionHistory

open Library
open CsvExport

/-- The members of an operation that are read. -/
structure Operation where
  id : Text
  pagingToken : Text
  createdAt : Option Text
  type : Text
  /-- if it is a string -/
  amount : Option Text
  deriving DecidableEq

def underscoresToSpaces (text : Text) : Text :=
  text.map fun c => if c = '_' then ' ' else c

def opType (type : Text) : Text :=
  if type = "invoke_host_function".toList then "Contract Call".toList
  else if type = "payment".toList then "Payment".toList
  else if type = "create_account".toList then "Create Account".toList
  else underscoresToSpaces type

def opAmount (op : Operation) : Option Text :=
  op.amount.map fun amount => amount ++ " XLM".toList

/-! ## The export -/

/-- The loop of `exportAllHistory`.  The fuel bounds the number of requests, and
`fetchPage` is told which one it answers. -/
def fetchAll (fetchPage : Nat → Option Text → Option (List TxRecord × Option Text)) :
    Nat → Nat → Option Text → List TxRecord → Option (List TxRecord)
  | 0, _, _, _ => none
  | fuel + 1, request, cursor, all =>
      match fetchPage request cursor with
      | none => none
      | some (records, nextCursor) =>
          if nextCursor.getD [] ≠ [] then
            fetchAll fetchPage fuel (request + 1) nextCursor (all ++ records)
          else some (all ++ records)

/-- `exportAllHistory`: the name of the file and the file. -/
def exportAllHistory (parseDate : Text → Option Int) (streamId : Int)
    (fetchPage : Nat → Option Text → Option (List TxRecord × Option Text))
    (range : Option DateRange) (employee token : Text) (fuel : Nat) :
    Option (Text × Text) := do
  let all ← fetchAll fetchPage fuel 0 none []
  let csv ← buildCsv parseDate streamId employee token range all
  return ("stream-".toList ++ Indexer.intText streamId ++ "-history.csv".toList, csv)

/-! ## The export of the page -/

/-- A record of the export, whose types are not named as in `opType`. -/
def exportRecord (op : Operation) : TxRecord where
  timestamp := op.createdAt.getD []
  type := underscoresToSpaces op.type
  amount := opAmount op

/-- The `PAGE_SIZE` of the export. -/
def exportPageSize : Nat := 200

/-- What Horizon answers, as the network stands at a request, to one for a number of
operations of an account from a cursor on; none if that is an error. -/
abbrev HorizonClient := Nat → Text → Nat → Option Text → Option (List Operation)

/-- The function that `handleExportCsv` passes on, which asks for an account. -/
def fetchPage (horizon : HorizonClient) (account : Text) (request : Nat)
    (cursor : Option Text) : Option (List TxRecord × Option Text) := do
  let ops ← horizon request account exportPageSize
    (cursor.filter fun cursor => decide (cursor ≠ []))
  let lastToken := ops.getLast?.map Operation.pagingToken
  return (ops.map exportRecord,
    if ops.length = exportPageSize then lastToken else none)

/-- A stream on the page. -/
structure ShownStream where
  id : Int
  employee : Text
  token : Text

/-- The `range` of the two input fields. -/
def inputRange (parseDate : Text → Option Int) (csvFrom csvTo : Text) :
    Option DateRange :=
  if csvFrom ≠ [] ∨ csvTo ≠ [] then
    some
      { fromDate := if csvFrom ≠ [] then some (parseDate csvFrom) else none
        toDate := if csvTo ≠ [] then some (parseDate csvTo) else none }
  else none

/-- `handleExportCsv`.  It asks for the stream's number where Horizon expects an
account. -/
def handleExportCsv (parseDate : Text → Option Int) (horizon : HorizonClient)
    (streams : List ShownStream) (csvFrom csvTo : Text) (streamId : Int) (fuel : Nat) :
    Option (Text × Text) :=
  let stream := streams.find? fun s => decide (s.id = streamId)
  exportAllHistory parseDate streamId (fetchPage horizon (Indexer.intText streamId))
    (inputRange parseDate csvFrom csvTo) ((stream.map ShownStream.employee).getD [])
    ((stream.map ShownStream.token).getD []) fuel

/-! ## The hook -/

/-- The `PAGE_SIZE` of the hook. -/
def pageSize : Nat := 10

/-- A record that is shown. -/
structure Listed where
  id : Text
  record : TxRecord

def listed (op : Operation) : Listed where
  id := op.id
  record := ⟨op.createdAt.getD [], opType op.type, opAmount op⟩

/-- A call of `fetchHistory` that has not ended, with the answer if there is one. -/
structure Request where
  nextCursor : Option Text
  answer : Option (Except Text (List Operation))

/-- The operations of the account, newest first, and the variables of the hook. -/
structure State where
  operations : List Operation
  records : List Listed
  loading : Bool
  error : Option Text
  cursor : Option Text
  hasMore : Bool
  requests : List Request

inductive Action
  /-- the account has a new operation -/
  | operate (op : Operation)
  | fetchHistory
  | loadMore
  | reset
  /-- Horizon answers a request, or it fails -/
  | answer (request : Nat) (answer : Except Text (List Operation))
  /-- the rest of a `fetchHistory` runs -/
  | settle (request : Nat)

/-- The beginning of `fetchHistory`.  An empty cursor is none. -/
def fetchHistory (s : State) (nextCursor : Option Text) : State :=
  { s with
    loading := true
    error := none
    requests := s.requests ++
      [⟨nextCursor.filter fun cursor => decide (cursor ≠ []), none⟩] }

/-- The rest of `fetchHistory`. -/
def settled (s : State) (nextCursor : Option Text)
    (answer : Except Text (List Operation)) : State :=
  match answer with
  | .error error => { s with error := some error, loading := false }
  | .ok ops =>
      { s with
        records :=
          match nextCursor with
          | some _ => s.records ++ ops.map listed
          | none => ops.map listed
        cursor := ops.getLast?.map Operation.pagingToken
        hasMore := decide (ops.length = pageSize)
        loading := false }

def handle (s : State) : Action → State
  | .operate op => { s with operations := op :: s.operations }
  | .fetchHistory => fetchHistory s none
  | .loadMore =>
      if s.cursor.getD [] ≠ [] then fetchHistory s s.cursor else s
  | .reset => { s with records := [], cursor := none, hasMore := false, error := none }
  | .answer request answer =>
      { s with requests := s.requests.modify request fun found =>
          if found.answer.isNone then { found with answer := some answer } else found }
  | .settle request =>
      match s.requests[request]? with
      | some ⟨nextCursor, some answer⟩ =>
          settled { s with requests := s.requests.eraseIdx request } nextCursor answer
      | _ => s

def system : System State Action where
  initial s := ∃ operations : List Operation,
    (operations.map Operation.pagingToken).Nodup ∧
      (∀ op ∈ operations, op.pagingToken ≠ []) ∧
      s = ⟨operations, [], false, none, none, false, []⟩
  time _ := 0
  step := handle

end TransactionHistory
end Services
end Paystream
