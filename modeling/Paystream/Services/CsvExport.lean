import Paystream.Library.Calendar
import Paystream.Library.Csv
import Paystream.Services.Indexer
import Paystream.Services.Validation

/-!
# The two CSV exports

`buildCsv` of `demo/src/csvExport.ts` writes the history of a stream, and
`exportAuditLogsCSV` of `api/services/dbService.js` the audit log.

A date is its time value, with `none` for an invalid one.
-/

namespace Paystream
namespace Services
namespace CsvExport

open Library
open Library.Csv

/-! ## The history of a stream -/

structure TxRecord where
  /-- empty if there is none -/
  timestamp : Text
  type : Text
  amount : Option Text

structure DateRange where
  fromDate : Option (Option Int)
  toDate : Option (Option Int)

/-- `HEADERS`. -/
def headers : List Text :=
  ["date".toList, "stream_id".toList, "employee".toList, "token".toList, "type".toList,
    "amount".toList]

def escapeCell (value : Text) : Text :=
  if ',' ∈ value ∨ '"' ∈ value ∨ '\n' ∈ value then
    '"' :: (doubleQuotes value ++ ['"'])
  else
    value

/-- `a < b` for dates: an invalid one is neither before nor after any other. -/
def before : Option Int → Option Int → Bool
  | some a, some b => decide (a < b)
  | _, _ => false

/-- The date is before the range or after it. -/
def outOfRange (range : DateRange) (ts : Option Int) : Bool :=
  (match range.fromDate with
    | some fromDate => before ts fromDate
    | none => false) ||
  (match range.toDate with
    | some toDate => before toDate ts
    | none => false)

section BuildCsv

variable (parseDate : Text → Option Int) (streamId : Int) (employee token : Text)
  (range : Option DateRange)

/-- The `date` of a record.  `toISOString` throws for an invalid one. -/
def dateText (r : TxRecord) : Option Text :=
  if r.timestamp ≠ [] then (parseDate r.timestamp).map Calendar.toISOString
  else some []

/-- The date filter drops the record. -/
def filteredOut (r : TxRecord) : Bool :=
  match range with
  | some range =>
      decide (r.timestamp ≠ []) && outOfRange range (parseDate r.timestamp)
  | none => false

/-- The body of the loop over the records. -/
def pushRow (rows : List Text) (r : TxRecord) : Option (List Text) := do
  let date ← dateText parseDate r
  if filteredOut parseDate range r then
    some rows
  else
    some (rows ++ [List.intercalate [',']
      [escapeCell date, escapeCell (Indexer.intText streamId), escapeCell employee,
        escapeCell token, escapeCell r.type, escapeCell (r.amount.getD [])]])

/-- `buildCsv`, none if it throws.  `parseDate` is what `new Date` makes of a
timestamp. -/
def buildCsv (records : List TxRecord) : Option Text := do
  let rows ← records.foldlM (pushRow parseDate streamId employee token range)
    [List.intercalate [','] headers]
  some (List.intercalate ['\r', '\n'] rows)

end BuildCsv

/-! ## The audit log -/

structure AuditLog where
  id : Nat
  actor : Text
  action : Text
  entityType : Option Text
  entityId : Option Text
  beforeState : Option Json
  afterState : Option Json
  metadata : Option Json
  createdAt : Option Int
  /-- of an entry that `logAdminAction` has written -/
  timestamp : Option Int

def auditHeaders : List Text :=
  ["id".toList, "actor".toList, "action".toList, "entity_type".toList,
    "entity_id".toList, "before_state".toList, "after_state".toList, "metadata".toList,
    "created_at".toList]

/-- The text of a state, empty if it is falsy. -/
def stateText : Option Json → Text
  | some state => if truthy state then state.stringify else []
  | none => []

/-- The date of an entry; the clock is read for one without. -/
def auditDate (log : AuditLog) (dateNow : Int) : Text :=
  Calendar.toISOString ((log.createdAt.orElse fun _ => log.timestamp).getD dateNow)

/-- The `values` of an entry. -/
def auditValues (log : AuditLog) (dateNow : Int) : List Text :=
  [Nat.toDigits 10 log.id, log.actor, log.action, log.entityType.getD [],
    log.entityId.getD [], doubleQuotes (stateText log.beforeState),
    doubleQuotes (stateText log.afterState), doubleQuotes (stateText log.metadata),
    auditDate log dateNow]

def auditLine (log : AuditLog) (dateNow : Int) : Text :=
  List.intercalate [','] ((auditValues log dateNow).map fun v => '"' :: (v ++ ['"']))

/-- `exportAuditLogsCSV`.  `getAuditLogs` answers a limit and an offset, and `dateNow i`
is the clock when the entry `i` is written. -/
def exportAuditLogsCSV (getAuditLogs : Nat → Nat → List AuditLog) (dateNow : Nat → Int) :
    Text :=
  let logs := getAuditLogs 100000 0
  List.intercalate ['\n'] (List.intercalate [','] auditHeaders ::
    logs.mapIdx fun i log => auditLine log (dateNow i))

end CsvExport
end Services
end Paystream
