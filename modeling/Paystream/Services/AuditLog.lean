import Paystream.Library.History
import Paystream.Services.CsvExport

/-!
# The audit log in memory

`logAdminAction`, `createAuditLog` and `getAuditLogs` of `api/services/dbService.js`,
and the handler of `GET /audit-logs` in `api/routes/admin.js`.

Without a database the log is kept in memory.  With one it is used when a query
fails, so what the database does is part of every call: for a new entry whether it
takes it, and for a read the rows it answers, if it does.
-/

namespace Paystream
namespace Services
namespace AuditLogs

open Library
open CsvExport

/-- An entry with the members that only `logAdminAction` writes. -/
structure LogRecord extends AuditLog where
  params : Option Json
  transactionHash : Option Text

/-- `inMemoryAuditLogs` and `auditLogIdCounter`. -/
structure State where
  logs : List LogRecord
  idCounter : Nat

/-- The arguments of `logAdminAction`, and the date it reads first. -/
structure AdminAction where
  actor : Text
  action : Text
  params : Option Json
  transactionHash : Option Text
  timestamp : Int

/-- The argument of `createAuditLog`, and the date at which it pushes it. -/
structure AuditedChange where
  actor : Text
  action : Text
  entityType : Option Text
  entityId : Option Text
  beforeState : Option Json
  afterState : Option Json
  metadata : Option Json
  createdAt : Int

def push (s : State) (log : Nat → LogRecord) : State where
  logs := s.logs ++ [log s.idCounter]
  idCounter := s.idCounter + 1

/-- The database took the entry. -/
def takenBy (database : Option Bool) : Bool :=
  database == some true

def logAdminAction (s : State) (a : AdminAction) (database : Option Bool) : State :=
  if takenBy database then s
  else push s fun id =>
    { id := id, actor := a.actor, action := a.action, entityType := none
      entityId := none, beforeState := none, afterState := none, metadata := none
      createdAt := none, timestamp := some a.timestamp, params := a.params
      transactionHash := a.transactionHash }

def createAuditLog (s : State) (c : AuditedChange) (database : Option Bool) : State :=
  if takenBy database then s
  else push s fun id =>
    { id := id, actor := c.actor, action := c.action, entityType := c.entityType
      entityId := c.entityId, beforeState := c.beforeState, afterState := c.afterState
      metadata := c.metadata, createdAt := some c.createdAt, timestamp := none
      params := none, transactionHash := none }

/-- `getAuditLogs`: the rows of the database, or a slice of the reversed log. -/
def getAuditLogs (s : State) (limit offset : Nat)
    (database : Option (Option (List LogRecord))) : List LogRecord :=
  match database with
  | some (some rows) => rows
  | _ => (s.logs.reverse.drop offset).take limit

/-- `parseInt(value) || default`. -/
def orDefault (value : Option Nat) (default : Nat) : Nat :=
  match value with
  | some value => if value = 0 then default else value
  | none => default

/-- `GET /audit-logs`, none for a limit that is refused. -/
def auditLogs (s : State) (limit offset : Option Nat)
    (database : Option (Option (List LogRecord))) : Option (List LogRecord) :=
  if ∀ value ∈ limit, 1 ≤ value ∧ value ≤ 1000 then
    some (getAuditLogs s (orDefault limit 100) (orDefault offset 0) database)
  else none

inductive Action
  | logAdminAction (a : AdminAction) (database : Option Bool)
  | createAuditLog (c : AuditedChange) (database : Option Bool)
  | auditLogs (limit offset : Option Nat) (database : Option (Option (List LogRecord)))

def handle (s : State) : Action → State
  | .logAdminAction a database => logAdminAction s a database
  | .createAuditLog c database => createAuditLog s c database
  | .auditLogs _ _ _ => s

def system : System State Action where
  initial s := s = ⟨[], 1⟩
  time _ := 0
  step := handle

end AuditLogs
end Services
end Paystream
