import Mathlib.Data.List.Sort
import Paystream.Library.History

/-!
# The migration runner

`services/migration/migrationRunner.js`: registered migrations are run in the
order of their versions, those a query on `migration_history` reports as applied
are skipped, and every step is audited in that table.

Versions are any linear order.  A validation is called twice for a step and may
answer differently each time, so the occasion is an argument of it.  The audit
file and the notifications are left out: no step reads them.  In their place the
model keeps the steps that completed (`completed`), which nothing reads either.
-/

namespace Paystream
namespace Services
namespace Migration

open Library

/-! ## Migrations -/

/-- The two validations of a step. -/
inductive Label
  | before
  | after
  deriving DecidableEq

def Label.text : Label → String
  | .before => "before"
  | .after => "after"

/-- A registered migration.  `up`, `down` and `validate` throw with a message;
a validation that does not throw passes, or gives the reason why not. -/
structure Step (Version Data : Type) where
  version : Version
  description : Option String
  up : Data → Except String Data
  down : Option (Data → Except String Data)
  validate : Option (Label → Data → Except String (Option String))

/-- `_migrations`, a map from versions. -/
structure Registry (Version Data : Type) where
  steps : List (Step Version Data)
  nodup : (steps.map Step.version).Nodup

/-! ## The history -/

inductive Direction
  | up
  | down
  | validation
  deriving DecidableEq

inductive Status
  | started
  | success
  | failed
  | rolledBack
  deriving DecidableEq

/-- A row of `migration_history`, without its id and time. -/
structure Row (Version : Type) where
  version : Version
  description : Option String
  direction : Direction
  status : Status
  error : Option String
  deriving DecidableEq

/-- What the runner works on: the table, if there is a database, and the steps
that completed, the latest first. -/
structure Runner (Version : Type) where
  db : Option (List (Row Version))
  completed : List (Version × Direction)

section Runner

variable {Version : Type} [DecidableEq Version]

/-- A new runner, with an empty table or without a database. -/
def Runner.fresh (database : Bool) : Runner Version where
  db := if database then some [] else none
  completed := []

/-- The CHECK constraint on the direction. -/
def Row.admitted (row : Row Version) : Bool :=
  decide (row.direction ≠ .validation)

/-- `x || null` for a text. -/
def orNull (text : Option String) : Option String :=
  text.filter fun text => decide (text ≠ "")

/-- `_audit`.  An insert that fails is swallowed. -/
def Runner.audit (s : Runner Version) (version : Version)
    (description : Option String) (direction : Direction) (status : Status)
    (error : Option String) : Runner Version :=
  let row : Row Version :=
    ⟨version, orNull description, direction, status, orNull error⟩
  { s with db := s.db.map fun rows =>
      if row.admitted then rows ++ [row] else rows }

/-- Note that a step is through. -/
def Runner.complete (s : Runner Version) (version : Version)
    (direction : Direction) : Runner Version :=
  { s with completed := (version, direction) :: s.completed }

/-- The versions of the rows with this direction and the status `success`. -/
def succeeded (direction : Direction) (rows : List (Row Version)) : List Version :=
  (rows.filter fun row =>
    decide (row.direction = direction ∧ row.status = .success)).map Row.version

/-- `_appliedVersions`. -/
def Runner.appliedVersions (s : Runner Version) : List Version :=
  match s.db with
  | none => []
  | some rows => ((succeeded .up rows).filter fun version =>
      decide (version ∉ succeeded .down rows)).dedup

end Runner

/-! ## The loops -/

section Loops

variable {Version Data : Type} [LinearOrder Version] [ToString Version]

/-- The message of a validation that did not pass. -/
def validationFailed (m : Step Version Data) (label : Label) (reason : String) :
    String :=
  "Validation " ++ label.text ++ " failed for v" ++ toString m.version ++ ": " ++
    reason

/-- `_runValidate`. -/
def runValidate (m : Step Version Data) (streams : Data) (label : Label)
    (s : Runner Version) : Except String Unit × Runner Version :=
  match m.validate with
  | none => (.ok (), s)
  | some validate =>
      match validate label streams with
      | .error error => (.error error, s)
      | .ok none => (.ok (), s)
      | .ok (some reason) =>
          let msg := validationFailed m label reason
          (.error msg, s.audit m.version none .validation .failed (some msg))

/-- The body of the loop of `migrate`. -/
def runUp (m : Step Version Data) (current : Data) (s : Runner Version) :
    Except String Data × Runner Version :=
  match runValidate m current .before s with
  | (.error error, s) => (.error error, s)
  | (.ok _, s) =>
      let s := s.audit m.version m.description .up .started none
      match m.up current with
      | .error error =>
          (.error error, s.audit m.version m.description .up .failed (some error))
      | .ok migrated =>
          match runValidate m migrated .after s with
          | (.error error, s) => (.error error, s)
          | (.ok _, s) =>
              (.ok migrated, (s.audit m.version m.description .up .success
                none).complete m.version .up)

/-- The body of the loop of `rollback`. -/
def runDown (m : Step Version Data) (current : Data) (s : Runner Version) :
    Except String Data × Runner Version :=
  match m.down with
  | none =>
      (.error ("Migration v" ++ toString m.version ++
        " has no rollback (down) function"), s)
  | some down =>
      let s := s.audit m.version m.description .down .started none
      match down current with
      | .error error =>
          (.error error, s.audit m.version m.description .down .failed (some error))
      | .ok streams =>
          (.ok streams, (s.audit m.version m.description .down .rolledBack
            none).complete m.version .down)

/-- Run the steps one after the other, up to the first that throws. -/
def runAll (body : Step Version Data → Data → Runner Version →
      Except String Data × Runner Version) :
    List (Step Version Data) → Data → Runner Version →
      Except String Data × Runner Version
  | [], current, s => (.ok current, s)
  | m :: rest, current, s =>
      match body m current s with
      | (.error error, s) => (.error error, s)
      | (.ok current, s) => runAll body rest current s

namespace Registry

/-- `register`. -/
def register (registry : Registry Version Data) (m : Step Version Data) :
    Except String (Registry Version Data) :=
  if hnew : m.version ∈ registry.steps.map Step.version then
    .error ("Migration version " ++ toString m.version ++ " already registered")
  else
    .ok
      { steps := registry.steps ++ [m]
        nodup := by
          rw [List.map_append, List.map_singleton, ← List.concat_eq_append]
          exact registry.nodup.concat hnew }

/-- `_sortedVersions`, each version with its migration. -/
def sorted (registry : Registry Version Data) : List (Step Version Data) :=
  registry.steps.insertionSort fun a b => a.version ≤ b.version

/-- What `migrate` has to run. -/
def pending (registry : Registry Version Data) (s : Runner Version) :
    List (Step Version Data) :=
  registry.sorted.filter fun m => decide (m.version ∉ s.appliedVersions)

/-- What `rollback` has to run, the newest first. -/
def toRollback (registry : Registry Version Data) (targetVersion : Version)
    (s : Runner Version) : List (Step Version Data) :=
  (registry.sorted.filter fun m =>
    decide (m.version ∈ s.appliedVersions ∧ targetVersion < m.version)).reverse

/-- `migrate`. -/
def migrate (registry : Registry Version Data) (streams : Data)
    (s : Runner Version) : Except String Data × Runner Version :=
  runAll runUp (registry.pending s) streams s

/-- `rollback`. -/
def rollback (registry : Registry Version Data) (streams : Data)
    (targetVersion : Version) (s : Runner Version) :
    Except String Data × Runner Version :=
  runAll runDown (registry.toRollback targetVersion s) streams s

end Registry

/-! ## Runs -/

/-- A call, with what is registered when it is made. -/
inductive Call (Version Data : Type)
  | migrate (registry : Registry Version Data) (streams : Data)
  | rollback (registry : Registry Version Data) (streams : Data)
      (targetVersion : Version)

def step (s : Runner Version) : Call Version Data → Runner Version
  | .migrate registry streams => (registry.migrate streams s).2
  | .rollback registry streams targetVersion =>
      (registry.rollback streams targetVersion s).2

/-- All sequences of calls. -/
def system (Version Data : Type) [LinearOrder Version] [ToString Version]
    (database : Bool) : System (Runner Version) (Call Version Data) where
  initial := fun s => s = Runner.fresh database
  time := fun _ => 0
  step := step

end Loops

end Migration
end Services
end Paystream
