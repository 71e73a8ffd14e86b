import Mathlib.Data.List.Infix
import Paystream.Library.Json
import Paystream.Library.SortedPages

/-!
# The search service

`search` of `services/search/src/lib.rs`: it filters the records, sorts the matches
and returns one page of them.

`usize` is 64 bits wide.  The product of page and page size is the only arithmetic
of the service that can overflow: it panics in a build with overflow checks and
wraps around in a build without.  Lengths are natural numbers; a slice is shorter
than `2 ^ 64`.
-/

namespace Paystream
namespace Services
namespace Search

open Library

/-! ## Domain types -/

inductive StreamStatus
  | active
  | paused
  | cancelled
  | exhausted
  deriving DecidableEq

structure StreamRecord where
  id : Nat
  employer : Text
  employee : Text
  token : Text
  deposit : Int
  withdrawn : Int
  ratePerSecond : Int
  startTime : Nat
  stopTime : Nat
  status : StreamStatus
  deriving DecidableEq

/-- A slice: its length is a `usize`. -/
structure Slice (α : Type) where
  items : List α
  fits : items.length < 2 ^ 64

/-! ## Filter and query types -/

structure StreamFilter where
  recipient : Option Text := none
  token : Option Text := none
  status : Option StreamStatus := none
  minDeposit : Option Int := none
  maxDeposit : Option Int := none
  startAfter : Option Nat := none
  startBefore : Option Nat := none

inductive SortField
  | id
  | deposit
  | startTime
  | ratePerSecond
  deriving DecidableEq

inductive SortOrder
  | asc
  | desc
  deriving DecidableEq

structure QueryOptions where
  sortBy : SortField := .id
  order : SortOrder := .asc
  page : UInt64 := 0
  pageSize : UInt64 := 20

structure PagedResult where
  items : List StreamRecord
  total : Nat
  page : UInt64
  pageSize : UInt64
  totalPages : Nat
  deriving DecidableEq

/-! ## Search logic -/

section Filter

/-- One check of the filter: a value that was given and that the record fails. -/
def passes {α : Type} (wanted : Option α) (fails : α → Bool) : Bool :=
  match wanted with
  | some value => !fails value
  | none => true

variable (toLowercase : Text → Text)

/-- The source returns at the first check that fails, as `&&` does.  Rust's
`to_lowercase` is the one of Unicode; nothing here depends on which it is. -/
def matchesFilter (s : StreamRecord) (f : StreamFilter) : Bool :=
  passes f.recipient
      (fun q => !decide (toLowercase q <:+: toLowercase s.employee)) &&
    passes f.token (fun token => decide (s.token ≠ token)) &&
    passes f.status (fun status => decide (s.status ≠ status)) &&
    passes f.minDeposit (fun min => decide (s.deposit < min)) &&
    passes f.maxDeposit (fun max => decide (s.deposit > max)) &&
    passes f.startAfter (fun after => decide (s.startTime < after)) &&
    passes f.startBefore (fun before => decide (s.startTime > before))

/-- The comparison that `search` sorts by. -/
def compareBy (sortBy : SortField) (order : SortOrder) (a b : StreamRecord) :
    Ordering :=
  let cmp :=
    match sortBy with
    | .id => compare a.id b.id
    | .deposit => compare a.deposit b.deposit
    | .startTime => compare a.startTime b.startTime
    | .ratePerSecond => compare a.ratePerSecond b.ratePerSecond
  if order = .desc then cmp.swap else cmp

/-- `div_ceil`. -/
def divCeil (total : Nat) (pageSize : UInt64) : Nat :=
  pageCount total pageSize.toNat

inductive Panic
  | multiplyOverflow
  deriving DecidableEq

/-- The product of two `usize`. -/
def mulUsize (overflowChecks : Bool) (a b : UInt64) : Except Panic UInt64 :=
  if overflowChecks && decide (2 ^ 64 ≤ a.toNat * b.toNat) then
    .error .multiplyOverflow
  else .ok (a * b)

/-- The records that match, in order: `sort_by` is stable. -/
def matched (streams : Slice StreamRecord) (filter : StreamFilter)
    (opts : QueryOptions) : List StreamRecord :=
  (streams.items.filter fun s => matchesFilter toLowercase s filter).mergeSort
    fun a b => (compareBy opts.sortBy opts.order a b).isLE

def search (overflowChecks : Bool) (streams : Slice StreamRecord)
    (filter : StreamFilter) (opts : QueryOptions) : Except Panic PagedResult := do
  let matched := matched toLowercase streams filter opts
  let total := matched.length
  let pageSize := max opts.pageSize 1
  let totalPages := divCeil total pageSize
  let offset ← mulUsize overflowChecks opts.page pageSize
  let start := min offset.toNat total
  let items := (matched.drop start).take pageSize.toNat
  return { items, total, page := opts.page, pageSize, totalPages }

end Filter

end Search
end Services
end Paystream
