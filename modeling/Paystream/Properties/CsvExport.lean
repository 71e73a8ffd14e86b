import Paystream.Services.CsvExport

/-!
# Reading the CSV exports back

Both exports are tables of written cells, so they are read back exactly when every
cell is.

* `escapeCell` quotes all that the grammar treats specially, so the history of a stream
  is read back (`buildCsv_round_trip`).
* The audit log puts every column between quotes, and doubles the quotes of the states
  only, of which it leaves out `false`, `0` and `""`.  It is read back exactly when the
  other columns contain no quote and no state is one of these
  (`exportAuditLogsCSV_round_trip_iff`).
-/

namespace Paystream
namespace Properties

open Library
open Library.Csv
open Services
open Services.CsvExport

/-! ## The history of a stream -/

/-- A carriage return needs no quotes: it ends a record only with a line feed behind
it, and no field starts with a bare one. -/
theorem reads_escapeCell (value : Text) : Reads .crlf (escapeCell value) value := by
  unfold escapeCell
  split
  · exact reads_wrap_doubleQuotes .crlf value
  · rename_i hplain
    rw [not_or, not_or] at hplain
    exact reads_bare .crlf hplain.1 hplain.2.1 hplain.2.2

theorem outOfRange_eq_false_iff (limits : DateRange) (ts : Int) :
    outOfRange limits (some ts) = false ↔
      (∀ first, limits.fromDate = some (some first) → first ≤ ts) ∧
        ∀ last, limits.toDate = some (some last) → ts ≤ last := by
  obtain ⟨fromDate, toDate⟩ := limits
  unfold outOfRange
  rw [Bool.or_eq_false_iff]
  refine and_congr ?_ ?_
  · rcases fromDate with _ | _ | first
    · simp
    · simp [before]
    · simp [before]
  · rcases toDate with _ | _ | last
    · simp
    · simp [before]
    · simp [before]

section History

variable (parseDate : Text → Option Int) (streamId : Int) (employee token : Text)
  (range : Option DateRange)

/-- A record without a timestamp passes the filter, and one with a date does when no
end of the range excludes it. -/
theorem filteredOut_eq_false_iff {r : TxRecord} {ts : Int}
    (hvalid : r.timestamp ≠ [] → parseDate r.timestamp = some ts) :
    filteredOut parseDate range r = false ↔
      r.timestamp = [] ∨ ∀ limits, range = some limits →
        (∀ first, limits.fromDate = some (some first) → first ≤ ts) ∧
          ∀ last, limits.toDate = some (some last) → ts ≤ last := by
  cases range with
  | none => simp [filteredOut]
  | some limits =>
      by_cases htime : r.timestamp = []
      · simp [filteredOut, htime]
      · rw [or_iff_right htime]
        simp only [Option.some.injEq, forall_eq', ← outOfRange_eq_false_iff]
        simp [filteredOut, htime, hvalid htime]

/-- The date of a record in ISO form, empty without a timestamp. -/
def isoDate (r : TxRecord) : Text :=
  if r.timestamp = [] then []
  else (parseDate r.timestamp).elim [] Calendar.toISOString

/-- The values of a record's row. -/
def fieldsOf (r : TxRecord) : List Text :=
  [isoDate parseDate r, Indexer.intText streamId, employee, token, r.type,
    r.amount.getD []]

theorem dateText_of_valid {r : TxRecord}
    (hvalid : r.timestamp ≠ [] → (parseDate r.timestamp).isSome = true) :
    dateText parseDate r = some (isoDate parseDate r) := by
  unfold dateText isoDate
  by_cases htime : r.timestamp = []
  · rw [if_neg (not_not.mpr htime), if_pos htime]
  · obtain ⟨ts, hts⟩ := Option.isSome_iff_exists.mp (hvalid htime)
    rw [if_pos htime, if_neg htime, hts]
    rfl

/-- The row of a record whose timestamp is valid or missing. -/
theorem pushRow_of_valid {r : TxRecord}
    (hvalid : r.timestamp ≠ [] → (parseDate r.timestamp).isSome = true)
    (rows : List Text) :
    pushRow parseDate streamId employee token range rows r =
      some (if filteredOut parseDate range r = true then rows
        else rows ++ [List.intercalate [',']
          ((fieldsOf parseDate streamId employee token r).map escapeCell)]) := by
  unfold pushRow fieldsOf
  rw [dateText_of_valid parseDate hvalid]
  cases filteredOut parseDate range r with
  | true => rfl
  | false => rfl

/-- The loop adds a row for each record that passes the filter. -/
theorem foldlM_pushRow {records : List TxRecord}
    (hvalid : ∀ r ∈ records, r.timestamp ≠ [] → (parseDate r.timestamp).isSome = true)
    (rows : List Text) :
    records.foldlM (pushRow parseDate streamId employee token range) rows =
      some (rows ++ (records.filter fun r => !filteredOut parseDate range r).map fun r =>
        List.intercalate [','] ((fieldsOf parseDate streamId employee token r).map
          escapeCell)) := by
  induction records generalizing rows with
  | nil => simp
  | cons r records ih =>
      rw [List.forall_mem_cons] at hvalid
      rw [List.foldlM_cons, pushRow_of_valid parseDate streamId employee token range hvalid.1]
      refine (ih hvalid.2 _).trans ?_
      cases hfilter : filteredOut parseDate range r with
      | true =>
          rw [if_pos rfl, List.filter_cons_of_neg (by simp [hfilter])]
      | false =>
          rw [if_neg Bool.false_ne_true, List.filter_cons_of_pos (by simp [hfilter])]
          simp

/-- A cell that is written as it is, and one that is escaped. -/
def bareCell (value : Text) : Cell := ⟨value, value⟩

def escapedCell (value : Text) : Cell := ⟨escapeCell value, value⟩

/-- Names are read as they stand. -/
theorem reads_bareCells (lineBreak : LineBreak) {names : List Text}
    (hplain : ∀ name ∈ names, ',' ∉ name ∧ '"' ∉ name ∧ '\n' ∉ name) :
    ∀ cell ∈ names.map bareCell, Reads lineBreak cell.written cell.value := by
  intro cell hcell
  obtain ⟨name, hname, rfl⟩ := List.mem_map.mp hcell
  obtain ⟨hcomma, hquote, hfeed⟩ := hplain name hname
  exact reads_bare lineBreak hcomma hquote hfeed

/-- The table of the export. -/
def historyTable (records : List TxRecord) : List (List Cell) :=
  headers.map bareCell ::
    (records.filter fun r => !filteredOut parseDate range r).map fun r =>
      (fieldsOf parseDate streamId employee token r).map escapedCell

theorem forall_mem_historyTable {P : List Cell → Prop} {records : List TxRecord}
    (hheader : P (headers.map bareCell))
    (hrow : ∀ r, P ((fieldsOf parseDate streamId employee token r).map escapedCell)) :
    ∀ record ∈ historyTable parseDate streamId employee token range records, P record := by
  intro record hrecord
  rcases List.mem_cons.mp hrecord with rfl | hmem
  · exact hheader
  · obtain ⟨r, _, rfl⟩ := List.mem_map.mp hmem
    exact hrow r

theorem buildCsv_eq {records : List TxRecord}
    (hvalid : ∀ r ∈ records, r.timestamp ≠ [] → (parseDate r.timestamp).isSome = true) :
    buildCsv parseDate streamId employee token range records =
      some (tableText .crlf
        ((historyTable parseDate streamId employee token range records).map writtenOf)) := by
  unfold buildCsv
  rw [foldlM_pushRow parseDate streamId employee token range hvalid]
  simp only [historyTable, tableText, writtenOf, List.map_cons, List.map_map]
  rfl

/-- All cells of the table are read back. -/
theorem parse_historyTable (records : List TxRecord) :
    parse .crlf (tableText .crlf
        ((historyTable parseDate streamId employee token range records).map writtenOf)) =
      some (headers :: (records.filter fun r => !filteredOut parseDate range r).map
        (fieldsOf parseDate streamId employee token)) := by
  have hreads : ∀ record ∈ historyTable parseDate streamId employee token range records,
      ∀ cell ∈ record, Reads .crlf cell.written cell.value := by
    apply forall_mem_historyTable
    · exact reads_bareCells .crlf (by decide)
    · intro r cell hcell
      obtain ⟨value, _, rfl⟩ := List.mem_map.mp hcell
      exact reads_escapeCell value
  have hwide : ∀ record ∈ historyTable parseDate streamId employee token range records,
      2 ≤ record.length := by
    apply forall_mem_historyTable
    · decide
    · intro r
      rw [List.length_map]
      exact Nat.le_add_left 2 4
  have hparse := (parse_tableText_iff (List.cons_ne_nil _ _) hwide
    fun record hrecord cell hcell => Or.inl ⟨_, hreads record hrecord cell hcell⟩).mpr hreads
  refine hparse.trans ?_
  simp only [valuesOf, List.map_cons, List.map_map]
  congr 2

/-- The text of the export, read by RFC 4180, is the header and a row for each record
that passes the filter. -/
theorem buildCsv_round_trip (records : List TxRecord)
    (hvalid : ∀ r ∈ records, r.timestamp ≠ [] → (parseDate r.timestamp).isSome = true) :
    ∃ csv, buildCsv parseDate streamId employee token range records = some csv ∧
      parse .crlf csv = some (headers ::
        (records.filter fun r => !filteredOut parseDate range r).map
          (fieldsOf parseDate streamId employee token)) :=
  ⟨_, buildCsv_eq parseDate streamId employee token range hvalid,
    parse_historyTable parseDate streamId employee token range records⟩

end History

namespace HistorySample

/-- The years that the records are from. -/
def parseDate (text : Text) : Option Int :=
  if text = ['2', '0', '2', '6'] then some 1767225600000
  else if text = ['1', '9', '7', '0'] then some 0 else none

/-- A record at the start of 2026, and one without a timestamp, whose fields have what
the grammar treats specially. -/
def kept : List TxRecord :=
  [⟨['2', '0', '2', '6'], ['a', ',', '"', 'b', '"'], none⟩,
    ⟨[], ['c', '\r', '\n', 'd'], some ['\r']⟩]

def old : TxRecord := ⟨['1', '9', '7', '0'], ['e'], none⟩

def since2026 : DateRange := ⟨some (some 1767225600000), none⟩

end HistorySample

open HistorySample in
theorem buildCsv_round_trip_of_records :
    ∃ csv, buildCsv parseDate 7 ['e', '\r'] ['\n'] (some since2026) (old :: kept) =
        some csv ∧
      parse .crlf csv = some (headers :: kept.map
        (fieldsOf parseDate 7 ['e', '\r'] ['\n'])) := by
  have hvalid : ∀ r ∈ old :: kept, r.timestamp ≠ [] →
      (parseDate r.timestamp).isSome = true := by
    intro r hr htime
    rcases List.mem_cons.mp hr with rfl | hr
    · rfl
    · rcases List.mem_cons.mp hr with rfl | hr
      · rfl
      · cases List.mem_singleton.mp hr
        exact absurd rfl htime
  obtain ⟨csv, hcsv, hparse⟩ :=
    buildCsv_round_trip parseDate 7 ['e', '\r'] ['\n'] (some since2026) (old :: kept) hvalid
  exact ⟨csv, hcsv, hparse⟩

/-! ## The audit log -/

/-- A state as JSON, empty if there is none. -/
def jsonText : Option Json → Text
  | none => []
  | some .null => []
  | some state => state.stringify

/-- The values of an entry's row.  The date of an entry without one is the time of the
export. -/
def auditFields (log : AuditLog) (dateNow : Int) : List Text :=
  [Nat.toDigits 10 log.id, log.actor, log.action, log.entityType.getD [],
    log.entityId.getD [], jsonText log.beforeState, jsonText log.afterState,
    jsonText log.metadata,
    Calendar.toISOString ((log.createdAt.orElse fun _ => log.timestamp).getD dateNow)]

/-- A state that counts as false in a condition is null. -/
def Written (state : Option Json) : Prop :=
  ∀ value, state = some value → truthy value = false → value = .null

/-- The number `0`. -/
def zero : NumberText :=
  ⟨['0'], List.cons_ne_nil _ _, List.forall_mem_singleton.mpr rfl⟩

theorem written_iff (state : Option Json) :
    Written state ↔ state ≠ some (.bool false) ∧ state ≠ some (.num zero) ∧
      state ≠ some (.str []) := by
  cases state with
  | none => simp [Written]
  | some value =>
      simp only [Written, Option.some.injEq, forall_eq', ne_eq]
      cases value with
      | num text =>
          obtain ⟨chars, hnonempty, hdigits⟩ := text
          simp [truthy, zero]
      | _ => simp [truthy]

theorem stateText_eq_jsonText_iff (state : Option Json) :
    stateText state = jsonText state ↔ Written state := by
  cases state with
  | none => simp [stateText, jsonText, Written]
  | some value =>
      obtain ⟨c, rest, htext, _⟩ := value.stringify_eq_cons
      cases hkind : value with
      | null => simp [stateText, jsonText, Written, truthy]
      | _ =>
          rw [hkind] at htext
          simp only [stateText, jsonText, Written, Option.some.injEq, forall_eq']
          cases htruthy : truthy _ with
          | true => simp
          | false => simp [htext]

/-- A cell that is only put between quotes, and one whose quotes are doubled. -/
def wrappedCell (value : Text) : Cell := ⟨wrap value, value⟩

def stateCell (state : Option Json) : Cell :=
  ⟨wrap (doubleQuotes (stateText state)), jsonText state⟩

theorem reads_stateCell_iff (state : Option Json) :
    Reads .lf (stateCell state).written (stateCell state).value ↔ Written state := by
  rw [← stateText_eq_jsonText_iff]
  have hreads := reads_wrap_doubleQuotes .lf (stateText state)
  constructor
  · intro h
    exact hreads.value_eq h
  · intro h
    rw [h] at hreads
    rwa [stateCell, h]

def auditCells (log : AuditLog) (dateNow : Int) : List Cell :=
  [wrappedCell (Nat.toDigits 10 log.id), wrappedCell log.actor, wrappedCell log.action,
    wrappedCell (log.entityType.getD []), wrappedCell (log.entityId.getD []),
    stateCell log.beforeState, stateCell log.afterState, stateCell log.metadata,
    wrappedCell (auditDate log dateNow)]

/-- There is no quote in the texts of an entry that are not escaped, and all its states
are written. -/
structure Exported (log : AuditLog) : Prop where
  actor : '"' ∉ log.actor
  action : '"' ∉ log.action
  entityType : '"' ∉ log.entityType.getD []
  entityId : '"' ∉ log.entityId.getD []
  beforeState : Written log.beforeState
  afterState : Written log.afterState
  metadata : Written log.metadata

def AllRead (record : List Cell) : Prop :=
  ∀ cell ∈ record, Reads .lf cell.written cell.value

theorem allRead_auditCells_iff (log : AuditLog) (dateNow : Int) :
    AllRead (auditCells log dateNow) ↔ Exported log := by
  have hid : '"' ∉ Nat.toDigits 10 log.id := by
    intro h
    exact absurd (Nat.isDigit_of_mem_toDigits (by decide) (by decide) h) (by decide)
  have hdate : '"' ∉ auditDate log dateNow := Calendar.quote_not_mem_toISOString _
  unfold AllRead auditCells
  simp only [List.forall_mem_cons, wrappedCell, reads_wrap_iff, reads_stateCell_iff, hid,
    hdate, List.not_mem_nil, not_false_eq_true, true_and, false_imp_iff, implies_true,
    and_true]
  constructor
  · rintro ⟨hactor, haction, htype, hentity, hbefore, hafter, hmetadata⟩
    exact ⟨hactor, haction, htype, hentity, hbefore, hafter, hmetadata⟩
  · rintro ⟨hactor, haction, htype, hentity, hbefore, hafter, hmetadata⟩
    exact ⟨hactor, haction, htype, hentity, hbefore, hafter, hmetadata⟩

theorem map_mapIdx {α β γ : Type} (f : Nat → α → β) (g : β → γ) (items : List α) :
    (items.mapIdx f).map g = items.mapIdx fun i item => g (f i item) := by
  apply List.ext_getElem?
  intro i
  simp [Function.comp_def]

section Audit

variable (getAuditLogs : Nat → Nat → List AuditLog) (dateNow : Nat → Int)

/-- The table of the export. -/
def auditTable : List (List Cell) :=
  auditHeaders.map bareCell ::
    (getAuditLogs 100000 0).mapIdx fun i log => auditCells log (dateNow i)

theorem forall_mem_auditTable_iff {P : List Cell → Prop}
    (hheader : P (auditHeaders.map bareCell)) {Q : AuditLog → Prop}
    (hrow : ∀ log now, P (auditCells log now) ↔ Q log) :
    (∀ record ∈ auditTable getAuditLogs dateNow, P record) ↔
      ∀ log ∈ getAuditLogs 100000 0, Q log := by
  unfold auditTable
  rw [List.forall_mem_cons, and_iff_right hheader]
  simp only [List.forall_mem_iff_getElem, List.length_mapIdx, List.getElem_mapIdx, hrow]

theorem exportAuditLogsCSV_eq :
    exportAuditLogsCSV getAuditLogs dateNow =
      tableText .lf ((auditTable getAuditLogs dateNow).map writtenOf) := by
  unfold exportAuditLogsCSV auditTable tableText
  simp only [List.map_cons, map_mapIdx]
  rfl

theorem reads_auditHeaders : AllRead (auditHeaders.map bareCell) :=
  reads_bareCells .lf (by decide)

/-- The table is read back exactly when its rows are. -/
theorem parse_exportAuditLogsCSV_iff :
    parse .lf (exportAuditLogsCSV getAuditLogs dateNow) = some (auditHeaders ::
        (getAuditLogs 100000 0).mapIdx fun i log => auditFields log (dateNow i)) ↔
      ∀ log ∈ getAuditLogs 100000 0, Exported log := by
  have hwide : ∀ record ∈ auditTable getAuditLogs dateNow, 2 ≤ record.length :=
    (forall_mem_auditTable_iff getAuditLogs dateNow (by decide)
      fun _ _ => iff_true_intro (by simp [auditCells])).mpr fun _ _ => trivial
  have hcells : ∀ record ∈ auditTable getAuditLogs dateNow,
      ∀ cell ∈ record, IsCell .lf cell := by
    refine (forall_mem_auditTable_iff getAuditLogs dateNow (P := fun record =>
      ∀ cell ∈ record, IsCell .lf cell) ?_ fun log now => iff_true_intro ?_).mpr
        fun _ _ => trivial
    · intro cell hcell
      exact Or.inl ⟨_, reads_auditHeaders cell hcell⟩
    · have hstate : ∀ state, ∃ value, Reads .lf (stateCell state).written value :=
        fun _ => ⟨_, reads_wrap_doubleQuotes .lf _⟩
      simp only [auditCells, wrappedCell, List.forall_mem_cons, IsCell, hstate, true_or,
        or_true, List.not_mem_nil, false_imp_iff, implies_true, and_true]
  have hparse := parse_tableText_iff (List.cons_ne_nil _ _) hwide hcells
  rw [exportAuditLogsCSV_eq]
  refine Iff.trans (Iff.of_eq (congrArg (_ = some ·) ?_))
    (hparse.trans (forall_mem_auditTable_iff getAuditLogs dateNow reads_auditHeaders
      allRead_auditCells_iff))
  simp only [List.map_cons, map_mapIdx]
  rfl

/-- The audit log is read back, with all its rows and values, exactly when no actor,
action, entity type or entity id contains a quote and no state or metadata is `false`,
`0` or `""`. -/
theorem exportAuditLogsCSV_round_trip_iff :
    parse .lf (exportAuditLogsCSV getAuditLogs dateNow) = some (auditHeaders ::
        (getAuditLogs 100000 0).mapIdx fun i log => auditFields log (dateNow i)) ↔
      ∀ log ∈ getAuditLogs 100000 0, '"' ∉ log.actor ∧ '"' ∉ log.action ∧
        (∀ entityType, log.entityType = some entityType → '"' ∉ entityType) ∧
        (∀ entityId, log.entityId = some entityId → '"' ∉ entityId) ∧
        ∀ state ∈ [log.beforeState, log.afterState, log.metadata],
          state ≠ some (.bool false) ∧ state ≠ some (.num zero) ∧
            state ≠ some (.str []) := by
  rw [parse_exportAuditLogsCSV_iff]
  refine forall₂_congr ?_
  intro log _
  have hoption : ∀ text : Option Text, '"' ∉ text.getD [] ↔
      ∀ content, text = some content → '"' ∉ content := by
    intro text
    cases text with
    | none => simp
    | some content => simp
  rw [← hoption, ← hoption]
  simp only [List.forall_mem_cons, ← written_iff]
  constructor
  · rintro ⟨hactor, haction, htype, hentity, hbefore, hafter, hmetadata⟩
    exact ⟨hactor, haction, htype, hentity, hbefore, hafter, hmetadata, by simp⟩
  · rintro ⟨hactor, haction, htype, hentity, hbefore, hafter, hmetadata, _⟩
    exact ⟨hactor, haction, htype, hentity, hbefore, hafter, hmetadata⟩

end Audit

/-- The entry of an actor who has a quote in the name. -/
def quotedActor : AuditLog where
  id := 1
  actor := ['a', '"', 'b']
  action := ['c']
  entityType := none
  entityId := none
  beforeState := none
  afterState := none
  metadata := none
  createdAt := some 0
  timestamp := none

/-- The text with that entry is not read as the table it was made from. -/
theorem audit_log_not_read_back :
    exportAuditLogsCSV (fun _ _ => [quotedActor]) (fun _ => 0) =
      ("id,actor,action,entity_type,entity_id,before_state,after_state,metadata," ++
        "created_at\n\"1\",\"a\"b\",\"c\",\"\",\"\",\"\",\"\",\"\"," ++
        "\"1970-01-01T00:00:00.000Z\"").toList ∧
    parse .lf (exportAuditLogsCSV (fun _ _ => [quotedActor]) (fun _ => 0)) ≠
      some [auditHeaders, auditFields quotedActor 0] := by
  constructor
  · decide +kernel
  · intro hread
    have hfree := (parse_exportAuditLogsCSV_iff (fun _ _ => [quotedActor]) fun _ => 0).mp
      hread quotedActor (List.mem_singleton_self _)
    exact absurd hfree.actor (by decide)

end Properties
end Paystream
