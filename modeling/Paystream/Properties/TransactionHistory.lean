import Paystream.Library.GrowingLog
import Paystream.Properties.CsvExport
import Paystream.Services.TransactionHistory

/-!
# What the transaction history shows

A reader of a log goes on after the last entry it has, while new ones are made.

* The export of all records reads page after page, from whatever function serves them.
  Its file has a row for every record there was at the first request that the date
  range lets pass, each once (`export_complete`).
* The function that the page passes to it would serve the operations of an account
  (`serves_of_horizon`), but the page asks for the stream's number, which is none, and
  the export fails (`handleExportCsv_fails`).
* What the hook shows is a stretch of the operations without a gap, and reaches back to
  the first one as soon as it offers no more (`history_without_gaps`).

What is relied on of Horizon is that a page has the newest operations, or those older
than the one with the paging token (`HorizonPage`).
-/

namespace Paystream
namespace Properties

open Library
open Services
open Services.CsvExport
open Services.TransactionHistory

theorem getLast?_append_of_ne_nil {α : Type} (front : List α) {back : List α}
    (h : back ≠ []) : (front ++ back).getLast? = back.getLast? := by
  rw [List.getLast?_append, List.getLast?_eq_some_getLast h]
  rfl

/-! ## The export -/

section Export

variable {Item : Type} (record : Item → TxRecord) (token : Item → Text) (size : Nat)

/-- The answer to a request when these items are still to be read: all of them, or a
page of at least `size` with the token of its last item. -/
def AnswersPage (unread : List Item) (answer : Option (List TxRecord × Option Text)) :
    Prop :=
  answer = some (unread.map record, none) ∨
    ∃ page last rest, unread = page ++ rest ∧ size ≤ page.length ∧
      page.getLast? = some last ∧ answer = some (page.map record, some (token last))

/-- The items of a log are served in pages: `log` is what there is of them at each
request, the newest first. -/
structure Serves (log : Nat → List Item)
    (fetchPage : Nat → Option Text → Option (List TxRecord × Option Text)) : Prop where
  grows : ∀ request, log request <:+ log (request + 1)
  distinct : ∀ request, ((log request).map token).Nodup
  named : ∀ request, ∀ item ∈ log request, token item ≠ []
  newest : ∀ request, AnswersPage record token size (log request) (fetchPage request none)
  older : ∀ request, ∀ item ∈ log request,
    AnswersPage record token size (olderThan token (token item) (log request))
      (fetchPage request (some (token item)))

variable {record token size} {log : Nat → List Item}
  {fetchPage : Nat → Option Text → Option (List TxRecord × Option Text)}

theorem Serves.grown (h : Serves record token size log fetchPage) (request : Nat) :
    log 0 <:+ log request := by
  induction request with
  | zero => exact List.suffix_rfl
  | succ request ih => exact ih.trans (h.grows request)

/-- The answer to the request after what was read. -/
theorem Serves.answer (h : Serves record token size log fetchPage)
    {read rest : List Item} (hlog : log 0 = read ++ rest) {request : Nat}
    (hfirst : read = [] → request = 0) :
    AnswersPage record token size rest
      (fetchPage request (read.getLast?.map token)) := by
  cases hlast : read.getLast? with
  | none =>
      obtain rfl := List.getLast?_eq_none_iff.mp hlast
      rw [hfirst rfl]
      rw [List.nil_append] at hlog
      rw [← hlog]
      exact h.newest 0
  | some last =>
      have hmem : last ∈ log request := by
        refine (h.grown request).subset ?_
        rw [hlog]
        exact List.mem_append_left _ (List.mem_of_getLast? hlast)
      have holder := h.older request last hmem
      rwa [olderThan_of_grown (h.grown request) (h.distinct request) hlog hlast] at holder

/-- The loop from any of its requests on. -/
theorem fetchAll_of_serves (h : Serves record token size log fetchPage) (hsize : 0 < size)
    {fuel : Nat} {read rest : List Item} (hlog : log 0 = read ++ rest) {request : Nat}
    (hfirst : read = [] → request = 0) (hfuel : rest.length / size < fuel) :
    fetchAll fetchPage fuel request (read.getLast?.map token) (read.map record) =
      some ((log 0).map record) := by
  induction fuel generalizing read rest request with
  | zero => exact absurd hfuel (Nat.not_lt_zero _)
  | succ fuel ih =>
      unfold fetchAll
      rcases h.answer hlog hfirst with hall | ⟨page, last, later, rfl, hfull, hlast, hpage⟩
      · simp only [hall, Option.getD_none, ne_eq, not_true_eq_false, if_false,
          ← List.map_append, ← hlog]
      · have hne : page ≠ [] := by
          rw [← List.length_pos_iff]
          omega
        have hnext : log 0 = (read ++ page) ++ later := by
          rw [hlog, List.append_assoc]
        have hnamed : token last ≠ [] := by
          refine h.named 0 last ?_
          rw [hnext]
          exact List.mem_append_left _
            (List.mem_append_right _ (List.mem_of_getLast? hlast))
        -- a full page is one request, and leaves one less for the rest
        have hless : later.length / size < fuel := by
          have hle : later.length + size ≤ (page ++ later).length := by
            rw [List.length_append]
            omega
          have hdiv := Nat.div_le_div_right (c := size) hle
          rw [Nat.add_div_right _ hsize] at hdiv
          omega
        have hlater : read ++ page = [] → request + 1 = 0 :=
          fun hnil => absurd (List.append_eq_nil_iff.mp hnil).2 hne
        have hlonger := ih hnext hlater hless
        rw [getLast?_append_of_ne_nil _ hne, hlast, List.map_append] at hlonger
        simp only [hpage, Option.getD_some, ne_eq, hnamed, not_false_eq_true, if_true]
        exact hlonger

/-- The loop ends after at most one request for every full page and one more.  The file
has the header and a row for each record there was at the first request, in order, if
the date range lets it pass. -/
theorem export_complete (h : Serves record token size log fetchPage) (hsize : 0 < size)
    (parseDate : Text → Option Int)
    (hvalid : ∀ item ∈ log 0, (record item).timestamp ≠ [] →
      (parseDate (record item).timestamp).isSome = true)
    (streamId : Int) (range : Option DateRange) (employee tokenAddress : Text) {fuel : Nat}
    (hfuel : (log 0).length / size < fuel) :
    ∃ csv, exportAllHistory parseDate streamId fetchPage range employee tokenAddress
        fuel =
        some ("stream-".toList ++ Indexer.intText streamId ++ "-history.csv".toList, csv) ∧
      Csv.parse .crlf csv = some (headers ::
        (((log 0).map record).filter fun r => !filteredOut parseDate range r).map
          (fieldsOf parseDate streamId employee tokenAddress)) := by
  have hall : fetchAll fetchPage fuel 0 none [] = some ((log 0).map record) :=
    fetchAll_of_serves h hsize (List.nil_append _).symm (fun _ => rfl) hfuel
  have hcsv := @buildCsv_eq parseDate streamId employee tokenAddress range
    ((log 0).map record) (List.forall_mem_map.mpr hvalid)
  refine ⟨_, ?_, parse_historyTable parseDate streamId employee tokenAddress range _⟩
  unfold exportAllHistory
  simp only [hall, hcsv, Option.bind_eq_bind, Option.bind_some, Option.pure_def]

end Export

/-! ## Horizon -/

/-- A page of operations, the newest first: the newest ones, or those older than the
one with the paging token. -/
structure HorizonPage (operations : List Operation) (limit : Nat) (cursor : Option Text)
    (page : List Operation) : Prop where
  newest : cursor = none → page = operations.take limit
  older : ∀ op ∈ operations, cursor = some op.pagingToken →
    page = (olderThan Operation.pagingToken op.pagingToken operations).take limit

/-- Horizon knows the account: `log` is what there is of its operations at each
request, and every request is answered. -/
structure KnowsAccount (horizon : HorizonClient) (account : Text)
    (log : Nat → List Operation) : Prop where
  grows : ∀ request, log request <:+ log (request + 1)
  distinct : ∀ request, ((log request).map Operation.pagingToken).Nodup
  named : ∀ request, ∀ op ∈ log request, op.pagingToken ≠ []
  answers : ∀ request limit cursor, ∃ page,
    horizon request account limit cursor = some page ∧
      HorizonPage (log request) limit cursor page

/-- A page of the export, read from what is left. -/
theorem fetchPage_answersPage {horizon : HorizonClient} {account : Text} {request : Nat}
    {cursor : Option Text} (hcursor : cursor ≠ some []) {unread : List Operation}
    (hpage : horizon request account exportPageSize cursor =
      some (unread.take exportPageSize)) :
    AnswersPage exportRecord Operation.pagingToken exportPageSize unread
      (fetchPage horizon account request cursor) := by
  have hfilter : cursor.filter (fun cursor => decide (cursor ≠ [])) = cursor := by
    cases cursor with
    | none => rfl
    | some cursor =>
        have hne : cursor ≠ [] := fun h => hcursor (congrArg some h)
        simp [hne]
  unfold fetchPage AnswersPage
  rw [hfilter, hpage]
  by_cases hfull : exportPageSize ≤ unread.length
  · have hlength : (unread.take exportPageSize).length = exportPageSize :=
      List.length_take_of_le hfull
    have hne : unread.take exportPageSize ≠ [] := by
      rw [← List.length_pos_iff, hlength]
      decide
    refine Or.inr ⟨_, _, _, (List.take_append_drop exportPageSize unread).symm,
      hlength.ge, List.getLast?_eq_some_getLast hne, ?_⟩
    simp only [Option.bind_eq_bind, Option.bind_some, Option.pure_def, hlength, if_true,
      List.getLast?_eq_some_getLast hne, Option.map_some]
  · have hlength : unread.length ≠ exportPageSize := by omega
    have hall : unread.take exportPageSize = unread := List.take_of_length_le (by omega)
    refine Or.inl ?_
    simp only [Option.bind_eq_bind, Option.bind_some, Option.pure_def, hall,
      if_neg hlength]

/-- For an account that Horizon knows the export is served its operations. -/
theorem serves_of_horizon {horizon : HorizonClient} {account : Text}
    {log : Nat → List Operation} (h : KnowsAccount horizon account log) :
    Serves exportRecord Operation.pagingToken exportPageSize log
      (fetchPage horizon account) where
  grows := h.grows
  distinct := h.distinct
  named := h.named
  newest request := by
    obtain ⟨page, hanswer, hpage⟩ := h.answers request exportPageSize none
    rw [hpage.newest rfl] at hanswer
    exact fetchPage_answersPage (Option.some_ne_none _).symm hanswer
  older request op hmem := by
    obtain ⟨page, hanswer, hpage⟩ :=
      h.answers request exportPageSize (some op.pagingToken)
    rw [hpage.older op hmem rfl] at hanswer
    refine fetchPage_answersPage ?_ hanswer
    rw [Ne, Option.some.injEq]
    exact h.named request op hmem

/-- A number is no account. -/
theorem matchesAddress_intText (value : Int) :
    matchesAddress (Indexer.intText value) = false := by
  have hdigits : 'G' ∉ Nat.toDigits 10 value.natAbs := fun h =>
    absurd (Nat.isDigit_of_mem_toDigits (by decide) (by decide) h) (by decide)
  unfold Indexer.intText
  split
  · rfl
  · cases htext : Nat.toDigits 10 value.natAbs with
    | nil => rfl
    | cons c rest =>
        rw [htext, List.mem_cons, not_or] at hdigits
        unfold matchesAddress
        split
        · rename_i heq
          cases heq
          exact absurd rfl hdigits.1
        · rfl

/-- Horizon refuses what is no account, so the page writes no file. -/
theorem handleExportCsv_fails {horizon : HorizonClient}
    (hrefuses : ∀ account, matchesAddress account = false → ∀ request limit cursor,
      horizon request account limit cursor = none)
    (parseDate : Text → Option Int) (streams : List ShownStream) (csvFrom csvTo : Text)
    (streamId : Int) (fuel : Nat) :
    handleExportCsv parseDate horizon streams csvFrom csvTo streamId fuel = none := by
  have hpage : fetchPage horizon (Indexer.intText streamId) 0 none = none := by
    unfold fetchPage
    rw [hrefuses _ (matchesAddress_intText streamId)]
    rfl
  have hall : fetchAll (fetchPage horizon (Indexer.intText streamId)) fuel 0 none [] =
      none := by
    cases fuel with
    | zero => rfl
    | succ fuel =>
        unfold fetchAll
        rw [hpage]
  unfold handleExportCsv exportAllHistory
  rw [hall]
  rfl

namespace HorizonSample

def operation (n : Nat) : Operation where
  id := List.replicate (n + 1) 'i'
  pagingToken := List.replicate (n + 1) '1'
  createdAt := if n = 0 then some HistorySample.old.timestamp else none
  type := "payment".toList
  amount := some ['5']

/-- An account with one more operation at every request. -/
def account (request : Nat) : List Operation :=
  (List.range (201 + request)).reverse.map operation

def horizon : HorizonClient := fun request _ limit cursor =>
  match cursor with
  | none => some ((account request).take limit)
  | some cursor =>
      some ((olderThan Operation.pagingToken cursor (account request)).take limit)

theorem knowsAccount (name : Text) : KnowsAccount horizon name account where
  grows request := by
    refine ⟨[operation (201 + request)], ?_⟩
    unfold account
    rw [← Nat.add_assoc, List.range_succ, List.reverse_append]
    rfl
  distinct request := by
    unfold account
    rw [List.map_map]
    refine List.Nodup.map ?_ (List.nodup_reverse.mpr List.nodup_range)
    intro a b heq
    have hlength := congrArg List.length heq
    simpa [operation] using hlength
  named request op hmem := by
    obtain ⟨n, _, rfl⟩ := List.mem_map.mp hmem
    exact List.cons_ne_nil _ _
  answers request limit cursor := by
    cases cursor with
    | none => exact ⟨_, rfl, fun _ => rfl, nofun⟩
    | some cursor =>
        refine ⟨_, rfl, nofun, ?_⟩
        rintro op _ ⟨⟩
        rfl

end HorizonSample

open HorizonSample HistorySample in
/-- Two hundred and one operations take two requests; the first one that was made is
not in the file. -/
theorem export_complete_of_two_pages :
    ∃ csv, exportAllHistory parseDate 7 (fetchPage horizon ['G']) (some since2026) [] []
        2 = some ("stream-".toList ++ Indexer.intText 7 ++ "-history.csv".toList, csv) ∧
      filteredOut parseDate (some since2026) (exportRecord (operation 0)) = true ∧
      Csv.parse .crlf csv = some (headers ::
        (((account 0).map exportRecord).filter fun r =>
          !filteredOut parseDate (some since2026) r).map (fieldsOf parseDate 7 [] [])) := by
  have hvalid : ∀ op ∈ account 0, (exportRecord op).timestamp ≠ [] →
      (parseDate (exportRecord op).timestamp).isSome = true := by
    intro op hmem htime
    obtain ⟨n, _, rfl⟩ := List.mem_map.mp hmem
    cases n with
    | zero => rfl
    | succ n => exact absurd rfl htime
  obtain ⟨csv, hcsv, hparse⟩ := export_complete
    (serves_of_horizon (knowsAccount ['G'])) (by decide) parseDate hvalid 7
    (some since2026) [] [] (show (account 0).length / exportPageSize < 2 by
      simp [account, exportPageSize])
  exact ⟨csv, hcsv, rfl, hparse⟩

/-! ## The hook -/

/-- A new operation has a paging token of its own. -/
def freshToken (entry : Entry State Action) : Bool :=
  match entry.input with
  | .operate op =>
      decide (op.pagingToken ≠ [] ∧
        op.pagingToken ∉ entry.before.operations.map Operation.pagingToken)
  | _ => true

/-- A page that comes is Horizon's. -/
def FromHorizon (entry : Entry State Action) : Prop :=
  ∀ i request page, entry.input = .answer i (.ok page) →
    entry.before.requests[i]? = some request → request.answer = none →
      HorizonPage entry.before.operations pageSize request.nextCursor page

/-- The hook is asked for records only while nothing is being loaded. -/
def oneAtATime (entry : Entry State Action) : Bool :=
  match entry.input with
  | .fetchHistory => entry.before.requests.isEmpty
  | .loadMore => entry.before.requests.isEmpty
  | _ => true

/-- A request fits what is shown: it goes on where that ends, and has been answered
with what comes next. -/
structure RequestFits (operations shown older : List Operation) (request : Request) :
    Prop where
  continues : ∀ cursor, request.nextCursor = some cursor → ∃ before last rest,
    operations = before ++ last :: rest ∧ cursor = last.pagingToken ∧
      (shown ≠ [] → rest = older)
  answered : ∀ ops, request.answer = some (.ok ops) → ∃ skipped rest,
    operations = skipped ++ ops ++ rest ∧ (ops.length ≠ pageSize → rest = []) ∧
      (request.nextCursor.isSome = true → shown ≠ [] → ops ++ rest = older)

/-- What is shown is a stretch of the operations. -/
structure Shows (s : State) (newer shown older : List Operation) : Prop where
  operations : s.operations = newer ++ shown ++ older
  records : s.records = shown.map listed
  complete : s.records ≠ [] → s.hasMore = false → older = []
  cursor : ∀ cursor, s.cursor = some cursor → ∃ last,
    shown.getLast? = some last ∧ cursor = last.pagingToken
  requests : ∀ request ∈ s.requests, RequestFits s.operations shown older request

structure Gapless (s : State) : Prop where
  distinct : (s.operations.map Operation.pagingToken).Nodup
  named : ∀ op ∈ s.operations, op.pagingToken ≠ []
  alone : s.requests.length ≤ 1
  shows : ∃ newer shown older, Shows s newer shown older

theorem RequestFits.operate {operations shown older : List Operation} {request : Request}
    (h : RequestFits operations shown older request) (op : Operation) :
    RequestFits (op :: operations) shown older request where
  continues cursor hcursor := by
    obtain ⟨before, last, rest, rfl, hlast, hrest⟩ := h.continues cursor hcursor
    exact ⟨op :: before, last, rest, rfl, hlast, hrest⟩
  answered ops hanswer := by
    obtain ⟨skipped, rest, rfl, hfull, hrest⟩ := h.answered ops hanswer
    exact ⟨op :: skipped, rest, rfl, hfull, hrest⟩

/-- A new request, where what is shown ends or from the newest on. -/
theorem Gapless.fetchHistory {s : State} (h : Gapless s) (halone : s.requests = [])
    {nextCursor : Option Text} (hcursor : nextCursor = none ∨ nextCursor = s.cursor) :
    Gapless (fetchHistory s nextCursor) := by
  obtain ⟨newer, shown, older, hshows⟩ := h.shows
  refine ⟨h.distinct, h.named, ?_, newer, shown, older, hshows.operations,
    hshows.records, hshows.complete, hshows.cursor, ?_⟩
  · simp [TransactionHistory.fetchHistory, halone]
  · intro request hmem
    simp only [TransactionHistory.fetchHistory, halone, List.nil_append,
      List.mem_singleton] at hmem
    subst hmem
    refine ⟨?_, nofun⟩
    intro cursor hfilter
    obtain ⟨hsome, _⟩ := Option.filter_eq_some_iff.mp hfilter
    rcases hcursor with rfl | rfl
    · cases hsome
    · obtain ⟨last, hlast, rfl⟩ := hshows.cursor cursor hsome
      obtain ⟨before, rfl⟩ := List.getLast?_eq_some_iff.mp hlast
      refine ⟨newer ++ before, last, older, ?_, rfl, fun _ => rfl⟩
      rw [show (TransactionHistory.fetchHistory s _).operations = s.operations from rfl,
        hshows.operations]
      simp

/-- A page comes for a request. -/
theorem RequestFits.answer {operations shown older : List Operation} {request : Request}
    (h : RequestFits operations shown older request)
    (hdistinct : (operations.map Operation.pagingToken).Nodup) {page : List Operation}
    (hpage : HorizonPage operations pageSize request.nextCursor page) :
    RequestFits operations shown older { request with answer := some (.ok page) } := by
  refine ⟨h.continues, ?_⟩
  rintro ops ⟨⟩
  show ∃ skipped rest, _ ∧ _ ∧ (request.nextCursor.isSome = true → _)
  cases hcursor : request.nextCursor with
  | none =>
      obtain rfl := hpage.newest hcursor
      refine ⟨[], operations.drop pageSize, ?_, ?_, nofun⟩
      · simp [List.take_append_drop]
      · intro hshort
        rw [List.length_take] at hshort
        exact List.drop_eq_nil_of_le (by omega)
  | some cursor =>
      -- the page follows the last record that is shown, whatever has joined since
      obtain ⟨before, last, rest, hsplit, rfl, hrest⟩ := h.continues cursor hcursor
      have holder : olderThan Operation.pagingToken last.pagingToken operations = rest := by
        refine olderThan_of_grown List.suffix_rfl hdistinct
          (show operations = (before ++ [last]) ++ rest by rw [hsplit]; simp) ?_
        simp
      obtain rfl := hpage.older last (by rw [hsplit]; simp) hcursor
      rw [holder]
      refine ⟨before ++ [last], rest.drop pageSize, ?_, ?_, ?_⟩
      · rw [List.append_assoc, List.take_append_drop, List.append_assoc]
        exact hsplit
      · intro hshort
        rw [List.length_take] at hshort
        exact List.drop_eq_nil_of_le (by omega)
      · intro _ hshown
        rw [List.take_append_drop]
        exact hrest hshown

/-- The rest of a `fetchHistory` runs, and no other is on its way. -/
theorem Shows.settled {s : State} {newer shown older : List Operation}
    (h : Shows s newer shown older) (halone : s.requests = [])
    {nextCursor : Option Text} {answer : Except Text (List Operation)}
    (hfits : RequestFits s.operations shown older ⟨nextCursor, some answer⟩) :
    ∃ newer shown older, Shows (settled s nextCursor answer) newer shown older := by
  have hnone : ∀ {operations shown older}, ∀ request ∈ s.requests,
      RequestFits operations shown older request := by
    intro operations shown older request hmem
    rw [halone] at hmem
    cases hmem
  cases answer with
  | error error =>
      exact ⟨newer, shown, older, h.operations, h.records, h.complete, h.cursor, hnone⟩
  | ok ops =>
      obtain ⟨skipped, rest, hsplit, hfull, hnext⟩ := hfits.answered ops rfl
      have hcomplete : decide (ops.length = pageSize) = false → rest = [] :=
        fun hmore => hfull (of_decide_eq_false hmore)
      have hlast : ∀ front cursor, ops.getLast?.map Operation.pagingToken = some cursor →
          ∃ last, (front ++ ops).getLast? = some last ∧ cursor = last.pagingToken := by
        intro front cursor hcursor
        obtain ⟨last, hlast, rfl⟩ := Option.map_eq_some_iff.mp hcursor
        have hne : ops ≠ [] := by
          rintro rfl
          cases hlast
        exact ⟨last, (getLast?_append_of_ne_nil front hne).trans hlast, rfl⟩
      cases nextCursor with
      | none =>
          exact ⟨skipped, ops, rest, hsplit, rfl, fun _ => hcomplete, hlast [], hnone⟩
      | some cursor =>
          -- a reset may have emptied the records while the page was on its way
          by_cases hshown : shown = []
          · subst hshown
            refine ⟨skipped, ops, rest, hsplit, ?_, fun _ => hcomplete, hlast [], hnone⟩
            show s.records ++ ops.map listed = _
            rw [h.records]
            rfl
          · refine ⟨newer, shown ++ ops, rest, ?_, ?_, fun _ => hcomplete, hlast shown,
              hnone⟩
            · show s.operations = _
              rw [h.operations, ← hnext rfl hshown]
              simp
            · show s.records ++ ops.map listed = _
              rw [h.records, List.map_append]

/-- A new operation is made. -/
theorem Gapless.operate {s : State} (h : Gapless s) {op : Operation}
    (hnamed : op.pagingToken ≠ [])
    (hnew : op.pagingToken ∉ s.operations.map Operation.pagingToken) :
    Gapless (handle s (.operate op)) := by
  obtain ⟨newer, shown, older, hshows⟩ := h.shows
  refine ⟨List.nodup_cons.mpr ⟨hnew, h.distinct⟩,
    List.forall_mem_cons.mpr ⟨hnamed, h.named⟩, h.alone, op :: newer, shown, older, ?_,
    hshows.records, hshows.complete, hshows.cursor,
    fun request hmem => (hshows.requests request hmem).operate op⟩
  show op :: s.operations = _
  rw [hshows.operations]
  rfl

/-- What is shown is forgotten, but not the requests. -/
theorem Gapless.reset {s : State} (h : Gapless s) : Gapless (handle s .reset) := by
  obtain ⟨newer, shown, older, hshows⟩ := h.shows
  refine ⟨h.distinct, h.named, h.alone, s.operations, [], [], by simp [handle], rfl,
    fun hne => absurd rfl hne, nofun, fun request hmem => ?_⟩
  obtain ⟨hcontinues, hanswered⟩ := hshows.requests request hmem
  refine ⟨?_, ?_⟩
  · intro cursor hcursor
    obtain ⟨before, last, rest, hsplit, hlast, _⟩ := hcontinues cursor hcursor
    exact ⟨before, last, rest, hsplit, hlast, fun hne => absurd rfl hne⟩
  · intro ops hanswer
    obtain ⟨skipped, rest, hsplit, hfull, _⟩ := hanswered ops hanswer
    exact ⟨skipped, rest, hsplit, hfull, fun _ hne => absurd rfl hne⟩

/-- A request is answered. -/
theorem Gapless.answer {s : State} (h : Gapless s) {i : Nat}
    {answer : Except Text (List Operation)}
    (hpage : ∀ request page, answer = .ok page → s.requests[i]? = some request →
      request.answer = none →
        HorizonPage s.operations pageSize request.nextCursor page) :
    Gapless (handle s (.answer i answer)) := by
  obtain ⟨newer, shown, older, hshows⟩ := h.shows
  refine ⟨h.distinct, h.named, ?_, newer, shown, older, hshows.operations,
    hshows.records, hshows.complete, hshows.cursor, ?_⟩
  · simpa [handle] using h.alone
  · intro request hmem
    obtain ⟨j, hj, rfl⟩ := List.mem_iff_getElem.mp hmem
    simp only [handle, List.length_modify] at hj
    have hfits := hshows.requests _ (List.getElem_mem hj)
    simp only [handle, List.getElem_modify]
    split
    · rename_i hij
      subst hij
      split
      · rename_i hwaits
        cases answer with
        | error error => exact ⟨hfits.continues, nofun⟩
        | ok page =>
            have hfound : s.requests[i]? = some s.requests[i] :=
              getElem?_pos s.requests i _
            exact hfits.answer h.distinct (hpage _ page rfl hfound
              (Option.isNone_iff_eq_none.mp hwaits))
      · -- it has been answered before, and stays as it is
        exact hfits
    · exact hfits

/-- The rest of a `fetchHistory` runs. -/
theorem Gapless.settle {s : State} (h : Gapless s) (i : Nat) :
    Gapless (handle s (.settle i)) := by
  obtain ⟨newer, shown, older, hshows⟩ := h.shows
  simp only [handle]
  split
  · rename_i nextCursor answer hrequest
    have hmem := List.mem_of_getElem? hrequest
    have hnone : s.requests.eraseIdx i = [] := by
      have hi := (List.getElem?_eq_some_iff.mp hrequest).1
      have hone := h.alone
      rw [← List.length_eq_zero_iff, List.length_eraseIdx_of_lt hi]
      omega
    have hsettled : Shows { s with requests := s.requests.eraseIdx i } newer shown older :=
      ⟨hshows.operations, hshows.records, hshows.complete, hshows.cursor,
        fun request hin => hshows.requests request (List.mem_of_mem_eraseIdx hin)⟩
    have hshown := hsettled.settled hnone (hshows.requests _ hmem)
    cases answer with
    | error error => exact ⟨h.distinct, h.named, by simp [settled, hnone], hshown⟩
    | ok ops => exact ⟨h.distinct, h.named, by simp [settled, hnone], hshown⟩
  · exact h

theorem Gapless.next {s : State} (h : Gapless s) {action : Action}
    (hfresh : freshToken (system.entryOf s action) = true)
    (halone : oneAtATime (system.entryOf s action) = true)
    (hhorizon : FromHorizon (system.entryOf s action)) : Gapless (handle s action) := by
  cases action with
  | operate op =>
      obtain ⟨hnamed, hnew⟩ := of_decide_eq_true hfresh
      exact h.operate hnamed hnew
  | fetchHistory => exact h.fetchHistory (List.isEmpty_iff.mp halone) (Or.inl rfl)
  | loadMore =>
      simp only [handle]
      split
      · exact h.fetchHistory (List.isEmpty_iff.mp halone) (Or.inr rfl)
      · exact h
  | reset => exact h.reset
  | answer i answer =>
      refine h.answer ?_
      rintro request page rfl
      exact hhorizon i request page rfl
  | settle i => exact h.settle i

theorem history_without_gaps {history : List (Entry State Action)} {s : State}
    (hrun : system.Run history s) (hfresh : ∀ entry ∈ history, freshToken entry = true)
    (halone : ∀ entry ∈ history, oneAtATime entry = true)
    (hhorizon : ∀ entry ∈ history, FromHorizon entry) :
    ∃ newer shown older, s.operations = newer ++ shown ++ older ∧
      s.records = shown.map listed ∧
      (s.records ≠ [] → s.hasMore = false → older = []) := by
  have hgapless : Gapless s := by
    induction hrun using System.Run.induction with
    | start s hinitial =>
        obtain ⟨operations, hdistinct, hnamed, rfl⟩ := hinitial
        exact ⟨hdistinct, hnamed, Nat.zero_le 1, operations, [], [], by simp, rfl,
          fun hne => absurd rfl hne, nofun, nofun⟩
    | next history s action hrun htime ih =>
        obtain ⟨hnow, hbefore⟩ := List.forall_mem_cons.mp hfresh
        obtain ⟨honce, hearlier⟩ := List.forall_mem_cons.mp halone
        obtain ⟨hpage, hpages⟩ := List.forall_mem_cons.mp hhorizon
        exact (ih hbefore hearlier hpages).next hnow honce hpage
  obtain ⟨newer, shown, older, hshows⟩ := hgapless.shows
  exact ⟨newer, shown, older, hshows.operations, hshows.records, hshows.complete⟩

namespace HorizonSample

def twelve : State :=
  ⟨(List.range 12).reverse.map operation, [], false, none, none, false, []⟩

/-- Two pages are shown, and a new operation is made while the first one is on its
way. -/
def twoPages : List Action :=
  [.fetchHistory, .answer 0 (.ok ((List.range' 2 10).reverse.map operation)),
    .operate (operation 12), .settle 0, .loadMore,
    .answer 0 (.ok [operation 1, operation 0]), .settle 0]

theorem fromHorizon_of_ne {entry : Entry State Action}
    (h : ∀ i page, entry.input ≠ .answer i (.ok page)) : FromHorizon entry :=
  fun i _ page hinput => absurd hinput (h i page)

theorem twoPages_fromHorizon :
    ∀ entry ∈ (system.replay [] twelve twoPages).1, FromHorizon entry := by
  simp only [twoPages, System.replay, List.forall_mem_cons]
  refine ⟨fromHorizon_of_ne nofun, ?_, fromHorizon_of_ne nofun, fromHorizon_of_ne nofun,
    fromHorizon_of_ne nofun, ?_, fromHorizon_of_ne nofun, List.forall_mem_nil _⟩
  · rintro i request page ⟨⟩ ⟨⟩ _
    refine ⟨nofun, ?_⟩
    intro op _ hcursor
    rw [← Option.some.inj hcursor]
    decide
  · rintro i request page ⟨⟩ ⟨⟩ _
    exact ⟨fun _ => by decide, nofun⟩

end HorizonSample

open HorizonSample in
/-- The second page ends what is shown of twelve operations. -/
theorem history_without_gaps_of_two_pages :
    ∃ history s, system.Run history s ∧ s.records.length = 12 ∧ s.hasMore = false ∧
      ∃ newer shown, s.operations = newer ++ shown ∧ s.records = shown.map listed := by
  have hstart : system.initial twelve := ⟨_, by decide, by decide, rfl⟩
  have hrun : system.Run (system.replay [] twelve twoPages).1 _ :=
    ⟨_, hstart, System.Path.stay.replay (by decide)⟩
  obtain ⟨newer, shown, older, hoperations, hrecords, hcomplete⟩ :=
    history_without_gaps hrun (by decide) (by decide) twoPages_fromHorizon
  obtain rfl : older = [] := hcomplete (by
    rw [← List.length_pos_iff]
    decide) (by decide)
  rw [List.append_nil] at hoperations
  exact ⟨_, _, hrun, by decide, by decide, newer, shown, hoperations, hrecords⟩

end Properties
end Paystream
