import Paystream.Services.Search

/-!
# Pages of a search

The pages of a search together are the records that satisfy the filter, in the
order asked for and with ties as they were (`search_pages`).  No page before the
last is short.

Past the last page the offset is a product of two numbers of the caller, and it is
cut to the number of matches only after the multiplication.
`search_past_end_iff` says for which pages that is too late.
-/

namespace Paystream
namespace Properties

open Library
open Services.Search

/-! ## The filter -/

/-- What each field of a filter asks of a record. -/
structure Satisfies (toLowercase : Text → Text) (f : StreamFilter)
    (s : StreamRecord) : Prop where
  recipient : ∀ q ∈ f.recipient, toLowercase q <:+: toLowercase s.employee
  token : ∀ token ∈ f.token, s.token = token
  status : ∀ status ∈ f.status, s.status = status
  minDeposit : ∀ least ∈ f.minDeposit, least ≤ s.deposit
  maxDeposit : ∀ greatest ∈ f.maxDeposit, s.deposit ≤ greatest
  startAfter : ∀ first ∈ f.startAfter, first ≤ s.startTime
  startBefore : ∀ last ∈ f.startBefore, s.startTime ≤ last

theorem passes_eq_true_iff {α : Type} {wanted : Option α} {fails : α → Bool} :
    passes wanted fails = true ↔ ∀ value ∈ wanted, fails value = false := by
  unfold passes
  cases wanted with
  | none => simp
  | some value => simp

theorem matchesFilter_iff {toLowercase : Text → Text} {s : StreamRecord}
    {f : StreamFilter} :
    matchesFilter toLowercase s f = true ↔ Satisfies toLowercase f s := by
  simp only [matchesFilter, Bool.and_eq_true, passes_eq_true_iff, Bool.not_eq_false',
    decide_eq_true_eq, decide_eq_false_iff_not, not_lt, not_not]
  constructor
  · rintro ⟨⟨⟨⟨⟨⟨hrecipient, htoken⟩, hstatus⟩, hmin⟩, hmax⟩, hafter⟩, hbefore⟩
    exact ⟨hrecipient, htoken, hstatus, hmin, hmax, hafter, hbefore⟩
  · rintro ⟨hrecipient, htoken, hstatus, hmin, hmax, hafter, hbefore⟩
    exact ⟨⟨⟨⟨⟨⟨hrecipient, htoken⟩, hstatus⟩, hmin⟩, hmax⟩, hafter⟩, hbefore⟩

instance (toLowercase : Text → Text) (f : StreamFilter) :
    DecidablePred (Satisfies toLowercase f) :=
  fun _ => decidable_of_iff _ matchesFilter_iff

/-- The records that satisfy the filter, as they come. -/
def satisfying (toLowercase : Text → Text) (f : StreamFilter)
    (streams : List StreamRecord) : List StreamRecord :=
  streams.filter fun s => decide (Satisfies toLowercase f s)

theorem filter_matchesFilter (toLowercase : Text → Text) (f : StreamFilter)
    (streams : List StreamRecord) :
    streams.filter (fun s => matchesFilter toLowercase s f) =
      satisfying toLowercase f streams := by
  apply List.filter_congr
  intro s _
  rw [Bool.eq_iff_iff, matchesFilter_iff, decide_eq_true_eq]

/-! ## The order -/

/-- The key that a field names. -/
def sortKey : SortField → StreamRecord → Int
  | .id, s => s.id
  | .deposit, s => s.deposit
  | .startTime, s => s.startTime
  | .ratePerSecond, s => s.ratePerSecond

/-- The order asked for. -/
def InOrder (sortBy : SortField) : SortOrder → StreamRecord → StreamRecord → Prop
  | .asc, a, b => sortKey sortBy a ≤ sortKey sortBy b
  | .desc, a, b => sortKey sortBy b ≤ sortKey sortBy a

theorem compareBy_isLE_iff {sortBy : SortField} {order : SortOrder}
    {a b : StreamRecord} :
    (compareBy sortBy order a b).isLE = true ↔ InOrder sortBy order a b := by
  cases order with
  | asc =>
      cases sortBy with
      | id => exact Nat.isLE_compare.trans Nat.cast_le.symm
      | deposit => exact Int.isLE_compare
      | startTime => exact Nat.isLE_compare.trans Nat.cast_le.symm
      | ratePerSecond => exact Int.isLE_compare
  | desc =>
      unfold compareBy
      rw [if_pos rfl, Ordering.isLE_swap]
      cases sortBy with
      | id => exact Nat.isGE_compare.trans Nat.cast_le.symm
      | deposit => exact Int.isGE_compare
      | startTime => exact Nat.isGE_compare.trans Nat.cast_le.symm
      | ratePerSecond => exact Int.isGE_compare

theorem compareBy_trans (sortBy : SortField) (order : SortOrder)
    (a b c : StreamRecord) (hab : (compareBy sortBy order a b).isLE = true)
    (hbc : (compareBy sortBy order b c).isLE = true) :
    (compareBy sortBy order a c).isLE = true := by
  rw [compareBy_isLE_iff] at hab hbc ⊢
  cases order with
  | asc => exact le_trans hab hbc
  | desc => exact le_trans hbc hab

theorem compareBy_total (sortBy : SortField) (order : SortOrder)
    (a b : StreamRecord) :
    ((compareBy sortBy order a b).isLE || (compareBy sortBy order b a).isLE) =
      true := by
  rw [Bool.or_eq_true, compareBy_isLE_iff, compareBy_isLE_iff]
  cases order with
  | asc => exact le_total _ _
  | desc => exact le_total _ _

/-! ## The matches -/

section Matches

variable (toLowercase : Text → Text) (streams : Slice StreamRecord)
  (filter : StreamFilter) (opts : QueryOptions)

theorem matched_perm :
    (matched toLowercase streams filter opts).Perm
      (satisfying toLowercase filter streams.items) := by
  unfold matched
  rw [filter_matchesFilter]
  exact List.mergeSort_perm _ _

theorem length_matched :
    (matched toLowercase streams filter opts).length =
      (satisfying toLowercase filter streams.items).length :=
  (matched_perm toLowercase streams filter opts).length_eq

theorem matched_sorted :
    (matched toLowercase streams filter opts).Pairwise
      (InOrder opts.sortBy opts.order) := by
  have hsorted := List.pairwise_mergeSort (compareBy_trans opts.sortBy opts.order)
    (compareBy_total opts.sortBy opts.order)
    (streams.items.filter fun s => matchesFilter toLowercase s filter)
  exact hsorted.imp fun hle => compareBy_isLE_iff.mp hle

/-- Records with equal keys stay in the order of the input. -/
theorem matched_ties (key : Int) :
    (matched toLowercase streams filter opts).filter
        (fun s => decide (sortKey opts.sortBy s = key)) =
      (satisfying toLowercase filter streams.items).filter
        (fun s => decide (sortKey opts.sortBy s = key)) := by
  unfold matched
  rw [filter_matchesFilter]
  refine filter_mergeSort (compareBy_trans opts.sortBy opts.order)
    (compareBy_total opts.sortBy opts.order) ?_ _
  intro a b ha hb
  have hequal : sortKey opts.sortBy a = sortKey opts.sortBy b :=
    (of_decide_eq_true ha).trans (of_decide_eq_true hb).symm
  rw [compareBy_isLE_iff]
  cases opts.order with
  | asc => exact hequal.le
  | desc => exact hequal.ge

theorem length_matched_lt : (matched toLowercase streams filter opts).length < 2 ^ 64 := by
  rw [length_matched]
  exact (List.length_filter_le _ _).trans_lt streams.fits

end Matches

/-! ## One page -/

section OnePage

variable {toLowercase : Text → Text} {overflowChecks : Bool}
  {streams : Slice StreamRecord} {filter : StreamFilter} {opts : QueryOptions}

/-- The page size that `search` uses. -/
theorem toNat_pageSize (size : UInt64) : (max size 1).toNat = max size.toNat 1 := by
  show (if size ≤ 1 then 1 else size).toNat = _
  split
  · next hle => exact (max_eq_right (UInt64.le_iff_toNat_le.mp hle)).symm
  · next hlt =>
      have hlt : 1 < size.toNat := UInt64.lt_iff_toNat_lt.mp (UInt64.not_le.mp hlt)
      exact (max_eq_left hlt.le).symm

theorem pageSize_pos (size : UInt64) : 0 < (max size 1).toNat := by
  rw [toNat_pageSize]
  exact lt_max_of_lt_right Nat.one_pos

/-- The result for an offset. -/
def resultAt (toLowercase : Text → Text) (streams : Slice StreamRecord)
    (filter : StreamFilter) (opts : QueryOptions) (offset : UInt64) : PagedResult :=
  let matched := matched toLowercase streams filter opts
  { items := (matched.drop (min offset.toNat matched.length)).take
      (max opts.pageSize 1).toNat
    total := matched.length
    page := opts.page
    pageSize := max opts.pageSize 1
    totalPages := divCeil matched.length (max opts.pageSize 1) }

theorem search_eq :
    search toLowercase overflowChecks streams filter opts =
      (mulUsize overflowChecks opts.page (max opts.pageSize 1)).map
        (resultAt toLowercase streams filter opts) := by
  show (mulUsize overflowChecks opts.page (max opts.pageSize 1) >>= fun offset =>
    .ok (resultAt toLowercase streams filter opts offset)) = _
  cases mulUsize overflowChecks opts.page (max opts.pageSize 1) with
  | error panic => rfl
  | ok offset => rfl

/-- A product that fits is what it should be, with or without checks. -/
theorem mulUsize_of_lt (overflowChecks : Bool) {a b : UInt64}
    (h : a.toNat * b.toNat < 2 ^ 64) :
    mulUsize overflowChecks a b = .ok (a * b) ∧
      (a * b).toNat = a.toNat * b.toNat := by
  have hfits : decide (2 ^ 64 ≤ a.toNat * b.toNat) = false :=
    decide_eq_false (Nat.not_le.mpr h)
  constructor
  · unfold mulUsize
    rw [hfits, Bool.and_false]
    rfl
  · rw [UInt64.toNat_mul, Nat.mod_eq_of_lt h]

end OnePage

/-! ## All pages -/

/-- The same query for another page. -/
def onPage (opts : QueryOptions) (k : Nat) : QueryOptions :=
  { opts with page := UInt64.ofNat k }

/-- The pages give the records that satisfy the filter, in order. -/
structure PagesGive (satisfied : List StreamRecord) (opts : QueryOptions)
    (pages : List PagedResult) : Prop where
  /-- Each record as often as in the input. -/
  perm : (pages.flatMap PagedResult.items).Perm satisfied
  sorted : (pages.flatMap PagedResult.items).Pairwise
    (InOrder opts.sortBy opts.order)
  /-- Ties are in input order. -/
  ties : ∀ key, (pages.flatMap PagedResult.items).filter
      (fun s => decide (sortKey opts.sortBy s = key)) =
    satisfied.filter (fun s => decide (sortKey opts.sortBy s = key))
  full : ∀ page ∈ pages.dropLast, page.items.length = max opts.pageSize.toNat 1
  nonempty : ∀ page ∈ pages.getLast?, page.items ≠ []
  total : ∀ page ∈ pages, page.total = satisfied.length

section AllPages

variable (toLowercase : Text → Text) (overflowChecks : Bool)
  (streams : Slice StreamRecord) (filter : StreamFilter) (opts : QueryOptions)

/-- The number of pages of a query. -/
def totalPages : Nat :=
  pageCount (satisfying toLowercase filter streams.items).length
    (max opts.pageSize 1).toNat

/-- The result for a page that has items. -/
def pageResult (k : Nat) : PagedResult :=
  { items := page (max opts.pageSize 1).toNat k
      (matched toLowercase streams filter opts)
    total := (satisfying toLowercase filter streams.items).length
    page := UInt64.ofNat k
    pageSize := max opts.pageSize 1
    totalPages := totalPages toLowercase streams filter opts }

/-- A page that starts no later than after the last match is answered. -/
theorem search_onPage {k : Nat}
    (h : k * (max opts.pageSize 1).toNat ≤
      (matched toLowercase streams filter opts).length) :
    search toLowercase overflowChecks streams filter (onPage opts k) =
      .ok (pageResult toLowercase streams filter opts k) := by
  have hlength := length_matched_lt toLowercase streams filter opts
  have hsize := pageSize_pos opts.pageSize
  have hk : k < 2 ^ 64 := by
    have hle : k ≤ k * (max opts.pageSize 1).toNat := Nat.le_mul_of_pos_right k hsize
    omega
  have hpage : (UInt64.ofNat k).toNat = k := UInt64.toNat_ofNat_of_lt' hk
  have hfits : (UInt64.ofNat k).toNat * (max opts.pageSize 1).toNat < 2 ^ 64 := by
    rw [hpage]
    omega
  obtain ⟨hmul, hoffset⟩ := mulUsize_of_lt overflowChecks hfits
  rw [hpage] at hoffset
  rw [search_eq]
  show (mulUsize overflowChecks (UInt64.ofNat k) (max opts.pageSize 1)).map _ = _
  rw [hmul]
  unfold pageResult totalPages
  rw [← length_matched toLowercase streams filter opts]
  show Except.ok (PagedResult.mk (List.take _ (List.drop
    (min _ (matched toLowercase streams filter opts).length) _)) _ _ _ _) = _
  rw [hoffset, Nat.min_eq_left h]
  rfl

/-- The first page is always answered. -/
theorem search_onPage_zero :
    search toLowercase overflowChecks streams filter (onPage opts 0) =
      .ok (pageResult toLowercase streams filter opts 0) := by
  apply search_onPage
  rw [Nat.zero_mul]
  exact Nat.zero_le _

/-- So is every page before the total number of pages. -/
theorem search_onPage_of_lt {k : Nat}
    (h : k < totalPages toLowercase streams filter opts) :
    search toLowercase overflowChecks streams filter (onPage opts k) =
      .ok (pageResult toLowercase streams filter opts k) := by
  apply search_onPage
  rw [length_matched]
  exact ((lt_pageCount_iff (pageSize_pos opts.pageSize) k).mp h).le

/-- All pages, in order. -/
def allPages : List PagedResult :=
  (List.range (totalPages toLowercase streams filter opts)).map
    (pageResult toLowercase streams filter opts)

theorem totalPages_eq : totalPages toLowercase streams filter opts =
    pageCount (matched toLowercase streams filter opts).length
      (max opts.pageSize 1).toNat := by
  unfold totalPages
  rw [length_matched]

theorem flatMap_allPages :
    (allPages toLowercase streams filter opts).flatMap PagedResult.items =
      matched toLowercase streams filter opts := by
  unfold allPages
  rw [List.flatMap_map, totalPages_eq]
  exact flatMap_page_pageCount (pageSize_pos opts.pageSize) _

theorem dropLast_map_range {α : Type} (f : Nat → α) (n : Nat) :
    ((List.range n).map f).dropLast = (List.range (n - 1)).map f := by
  cases n with
  | zero => rfl
  | succ n => rw [List.range_succ, List.map_append, List.map_singleton,
      List.dropLast_concat, Nat.add_sub_cancel]

theorem pagesGive_allPages :
    PagesGive (satisfying toLowercase filter streams.items) opts
      (allPages toLowercase streams filter opts) where
  perm := by
    rw [flatMap_allPages]
    exact matched_perm _ _ _ _
  sorted := by
    rw [flatMap_allPages]
    exact matched_sorted _ _ _ _
  ties key := by
    rw [flatMap_allPages]
    exact matched_ties _ _ _ _ key
  full result hresult := by
    unfold allPages at hresult
    rw [dropLast_map_range] at hresult
    obtain ⟨k, hk, rfl⟩ := List.mem_map.mp hresult
    have hlast : k + 1 < totalPages toLowercase streams filter opts := by
      have hlt := List.mem_range.mp hk
      omega
    rw [totalPages_eq] at hlast
    rw [← toNat_pageSize]
    exact length_page_of_lt (pageSize_pos opts.pageSize) hlast
  nonempty result hresult := by
    obtain ⟨k, hk, rfl⟩ := List.mem_map.mp (List.mem_of_getLast? hresult)
    have hlt := List.mem_range.mp hk
    rw [totalPages_eq] at hlt
    exact List.ne_nil_of_length_pos
      (length_page_pos (pageSize_pos opts.pageSize) hlt)
  total result hresult := by
    obtain ⟨k, _, rfl⟩ := List.mem_map.mp hresult
    rfl

end AllPages

/-- For every list of records, filter, sort field, order and page size. -/
theorem search_pages (toLowercase : Text → Text) (overflowChecks : Bool)
    (streams : Slice StreamRecord) (filter : StreamFilter) (opts : QueryOptions) :
    ∃ first pages,
      search toLowercase overflowChecks streams filter (onPage opts 0) =
        .ok first ∧
      first.total = (satisfying toLowercase filter streams.items).length ∧
      (List.range first.totalPages).map (fun k =>
          search toLowercase overflowChecks streams filter (onPage opts k)) =
        pages.map .ok ∧
      PagesGive (satisfying toLowercase filter streams.items) opts pages := by
  refine ⟨_, allPages toLowercase streams filter opts,
    search_onPage_zero toLowercase overflowChecks streams filter opts, rfl, ?_,
    pagesGive_allPages toLowercase streams filter opts⟩
  unfold allPages
  rw [List.map_map]
  refine List.map_congr_left ?_
  intro k hk
  exact search_onPage_of_lt toLowercase overflowChecks streams filter opts
    (List.mem_range.mp hk)

/-! ## Past the last page -/

/-- A page past the last one is answered, without items, and with the totals of the
first page. -/
def AnswersPastEnd (toLowercase : Text → Text) (overflowChecks : Bool)
    (streams : Slice StreamRecord) (filter : StreamFilter) (opts : QueryOptions) :
    Prop :=
  ∃ result first, search toLowercase overflowChecks streams filter opts =
      .ok result ∧
    search toLowercase overflowChecks streams filter (onPage opts 0) = .ok first ∧
    result.items = [] ∧ result.total = first.total ∧
    result.totalPages = first.totalPages

/-- The product of page and page size is a `usize`; or, in a build without overflow
checks, what is left of it still lies past the matches. -/
def OffsetFits (overflowChecks : Bool) (total : Nat) (opts : QueryOptions) : Prop :=
  opts.page.toNat * max opts.pageSize.toNat 1 < 2 ^ 64 ∨
    overflowChecks = false ∧
      total ≤ opts.page.toNat * max opts.pageSize.toNat 1 % 2 ^ 64

section PastEnd

variable {toLowercase : Text → Text} {overflowChecks : Bool}
  {streams : Slice StreamRecord} {filter : StreamFilter} {opts : QueryOptions}

/-- With an offset, all depends on whether it lies past the matches. -/
theorem answersPastEnd_iff_of_ok {offset : UInt64}
    (h : mulUsize overflowChecks opts.page (max opts.pageSize 1) = .ok offset) :
    AnswersPastEnd toLowercase overflowChecks streams filter opts ↔
      (satisfying toLowercase filter streams.items).length ≤ offset.toNat := by
  have hresult : search toLowercase overflowChecks streams filter opts =
      .ok (resultAt toLowercase streams filter opts offset) := by
    rw [search_eq, h]
    rfl
  have hfirst := search_onPage_zero toLowercase overflowChecks streams filter opts
  have hnone : (resultAt toLowercase streams filter opts offset).items = [] ↔
      (satisfying toLowercase filter streams.items).length ≤ offset.toNat := by
    rw [← length_matched toLowercase streams filter opts]
    refine (take_drop_eq_nil_iff (pageSize_pos opts.pageSize) _).trans ?_
    omega
  have htotal : (resultAt toLowercase streams filter opts offset).total =
      (satisfying toLowercase filter streams.items).length :=
    length_matched toLowercase streams filter opts
  have hpages : (resultAt toLowercase streams filter opts offset).totalPages =
      totalPages toLowercase streams filter opts :=
    (totalPages_eq toLowercase streams filter opts).symm
  rw [← hnone]
  constructor
  · rintro ⟨result, first, hsearch, -, hitems, -, -⟩
    obtain rfl : resultAt toLowercase streams filter opts offset = result :=
      Except.ok.inj (hresult.symm.trans hsearch)
    exact hitems
  · intro hitems
    exact ⟨_, _, hresult, hfirst, hitems, htotal, hpages⟩

/-- With overflow checks, a product that is no `usize` panics. -/
theorem not_answersPastEnd_of_overflow
    (h : 2 ^ 64 ≤ opts.page.toNat * (max opts.pageSize 1).toNat) :
    ¬ AnswersPastEnd toLowercase true streams filter opts := by
  rintro ⟨result, first, hsearch, -⟩
  rw [search_eq, mulUsize, decide_eq_true h] at hsearch
  cases hsearch

end PastEnd

/-- For every list of records, filter, and every page and page size: a page past the
last one is answered exactly if the offset fits. -/
theorem search_past_end_iff (toLowercase : Text → Text) (overflowChecks : Bool)
    (streams : Slice StreamRecord) (filter : StreamFilter) (opts : QueryOptions)
    (hpage : totalPages toLowercase streams filter opts ≤ opts.page.toNat) :
    AnswersPastEnd toLowercase overflowChecks streams filter opts ↔
      OffsetFits overflowChecks (satisfying toLowercase filter streams.items).length
        opts := by
  unfold OffsetFits
  rw [← toNat_pageSize]
  have hpast := (pageCount_le_iff (pageSize_pos opts.pageSize) _).mp hpage
  by_cases hfits : opts.page.toNat * (max opts.pageSize 1).toNat < 2 ^ 64
  · obtain ⟨hmul, hoffset⟩ := mulUsize_of_lt overflowChecks hfits
    rw [answersPastEnd_iff_of_ok hmul, hoffset]
    exact iff_of_true hpast (Or.inl hfits)
  · rw [or_iff_right hfits]
    cases overflowChecks with
    | true =>
        refine iff_of_false (not_answersPastEnd_of_overflow (Nat.not_lt.mp hfits)) ?_
        rintro ⟨hchecks, -⟩
        cases hchecks
    | false =>
        rw [answersPastEnd_iff_of_ok rfl, UInt64.toNat_mul, and_iff_right rfl]

namespace SearchSample

/-- The first record of the tests. -/
def record : StreamRecord :=
  { id := 1
    employer := "EMP1".toList
    employee := "Alice".toList
    token := "USDC".toList
    deposit := 1000
    withdrawn := 0
    ratePerSecond := 1
    startTime := 100
    stopTime := 0
    status := .active }

def streams : Slice StreamRecord := ⟨[record], by decide⟩

/-- Lower case for the letters that the sample uses. -/
def toLowercase (text : Text) : Text := text.map Char.toLower

/-- A page far past the only one. -/
def farPage : QueryOptions := { page := 1000000, pageSize := 20 }

/-- A page for which the offset is `2 ^ 64`. -/
def wrappingPage : QueryOptions := { page := 0x8000000000000000, pageSize := 2 }

end SearchSample

theorem search_past_end_of_far :
    totalPages SearchSample.toLowercase SearchSample.streams {}
        SearchSample.farPage ≤ SearchSample.farPage.page.toNat ∧
      AnswersPastEnd SearchSample.toLowercase true SearchSample.streams {}
        SearchSample.farPage :=
  have hpage : totalPages SearchSample.toLowercase SearchSample.streams {}
      SearchSample.farPage ≤ SearchSample.farPage.page.toNat := by decide
  ⟨hpage, (search_past_end_iff _ true _ _ _ hpage).mpr (Or.inl (by decide))⟩

/-- With overflow checks the search panics; without, the offset wraps around to zero
and the page is not empty. -/
theorem search_past_end_overflows :
    totalPages SearchSample.toLowercase SearchSample.streams {}
        SearchSample.wrappingPage ≤ SearchSample.wrappingPage.page.toNat ∧
      search SearchSample.toLowercase true SearchSample.streams {}
        SearchSample.wrappingPage = .error .multiplyOverflow ∧
      ¬ AnswersPastEnd SearchSample.toLowercase true SearchSample.streams {}
        SearchSample.wrappingPage ∧
      ¬ AnswersPastEnd SearchSample.toLowercase false SearchSample.streams {}
        SearchSample.wrappingPage := by
  refine ⟨by decide, ?_, not_answersPastEnd_of_overflow (by decide), ?_⟩
  · rw [search_eq]
    rfl
  · rw [answersPastEnd_iff_of_ok rfl]
    decide

end Properties
end Paystream
