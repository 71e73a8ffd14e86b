import Paystream.Services.Indexer

/-!
# The event indexer

Two questions: does the indexer see every event, and does it store each of them
once?

* `cursor_covered`: in the runs in which every answer of `getEvents` holds all
  events up to the tip, the queue has a job for every event up to the cursor.
  The cursor is moved to the tip also when the page was full, and what did not
  fit on it is never asked for again.
* `stored_once_iff`: the rows are one for each emitted event exactly when no two
  events of a transaction share type and stream number, and each event without
  such a number is delivered once.
-/

namespace Paystream
namespace Properties

open Library
open Services
open Services.Indexer

/-! ## Ledgers -/

theorem startLedger_eq (lastLedger : Nat) : startLedger lastLedger = lastLedger + 1 := by
  unfold startLedger
  split <;> omega

/-- The events up to a ledger, split at an earlier one. -/
theorem between_split (chain : Chain) {first middle last : Nat}
    (hfirst : first ≤ middle + 1) (hlast : middle ≤ last) :
    chain.between first last =
      chain.between first middle ++ chain.between (middle + 1) last := by
  unfold Chain.between
  rw [← List.flatMap_append]
  congr 1
  have hlength : last + 1 - first = (middle + 1 - first) + (last + 1 - (middle + 1)) := by
    omega
  rw [hlength, ← List.range'_append_1]
  congr 2
  omega

section Polls

variable {encoding : Encoding} {chain : Chain} {limit : Nat}

/-! ## No event is lost -/

/-- The queue has a job for every event up to the ledger. -/
def Enqueued (encoding : Encoding) (chain : Chain) (ledger : Nat)
    (queue : List Job) : Prop :=
  ((chain.between 0 ledger).map (jobOf encoding)).Subperm queue

/-- The answer to this request holds all events from the start to the tip. -/
def FitsPage (chain : Chain) (limit : Nat) (s : State) : Action → Prop
  | .fetch i => ∀ lastLedger, s.phase i = .started lastLedger →
      (chain.between (startLedger lastLedger) s.tip).length ≤ limit
  | _ => True

/-- What a poll has done and will do, on the way to its `finish`. -/
def PollCovers (encoding : Encoding) (chain : Chain) (queue : List Job) :
    Phase → Prop
  | .idle => True
  | .started lastLedger => Enqueued encoding chain lastLedger queue
  | .indexing poll => ∃ done latest, poll.latestLedger = some latest ∧
      ((chain.between 0 poll.lastLedger ++ done).map (jobOf encoding)).Subperm
        queue ∧
      (poll.lastLedger < latest →
        chain.between 0 latest = chain.between 0 poll.lastLedger ++ done ++ poll.events)

/-- The cursor is covered, and every poll keeps what it needs to cover the one it
will set. -/
structure Covered (encoding : Encoding) (chain : Chain) (s : State) : Prop where
  cursor : Enqueued encoding chain s.cursor s.queue
  polls : ∀ i, PollCovers encoding chain s.queue (s.phase i)

theorem PollCovers.mono {queue queue' : List Job} (hqueue : queue.Subperm queue')
    {phase : Phase} (h : PollCovers encoding chain queue phase) :
    PollCovers encoding chain queue' phase := by
  cases phase with
  | idle => exact h
  | started lastLedger => exact List.Subperm.trans h hqueue
  | indexing poll =>
      obtain ⟨done, latest, hlatest, hdone, hrest⟩ := h
      exact ⟨done, latest, hlatest, hdone.trans hqueue, hrest⟩

/-- A step of poll `i` that leaves cursor and queue. -/
theorem Covered.setPhase {s : State} (h : Covered encoding chain s) (i : Nat)
    {phase : Phase} (hphase : PollCovers encoding chain s.queue phase) :
    Covered encoding chain (s.setPhase i phase) := by
  refine ⟨h.cursor, ?_⟩
  intro j
  by_cases hji : j = i
  · subst hji
    show PollCovers encoding chain s.queue (Function.update s.phase j phase j)
    rw [Function.update_self]
    exact hphase
  · show PollCovers encoding chain s.queue (Function.update s.phase i phase j)
    rw [Function.update_of_ne hji]
    exact h.polls j

theorem Covered.fetch {s : State} (h : Covered encoding chain s) {i lastLedger : Nat}
    (hphase : s.phase i = .started lastLedger)
    (hfits : FitsPage chain limit s (.fetch i)) :
    Covered encoding chain (step encoding chain limit s (.fetch i)) := by
  have hcovers : Enqueued encoding chain lastLedger s.queue := by
    have := h.polls i
    rw [hphase] at this
    exact this
  simp only [step, hphase, getEvents]
  refine h.setPhase i ⟨[], s.tip, rfl, ?_, ?_⟩
  · rw [List.append_nil]
    exact hcovers
  · intro hlt
    -- the page was not cut, so what it holds reaches up to the tip
    have hlength := hfits lastLedger hphase
    show chain.between 0 s.tip = chain.between 0 lastLedger ++ [] ++
      (chain.between (startLedger lastLedger) s.tip).take limit
    rw [List.take_of_length_le hlength, List.append_nil, startLedger_eq]
    exact between_split chain (Nat.zero_le _) hlt.le

theorem Covered.enqueue {s : State} (h : Covered encoding chain s) {i : Nat}
    {lastLedger maxLedger : Nat} {raw : RawEvent} {events : List RawEvent}
    {latestLedger : Option Nat}
    (hphase : s.phase i =
      .indexing ⟨lastLedger, maxLedger, raw :: events, latestLedger⟩) :
    Covered encoding chain (step encoding chain limit s (.enqueue i)) := by
  have hgrown : s.queue.Subperm (s.queue ++ [jobOf encoding raw]) :=
    (List.sublist_append_left _ _).subperm
  simp only [step, hphase]
  refine ⟨List.Subperm.trans h.cursor hgrown, ?_⟩
  intro j
  by_cases hji : j = i
  · subst hji
    have hpoll := h.polls j
    rw [hphase] at hpoll
    obtain ⟨done, latest, hlatest, hdone, hrest⟩ := hpoll
    show PollCovers encoding chain _ (Function.update s.phase j _ j)
    rw [Function.update_self]
    refine ⟨done ++ [raw], latest, hlatest, ?_, ?_⟩
    · rw [← List.append_assoc, List.map_append]
      exact hdone.append (List.Subperm.refl _)
    · intro hlt
      have hsplit := hrest hlt
      simp only [List.append_assoc, List.singleton_append] at hsplit ⊢
      exact hsplit
  · show PollCovers encoding chain _ (Function.update s.phase i _ j)
    rw [Function.update_of_ne hji]
    exact (h.polls j).mono hgrown

theorem Covered.finish {s : State} (h : Covered encoding chain s) {i : Nat}
    {lastLedger maxLedger : Nat} {latestLedger : Option Nat}
    (hphase : s.phase i = .indexing ⟨lastLedger, maxLedger, [], latestLedger⟩) :
    Covered encoding chain (step encoding chain limit s (.finish i)) := by
  have hpoll := h.polls i
  rw [hphase] at hpoll
  obtain ⟨done, latest, hlatest, hdone, hrest⟩ := hpoll
  have hidle : Covered encoding chain (s.setPhase i .idle) := h.setPhase i trivial
  simp only [step, hphase]
  refine ⟨?_, hidle.polls⟩
  obtain rfl : latestLedger = some latest := hlatest
  show Enqueued encoding chain
    (if lastLedger < latest then latest else s.cursor) s.queue
  split
  · rename_i hlt
    -- nothing is left to add: `done` is all there is up to the new cursor
    have hall := hrest hlt
    rw [List.append_nil] at hall
    unfold Enqueued
    rw [hall]
    exact hdone
  -- another poll may have moved the cursor meanwhile; this one leaves it alone
  · exact h.cursor

theorem Covered.step {s : State} (h : Covered encoding chain s) {action : Action}
    (hfits : FitsPage chain limit s action) :
    Covered encoding chain (Indexer.step encoding chain limit s action) := by
  cases action with
  | grow ledgers => exact ⟨h.cursor, h.polls⟩
  | start i =>
      cases hphase : s.phase i with
      | idle =>
          simp only [Indexer.step, hphase]
          exact h.setPhase i h.cursor
      | _ =>
          simp only [Indexer.step, hphase]
          exact h
  | fetch i =>
      cases hphase : s.phase i with
      | started lastLedger => exact h.fetch hphase hfits
      | _ =>
          simp only [Indexer.step, hphase]
          exact h
  | enqueue i =>
      cases hphase : s.phase i with
      | indexing poll =>
          obtain ⟨lastLedger, maxLedger, events, latestLedger⟩ := poll
          cases events with
          | nil =>
              simp only [Indexer.step, hphase]
              exact h
          | cons raw events => exact h.enqueue hphase
      | _ =>
          simp only [Indexer.step, hphase]
          exact h
  | finish i =>
      cases hphase : s.phase i with
      | indexing poll =>
          obtain ⟨lastLedger, maxLedger, events, latestLedger⟩ := poll
          cases events with
          | nil => exact h.finish hphase
          | cons raw events =>
              simp only [Indexer.step, hphase]
              exact h
      | _ =>
          simp only [Indexer.step, hphase]
          exact h
  | abort i => exact h.setPhase i trivial

/-- In every run in which each answer of `getEvents` holds all events up to the
tip, every event up to the stored cursor has been enqueued. -/
theorem cursor_covered {history : List (Entry State Action)} {s : State}
    (hrun : (Indexer.system encoding chain limit).Run history s)
    (hfits : ∀ entry ∈ history, FitsPage chain limit entry.before entry.input) :
    Enqueued encoding chain s.cursor s.queue := by
  have hcovered : Covered encoding chain s := by
    induction hrun using System.Run.induction with
    | start state hinitial =>
        obtain ⟨hcursor, hqueue, hidle⟩ := hinitial
        refine ⟨?_, ?_⟩
        · rw [hcursor, hqueue]
          have hnone : chain.between 0 0 = [] := by
            simp [Chain.between, chain.none_at_zero]
          simp [Enqueued, hnone]
        · intro i
          rw [hidle i]
          trivial
    | next history state action _ _ ih =>
        have hbefore := ih fun entry hentry => hfits entry (by simp [hentry])
        exact hbefore.step (hfits _ List.mem_cons_self)
  exact hcovered.cursor

end Polls

namespace PollSample

def encoding : Encoding := ⟨fun _ => ['G'], fun _ => ['=']⟩

def paused (value : Bool) : Published := .ofContract (.contractPaused value)

/-- Two events in the first ledger, and none after it. -/
def chain : Chain where
  eventsAt := fun ledger =>
    if ledger = 1 then
      [.of 1 ['t'] (paused true), .of 1 ['u'] (paused false)]
    else
      []
  ledger_eq := by
    intro ledger raw hraw
    split at hraw
    · rename_i hone
      simp only [List.mem_cons, List.not_mem_nil, or_false] at hraw
      rcases hraw with rfl | rfl
      · exact hone.symm
      · exact hone.symm
    · cases hraw
  none_at_zero := rfl

def start : State := ⟨1, 0, [], fun _ => .idle⟩

def play (limit : Nat) (actions : List Action) : List (Entry State Action) × State :=
  (Indexer.system encoding chain limit).replay [] start actions

theorem play_run (limit : Nat) (actions : List Action)
    (horder : (Indexer.system encoding chain limit).InOrder 0 actions = true) :
    (Indexer.system encoding chain limit).Run (play limit actions).1
      (play limit actions).2 :=
  ⟨start, ⟨rfl, rfl, fun _ => rfl⟩, System.Path.stay.replay horder⟩

end PollSample

/-- With room for both events on the page, the poll covers the first ledger. -/
theorem cursor_covered_of_room :
    ∃ history s, (Indexer.system PollSample.encoding PollSample.chain 10).Run
        history s ∧ s.cursor = 1 ∧ s.queue.length = 2 ∧
      Enqueued PollSample.encoding PollSample.chain s.cursor s.queue := by
  have hrun := PollSample.play_run 10
    [.start 0, .fetch 0, .enqueue 0, .enqueue 0, .finish 0] (by decide)
  refine ⟨_, _, hrun, by decide, by decide, cursor_covered hrun ?_⟩
  intro entry hentry
  simp only [PollSample.play, System.replay, List.mem_cons, List.not_mem_nil,
    or_false] at hentry
  rcases hentry with rfl | rfl | rfl | rfl | rfl
  · trivial
  · trivial
  · trivial
  · intro lastLedger hphase
    cases hphase
    decide
  · trivial

/-- A page of one event: the cursor is moved to the tip, past the second event,
for which there is no job. -/
theorem cursor_passes_event :
    ∃ history s, (Indexer.system PollSample.encoding PollSample.chain 1).Run
        history s ∧ s.cursor = 1 ∧ s.queue.length = 1 ∧
      ¬ Enqueued PollSample.encoding PollSample.chain s.cursor s.queue := by
  have hrun := PollSample.play_run 1
    [.start 0, .fetch 0, .enqueue 0, .finish 0] (by decide)
  refine ⟨_, _, hrun, by decide, by decide, ?_⟩
  intro henqueued
  exact absurd henqueued.length_le (by decide)

/-! ## Each event is stored once -/

/-- A transaction with the events it published. -/
structure Transaction where
  hash : Text
  ledger : Nat
  events : List Published

/-- An event in its transaction. -/
structure Emission where
  hash : Text
  ledger : Nat
  event : Published

def emissions (transactions : List Transaction) : List Emission :=
  transactions.flatMap fun tx => tx.events.map fun event => ⟨tx.hash, tx.ledger, event⟩

/-- The job of an event, and the row that stands for it. -/
def rowOf (encoding : Encoding) (emission : Emission) : Job :=
  jobOf encoding (.of emission.ledger emission.hash emission.event)

/-- The events share their type and a number, as JavaScript reads it. -/
def SameKey (a b : Published) : Prop :=
  a.name = b.name ∧ a.number ≠ none ∧ a.number.map toDouble = b.number.map toDouble

instance : DecidableRel SameKey := fun a b =>
  inferInstanceAs (Decidable (a.name = b.name ∧ a.number ≠ none ∧
    a.number.map toDouble = b.number.map toDouble))

/-- The decimal text of a number is read back, as a double. -/
theorem numberOf_toDigits (n : Nat) :
    numberOf (.str (Nat.toDigits 10 n)) = some (toDouble n) := by
  have hdigits : (Nat.toDigits 10 n).all Char.isDigit = true := by
    rw [List.all_eq_true]
    intro c hc
    exact Nat.isDigit_of_mem_toDigits (by decide) (by decide) hc
  simp only [numberOf]
  rw [if_pos ⟨Nat.toDigits_ne_nil, hdigits⟩,
    Nat.ofDigitChars_toDigits (by decide) (by decide)]

/-- The key of a row, read off the event. -/
theorem uniqueKey_rowOf (encoding : Encoding) (emission : Emission) :
    (rowOf encoding emission).uniqueKey =
      emission.event.number.map fun n =>
        (emission.hash, emission.event.name, toDouble n) := by
  unfold rowOf jobOf RawEvent.of Published.topic Job.uniqueKey
  cases emission.event.number with
  | none => rfl
  | some n =>
      simp [decodeScVal, stringOf, numberOf_toDigits]

/-- Where all jobs complete, the table is the one of the inserts. -/
theorem eq_written_of_runJobs {jobs rows : List Job} (h : runJobs jobs = some rows) :
    rows = written Job.uniqueKey jobs [] := by
  have hall : ∀ (jobs table rows : List Job), jobs.foldlM runJob table = some rows →
      rows = written Job.uniqueKey jobs table := by
    intro jobs
    induction jobs with
    | nil =>
        intro table rows h
        exact (Option.some.inj h).symm
    | cons job later ih =>
        intro table rows h
        rw [List.foldlM_cons] at h
        unfold runJob at h
        split at h
        · exact ih _ rows h
        · cases h
  exact hall jobs [] rows h

/-- The keys of all rows are distinct when those of each transaction are. -/
theorem nodup_keys_emissions_iff (encoding : Encoding)
    {transactions : List Transaction}
    (hhashes : (transactions.map Transaction.hash).Nodup) :
    (((emissions transactions).map (rowOf encoding)).filterMap
        Job.uniqueKey).Nodup ↔
      ∀ tx ∈ transactions, tx.events.Pairwise fun a b => ¬ SameKey a b := by
  have hkeys : ((emissions transactions).map (rowOf encoding)).filterMap
      Job.uniqueKey = transactions.flatMap fun tx => tx.events.filterMap fun event =>
        event.number.map fun n => (tx.hash, event.name, toDouble n) := by
    unfold emissions
    rw [List.filterMap_map, List.filterMap_flatMap]
    congr 1
    funext tx
    rw [List.filterMap_map]
    congr 1
    funext event
    exact uniqueKey_rowOf encoding ⟨tx.hash, tx.ledger, event⟩
  have hseparate : transactions.Pairwise (Function.onFun List.Disjoint fun tx =>
      tx.events.filterMap fun event =>
        event.number.map fun n => (tx.hash, event.name, toDouble n)) := by
    refine (List.pairwise_map.mp hhashes).imp ?_
    intro tx other hne key hkey hkey'
    -- every key carries the hash of its transaction
    simp only [List.mem_filterMap, Option.map_eq_some_iff] at hkey hkey'
    obtain ⟨event, _, n, _, rfl⟩ := hkey
    obtain ⟨event', _, n', _, hsame⟩ := hkey'
    exact hne (congrArg Prod.fst hsame).symm
  rw [hkeys, List.nodup_flatMap, and_iff_left hseparate]
  refine forall₂_congr ?_
  intro tx _
  rw [List.Nodup, List.pairwise_filterMap]
  constructor
  · intro hpairwise
    refine hpairwise.imp ?_
    rintro a b hdiffer ⟨hname, hnumber, hsame⟩
    obtain ⟨n, hn⟩ := Option.ne_none_iff_exists'.mp hnumber
    rw [hn, Option.map_some, eq_comm, Option.map_eq_some_iff] at hsame
    obtain ⟨m, hm, hdouble⟩ := hsame
    have hkey : (tx.hash, a.name, toDouble n) = (tx.hash, b.name, toDouble m) := by
      rw [hname, hdouble]
    exact hdiffer _ (by rw [hn]; rfl) _ (by rw [hm]; rfl) hkey
  · intro hpairwise
    refine hpairwise.imp ?_
    intro a b hdiffer key hkey key' hkey' hsame
    obtain ⟨n, hn, rfl⟩ := Option.map_eq_some_iff.mp hkey
    obtain ⟨m, hm, rfl⟩ := Option.map_eq_some_iff.mp hkey'
    simp only [Prod.mk.injEq, true_and] at hsame
    refine hdiffer ⟨hsame.1, by rw [hn]; simp, ?_⟩
    rw [hn, hm, Option.map_some, Option.map_some, hsame.2]

/-- Once every job has been run, in any order and each of them once or more, and
all runs have completed, the table holds exactly one row for each event exactly
when no two events of a transaction share type and number, and every event
without a number was delivered once. -/
theorem stored_once_iff (encoding : Encoding) {transactions : List Transaction}
    (hhashes : (transactions.map Transaction.hash).Nodup)
    {deliveries : List (Fin (emissions transactions).length)}
    (hall : ∀ p, p ∈ deliveries) {rows : List Job}
    (hrows : runJobs (deliveries.map fun p =>
      rowOf encoding ((emissions transactions).get p)) = some rows) :
    rows.Perm ((emissions transactions).map (rowOf encoding)) ↔
      (∀ tx ∈ transactions, tx.events.Pairwise fun a b => ¬ SameKey a b) ∧
        ∀ p, ((emissions transactions).get p).event.number = none →
          deliveries.count p = 1 := by
  have hofFn : (emissions transactions).map (rowOf encoding) =
      List.ofFn fun p => rowOf encoding ((emissions transactions).get p) :=
    (List.ofFn_getElem_eq_map _ _).symm
  have hkeyless : ∀ p, (rowOf encoding
      ((emissions transactions).get p)).uniqueKey = none ↔
        ((emissions transactions).get p).event.number = none := by
    intro p
    rw [uniqueKey_rowOf, Option.map_eq_none_iff]
  rw [eq_written_of_runJobs hrows, ← nodup_keys_emissions_iff encoding hhashes,
    hofFn, nodup_keys_ofFn_iff, written_perm_iff hall]
  simp only [hkeyless]

namespace RowSample

def toppedUp (amount : Int) : Published := .ofContract (.toppedUp 1 ⟨1⟩ amount)

/-- One transaction. -/
def publishing (events : List Published) : List Transaction := [⟨['t'], 1, events⟩]

/-- A top-up and a contract-level event. -/
def reported : List Transaction := publishing [toppedUp 5, PollSample.paused true]

/-- The job of the top-up is run twice. -/
def retried : List (Fin (emissions reported).length) :=
  [⟨0, by decide⟩, ⟨1, by decide⟩, ⟨0, by decide⟩]

end RowSample

/-- A top-up delivered twice and a contract-level event delivered once are two
rows. -/
theorem stored_once_of_retry :
    ∃ (transactions : List Transaction)
      (deliveries : List (Fin (emissions transactions).length)) (rows : List Job),
      deliveries.map Fin.val = [0, 1, 0] ∧
      runJobs (deliveries.map fun p => rowOf PollSample.encoding
        ((emissions transactions).get p)) = some rows ∧
      rows.Perm ((emissions transactions).map (rowOf PollSample.encoding)) := by
  have hall : ∀ p, p ∈ RowSample.retried := by decide
  refine ⟨RowSample.reported, RowSample.retried, _, rfl, rfl, ?_⟩
  exact (stored_once_iff PollSample.encoding (by decide) hall rfl).mpr (by decide)

/-- Two top-ups of one stream in one transaction leave one row; a contract-level
event that is delivered twice leaves two. -/
theorem stored_otherwise :
    (∃ (transactions : List Transaction)
      (deliveries : List (Fin (emissions transactions).length)) (rows : List Job),
      transactions = RowSample.publishing
        [RowSample.toppedUp 5, RowSample.toppedUp 7] ∧
      deliveries.map Fin.val = [0, 1] ∧
      runJobs (deliveries.map fun p => rowOf PollSample.encoding
        ((emissions transactions).get p)) = some rows ∧ rows.length = 1 ∧
      ¬ rows.Perm ((emissions transactions).map (rowOf PollSample.encoding))) ∧
    (∃ (transactions : List Transaction)
      (deliveries : List (Fin (emissions transactions).length)) (rows : List Job),
      transactions = RowSample.publishing [PollSample.paused true] ∧
      deliveries.map Fin.val = [0, 0] ∧
      runJobs (deliveries.map fun p => rowOf PollSample.encoding
        ((emissions transactions).get p)) = some rows ∧ rows.length = 2 ∧
      ¬ rows.Perm ((emissions transactions).map (rowOf PollSample.encoding))) := by
  constructor
  · refine ⟨_, [⟨0, by decide⟩, ⟨1, by decide⟩], _, rfl, rfl, rfl, by decide, ?_⟩
    intro hperm
    exact absurd hperm.length_eq (by decide)
  · refine ⟨_, [⟨0, by decide⟩, ⟨0, by decide⟩], _, rfl, rfl, rfl, by decide, ?_⟩
    intro hperm
    exact absurd hperm.length_eq (by decide)

end Properties
end Paystream
