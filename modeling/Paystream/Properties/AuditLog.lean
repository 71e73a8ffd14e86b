import Paystream.Library.GrowingLog
import Paystream.Services.AuditLog

/-!
# Reading the audit log in pages

A process without a database keeps the log in memory.  Its log is the logging calls
that were made, numbered from one (`logs_eq_loggedBy`).

A reader asks for the pages of the log one after the other, each with the offset
where the one before it ended, while more is logged.  No call from before its first
request is missed, once a page is not full; an entry may come twice, and is then
recognised by its number (`audit_pages_complete`).

With a database neither holds: what a logging call has written to the table is not in
memory, where a read looks whose query fails.
-/

namespace Paystream
namespace Properties

open Library
open Services
open Services.AuditLogs

/-! ## What is logged -/

/-- The entry that a logging call is to make, with its number. -/
def logOf (id : Nat) : Action → Option LogRecord
  | .logAdminAction a _ => some
      { id := id, actor := a.actor, action := a.action, entityType := none
        entityId := none, beforeState := none, afterState := none, metadata := none
        createdAt := none, timestamp := some a.timestamp, params := a.params
        transactionHash := a.transactionHash }
  | .createAuditLog c _ => some
      { id := id, actor := c.actor, action := c.action, entityType := c.entityType
        entityId := c.entityId, beforeState := c.beforeState, afterState := c.afterState
        metadata := c.metadata, createdAt := some c.createdAt, timestamp := none
        params := none, transactionHash := none }
  | .auditLogs _ _ _ => none

/-- The entries of the logging calls of a history, newest first, numbered in the order
of the calls. -/
def loggedBy : List (Entry State Action) → List LogRecord
  | [] => []
  | entry :: older =>
      (logOf ((loggedBy older).length + 1) entry.input).toList ++ loggedBy older

/-- The call is made in a process without a database. -/
def WithoutDatabase : Action → Prop
  | .logAdminAction _ database => database = none
  | .createAuditLog _ database => database = none
  | .auditLogs _ _ database => database = none

/-! ## The numbers of the entries -/

/-- Entries are numbered from one, in the order of the log. -/
structure LogNumbered (s : State) : Prop where
  ids : s.logs.map (fun log => log.id) = List.range' 1 s.logs.length
  counter : s.idCounter = s.logs.length + 1

theorem LogNumbered.push {s : State} (h : LogNumbered s) {log : Nat → LogRecord}
    (hid : ∀ id, (log id).id = id) : LogNumbered (push s log) := by
  refine ⟨?_, ?_⟩
  · show (s.logs ++ [log s.idCounter]).map _ = _
    rw [List.map_append, h.ids, List.map_singleton, hid, h.counter]
    show _ = List.range' 1 (s.logs ++ [log s.idCounter]).length
    rw [List.length_append, List.length_singleton, List.range'_1_concat, Nat.add_comm 1]
  · show s.idCounter + 1 = (s.logs ++ [log s.idCounter]).length + 1
    rw [List.length_append, List.length_singleton, h.counter]

theorem handle_cases (s : State) (action : Action) :
    handle s action = s ∨
      ∃ log : Nat → LogRecord, (∀ id, (log id).id = id) ∧ handle s action = push s log := by
  cases action with
  | logAdminAction a database =>
      simp only [handle, logAdminAction]
      split
      · exact Or.inl rfl
      · exact Or.inr ⟨_, fun _ => rfl, rfl⟩
  | createAuditLog c database =>
      simp only [handle, createAuditLog]
      split
      · exact Or.inl rfl
      · exact Or.inr ⟨_, fun _ => rfl, rfl⟩
  | auditLogs limit offset database => exact Or.inl rfl

theorem logNumbered_of_run {history : List (Entry State Action)} {s : State}
    (hrun : system.Run history s) : LogNumbered s := by
  refine hrun.invariant (P := fun _ s => LogNumbered s) ?_ ?_
  · rintro s rfl
    exact ⟨rfl, rfl⟩
  · intro history s action _ _ h
    show LogNumbered (handle s action)
    rcases handle_cases s action with hsame | ⟨log, hid, hpush⟩
    · rw [hsame]
      exact h
    · rw [hpush]
      exact h.push hid

theorem LogNumbered.nodup {s : State} (h : LogNumbered s) :
    (s.logs.map fun log => log.id).Nodup := by
  rw [h.ids]
  exact List.nodup_range'

theorem LogNumbered.descending {s : State} (h : LogNumbered s) :
    s.logs.reverse.Pairwise fun log next => next.id < log.id := by
  rw [List.pairwise_reverse]
  have hids : (s.logs.map fun log => log.id).Pairwise (· < ·) := by
    rw [h.ids]
    exact List.pairwise_lt_range'
  exact List.pairwise_map.mp hids

/-- Without a database a call logs its entry under the next number. -/
theorem handle_logs_reverse {s : State} {action : Action}
    (hmemory : WithoutDatabase action) :
    (handle s action).logs.reverse =
      (logOf s.idCounter action).toList ++ s.logs.reverse := by
  cases action with
  | logAdminAction a database =>
      obtain rfl : database = none := hmemory
      exact List.reverse_concat
  | createAuditLog c database =>
      obtain rfl : database = none := hmemory
      exact List.reverse_concat
  | auditLogs limit offset database => rfl

theorem logs_eq_loggedBy {history : List (Entry State Action)} {s : State}
    (hrun : system.Run history s)
    (hmemory : ∀ entry ∈ history, WithoutDatabase entry.input) :
    s.logs.reverse = loggedBy history := by
  induction hrun using System.Run.induction with
  | start s h =>
      obtain rfl : s = ⟨[], 1⟩ := h
      rfl
  | next history s action hrun htime ih =>
      rw [List.forall_mem_cons] at hmemory
      have hcounter : s.idCounter = (loggedBy history).length + 1 := by
        rw [← ih hmemory.2, List.length_reverse, (logNumbered_of_run hrun).counter]
      show (handle s action).logs.reverse = _
      rw [@handle_logs_reverse s action hmemory.1, ih hmemory.2, hcounter]
      rfl

/-! ## The log only grows -/

theorem logs_grow {history : List (Entry State Action)} {s : State}
    (hrun : system.Run history s) :
    ∀ entry ∈ history, entry.before.logs <+: s.logs := by
  induction hrun using System.Run.induction with
  | start s h => exact nofun
  | next history s action hrun htime ih =>
      have hstep : s.logs <+: (handle s action).logs := by
        rcases handle_cases s action with hsame | ⟨log, _, hpush⟩
        · rw [hsame]
        · rw [hpush]
          exact List.prefix_append _ _
      rw [List.forall_mem_cons]
      exact ⟨hstep, fun entry hentry => (ih entry hentry).trans hstep⟩

theorem logs_pairwise {history : List (Entry State Action)} {s : State}
    (hrun : system.Run history s) :
    history.Pairwise fun newer older => older.before.logs <+: newer.before.logs := by
  induction hrun using System.Run.induction with
  | start s h => exact List.Pairwise.nil
  | next history s action hrun htime ih =>
      exact List.pairwise_cons.mpr ⟨logs_grow hrun, ih⟩

/-! ## The pages -/

def answerOf (entry : Entry State Action) : List LogRecord :=
  match entry.input with
  | .auditLogs limit offset database =>
      (auditLogs entry.before limit offset database).getD []
  | _ => []

/-- The requests of a reader, oldest first: each goes on where the one before it
ended. -/
def AsksInTurn (limit : Nat) (requests : List (Entry State Action)) : Prop :=
  ∀ (i : Nat) (entry : Entry State Action), requests[i]? = some entry →
    entry.input = .auditLogs (some limit) (some (i * limit)) none

theorem answerOf_eq {entry : Entry State Action} {limit offset : Nat} (hpos : 1 ≤ limit)
    (hle : limit ≤ 1000)
    (hinput : entry.input = .auditLogs (some limit) (some offset) none) :
    answerOf entry = (entry.before.logs.reverse.drop offset).take limit := by
  have hlimit : orDefault (some limit) 100 = limit := if_neg (by omega)
  have hoffset : orDefault (some offset) 0 = offset := by
    unfold orDefault
    split <;> simp_all
  have hvalid : ∀ value ∈ some limit, 1 ≤ value ∧ value ≤ 1000 := by
    rintro value ⟨⟩
    exact ⟨hpos, hle⟩
  unfold answerOf
  simp only [hinput, auditLogs, if_pos hvalid, hlimit, hoffset, Option.getD_some]
  rfl

section Requests

variable {limit : Nat} {requests : List (Entry State Action)}

/-- What the requests have read of the log as it was at the first one. -/
theorem take_subset_of_requests (hpos : 1 ≤ limit) (hle : limit ≤ 1000)
    (hasks : AsksInTurn limit requests)
    (hgrow : requests.Pairwise fun older newer => older.before.logs <+: newer.before.logs)
    {first last : Entry State Action} (hfirst : requests.head? = some first)
    (hlast : requests.getLast? = some last) :
    first.before.logs.reverse.take (requests.length * limit -
        (last.before.logs.reverse.length - first.before.logs.reverse.length)) ⊆
      requests.flatMap answerOf := by
  induction requests using List.reverseRecOn generalizing last with
  | nil => cases hfirst
  | append_singleton requests newest ih =>
      obtain rfl : newest = last := by simpa using hlast
      have hanswer := answerOf_eq hpos hle (hasks requests.length newest (by simp))
      obtain ⟨hearlier, _, hbefore⟩ := List.pairwise_append.mp hgrow
      rw [List.length_append, List.length_singleton, Nat.add_mul, Nat.one_mul,
        List.flatMap_append, List.flatMap_singleton, hanswer]
      cases hprevious : requests.getLast? with
      | none =>
          obtain rfl := List.getLast?_eq_none_iff.mp hprevious
          obtain rfl : newest = first := by simpa using hfirst
          exact take_subset_of_offset List.suffix_rfl (by simp)
      | some previous =>
          have hmem : previous ∈ requests := List.mem_of_getLast? hprevious
          have hhead : requests.head? = some first := by
            cases requests with
            | nil => cases hprevious
            | cons _ _ => exact hfirst
          have hgrown : previous.before.logs <+: newest.before.logs :=
            hbefore previous hmem newest (List.mem_singleton_self _)
          have hfirstGrown : first.before.logs <+: newest.before.logs :=
            hbefore first (List.mem_of_head? hhead) newest (List.mem_singleton_self _)
          have hasksEarlier : AsksInTurn limit requests := by
            intro i entry hentry
            refine hasks i entry ?_
            rw [List.getElem?_append_left (List.getElem?_eq_some_iff.mp hentry).1]
            exact hentry
          refine take_subset_of_offset (List.reverse_suffix.mpr hfirstGrown)
            (List.Subset.trans ?_ (ih hasksEarlier hearlier hhead hprevious))
          -- entries added since then only shorten what is known to be read
          refine (List.take_prefix_take_left ?_).subset
          have hlength := hgrown.length_le
          simp only [List.length_reverse]
          omega

/-- A page that is not full: all that was there at the first request has been read. -/
theorem subset_of_requests (hpos : 1 ≤ limit) (hle : limit ≤ 1000)
    (hasks : AsksInTurn limit requests)
    (hgrow : requests.Pairwise fun older newer => older.before.logs <+: newer.before.logs)
    {first last : Entry State Action} (hfirst : requests.head? = some first)
    (hlast : requests.getLast? = some last) (hshort : (answerOf last).length < limit) :
    first.before.logs ⊆ requests.flatMap answerOf := by
  have hread := take_subset_of_requests hpos hle hasks hgrow hfirst hlast
  obtain ⟨earlier, rfl⟩ := List.getLast?_eq_some_iff.mp hlast
  rw [answerOf_eq hpos hle (hasks earlier.length last (by simp))] at hshort
  have hends := length_le_of_short hshort
  have hgrown : first.before.logs.reverse.length ≤ last.before.logs.reverse.length := by
    cases earlier with
    | nil =>
        obtain rfl : last = first := by simpa using hfirst
        exact le_rfl
    | cons oldest earlier =>
        obtain rfl : oldest = first := by simpa using hfirst
        have hlater := (List.pairwise_append.mp hgrow).2.2 oldest List.mem_cons_self last
          (List.mem_singleton_self _)
        simpa using hlater.length_le
  rw [List.length_append, List.length_singleton, Nat.add_mul, Nat.one_mul,
    List.take_of_length_le (by omega)] at hread
  intro log hlog
  exact hread (List.mem_reverse.mpr hlog)

/-- What is read is in the log, newest first. -/
theorem answer_sublist (hpos : 1 ≤ limit) (hle : limit ≤ 1000)
    (hasks : AsksInTurn limit requests) {entry : Entry State Action}
    (hentry : entry ∈ requests) :
    (answerOf entry).Sublist entry.before.logs.reverse := by
  obtain ⟨i, hi⟩ := List.mem_iff_getElem?.mp hentry
  rw [answerOf_eq hpos hle (hasks i entry hi)]
  exact (List.take_sublist _ _).trans (List.drop_sublist _ _)

end Requests

/-- In a process without a database a reader of all pages, whatever is logged between
its requests, sees the entry of every logging call from before its first one.  A page
shows entries of earlier calls only, the newest first, and the same number always shows
the same entry. -/
theorem audit_pages_complete {history : List (Entry State Action)} {s : State}
    (hrun : system.Run history s)
    (hmemory : ∀ entry ∈ history, WithoutDatabase entry.input)
    {limit : Nat} (hpos : 1 ≤ limit) (hle : limit ≤ 1000)
    {requests : List (Entry State Action)} (hmade : requests.reverse.Sublist history)
    (hasks : AsksInTurn limit requests) :
    (∀ first last, requests.head? = some first → requests.getLast? = some last →
        (answerOf last).length < limit →
          ∀ later earlier, history = later ++ first :: earlier →
            loggedBy earlier ⊆ requests.flatMap answerOf) ∧
      (∀ entry ∈ requests, ∀ later earlier, history = later ++ entry :: earlier →
        answerOf entry ⊆ loggedBy earlier) ∧
      (∀ entry ∈ requests, (answerOf entry).Pairwise fun log next => next.id < log.id) ∧
      ∀ log ∈ requests.flatMap answerOf, ∀ log' ∈ requests.flatMap answerOf,
        log.id = log'.id → log = log' := by
  have hnumbered := logNumbered_of_run hrun
  have hgrow : requests.Pairwise
      fun older newer => older.before.logs <+: newer.before.logs :=
    List.pairwise_reverse.mp ((logs_pairwise hrun).sublist hmade)
  have hbefore : ∀ entry later earlier, history = later ++ entry :: earlier →
      entry.before.logs.reverse = loggedBy earlier := by
    rintro entry later earlier rfl
    refine logs_eq_loggedBy hrun.of_split.1 fun entry hentry => hmemory entry ?_
    exact List.mem_append_right _ (List.mem_cons_of_mem _ hentry)
  have hlogged : ∀ entry ∈ requests, (answerOf entry).Sublist s.logs.reverse := by
    intro entry hentry
    have hmem := hmade.subset (List.mem_reverse.mpr hentry)
    exact (answer_sublist hpos hle hasks hentry).trans
      (List.reverse_sublist.mpr (logs_grow hrun entry hmem).sublist)
  refine ⟨?_, ?_, ?_, ?_⟩
  · intro first last hfirst hlast hshort later earlier hsplit log hlog
    rw [← hbefore first later earlier hsplit, List.mem_reverse] at hlog
    exact subset_of_requests hpos hle hasks hgrow hfirst hlast hshort hlog
  · intro entry hentry later earlier hsplit
    rw [← hbefore entry later earlier hsplit]
    exact (answer_sublist hpos hle hasks hentry).subset
  · intro entry hentry
    exact hnumbered.descending.sublist (hlogged entry hentry)
  · intro log hlog log' hlog' hid
    have hstored : ∀ log ∈ requests.flatMap answerOf, log ∈ s.logs := by
      intro log hlog
      obtain ⟨entry, hentry, hmem⟩ := List.mem_flatMap.mp hlog
      exact List.mem_reverse.mp ((hlogged entry hentry).subset hmem)
    exact List.inj_on_of_nodup_map hnumbered.nodup (hstored log hlog)
      (hstored log' hlog') hid

namespace AuditSample

def paused (timestamp : Int) : Action :=
  .logAdminAction ⟨"GADMIN".toList, "pause_contract".toList, none, none, timestamp⟩ none

def isRequest (entry : Entry State Action) : Bool :=
  match entry.input with
  | .auditLogs _ _ _ => true
  | _ => false

end AuditSample

open AuditSample in
/-- Three entries in pages of two; a fourth one comes between the requests, so one
entry is read twice. -/
theorem audit_pages_complete_of_three :
    ∃ history s, system.Run history s ∧ ∃ requests : List (Entry State Action),
      requests.reverse.Sublist history ∧ requests.length = 3 ∧
        (requests.flatMap answerOf).map (fun log => log.id) = [3, 2, 2, 1] ∧
        ∃ earlier, (loggedBy earlier).length = 3 ∧
          loggedBy earlier ⊆ requests.flatMap answerOf := by
  have horder : system.InOrder 0 [paused 1, paused 2, paused 3,
      .auditLogs (some 2) (some 0) none, paused 4, .auditLogs (some 2) (some 2) none,
      .auditLogs (some 2) (some 4) none] = true := by
    decide
  have hrun : system.Run _ _ := ⟨_, rfl, System.Path.stay.replay horder⟩
  generalize hplayed : system.replay [] ⟨[], 1⟩ [paused 1, paused 2, paused 3,
    .auditLogs (some 2) (some 0) none, paused 4, .auditLogs (some 2) (some 2) none,
    .auditLogs (some 2) (some 4) none] = played at hrun
  have hmade : (played.1.filter isRequest).reverse.reverse.Sublist played.1 := by
    rw [List.reverse_reverse]
    exact List.filter_sublist
  have hasks : AsksInTurn 2 (played.1.filter isRequest).reverse := by
    subst hplayed
    rintro (_ | _ | _ | i) entry hentry
    · cases hentry
      rfl
    · cases hentry
      rfl
    · cases hentry
      rfl
    · cases hentry
  have hmemory : ∀ entry ∈ played.1, WithoutDatabase entry.input := by
    subst hplayed
    intro entry hentry
    simp only [System.replay, List.mem_cons, List.not_mem_nil, or_false] at hentry
    rcases hentry with rfl | rfl | rfl | rfl | rfl | rfl | rfl <;> rfl
  have hcomplete := (audit_pages_complete hrun hmemory (by decide) (by decide) hmade
    hasks).1
  refine ⟨_, _, hrun, _, hmade, ?_, ?_, ?_⟩
  · subst hplayed
    decide
  · subst hplayed
    decide
  · subst hplayed
    exact ⟨_, by decide, hcomplete _ _ rfl rfl (by decide) [_, _, _] [_, _, _] rfl⟩

end Properties
end Paystream
