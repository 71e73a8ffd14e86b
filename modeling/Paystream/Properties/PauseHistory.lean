import Paystream.Library.ToggleLog
import Paystream.Semantics.Records
import Paystream.Semantics.StreamView

/-!
# The pause history and the accrual clock

Four places remember pauses: the list `pause_history`, the fields `paused_at` and
`status`, and `last_withdraw_time`, which a resume moves forward by the time
paused.  Different entry points write them.  `pause_history_law` ties them
together: the history determines the other three.

The clock is read off as follows.  With `T` the time of the last operation that
started it anew (`lastReset`), it shows `T` plus the pauses completed since
(`closedAfter`).  No assumption on the token is made: the clock never depends on
an amount.
-/

namespace Paystream
namespace Properties

open Library
open Contract
open Contract.Storage
open Contract.StreamContract
open Semantics

/-! ## Reading a history -/

/-- The amount taken out of the stream grew in this entry. -/
def withdrawnGrew (id : Nat) (entry : Entry World Invocation) : Bool :=
  match entry.before.streams id, entry.after.streams id with
  | some s, some s' => decide (s.withdrawn < s'.withdrawn)
  | _, _ => false

/-- The entry is a `withdraw` that took a positive amount out of the stream, or
an `update_rate` of it. -/
def resetsClock (host : Host) (id : Nat) (entry : Entry World Invocation) :
    Bool :=
  match entry.input.call with
  | .onStream streamId (.withdraw _) =>
      decide (streamId = id) && withdrawnGrew id entry
  | .onStream streamId (.updateRate _ _) =>
      decide (streamId = id) && returned host entry
  | _ => false

/-- The ledger time of the last such entry, `start` if there was none. -/
def lastReset (host : Host) (id start : Nat) : History → Nat
  | [] => start
  | entry :: earlier =>
      if resetsClock host id entry then entry.input.now
      else lastReset host id start earlier

/-- The stream became terminal while it was paused. -/
def EndedPaused (id : Nat) (history : History) : Prop :=
  ∃ entry ∈ history, ∃ s s', entry.before.streams id = some s ∧
    s.status = .paused ∧ entry.after.streams id = some s' ∧
    isTerminal s'.status = true

/-- What the pause history of the stream `s`, stored under `id` at the end of
the run, says. -/
structure PauseHistoryLaw (host : Host) (history : History) (w : World)
    (id : Nat) (s : Stream) : Prop where
  /-- it starts with a pause, and pauses and resumes take turns -/
  alternates : Alternating PauseEvent.isPause true (w.pauseHistory id)
  ordered : ((w.pauseHistory id).map PauseEvent.timestamp).Pairwise (· ≤ ·)
  within : ∀ event ∈ w.pauseHistory id, s.startTime ≤ event.timestamp ∧
    event.timestamp ≤ ledgerTime host history
  ends : isOpen PauseEvent.isPause (w.pauseHistory id) = true ↔
    s.status = .paused ∨ EndedPaused id history
  pausedAt : s.status = .paused →
    (w.pauseHistory id).getLast?.map PauseEvent.timestamp = some s.pausedAt
  clock : s.lastWithdrawTime = lastReset host id s.startTime history +
    closedAfter PauseEvent.timestamp (lastReset host id s.startTime history)
      (w.pauseHistory id)

/-! ## One call, seen from the clock of a stream -/

/-- The pause events an operation records. -/
def pauseEvents (id now : Nat) : StreamOp → List PauseEvent
  | .pause => [⟨id, now, true⟩]
  | .resume => [⟨id, now, false⟩]
  | _ => []

/-- The operation starts the clock anew. -/
def startsClock : StreamOp → Bool
  | .withdraw _ => true
  | .updateRate _ _ => true
  | _ => false

/-- What a call that returned did to the stream, to its pause history and to the
time of the last reset. -/
inductive ClockChange (host : Host) (w w' : World) (inv : Invocation) (id : Nat) :
    Prop
  | same (hstream : w'.streams id = w.streams id)
      (hevents : w'.pauseHistory id = w.pauseHistory id)
      (hreset : resetsClock host id ⟨w, inv, w'⟩ = false)
  | born (s : Stream) (hnone : w.streams id = none)
      (hstream : w'.streams id = some s) (hfresh : FreshStream inv.now s)
      (hevents : w'.pauseHistory id = w.pauseHistory id)
      (hreset : resetsClock host id ⟨w, inv, w'⟩ = false)
  | updated (s : Stream) (op : StreamOp) (hs : w.streams id = some s)
      (hguard : op.Guard inv.now s)
      (hstream : w'.streams id = some (op.next inv.now s))
      (hevents : w'.pauseHistory id =
        w.pauseHistory id ++ pauseEvents id inv.now op)
      (hreset : resetsClock host id ⟨w, inv, w'⟩ = startsClock op)

/-- The calls that start no clock. -/
def Call.startsNoClock : Call → Bool
  | .onStream _ (.withdraw _) => false
  | .onStream _ (.updateRate _ _) => false
  | _ => true

theorem resetsClock_of_other {host : Host} {id : Nat}
    {entry : Entry World Invocation}
    (h : Call.startsNoClock entry.input.call = true) :
    resetsClock host id entry = false := by
  unfold resetsClock
  split
  · rename_i hcall
    rw [hcall] at h
    cases h
  · rename_i hcall
    rw [hcall] at h
    cases h
  · rfl

/-- A call on another stream. -/
theorem resetsClock_of_ne {host : Host} {id streamId : Nat} {call : StreamCall}
    {entry : Entry World Invocation}
    (hcall : entry.input.call = .onStream streamId call)
    (hne : streamId ≠ id) : resetsClock host id entry = false := by
  unfold resetsClock
  rw [hcall]
  cases call <;> simp [hne]

theorem withdrawnGrew_of_same {id : Nat} {entry : Entry World Invocation}
    (h : entry.after.streams id = entry.before.streams id) :
    withdrawnGrew id entry = false := by
  unfold withdrawnGrew
  rw [h]
  cases entry.before.streams id with
  | none => rfl
  | some s => simp

/-- The records of a call on a stream, seen from one history. -/
theorem pauseHistory_onStream (now : Nat) (w : World) (streamId id : Nat)
    (call : StreamCall) (hother : streamId ≠ id ∨ StreamCall.mayIdle call = true) :
    (recordsNext now w (.onStream streamId call)).pauseHistory id =
      w.pauseHistory id := by
  cases call with
  | pauseStream caller =>
      rcases hother with hne | hidle
      · exact Function.update_of_ne (Ne.symm hne) ..
      · cases hidle
  | resumeStream caller =>
      rcases hother with hne | hidle
      · exact Function.update_of_ne (Ne.symm hne) ..
      · cases hidle
  | _ => rfl

/-- The operation a call asks for tells what it records and whether it starts
the clock. -/
theorem clock_of_issues {host : Host} {inv : Invocation} {w w' : World} {id : Nat}
    {s : Stream} {call : StreamCall} {op : StreamOp} {value : Value}
    (hissues : Issues inv.toContext w id s call op)
    (hcall : inv.call = .onStream id call)
    (hsucceeds : Succeeds host w inv value w') (hs : w.streams id = some s)
    (hguard : op.Guard inv.now s)
    (hstream : w'.streams id = some (op.next inv.now s)) :
    (recordsNext inv.now w (.onStream id call)).pauseHistory id =
        w.pauseHistory id ++ pauseEvents id inv.now op ∧
      resetsClock host id ⟨w, inv, w'⟩ = startsClock op := by
  cases hissues with
  | withdraw gross _ =>
      refine ⟨(List.append_nil _).symm, ?_⟩
      obtain ⟨_, _, hne, hgross⟩ := hguard
      have hnonneg := claimableAmount_nonneg hgross
      have hgrew : withdrawnGrew id ⟨w, inv, w'⟩ = true := by
        simp only [withdrawnGrew, hs, hstream, StreamOp.next, decide_eq_true_eq]
        omega
      simp [resetsClock, hcall, hgrew, startsClock]
  | updateRate newRate accrued _ =>
      refine ⟨(List.append_nil _).symm, ?_⟩
      simp [resetsClock, hcall, hsucceeds.returned_eq, startsClock]
  | pause caller _ _ =>
      refine ⟨Function.update_self .., ?_⟩
      simp [resetsClock, hcall, startsClock]
  | resume caller _ _ =>
      refine ⟨Function.update_self .., ?_⟩
      simp [resetsClock, hcall, startsClock]
  | _ =>
      refine ⟨(List.append_nil _).symm, ?_⟩
      simp [resetsClock, hcall, startsClock]

/-- A call on a stream: another stream, nothing at all, or one operation. -/
theorem clockChange_of_onStream {host : Host} {w w' : World} {inv : Invocation}
    {value : Value} {streamId : Nat} {call : StreamCall} (hkeyed : Keyed w)
    (h : Succeeds host w inv value w') (hcall : inv.call = .onStream streamId call)
    (heffect : OnStreamEffect host inv.toContext w w' streamId call) (id : Nat) :
    ClockChange host w w' inv id := by
  have hrecords := records_of_succeeds h (by simp [hcall])
  have hevents : w'.pauseHistory =
      (recordsNext inv.now w (.onStream streamId call)).pauseHistory := by
    rw [← hcall]
    exact congrArg Records.pauseHistory hrecords
  rcases heffect with ⟨hidle, hbooks, _⟩ | ⟨s, op, log, hs, hissues, hupdate⟩
  · have hstream : w'.streams id = w.streams id :=
      congrFun (congrArg Books.streams hbooks) id
    refine .same hstream ?_ ?_
    · rw [hevents]
      exact pauseHistory_onStream inv.now w streamId id call (Or.inr hidle)
    · -- an idle `withdraw` took nothing out of the stream
      have hsame : withdrawnGrew id ⟨w, inv, w'⟩ = false :=
        withdrawnGrew_of_same hstream
      cases call with
      | withdraw employee => simp [resetsClock, hcall, hsame]
      | updateRate employer newRate => cases hidle
      | _ => simp [resetsClock, hcall]
  · obtain rfl : s.id = streamId := (hkeyed streamId s hs).1
    by_cases hid : s.id = id
    · subst hid
      have hstream : w'.streams s.id = some (op.next inv.now s) := by
        rw [hupdate.streams, Function.update_self]
      obtain ⟨happended, hreset⟩ :=
        clock_of_issues hissues hcall h hs hupdate.guard hstream
      refine .updated s op hs hupdate.guard hstream ?_ hreset
      rw [hevents]
      exact happended
    · refine .same ?_ ?_ (resetsClock_of_ne hcall hid)
      · rw [hupdate.streams, Function.update_of_ne (Ne.symm hid)]
      · rw [hevents]
        exact pauseHistory_onStream inv.now w s.id id call (Or.inl hid)

theorem clockChange_of_succeeds {host : Host} {history : History} {w w' : World}
    {inv : Invocation} {value : Value} (hrun : Reaches host history w)
    (h : Succeeds host w inv value w') (id : Nat) :
    ClockChange host w w' inv id := by
  have hkeyed := keyed_of_reaches hrun
  have heffect := effect_of_succeeds h
  cases hcall : inv.call with
  | create call =>
      obtain ⟨news, hview⟩ := creation_of_succeeds h hcall
      have hevents : w'.pauseHistory id = w.pauseHistory id := by
        rw [hview.pauseHistory]
      have hreset : resetsClock host id ⟨w, inv, w'⟩ = false :=
        resetsClock_of_other (by simp [hcall, Call.startsNoClock])
      cases heffect.streamChange hkeyed id with
      | same hstream _ => exact .same hstream hevents hreset
      | born s log _ hnone hstream _ hfresh _ _ _ =>
          exact .born s hnone hstream hfresh hevents hreset
      | updated _ _ _ _ hother =>
          rw [hcall] at hother
          cases hother
  | onStream streamId call =>
      rw [hcall] at heffect
      cases heffect with
      | onStream _ _ heffect =>
          exact clockChange_of_onStream hkeyed h hcall heffect id
  | _ =>
      -- no other call touches a stream or a pause history
      have hrecords := records_of_succeeds h (by simp [hcall])
      refine .same ?_ ?_ (resetsClock_of_other (by simp [hcall, Call.startsNoClock]))
      · cases heffect.streamChange hkeyed id with
        | same hstream _ => exact hstream
        | born _ _ hcreate =>
            obtain ⟨create, hcreate⟩ := hcreate
            rw [hcall] at hcreate
            cases hcreate
        | updated _ _ _ _ hother =>
            rw [hcall] at hother
            cases hother
      · have hevents := congrArg Records.pauseHistory hrecords
        rw [hcall] at hevents
        exact congrFun hevents id

/-! ## One operation -/

/-- The clock of a stream at ledger time `now`, with its pause events and the time
of its last reset; `ended` says that the stream became terminal while paused. -/
structure ClockState (reset now : Nat) (events : List PauseEvent) (ended : Prop)
    (s : Stream) : Prop where
  alternates : Alternating PauseEvent.isPause true events
  ordered : (events.map PauseEvent.timestamp).Pairwise (· ≤ ·)
  within : ∀ event ∈ events, s.startTime ≤ event.timestamp ∧
    event.timestamp ≤ now
  ends : isOpen PauseEvent.isPause events = true ↔ s.status = .paused ∨ ended
  ended_terminal : ended → isTerminal s.status = true
  pausedAt : s.status = .paused →
    events.getLast?.map PauseEvent.timestamp = some s.pausedAt
  clock : s.lastWithdrawTime =
    reset + closedAfter PauseEvent.timestamp reset events
  start_le : s.startTime ≤ reset
  reset_le : reset ≤ now
  last_le : s.lastWithdrawTime ≤ now
  paused_last : s.status = .paused →
    reset ≤ s.pausedAt ∧ s.lastWithdrawTime ≤ s.pausedAt ∧ s.pausedAt ≤ now

theorem ClockState.of_fresh {now : Nat} {s : Stream} (h : FreshStream now s) :
    ClockState s.startTime now [] False s where
  alternates := trivial
  ordered := List.Pairwise.nil
  within := by simp
  ends := by simp [isOpen, h.status]
  ended_terminal := False.elim
  pausedAt hpaused := by
    rw [h.status] at hpaused
    cases hpaused
  clock := by
    rw [h.lastWithdrawTime, h.startTime]
    rfl
  start_le := le_rfl
  reset_le := h.startTime.le
  last_le := h.lastWithdrawTime.le
  paused_last hpaused := by
    rw [h.status] at hpaused
    cases hpaused

theorem next_startTime (now : Nat) (s : Stream) (op : StreamOp) :
    (op.next now s).startTime = s.startTime := by
  cases op <;> rfl

section Operation

variable {reset now : Nat} {events : List PauseEvent} {ended : Prop} {s : Stream}

theorem ClockState.later (h : ClockState reset now events ended s) {now' : Nat}
    (hnow : now ≤ now') : ClockState reset now' events ended s :=
  { h with
    within := fun event hevent =>
      ⟨(h.within event hevent).1, (h.within event hevent).2.trans hnow⟩
    reset_le := h.reset_le.trans hnow
    last_le := h.last_le.trans hnow
    paused_last := fun hpaused =>
      ⟨(h.paused_last hpaused).1, (h.paused_last hpaused).2.1,
        (h.paused_last hpaused).2.2.trans hnow⟩ }

/-- An active stream has no open pause and did not end paused. -/
theorem ClockState.active_closed (h : ClockState reset now events ended s)
    (hactive : s.status = .active) :
    isOpen PauseEvent.isPause events = false ∧ ¬ ended := by
  have hnot : ¬ ended := by
    intro hended
    have hterminal := h.ended_terminal hended
    rw [hactive] at hterminal
    cases hterminal
  refine ⟨?_, hnot⟩
  rw [← Bool.not_eq_true, h.ends, hactive]
  simp [hnot]

/-- The fields the clock does not depend on may change. -/
theorem ClockState.frame (h : ClockState reset now events ended s) {s' : Stream}
    (hstart : s'.startTime = s.startTime) (hstatus : s'.status = s.status)
    (hlast : s'.lastWithdrawTime = s.lastWithdrawTime)
    (hpausedAt : s'.pausedAt = s.pausedAt) :
    ClockState reset now events ended s' where
  alternates := h.alternates
  ordered := h.ordered
  within := by rw [hstart]; exact h.within
  ends := by rw [hstatus]; exact h.ends
  ended_terminal := by rw [hstatus]; exact h.ended_terminal
  pausedAt := by rw [hstatus, hpausedAt]; exact h.pausedAt
  clock := by rw [hlast]; exact h.clock
  start_le := by rw [hstart]; exact h.start_le
  reset_le := h.reset_le
  last_le := by rw [hlast]; exact h.last_le
  paused_last := by rw [hstatus, hlast, hpausedAt]; exact h.paused_last

/-- A stream that has not ended did not end paused. -/
theorem ClockState.not_ended (h : ClockState reset now events ended s)
    (hlive : isTerminal s.status = false) : ¬ ended := by
  intro hended
  rw [h.ended_terminal hended] at hlive
  cases hlive

/-- The stream becomes terminal: a pause that is open stays so. -/
theorem ClockState.close (h : ClockState reset now events ended s) {s' : Stream}
    (hlive : isTerminal s.status = false) (hterminal : isTerminal s'.status = true)
    (hstart : s'.startTime = s.startTime)
    (hlast : s'.lastWithdrawTime = s.lastWithdrawTime) :
    ClockState reset now events (s.status = .paused) s' where
  alternates := h.alternates
  ordered := h.ordered
  within := by rw [hstart]; exact h.within
  ends := by
    have hnotPaused : s'.status ≠ .paused := by
      intro hpaused
      rw [hpaused] at hterminal
      cases hterminal
    rw [h.ends]
    simp [h.not_ended hlive, hnotPaused]
  ended_terminal _ := hterminal
  pausedAt hpaused := by
    rw [hpaused] at hterminal
    cases hterminal
  clock := by rw [hlast]; exact h.clock
  start_le := by rw [hstart]; exact h.start_le
  reset_le := h.reset_le
  last_le := by rw [hlast]; exact h.last_le
  paused_last hpaused := by
    rw [hpaused] at hterminal
    cases hterminal

/-- The clock of an active stream starts anew at `now`; the stream does not end
paused. -/
theorem ClockState.restart (h : ClockState reset now events ended s) {s' : Stream}
    (hactive : s.status = .active) (hnotPaused : s'.status ≠ .paused)
    (hstart : s'.startTime = s.startTime) (hlast : s'.lastWithdrawTime = now) :
    ClockState now now events False s' where
  alternates := h.alternates
  ordered := h.ordered
  within := by rw [hstart]; exact h.within
  ends := by
    rw [(h.active_closed hactive).1]
    simp [hnotPaused]
  ended_terminal := False.elim
  pausedAt hpaused := absurd hpaused hnotPaused
  clock := by
    -- every pause so far was completed by now
    rw [hlast, closedAfter_eq_zero (fun event hevent => (h.within event hevent).2),
      Nat.add_zero]
  start_le := by
    rw [hstart]
    exact h.start_le.trans h.reset_le
  reset_le := le_rfl
  last_le := hlast.le
  paused_last hpaused := absurd hpaused hnotPaused

theorem ordered_push (h : ClockState reset now events ended s) (event : PauseEvent)
    (hevent : event.timestamp = now) :
    ((events ++ [event]).map PauseEvent.timestamp).Pairwise (· ≤ ·) := by
  rw [List.map_append, List.pairwise_append]
  refine ⟨h.ordered, List.pairwise_singleton _ _, ?_⟩
  intro earlier hearlier later hlater
  obtain ⟨found, hfound, rfl⟩ := List.mem_map.mp hearlier
  simp only [List.map_cons, List.map_nil, List.mem_singleton] at hlater
  rw [hlater, hevent]
  exact (h.within found hfound).2

theorem within_push (h : ClockState reset now events ended s) (event : PauseEvent)
    (hevent : event.timestamp = now) : ∀ found ∈ events ++ [event],
      s.startTime ≤ found.timestamp ∧ found.timestamp ≤ now := by
  intro found hfound
  rcases List.mem_append.mp hfound with hold | hnew
  · exact h.within found hold
  · rw [List.mem_singleton.mp hnew, hevent]
    exact ⟨h.start_le.trans h.reset_le, le_rfl⟩

theorem ClockState.pause (h : ClockState reset now events ended s) (id : Nat)
    (hactive : s.status = .active) :
    ClockState reset now (events ++ [⟨id, now, true⟩]) False
      (StreamOp.next now s .pause) where
  alternates := h.alternates.push (by rw [(h.active_closed hactive).1]; rfl)
  ordered := ordered_push h _ rfl
  within := within_push h _ rfl
  ends := by simp [StreamOp.next]
  ended_terminal := False.elim
  pausedAt _ := by simp [StreamOp.next]
  clock := by
    rw [closedAfter_open h.alternates (h.active_closed hactive).1]
    exact h.clock
  start_le := h.start_le
  reset_le := h.reset_le
  last_le := h.last_le
  paused_last _ := ⟨h.reset_le, h.last_le, le_rfl⟩

theorem ClockState.resume (h : ClockState reset now events ended s) (id : Nat)
    (hmax : now ≤ u64Max) (hpaused : s.status = .paused) :
    ClockState reset now (events ++ [⟨id, now, false⟩]) False
      (StreamOp.next now s .resume) := by
  have hopen : isOpen PauseEvent.isPause events = true :=
    h.ends.mpr (Or.inl hpaused)
  obtain ⟨hreset, hlast, hle⟩ := h.paused_last hpaused
  obtain ⟨opening, hopening, htime⟩ :=
    Option.map_eq_some_iff.mp (h.pausedAt hpaused)
  -- the shift never saturates: it ends at `now` at the latest
  have hshift : saturatingAddU64 s.lastWithdrawTime (now - s.pausedAt) =
      s.lastWithdrawTime + (now - s.pausedAt) := by
    apply saturatingAddU64_of_le
    omega
  have hclosed : closedAfter PauseEvent.timestamp reset
      (events ++ [⟨id, now, false⟩]) =
        closedAfter PauseEvent.timestamp reset events +
          if reset < now then now - opening.timestamp else 0 :=
    closedAfter_close h.alternates hopen hopening reset ⟨id, now, false⟩
  have hlength : (if reset < now then now - s.pausedAt else 0) =
      now - s.pausedAt := by
    split
    · rfl
    · omega
  rw [htime] at hclosed
  exact
    { alternates := h.alternates.push (by rw [hopen]; rfl)
      ordered := ordered_push h _ rfl
      within := within_push h _ rfl
      ends := by simp [StreamOp.next]
      ended_terminal := False.elim
      pausedAt := by simp [StreamOp.next]
      clock := by
        show saturatingAddU64 s.lastWithdrawTime (now - s.pausedAt) = _
        rw [hshift, hclosed, hlength, h.clock, Nat.add_assoc]
      start_le := h.start_le
      reset_le := h.reset_le
      last_le := by
        show saturatingAddU64 s.lastWithdrawTime (now - s.pausedAt) ≤ now
        omega
      paused_last := by simp [StreamOp.next] }

theorem ClockState.of_iff (h : ClockState reset now events ended s) {ended' : Prop}
    (hiff : ended ↔ ended') : ClockState reset now events ended' s := by
  obtain rfl : ended = ended' := propext hiff
  exact h

/-- The clock after an operation that left it at `reset'`: the stream has ended
paused if it had, or was paused and ends now. -/
def ClockAfter (reset' now : Nat) (events : List PauseEvent) (ended : Prop)
    (s s' : Stream) : Prop :=
  ClockState reset' now events
    (ended ∨ (s.status = .paused ∧ isTerminal s'.status = true)) s'

/-- The operations that leave the status. -/
theorem ClockState.after_frame (h : ClockState reset now events ended s)
    {s' : Stream} (hstart : s'.startTime = s.startTime)
    (hstatus : s'.status = s.status)
    (hlast : s'.lastWithdrawTime = s.lastWithdrawTime)
    (hpausedAt : s'.pausedAt = s.pausedAt) :
    ClockAfter reset now (events ++ []) ended s s' := by
  rw [List.append_nil]
  refine (h.frame hstart hstatus hlast hpausedAt).of_iff (or_iff_left ?_).symm
  rintro ⟨hpaused, hterminal⟩
  rw [hstatus, hpaused] at hterminal
  cases hterminal

/-- The operations that end the stream. -/
theorem ClockState.after_close (h : ClockState reset now events ended s)
    {s' : Stream} (hbefore : isTerminal s.status = false)
    (hafter : isTerminal s'.status = true) (hstart : s'.startTime = s.startTime)
    (hlast : s'.lastWithdrawTime = s.lastWithdrawTime) :
    ClockAfter reset now (events ++ []) ended s s' := by
  rw [List.append_nil]
  refine (h.close hbefore hafter hstart hlast).of_iff ?_
  simp [h.not_ended hbefore, hafter]

/-- The operations that start the clock, all on an active stream. -/
theorem ClockState.after_restart (h : ClockState reset now events ended s)
    {s' : Stream} (hactive : s.status = .active) (hnotPaused : s'.status ≠ .paused)
    (hstart : s'.startTime = s.startTime) (hlast : s'.lastWithdrawTime = now) :
    ClockAfter now now (events ++ []) ended s s' := by
  rw [List.append_nil]
  refine (h.restart hactive hnotPaused hstart hlast).of_iff ?_
  simp [(h.active_closed hactive).2, hactive]

/-- Every operation keeps the clock: it starts anew, or goes on from the same
reset. -/
theorem ClockState.next (h : ClockState reset now events ended s) (id : Nat)
    (hmax : now ≤ u64Max) {op : StreamOp} (hguard : op.Guard now s) :
    ClockState (if startsClock op then now else reset) now
      (events ++ pauseEvents id now op)
      (ended ∨ (s.status = .paused ∧ isTerminal (op.next now s).status = true))
      (op.next now s) := by
  cases op with
  | withdraw gross =>
      obtain ⟨hactive, _, _, _⟩ := hguard
      refine h.after_restart hactive ?_ rfl rfl
      show (if s.deposit ≤ s.withdrawn + gross then StreamStatus.exhausted
        else s.status) ≠ .paused
      split
      · decide
      · rw [hactive]
        decide
  | topUp amount => exact h.after_frame rfl rfl rfl rfl
  | pause =>
      refine (h.pause id hguard).of_iff ?_
      have hactive : s.status = .active := hguard
      simp [(h.active_closed hactive).2, hactive]
  | resume =>
      have hpaused : s.status = .paused := hguard
      refine (h.resume id hmax hpaused).of_iff ?_
      have hnot := h.not_ended ((isTerminal_eq_false_iff _).mpr (Or.inr hpaused))
      simp [hnot, StreamOp.next, isTerminal]
  | cancel owed =>
      exact h.after_close ((isTerminal_eq_false_iff _).mpr hguard.1) rfl rfl rfl
  | reclaim owed =>
      exact h.after_close ((isTerminal_eq_false_iff _).mpr hguard.1) rfl rfl rfl
  | updateRate newRate accrued =>
      refine h.after_restart hguard.1 ?_ rfl rfl
      show s.status ≠ .paused
      rw [hguard.1]
      decide
  | markExhausted =>
      exact h.after_close ((isTerminal_eq_false_iff _).mpr (Or.inl hguard.1)) rfl rfl rfl
  | changeEmployee newEmployee => exact h.after_frame rfl rfl rfl rfl
  | changeDelegate delegate => exact h.after_frame rfl rfl rfl rfl
  | changeEmployer newEmployer => exact h.after_frame rfl rfl rfl rfl

end Operation

/-! ## Every run -/

/-- The clock of the stream under `id`, if there is one; without a stream there
are no pause events. -/
structure ClockFollowed (host : Host) (id : Nat) (history : History) (w : World) :
    Prop where
  unborn : w.streams id = none → w.pauseHistory id = []
  neverReset : w.streams id = none →
    ∀ start, lastReset host id start history = start
  neverEnded : w.streams id = none → ¬ EndedPaused id history
  state : ∀ s, w.streams id = some s →
    ClockState (lastReset host id s.startTime history) (ledgerTime host history)
      (w.pauseHistory id) (EndedPaused id history) s

theorem endedPaused_cons {id : Nat} {entry : Entry World Invocation}
    {history : History} :
    EndedPaused id (entry :: history) ↔ EndedPaused id history ∨
      ∃ s s', entry.before.streams id = some s ∧ s.status = .paused ∧
        entry.after.streams id = some s' ∧ isTerminal s'.status = true := by
  simp only [EndedPaused, List.exists_mem_cons_iff]
  exact or_comm

/-- An entry that leaves the stream as it was does not end it. -/
theorem endedPaused_cons_of_same {id : Nat} {entry : Entry World Invocation}
    {history : History}
    (hsame : entry.after.streams id = entry.before.streams id) :
    EndedPaused id (entry :: history) ↔ EndedPaused id history := by
  rw [endedPaused_cons]
  refine or_iff_left ?_
  rintro ⟨s, s', hs, hpaused, hs', hterminal⟩
  rw [hsame, hs] at hs'
  cases hs'
  rw [hpaused] at hterminal
  cases hterminal

theorem ClockFollowed.quiet {host : Host} {id : Nat} {history : History}
    {w w' : World} {inv : Invocation} (h : ClockFollowed host id history w)
    (htime : ledgerTime host history ≤ inv.now)
    (hstream : w'.streams id = w.streams id)
    (hevents : w'.pauseHistory id = w.pauseHistory id)
    (hreset : resetsClock host id ⟨w, inv, w'⟩ = false) :
    ClockFollowed host id (⟨w, inv, w'⟩ :: history) w' := by
  have hended : EndedPaused id (⟨w, inv, w'⟩ :: history) ↔
      EndedPaused id history := endedPaused_cons_of_same hstream
  refine ⟨?_, ?_, ?_, ?_⟩
  · intro hnone
    rw [hevents]
    exact h.unborn (hstream ▸ hnone)
  · intro hnone start
    simp only [lastReset, hreset, Bool.false_eq_true, if_false]
    exact h.neverReset (hstream ▸ hnone) start
  · intro hnone
    rw [hended]
    exact h.neverEnded (hstream ▸ hnone)
  · intro s hs
    rw [hstream] at hs
    have hstate := ((h.state s hs).later htime).of_iff hended.symm
    rw [hevents]
    simp only [lastReset, hreset, Bool.false_eq_true, if_false]
    exact hstate

/-- A stream starts with a clock that runs from its start, and no pause. -/
theorem ClockFollowed.born {host : Host} {id : Nat} {history : History}
    {w w' : World} {inv : Invocation} (h : ClockFollowed host id history w)
    {s : Stream} (hnone : w.streams id = none) (hstream : w'.streams id = some s)
    (hfresh : FreshStream inv.now s)
    (hevents : w'.pauseHistory id = w.pauseHistory id)
    (hreset : resetsClock host id ⟨w, inv, w'⟩ = false) :
    ClockFollowed host id (⟨w, inv, w'⟩ :: history) w' := by
  have hnever : ¬ EndedPaused id (⟨w, inv, w'⟩ :: history) := by
    rw [endedPaused_cons]
    rintro (hearlier | ⟨old, _, hold, _⟩)
    · exact h.neverEnded hnone hearlier
    · rw [show w.streams id = some old from hold] at hnone
      cases hnone
  have hborn : w'.streams id ≠ none := by
    rw [hstream]
    simp
  refine ⟨fun hnone' => absurd hnone' hborn, fun hnone' => absurd hnone' hborn,
    fun _ => hnever, ?_⟩
  intro found hfound
  rw [hstream] at hfound
  cases hfound
  have hstart : lastReset host id s.startTime (⟨w, inv, w'⟩ :: history) =
      s.startTime := by
    simp only [lastReset, hreset, Bool.false_eq_true, if_false]
    exact h.neverReset hnone s.startTime
  rw [hstart, hevents, h.unborn hnone]
  exact (ClockState.of_fresh hfresh).of_iff (iff_of_false not_false hnever)

/-- An operation on the stream takes its clock along. -/
theorem ClockFollowed.updated {host : Host} {id : Nat} {history : History}
    {w w' : World} {inv : Invocation} (h : ClockFollowed host id history w)
    (htime : ledgerTime host history ≤ inv.now) {s : Stream} {op : StreamOp}
    (hs : w.streams id = some s) (hguard : op.Guard inv.now s)
    (hstream : w'.streams id = some (op.next inv.now s))
    (hevents : w'.pauseHistory id = w.pauseHistory id ++ pauseEvents id inv.now op)
    (hreset : resetsClock host id ⟨w, inv, w'⟩ = startsClock op) :
    ClockFollowed host id (⟨w, inv, w'⟩ :: history) w' := by
  have hborn : w'.streams id ≠ none := by
    rw [hstream]
    simp
  refine ⟨fun hnone => absurd hnone hborn, fun hnone => absurd hnone hborn,
    fun hnone => absurd hnone hborn, ?_⟩
  intro found hfound
  rw [hstream] at hfound
  cases hfound
  have hnext := ((h.state s hs).later htime).next id inv.now_le hguard
  rw [hevents, next_startTime]
  simp only [lastReset, hreset]
  refine hnext.of_iff ?_
  rw [endedPaused_cons]
  simp only [hs, hstream, Option.some.injEq]
  constructor
  · rintro (hearlier | ⟨hpaused, hterminal⟩)
    · exact Or.inl hearlier
    · exact Or.inr ⟨s, _, rfl, hpaused, rfl, hterminal⟩
  · rintro (hearlier | ⟨_, _, rfl, hpaused, rfl, hterminal⟩)
    · exact Or.inl hearlier
    · exact Or.inr ⟨hpaused, hterminal⟩

theorem clockFollowed_of_reaches {host : Host} {history : History} {w : World}
    (hrun : Reaches host history w) (id : Nat) :
    ClockFollowed host id history w := by
  refine Reaches.invariant (P := ClockFollowed host id) ?_ ?_ ?_ hrun
  · intro balances _
    refine ⟨fun _ => rfl, fun _ _ => rfl, ?_, ?_⟩
    · rintro _ ⟨entry, hentry, _⟩
      cases hentry
    · intro s hs
      cases hs
  · intro history w inv value w' hrun htime h hsucceeds
    cases clockChange_of_succeeds hrun hsucceeds id with
    | same hstream hevents hreset => exact h.quiet htime hstream hevents hreset
    | born s hnone hstream hfresh hevents hreset =>
        exact h.born hnone hstream hfresh hevents hreset
    | updated s op hs hguard hstream hevents hreset =>
        exact h.updated htime hs hguard hstream hevents hreset
  · intro history w inv _ htime h hfails
    refine h.quiet htime rfl rfl ?_
    unfold resetsClock
    split
    · rw [withdrawnGrew_of_same rfl, Bool.and_false]
    · rw [hfails.returned_eq, Bool.and_false]
    · rfl

/-- In every run and for every stream, the pause history starts with a pause and
alternates, its times run from the start of the stream to the present in order,
it ends in a pause exactly when the stream is paused or ended so, and it
determines `paused_at` and the accrual clock. -/
theorem pause_history_law {host : Host} {history : History} {w : World}
    (hrun : Reaches host history w) {id : Nat} {s : Stream}
    (hs : w.streams id = some s) : PauseHistoryLaw host history w id s := by
  have hstate := (clockFollowed_of_reaches hrun id).state s hs
  exact ⟨hstate.alternates, hstate.ordered, hstate.within, hstate.ends,
    hstate.pausedAt, hstate.clock⟩

/-- A withdrawal, two pauses of ten and five seconds after it, and a third one
in which the stream is cancelled. -/
theorem pause_history_law_of_three_pauses :
    ∃ history w s, Reaches Sample.host history w ∧ w.streams 1 = some s ∧
      s.status = .cancelled ∧ s.lastWithdrawTime = 65 ∧
      lastReset Sample.host 1 s.startTime history = 50 ∧
      (w.pauseHistory 1).map PauseEvent.timestamp = [60, 70, 70, 75, 80] ∧
      PauseHistoryLaw Sample.host history w 1 s := by
  have hrun := Sample.play_reaches [
    Sample.openStream 10 1000 1 0,
    Sample.invoke 50 Sample.employee (.onStream 1 (.withdraw Sample.employee)),
    Sample.manage 60 (.pauseStream Sample.employer),
    Sample.manage 70 (.resumeStream Sample.employer),
    Sample.manage 70 (.pauseStream Sample.employer),
    Sample.manage 75 (.resumeStream Sample.employer),
    Sample.manage 80 (.pauseStream Sample.employer),
    Sample.manage 90 (.cancelStream Sample.employer)] (by decide)
  exact ⟨_, _, _, hrun, rfl, by decide, by decide, by decide, by decide,
    pause_history_law hrun rfl⟩

end Properties
end Paystream
