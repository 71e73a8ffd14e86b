import Paystream.Properties.ReadOnly
import Paystream.Semantics.Records

/-!
# Streams do not disturb each other

Everything the contract keeps about one stream is its record, its proposed
employer and its pause history.  `StreamFile.after` says what a call on the stream
leaves of them: the call, the ledger time and the file alone decide.

A run of the whole contract then replays, on this file, the calls of its history
that named the stream and returned (`fileOf_of_createdAs`).  Two runs that agree
on these calls and on the record the stream was created with agree on the file
(`same_file_of_same_calls`), whatever else happens in them: other streams, other
tokens and balances, other fees and administrators.
-/

namespace Paystream
namespace Properties

open Library
open Contract
open Contract.Storage
open Contract.StreamContract
open Semantics

/-! ## The file of a stream -/

/-- What the contract keeps about one stream. -/
structure StreamFile where
  record : Stream
  pendingEmployer : Option Address
  pauses : List PauseEvent
  deriving DecidableEq

/-- The file of stream `id`, if there is such a stream. -/
def fileOf (w : World) (id : Nat) : Option StreamFile :=
  (w.streams id).map fun s => ⟨s, w.pendingEmployer id, w.pauseHistory id⟩

/-- A stream nothing has happened to. -/
def StreamFile.opened (s : Stream) : StreamFile := ⟨s, none, []⟩

instance (now : Nat) (s : Stream) : Decidable (StreamedByStop now s) := by
  unfold StreamedByStop
  exact inferInstance

/-- The claimable amount, nothing where the code panics. -/
def claimableOf (s : Stream) (now : Nat) : Int :=
  match claimableAmount s now with
  | .ok amount => amount
  | .error _ => 0

/-- The operation that a call which returns applies to the record it finds. -/
def operationOf (now : Nat) (s : Stream) : StreamCall → Option StreamOp
  | .withdraw _ =>
      if claimableOf s now = 0 then none
      else some (.withdraw (claimableOf s now))
  | .transferStream _ newEmployee => some (.changeEmployee newEmployee)
  | .topUp _ amount => some (.topUp amount)
  | .pauseStream _ => some .pause
  | .resumeStream _ => some .resume
  | .cancelStream _ => some (.cancel (claimableOf s now))
  | .setDelegate _ delegate => some (.changeDelegate delegate)
  | .proposeEmployerTransfer _ _ => none
  | .acceptEmployerTransfer newEmployer => some (.changeEmployer newEmployer)
  | .updateRate _ newRate => some (.updateRate newRate (claimableOf s now))
  | .getStream => if StreamedByStop now s then some .markExhausted else none
  | .reclaimExpired _ => some (.reclaim (claimableOf s now))

/-- The record such a call leaves. -/
def recordAfter (now : Nat) (s : Stream) (call : StreamCall) : Stream :=
  match operationOf now s call with
  | some op => op.next now s
  | none => s

def pendingAfter (pending : Option Address) : StreamCall → Option Address
  | .proposeEmployerTransfer _ newEmployer => some newEmployer
  | .acceptEmployerTransfer _ => none
  | _ => pending

def pausesAfter (id now : Nat) (pauses : List PauseEvent) :
    StreamCall → List PauseEvent
  | .pauseStream _ => pauses ++ [⟨id, now, true⟩]
  | .resumeStream _ => pauses ++ [⟨id, now, false⟩]
  | _ => pauses

/-- The file a call on the stream leaves. -/
def StreamFile.after (id now : Nat) (file : StreamFile) (call : StreamCall) :
    StreamFile where
  record := recordAfter now file.record call
  pendingEmployer := pendingAfter file.pendingEmployer call
  pauses := pausesAfter id now file.pauses call

/-! ## One call -/

theorem claimableOf_eq {s : Stream} {now : Nat} {amount : Int}
    (h : claimableAmount s now = .ok amount) : claimableOf s now = amount := by
  unfold claimableOf
  rw [h]

theorem operationOf_issues {ctx : Context} {w : World} {id : Nat} {s : Stream}
    {call : StreamCall} {op : StreamOp} (hissues : Issues ctx w id s call op)
    (hguard : op.Guard ctx.now s) (hlook : call ≠ .getStream) :
    operationOf ctx.now s call = some op := by
  cases hissues with
  | withdraw gross _ =>
      obtain ⟨_, _, hpos, hgross⟩ := hguard
      simp only [operationOf, claimableOf_eq hgross, if_neg hpos]
  | cancel owed _ => simp only [operationOf, claimableOf_eq hguard.2]
  | reclaim owed _ => simp only [operationOf, claimableOf_eq hguard.2.2]
  | updateRate newRate accrued _ =>
      simp only [operationOf, claimableOf_eq hguard.2.2.2]
  | markExhausted => exact absurd rfl hlook
  | _ => rfl

/-- A call on a stream leaves the record that the call and the time decide. -/
theorem record_of_succeeds {host : Host} {history : History} {w w' : World}
    {inv : Invocation} {value : Value} {id : Nat} {call : StreamCall} {s : Stream}
    (hrun : Reaches host history w) (h : Succeeds host w inv value w')
    (hcall : inv.call = .onStream id call) (hs : w.streams id = some s) :
    w'.streams id = some (recordAfter inv.now s call) := by
  obtain rfl : s.id = id := (keyed_of_reaches hrun id s hs).1
  -- three calls may return without an operation on the record
  by_cases hidle : StreamCall.mayIdle call = true
  · cases call with
    | withdraw employee =>
        obtain ⟨found, hfound, _, _, hcases⟩ := withdraw_of_succeeds h hcall
        obtain rfl : found = s := Option.some.inj (hfound.symm.trans hs)
        rcases hcases with ⟨hzero, rfl, _⟩ | ⟨gross, fee, _, _, hupdate⟩
        · have hnone : operationOf inv.now found (.withdraw employee) = none := by
            simp only [operationOf, claimableOf_eq hzero, if_true]
          rw [recordAfter, hnone]
          exact hs
        · obtain ⟨_, _, hpos, hgross⟩ := hupdate.guard
          have hop : operationOf inv.now found (.withdraw employee) =
              some (.withdraw gross) := by
            simp only [operationOf, claimableOf_eq hgross, if_neg hpos]
          rw [recordAfter, hop, hupdate.streams, Function.update_self]
    | getStream =>
        have hsound := soundAmounts_of_reaches hrun hs
        have hcliff := cliff_le_stop_of_reaches hrun hs
        have hstep := step_eq_of_succeeds h
        by_cases hstreamed : StreamedByStop inv.now s
        · have hlook := getStream_of_streamed hsound inv.now_le hs hcliff hstreamed
          rw [← hstep, step_of_getStream hcall hlook]
          simp only [recordAfter, operationOf, if_pos hstreamed]
          exact Function.update_self ..
        · have hlook := getStream_of_not_streamed hsound inv.now_le hs hcliff
            hstreamed
          rw [← hstep, step_of_getStream hcall hlook]
          simp only [recordAfter, operationOf, if_neg hstreamed]
          exact hs
    | proposeEmployerTransfer employer newEmployer =>
        cases streamChange_of_succeeds hrun h s.id with
        | same hstream _ => exact hstream.trans hs
        | born _ _ hcreate =>
            obtain ⟨create, hcreate⟩ := hcreate
            rw [hcall] at hcreate
            cases hcreate
        | updated found op _ streamCall hcall' _ hissues _ _ _ =>
            rw [hcall] at hcall'
            cases hcall'
            cases hissues
    | _ => cases hidle
  · rw [Bool.not_eq_true] at hidle
    obtain ⟨found, op, hfound, hissues, hguard, hstream⟩ :=
      updated_of_succeeds hrun h hcall hidle
    obtain rfl : found = s := Option.some.inj (hfound.symm.trans hs)
    have hlook : call ≠ .getStream := by
      rintro rfl
      cases hidle
    rw [hstream, recordAfter, operationOf_issues hissues hguard hlook]

/-- A call on a stream returns only where the stream is stored. -/
theorem stored_of_onStream {host : Host} {history : History} {w w' : World}
    {inv : Invocation} {value : Value} {id : Nat} {call : StreamCall}
    (hrun : Reaches host history w) (h : Succeeds host w inv value w')
    (hcall : inv.call = .onStream id call) : ∃ s, w.streams id = some s := by
  by_cases hidle : StreamCall.mayIdle call = true
  · cases call with
    | withdraw employee =>
        obtain ⟨s, hs, _⟩ := withdraw_of_succeeds h hcall
        exact ⟨s, hs⟩
    | getStream =>
        unfold Succeeds at h
        rw [hcall] at h
        simp only [exec, execOnStream, map_eq_ok_iff, getStream, bind_eq_ok_iff,
          loadStream_eq_ok_iff] at h
        obtain ⟨_, ⟨s, hs, _⟩, _⟩ := h
        exact ⟨s, hs⟩
    | proposeEmployerTransfer employer newEmployer =>
        unfold Succeeds at h
        rw [hcall] at h
        simp only [exec, execOnStream, unitResult_eq_ok_iff,
          proposeEmployerTransfer, bind_eq_ok_iff,
          requireEmployerById_eq_ok_iff] at h
        obtain ⟨⟨_, _, s, ⟨hs, _⟩, _⟩, _⟩ := h
        exact ⟨s, hs⟩
    | _ => cases hidle
  · rw [Bool.not_eq_true] at hidle
    obtain ⟨s, _, hs, _⟩ := updated_of_succeeds hrun h hcall hidle
    exact ⟨s, hs⟩

/-- A call on the stream leaves the file that the call and the time decide. -/
theorem fileOf_of_onStream {host : Host} {history : History} {w w' : World}
    {inv : Invocation} {value : Value} {id : Nat} {call : StreamCall}
    {file : StreamFile} (hrun : Reaches host history w)
    (h : Succeeds host w inv value w') (hcall : inv.call = .onStream id call)
    (hfile : fileOf w id = some file) :
    fileOf w' id = some (file.after id inv.now call) := by
  obtain ⟨s, hs, rfl⟩ := Option.map_eq_some_iff.mp hfile
  have hrecord := record_of_succeeds hrun h hcall hs
  have hrecords := records_of_succeeds h (by simp [hcall])
  rw [hcall] at hrecords
  have hpending := congrArg (fun r => r.pendingEmployer id) hrecords
  have hpauses := congrArg (fun r => r.pauseHistory id) hrecords
  change w'.pendingEmployer id = _ at hpending
  change w'.pauseHistory id = _ at hpauses
  unfold fileOf
  rw [hrecord, Option.map_some, hpending, hpauses]
  cases call <;> simp [StreamFile.after, pendingAfter, pausesAfter, recordsNext,
    records, addPauseEvent, setPendingEmployer, clearPendingEmployer]

/-- A call that does not name the stream leaves what is kept beside the record
alone. -/
theorem beside_of_other {host : Host} {w w' : World} {inv : Invocation}
    {value : Value} {id : Nat} (h : Succeeds host w inv value w')
    (hcall : ∀ call, inv.call ≠ .onStream id call) :
    w'.pendingEmployer id = w.pendingEmployer id ∧
      w'.pauseHistory id = w.pauseHistory id := by
  by_cases hcreate : ∃ create, inv.call = .create create
  · obtain ⟨create, hcreate⟩ := hcreate
    obtain ⟨news, hview⟩ := creation_of_succeeds h hcreate
    rw [hview.pendingEmployer, hview.pauseHistory]
    exact ⟨rfl, rfl⟩
  · have hrecords := records_of_succeeds h (not_exists.mp hcreate)
    have hpending := congrArg (fun r => r.pendingEmployer id) hrecords
    have hpauses := congrArg (fun r => r.pauseHistory id) hrecords
    change w'.pendingEmployer id = _ at hpending
    change w'.pauseHistory id = _ at hpauses
    rw [hpending, hpauses]
    cases hinv : inv.call with
    | onStream other call =>
        have hne : id ≠ other := by
          rintro rfl
          exact hcall call hinv
        cases call <;> simp [recordsNext, records, addPauseEvent,
          setPendingEmployer, clearPendingEmployer, Function.update_of_ne hne]
    | _ => exact ⟨rfl, rfl⟩

/-- Such a call leaves the file of a stored stream alone. -/
theorem fileOf_of_other {host : Host} {history : History} {w w' : World}
    {inv : Invocation} {value : Value} {id : Nat} {file : StreamFile}
    (hrun : Reaches host history w) (h : Succeeds host w inv value w')
    (hcall : ∀ call, inv.call ≠ .onStream id call)
    (hfile : fileOf w id = some file) : fileOf w' id = some file := by
  obtain ⟨s, hs, rfl⟩ := Option.map_eq_some_iff.mp hfile
  have hstream : w'.streams id = some s := by
    cases streamChange_of_succeeds hrun h id with
    | same hstream _ => exact hstream.trans hs
    | born _ _ _ hnone =>
        rw [hs] at hnone
        cases hnone
    | updated _ _ _ call hcall' => exact absurd hcall' (hcall call)
  have hbeside := beside_of_other h hcall
  unfold fileOf
  rw [hstream, Option.map_some, hbeside.1, hbeside.2]

/-! ## A whole run -/

/-- The calls of a history that named stream `id` and returned, newest first,
each with the ledger time it ran at. -/
def ownCalls (host : Host) (id : Nat) : History → List (Nat × StreamCall)
  | [] => []
  | entry :: earlier =>
      match entry.input.call with
      | .onStream other call =>
          if other = id ∧ returned host entry = true then
            (entry.input.now, call) :: ownCalls host id earlier
          else
            ownCalls host id earlier
      | _ => ownCalls host id earlier

/-- Stream `id` was created with this record by a call of the history. -/
def CreatedAs (id : Nat) (s : Stream) (history : History) : Prop :=
  ∃ entry ∈ history, entry.before.streams id = none ∧
    entry.after.streams id = some s

/-- The file of a stream created as `s` on which these calls returned. -/
def fileAfter (id : Nat) (s : Stream) (calls : List (Nat × StreamCall)) :
    StreamFile :=
  calls.foldr (fun call file => file.after id call.1 call.2) (.opened s)

theorem ownCalls_cons_of_other {host : Host} {id : Nat}
    {entry : Entry World Invocation} {earlier : History}
    (h : ∀ call, entry.input.call ≠ .onStream id call) :
    ownCalls host id (entry :: earlier) = ownCalls host id earlier := by
  cases hcall : entry.input.call with
  | onStream other call =>
      have hne : other ≠ id := by
        rintro rfl
        exact h call hcall
      simp only [ownCalls, hcall, hne, false_and, if_false]
  | _ => simp only [ownCalls, hcall]

theorem ownCalls_cons_of_onStream {host : Host} {id : Nat} {call : StreamCall}
    {entry : Entry World Invocation} {earlier : History}
    (h : entry.input.call = .onStream id call) :
    ownCalls host id (entry :: earlier) =
      if returned host entry = true then
        (entry.input.now, call) :: ownCalls host id earlier
      else
        ownCalls host id earlier := by
  simp only [ownCalls, h, true_and]

/-- The calls of a run that named a stream are replayed on its file; before the
stream is created there are none. -/
structure FileReplayed (host : Host) (id : Nat) (history : History) (w : World) :
    Prop where
  unborn : w.streams id = none → ownCalls host id history = [] ∧
    w.pendingEmployer id = none ∧ w.pauseHistory id = []
  created : ∀ s, CreatedAs id s history →
    fileOf w id = some (fileAfter id s (ownCalls host id history))

theorem FileReplayed.unborn_of_succeeds {host : Host} {id : Nat}
    {history : History} {w w' : World} {inv : Invocation} {value : Value}
    (hrun : Reaches host history w) (hw : FileReplayed host id history w)
    (h : Succeeds host w inv value w') (hnone : w.streams id = none) :
    ownCalls host id (⟨w, inv, w'⟩ :: history) = [] ∧
      w'.pendingEmployer id = none ∧ w'.pauseHistory id = [] := by
  have hother : ∀ call, inv.call ≠ .onStream id call := by
    intro call hcall
    obtain ⟨s, hs⟩ := stored_of_onStream hrun h hcall
    rw [hnone] at hs
    cases hs
  obtain ⟨hcalls, hpending, hpauses⟩ := hw.unborn hnone
  obtain ⟨hpendingSame, hpausesSame⟩ := beside_of_other h hother
  refine ⟨?_, hpendingSame.trans hpending, hpausesSame.trans hpauses⟩
  rw [ownCalls_cons_of_other hother, hcalls]

theorem fileReplayed_of_reaches {host : Host} {history : History} {w : World}
    (hrun : Reaches host history w) (id : Nat) :
    FileReplayed host id history w := by
  refine Reaches.invariant (P := FileReplayed host id) ?_ ?_ ?_ hrun
  · intro balances _
    refine ⟨fun _ => ⟨rfl, rfl, rfl⟩, ?_⟩
    rintro s ⟨entry, hentry, _⟩
    cases hentry
  · intro history w inv value w' hrun _ hw hsucceeds
    refine ⟨?_, ?_⟩
    · intro hnone'
      -- no call removes a stream
      have hnone : w.streams id = none := by
        by_contra hstored
        obtain ⟨s, hs⟩ := Option.ne_none_iff_exists'.mp hstored
        obtain ⟨s', hs'⟩ := (streamChange_of_succeeds hrun hsucceeds id).stored hs
        rw [hnone'] at hs'
        cases hs'
      exact hw.unborn_of_succeeds hrun hsucceeds hnone
    · intro s hcreated
      obtain ⟨entry, hentry, hnone, hborn⟩ := hcreated
      rcases List.mem_cons.mp hentry with rfl | hearlier
      · obtain ⟨hcalls, hpending, hpauses⟩ :=
          hw.unborn_of_succeeds hrun hsucceeds hnone
        change w'.streams id = some s at hborn
        rw [hcalls]
        unfold fileOf
        rw [hborn, hpending, hpauses]
        rfl
      · have hfile := hw.created s ⟨entry, hearlier, hnone, hborn⟩
        by_cases hother : ∀ call, inv.call ≠ .onStream id call
        · rw [ownCalls_cons_of_other hother]
          exact fileOf_of_other hrun hsucceeds hother hfile
        · push Not at hother
          obtain ⟨call, hcall⟩ := hother
          rw [ownCalls_cons_of_onStream hcall, if_pos hsucceeds.returned_eq]
          exact fileOf_of_onStream hrun hsucceeds hcall hfile
  · intro history w inv _ _ hw hfails
    have hcalls : ownCalls host id (⟨w, inv, w⟩ :: history) =
        ownCalls host id history := by
      by_cases hother : ∀ call, inv.call ≠ .onStream id call
      · exact ownCalls_cons_of_other hother
      · push Not at hother
        obtain ⟨call, hcall⟩ := hother
        rw [ownCalls_cons_of_onStream hcall, hfails.returned_eq]
        rfl
    refine ⟨?_, ?_⟩
    · intro hnone
      rw [hcalls]
      exact hw.unborn hnone
    · rintro s ⟨entry, hentry, hnone, hborn⟩
      rw [hcalls]
      rcases List.mem_cons.mp hentry with rfl | hearlier
      · change w.streams id = none at hnone
        change w.streams id = some s at hborn
        rw [hnone] at hborn
        cases hborn
      · exact hw.created s ⟨entry, hearlier, hnone, hborn⟩

/-- Two runs of the contract, on whatever tokens and with whatever other calls,
in which a stream was created with the same record and the same calls on it
returned at the same times, keep the same record of it, the same proposed
employer and the same pause history. -/
theorem same_file_of_same_calls {host host' : Host} {history history' : History}
    {w w' : World} {id : Nat} {s : Stream} (hrun : Reaches host history w)
    (hrun' : Reaches host' history' w') (hcreated : CreatedAs id s history)
    (hcreated' : CreatedAs id s history')
    (hcalls : ownCalls host id history = ownCalls host' id history') :
    fileOf w id = some (fileAfter id s (ownCalls host id history)) ∧
      fileOf w' id = fileOf w id := by
  have hfile := (fileReplayed_of_reaches hrun id).created s hcreated
  have hfile' := (fileReplayed_of_reaches hrun' id).created s hcreated'
  refine ⟨hfile, ?_⟩
  rw [hfile, hfile', hcalls]

/-- The stream of the quiet run, and of the busy one. -/
def sampleStream : Stream :=
  newStream 1 Sample.employer Sample.employee Sample.token 1000 10 10 110 0 0

/-- In one run nothing happens but the stream's own life.  In the other an
administrator moves in, a second stream is opened and cancelled, and a stranger is
turned away. -/
theorem same_file_of_quiet_and_busy :
    ∃ (quiet busy : History) (w w' : World),
      Reaches Sample.host quiet w ∧ Reaches Sample.host busy w' ∧
        quiet.length = 2 ∧ busy.length = 6 ∧ fileOf w' 1 = fileOf w 1 ∧
          fileOf w 1 = some ⟨{ sampleStream with pausedAt := 60, status := .paused },
            none, [⟨1, 60, true⟩]⟩ := by
  have hquiet := Sample.play_reaches [
    Sample.openStream 10 1000 10 110,
    Sample.manage 60 (.pauseStream Sample.employer)] (by decide)
  have hbusy := Sample.play_reaches [
    Sample.invoke 5 Sample.admin (.admin (.initializeContract Sample.admin)),
    Sample.openStream 10 1000 10 110,
    Sample.openStream 20 5000 10 0,
    Sample.invoke 30 Sample.treasury
      (.onStream 1 (.cancelStream Sample.treasury)),
    Sample.manage 60 (.pauseStream Sample.employer),
    Sample.invoke 70 Sample.employer
      (.onStream 2 (.cancelStream Sample.employer))] (by decide)
  obtain ⟨hfile, hsame⟩ := @same_file_of_same_calls _ _ _ _ _ _ 1
    sampleStream hquiet hbusy
    ⟨_, List.mem_cons_of_mem _ List.mem_cons_self, rfl, rfl⟩
    ⟨_, List.mem_cons_of_mem _ (List.mem_cons_of_mem _ (List.mem_cons_of_mem _
      (List.mem_cons_of_mem _ List.mem_cons_self))), rfl, rfl⟩ rfl
  exact ⟨_, _, _, _, hquiet, hbusy, rfl, rfl, hsame, hfile⟩

end Properties
end Paystream
