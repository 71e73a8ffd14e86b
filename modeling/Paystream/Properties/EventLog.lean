import Paystream.Library.EventSource
import Paystream.Properties.Isolation
import Paystream.Semantics.Announcements
import Paystream.Semantics.EventLog

/-!
# The event log tells the truth

Off-chain readers of the contract see its events and nothing else.
`publicLog` is what such a reader makes of them, stream by stream: the two
parties, the rate, the delegate, the proposed employer, and whether the stream is
paused.  `log_tells` says that in every state of every run this is what is
stored, and that every event ever published named the parties, the rate and the
status as they were (`Truthful`).

The amounts are compared with the token transfers: what the events report under a
stream as topped up, paid to the employee, charged as a fee or refunded is what
was transferred for it (`reported_eq_moved`).
-/

namespace Paystream
namespace Properties

open Library
open Contract
open Contract.Storage
open Contract.StreamContract
open Semantics

/-! ## What a reader knows -/

/-- What a reader of the event log knows of a stream. -/
structure PublicView where
  employer : Address
  employee : Address
  ratePerSecond : Int
  delegate : Option Address
  pendingEmployer : Option Address
  paused : Bool
  deriving DecidableEq

/-- What there is to know. -/
def StreamFile.view (file : StreamFile) : PublicView where
  employer := file.record.employer
  employee := file.record.employee
  ratePerSecond := file.record.ratePerSecond
  delegate := file.record.delegate
  pendingEmployer := file.pendingEmployer
  paused := decide (file.record.status = .paused)

def publicView (w : World) (id : Nat) : Option PublicView :=
  (fileOf w id).map StreamFile.view

/-- The view after an event about the stream. -/
def PublicView.after (view : PublicView) : Event → PublicView
  | .streamTransferred _ _ newEmployee => { view with employee := newEmployee }
  | .streamCancelled _ _ _ _ _ => { view with paused := false }
  | .streamPaused _ _ _ _ => { view with paused := true }
  | .streamResumed _ _ _ _ => { view with paused := false }
  | .employerTransferProposed _ _ newEmployer =>
      { view with pendingEmployer := some newEmployer }
  | .employerTransferAccepted _ _ newEmployer =>
      { view with employer := newEmployer, pendingEmployer := none }
  | .rateChanged _ _ newRate => { view with ratePerSecond := newRate }
  | .delegateSet _ delegate => { view with delegate := delegate }
  | _ => view

/-- The event names the parties, the rate and the status as the view has them. -/
def Truthful (view : PublicView) : Event → Prop
  | .streamCreated _ _ _ _ _ => False
  | .streamTransferred _ previousEmployee _ => view.employee = previousEmployee
  | .withdrawn _ employee _ => view.employee = employee ∧ view.paused = false
  | .protocolFeeCollected _ _ _ => view.paused = false
  | .streamCancelled _ employer employee _ _ =>
      view.employer = employer ∧ view.employee = employee
  | .streamPaused _ employer employee _ =>
      view.employer = employer ∧ view.employee = employee ∧ view.paused = false
  | .streamResumed _ employer employee _ =>
      view.employer = employer ∧ view.employee = employee ∧ view.paused = true
  | .toppedUp _ employer _ => view.employer = employer
  | .employerTransferProposed _ oldEmployer _ => view.employer = oldEmployer
  | .employerTransferAccepted _ oldEmployer newEmployer =>
      view.employer = oldEmployer ∧ view.pendingEmployer = some newEmployer
  | .nearExhaustion _ employer _ =>
      view.employer = employer ∧ view.paused = false
  | .rateChanged _ oldRate _ => view.ratePerSecond = oldRate
  | _ => True

/-- What the events say about each stream.  A creation must be the first event of
its stream, and every other one true of it. -/
def publicLog : EventSource Nat PublicView Event where
  apply id event view :=
    match event with
    | .streamCreated other employer employee rate _ =>
        if other = id then some ⟨employer, employee, rate, none, none, false⟩
        else view
    | event =>
        if Event.subject event = some id then
          view.map fun view => view.after event
        else
          view
  fits views event :=
    match event with
    | .streamCreated id _ _ _ _ => views id = none
    | event => ∀ id, Event.subject event = some id →
        ∃ view, views id = some view ∧ Truthful view event

/-! ## One event -/

section OneEvent

variable {views next : Nat → Option PublicView} {events : List Event}

/-- An event that concerns no stream. -/
theorem tells_quiet (h : publicLog.Tells events views) {later : List Event}
    (hlater : ∀ event ∈ later, Event.subject event = none) :
    publicLog.Tells (later ++ events) views := by
  apply h.publish_silent
  intro event hevent
  have hsubject := hlater event hevent
  cases event with
  | streamCreated id employer employee rate feeBps => cases hsubject
  | _ =>
      refine ⟨?_, ?_⟩
      · intro id hid
        rw [hsubject] at hid
        cases hid
      · intro id
        simp only [publicLog, hsubject, reduceCtorEq, if_false]

/-- An event about stream `id` that is no creation: the other streams stay as they
are. -/
theorem tells_about (h : publicLog.Tells events views) {id : Nat} {event : Event}
    {view : PublicView} (hcreated : createdStream? event = none)
    (hsubject : Event.subject event = some id) (hview : views id = some view)
    (htrue : Truthful view event)
    (hnext : next = Function.update views id (some (view.after event))) :
    publicLog.Tells (event :: events) next := by
  refine h.publish ?_ ?_
  · cases event with
    | streamCreated other employer employee rate feeBps => cases hcreated
    | _ =>
        intro other hother
        rw [hsubject] at hother
        cases hother
        exact ⟨view, hview, htrue⟩
  · intro other
    subst hnext
    have happly : publicLog.apply other event (views other) =
        if Event.subject event = some other then
          (views other).map fun view => view.after event
        else views other := by
      cases event with
      | streamCreated other employer employee rate feeBps => cases hcreated
      | _ => rfl
    rw [happly, hsubject]
    by_cases hid : other = id
    · subst hid
      rw [if_pos rfl, hview, Option.map_some, Function.update_self]
    · rw [if_neg (by simpa using Ne.symm hid), Function.update_of_ne hid]

/-- A true event that tells nothing new. -/
theorem tells_known (h : publicLog.Tells events views) {id : Nat} {event : Event}
    {view : PublicView} (hcreated : createdStream? event = none)
    (hsubject : Event.subject event = some id) (hview : views id = some view)
    (htrue : Truthful view event) (hafter : view.after event = view) :
    publicLog.Tells (event :: events) views := by
  refine tells_about h hcreated hsubject hview htrue ?_
  rw [hafter, ← hview, Function.update_eq_self]

/-- The events of a paying withdrawal: the fee, the payment and the warning. -/
theorem tells_withdrawal (h : publicLog.Tells events views) {id : Nat}
    {view : PublicView} (hview : views id = some view)
    (hrunning : view.paused = false) (fee net : Int) (recipient : Option Address)
    {warning : List Event} (hwarning : ∀ event ∈ warning, ∃ days,
      event = .nearExhaustion id view.employer days) :
    publicLog.Tells (warning ++ .withdrawn id view.employee net ::
      (feeEvents id fee recipient ++ events)) views := by
  have hfee : publicLog.Tells (feeEvents id fee recipient ++ events) views := by
    unfold feeEvents
    split
    · split
      · exact tells_known h rfl rfl hview hrunning rfl
      · exact h
    · exact h
  have hpaid : publicLog.Tells (.withdrawn id view.employee net ::
      (feeEvents id fee recipient ++ events)) views :=
    tells_known hfee rfl rfl hview ⟨rfl, hrunning⟩ rfl
  induction warning with
  | nil => exact hpaid
  | cons event warning ih =>
      obtain ⟨⟨days, rfl⟩, hrest⟩ := List.forall_mem_cons.mp hwarning
      exact tells_known (ih hrest) rfl rfl hview ⟨rfl, hrunning⟩ rfl

/-- The creation of stream `id`. -/
theorem tells_created (h : publicLog.Tells events views) {id : Nat}
    {employer employee : Address} {rate : Int} {feeBps : Nat}
    (hnone : views id = none)
    (hnext : next = Function.update views id
      (some ⟨employer, employee, rate, none, none, false⟩)) :
    publicLog.Tells (.streamCreated id employer employee rate feeBps :: events)
      next := by
  refine h.publish hnone ?_
  intro other
  subst hnext
  by_cases hid : id = other
  · subst hid
    rw [Function.update_self]
    exact if_pos rfl
  · rw [Function.update_of_ne (Ne.symm hid)]
    exact if_neg hid

end OneEvent

/-! ## One call -/

/-- Only creations open files. -/
theorem fileOf_none_of_succeeds {host : Host} {history : History} {w w' : World}
    {inv : Invocation} {value : Value} {id : Nat} (hrun : Reaches host history w)
    (h : Succeeds host w inv value w') (hcall : ∀ call, inv.call ≠ .create call)
    (hnone : fileOf w id = none) : fileOf w' id = none := by
  have hstream : w.streams id = none := Option.map_eq_none_iff.mp hnone
  refine Option.map_eq_none_iff.mpr ?_
  cases streamChange_of_succeeds hrun h id with
  | same hsame _ => exact hsame.trans hstream
  | born _ _ hcreate =>
      obtain ⟨create, hcreate⟩ := hcreate
      exact absurd hcreate (hcall create)
  | updated _ _ _ _ _ hs =>
      rw [hstream] at hs
      cases hs

/-- The views after a call on a stream. -/
theorem publicView_onStream {host : Host} {history : History} {w w' : World}
    {inv : Invocation} {value : Value} {id : Nat} {call : StreamCall}
    {file : StreamFile} (hrun : Reaches host history w)
    (h : Succeeds host w inv value w') (hcall : inv.call = .onStream id call)
    (hfile : fileOf w id = some file) :
    publicView w' = Function.update (publicView w) id
      (some (file.after id inv.now call).view) := by
  funext other
  by_cases hid : other = id
  · subst hid
    rw [Function.update_self]
    unfold publicView
    rw [fileOf_of_onStream hrun h hcall hfile]
    rfl
  · rw [Function.update_of_ne hid]
    have hother : ∀ call, inv.call ≠ .onStream other call := by
      intro _ heq
      rw [hcall] at heq
      cases heq
      exact hid rfl
    unfold publicView
    cases hfound : fileOf w other with
    | none => rw [fileOf_none_of_succeeds hrun h (by simp [hcall]) hfound]
    | some file => rw [fileOf_of_other hrun h hother hfound]

/-- The views after a call that concerns no stream. -/
theorem publicView_quiet {host : Host} {history : History} {w w' : World}
    {inv : Invocation} {value : Value} (hrun : Reaches host history w)
    (h : Succeeds host w inv value w') (hcreate : ∀ call, inv.call ≠ .create call)
    (hstream : ∀ id call, inv.call ≠ .onStream id call) (id : Nat) :
    publicView w' id = publicView w id := by
  unfold publicView
  cases hfound : fileOf w id with
  | none => rw [fileOf_none_of_succeeds hrun h hcreate hfound]
  | some file => rw [fileOf_of_other hrun h (hstream id) hfound]

/-- Looking at a stream changes nothing a reader knows. -/
theorem view_after_look (id now : Nat) (file : StreamFile) :
    (file.after id now .getStream).view = file.view := by
  by_cases hstreamed : StreamedByStop now file.record
  · have hactive := hstreamed.1
    simp [StreamFile.after, StreamFile.view, recordAfter, operationOf, hstreamed,
      pendingAfter, StreamOp.next, hactive]
  · simp [StreamFile.after, StreamFile.view, recordAfter, operationOf, hstreamed,
      pendingAfter]

/-- Nor does a withdrawal from an active stream, or one that pays nothing. -/
theorem view_after_withdraw (id now : Nat) (file : StreamFile)
    (employee : Address)
    (h : file.record.status = .active ∨ claimableOf file.record now = 0) :
    (file.after id now (.withdraw employee)).view = file.view := by
  by_cases hzero : claimableOf file.record now = 0
  · simp [StreamFile.after, StreamFile.view, recordAfter, operationOf, hzero,
      pendingAfter]
  · have hactive := h.resolve_right hzero
    simp only [StreamFile.after, StreamFile.view, recordAfter, operationOf, hzero,
      if_false, pendingAfter, StreamOp.next, hactive]
    split <;> rfl

/-- The views of a stream whose record and proposed employer are known. -/
theorem publicView_of_fileOf {w : World} {id : Nat} {file : StreamFile}
    (h : fileOf w id = some file) : publicView w id = some file.view := by
  unfold publicView
  rw [h]
  rfl

theorem tells_onStream {host : Host} {history : History} {w w' : World}
    {inv : Invocation} {value : Value} {id : Nat} {call : StreamCall}
    (hrun : Reaches host history w) (h : Succeeds host w inv value w')
    (hcall : inv.call = .onStream id call)
    (htells : publicLog.Tells w.events (publicView w)) :
    publicLog.Tells w'.events (publicView w') := by
  have hexec := h
  unfold Succeeds at hexec
  rw [hcall] at hexec
  obtain ⟨s, events, log, hs, hemits, hlogged⟩ := (execOnStream_spec hexec).emits
  have hfile : fileOf w id = some ⟨s, w.pendingEmployer id, w.pauseHistory id⟩ := by
    unfold fileOf
    rw [hs]
    rfl
  have hview := publicView_of_fileOf hfile
  have hid : s.id = id := (keyed_of_reaches hrun id s hs).1
  have hnext := publicView_onStream hrun h hcall hfile
  -- an event that is not about the file changes no view
  have hsame : ∀ {view : PublicView}, publicView w id = some view →
      Function.update (publicView w) id (some view) = publicView w := by
    intro view hview
    rw [← hview, Function.update_eq_self]
  rw [hlogged.events]
  cases hemits with
  | looked =>
      rw [view_after_look, hsame hview] at hnext
      exact htells.of_eq (congrFun hnext)
  | withdrewNothing hzero =>
      rw [view_after_withdraw _ _ _ _ (Or.inr (claimableOf_eq hzero)),
        hsame hview] at hnext
      exact htells.of_eq (congrFun hnext)
  | withdrew gross fee warning hactive hwarning =>
      rw [view_after_withdraw _ _ _ _ (Or.inl hactive), hsame hview] at hnext
      rw [hnext]
      rw [hid] at hwarning
      have hrunning : decide (s.status = .paused) = false := by
        rw [hactive]
        rfl
      rw [List.append_assoc, List.cons_append]
      exact tells_withdrawal htells hview hrunning fee _ _ hwarning
  | employeeChanged newEmployee =>
      exact tells_about htells rfl rfl hview rfl hnext
  | toppedUp caller amount =>
      exact tells_about htells rfl rfl hview rfl hnext
  | paused caller hactive =>
      refine tells_about htells rfl rfl hview ⟨rfl, rfl, ?_⟩ hnext
      simp [StreamFile.view, hactive]
  | resumed caller hpaused =>
      refine tells_about htells rfl rfl hview ⟨rfl, rfl, ?_⟩ hnext
      simp [StreamFile.view, hpaused]
  | settled call owed howed hsettles hlive =>
      refine tells_about htells rfl rfl hview ⟨rfl, rfl⟩ ?_
      rcases hsettles with rfl | rfl
      · exact hnext
      · exact hnext
  | delegateSet delegate =>
      exact tells_about htells rfl rfl hview trivial hnext
  | employerProposed newEmployer =>
      exact tells_about htells rfl rfl hview rfl hnext
  | employerChanged newEmployer hpending =>
      exact tells_about htells rfl rfl hview ⟨rfl, hpending⟩ hnext
  | rateChanged newRate =>
      exact tells_about htells rfl rfl hview rfl hnext

/-! ## A whole run -/

/-- The log tells what is stored.  The other two fields carry the proof through
the creations of one call. -/
structure Reported (w : World) : Prop where
  keyed : Keyed w
  unborn : ∀ id, w.streams id = none → w.pendingEmployer id = none
  tells : publicLog.Tells w.events (publicView w)

theorem Reported.of_views {w w' : World} (h : Reported w)
    (hstreams : w'.streams = w.streams) (hcount : w'.streamCount = w.streamCount)
    (hpending : w'.pendingEmployer = w.pendingEmployer)
    (hevents : w'.events = w.events) : Reported w' where
  keyed := by
    intro id s hs
    rw [hstreams] at hs
    rw [hcount]
    exact h.keyed id s hs
  unborn := by
    intro id hnone
    rw [hstreams] at hnone
    rw [hpending]
    exact h.unborn id hnone
  tells := by
    rw [hevents]
    refine h.tells.of_eq ?_
    intro id
    unfold publicView fileOf
    rw [hstreams, Option.map_map, Option.map_map]
    congr 1
    funext s
    simp only [Function.comp_apply, StreamFile.view, hpending]

theorem Reported.publishesOne {ctx : Context} {employer : Address}
    {setup : BatchSetup} {cooldownPeriod : Nat} {p : StreamParams} {w w' : World}
    (h : Reported w)
    (hone : PublishesOne ctx employer setup cooldownPeriod p w w') :
    Reported w' := by
  have hnone : w.streams (w.streamCount + 1) = none :=
    h.keyed.not_stored (by omega)
  obtain ⟨reported, log, hlogged, _⟩ := hone.logged
  refine ⟨?_, ?_, ?_⟩
  · intro id s hs
    rw [hone.streams] at hs
    rw [hone.streamCount]
    by_cases hid : id = w.streamCount + 1
    · subst hid
      rw [Function.update_self] at hs
      cases hs
      exact ⟨rfl, by omega, le_rfl⟩
    · rw [Function.update_of_ne hid] at hs
      have := h.keyed id s hs
      omega
  · intro id hid
    rw [hone.streams] at hid
    rw [hone.pendingEmployer]
    refine h.unborn id ?_
    by_cases hnew : id = w.streamCount + 1
    · subst hnew
      exact hnone
    · rwa [Function.update_of_ne hnew] at hid
  · rw [hlogged.events]
    refine tells_created h.tells (by unfold publicView fileOf; rw [hnone]; rfl) ?_
    funext id
    unfold publicView fileOf
    rw [hone.streams, hone.pendingEmployer, hone.pauseHistory]
    by_cases hid : id = w.streamCount + 1
    · subst hid
      rw [Function.update_self, Function.update_self]
      simp only [Option.map_some, StreamFile.view, h.unborn _ hnone]
      rfl
    · rw [Function.update_of_ne hid, Function.update_of_ne hid]

theorem tells_of_reaches {host : Host} {history : History} {w : World}
    (hrun : Reaches host history w) :
    publicLog.Tells w.events (publicView w) := by
  refine Reaches.invariant
    (P := fun _ w => publicLog.Tells w.events (publicView w)) ?_ ?_ ?_ hrun
  · intro balances _
    exact .start
  · intro history w inv value w' hrun _ hw hsucceeds
    by_cases hcreate : ∃ call, inv.call = .create call
    · obtain ⟨call, hcall⟩ := hcreate
      have hreported : Reported w :=
        ⟨keyed_of_reaches hrun,
          fun id hnone => ((fileReplayed_of_reaches hrun id).unborn hnone).2.1, hw⟩
      unfold Succeeds at hsucceeds
      rw [hcall] at hsucceeds
      have hkept : Reported w' := by
        refine execCreate_keeps ?_ ?_ ?_ hreported hsucceeds
        · intro w rateState hw
          exact hw.of_views rfl rfl rfl rfl
        · intro w employer ids hw
          exact hw.of_views rfl rfl rfl rfl
        · intro employer setup cooldownPeriod p w w' id hw hone
          exact hw.publishesOne (createShared_publishes hone)
      exact hkept.tells
    · have hnot : ∀ call, inv.call ≠ .create call := not_exists.mp hcreate
      by_cases hstream : ∃ id call, inv.call = .onStream id call
      · obtain ⟨id, call, hcall⟩ := hstream
        exact tells_onStream hrun hsucceeds hcall hw
      · push Not at hstream
        obtain ⟨events, log, hquiet, hlogged⟩ :=
          quiet_of_succeeds hsucceeds hnot hstream
        rw [hlogged.events]
        exact (tells_quiet hw hquiet.1).of_eq
          (publicView_quiet hrun hsucceeds hnot hstream)
  · intro history w inv _ _ hw _
    exact hw

/-- In every state of every run the event log alone gives the parties, the rate,
the delegate, the proposed employer and the pause of every stream; and each event
was true when it was published: it opens a stream not announced before, or it names
the parties, the rate and the status that the events before it tell. -/
theorem log_tells {host : Host} {history : History} {w : World}
    (hrun : Reaches host history w) :
    (∀ id, publicLog.viewAt id w.events = publicView w id) ∧
      ∀ later event earlier, w.events = later ++ event :: earlier →
        publicLog.fits (fun id => publicLog.viewAt id earlier) event := by
  have htells := tells_of_reaches hrun
  refine ⟨htells.views, ?_⟩
  intro later event earlier hsplit
  exact htells.fits_of_split hsplit

/-- The employer hands the stream over, the new one pauses it. -/
theorem log_tells_of_handover :
    ∃ history w, Reaches Sample.host history w ∧ w.events.length = 5 ∧
      publicLog.viewAt 1 w.events = some
        ⟨Sample.treasury, Sample.employee, 10, some Sample.admin, none, true⟩ := by
  have hrun := Sample.play_reaches [Sample.openStream 10 1000 10 0,
    Sample.manage 20 (.setDelegate Sample.employer (some Sample.admin)),
    Sample.manage 30 (.proposeEmployerTransfer Sample.employer Sample.treasury),
    Sample.invoke 40 Sample.treasury
      (.onStream 1 (.acceptEmployerTransfer Sample.treasury)),
    Sample.invoke 50 Sample.treasury
      (.onStream 1 (.pauseStream Sample.treasury))] (by decide)
  refine ⟨_, _, hrun, rfl, ?_⟩
  rw [(log_tells hrun).1 1]
  rfl

/-! ## Amounts -/

/-- What an event reports to have been paid for a purpose. -/
def reportedAs (purpose : Purpose) : Event → Int
  | .toppedUp id _ amount => if purpose = .topUp id then amount else 0
  | .withdrawn id _ amount => if purpose = .salary id then amount else 0
  | .protocolFeeCollected id feeAmount _ =>
      if purpose = .withdrawalFee id then feeAmount else 0
  | .streamCancelled id _ _ refund employeePayout =>
      if purpose = .salary id then employeePayout
      else if purpose = .refund id then refund
      else 0
  | _ => 0

def reportedFor (purpose : Purpose) (events : List Event) : Int :=
  (events.map (reportedAs purpose)).sum

/-- What was transferred for a purpose. -/
def movedFor (purpose : Purpose) (log : List TokenTransfer) : Int :=
  (log.map fun transfer =>
    if transfer.purpose = purpose then transfer.amount else 0).sum

/-- The purposes under a stream that an event reports; the two payments of a
creation are not among them. -/
def Purpose.reportable : Purpose → Bool
  | .topUp _ => true
  | .salary _ => true
  | .withdrawalFee _ => true
  | .refund _ => true
  | _ => false

theorem reported_append (purpose : Purpose) (later earlier : List Event) :
    reportedFor purpose (later ++ earlier) =
      reportedFor purpose later + reportedFor purpose earlier := by
  simp [reportedFor]

theorem moved_append (purpose : Purpose) (later earlier : List TokenTransfer) :
    movedFor purpose (later ++ earlier) =
      movedFor purpose later + movedFor purpose earlier := by
  simp [movedFor]

@[simp] theorem reported_nil (purpose : Purpose) : reportedFor purpose [] = 0 := rfl

@[simp] theorem movedFor_nil (purpose : Purpose) : movedFor purpose [] = 0 := rfl

@[simp] theorem reported_cons (purpose : Purpose) (event : Event)
    (events : List Event) : reportedFor purpose (event :: events) =
      reportedAs purpose event + reportedFor purpose events := by
  simp [reportedFor]

@[simp] theorem moved_cons (purpose : Purpose) (transfer : TokenTransfer)
    (log : List TokenTransfer) : movedFor purpose (transfer :: log) =
      (if transfer.purpose = purpose then transfer.amount else 0) +
        movedFor purpose log := by
  simp [movedFor]

theorem reported_eq_zero {purpose : Purpose} {events : List Event}
    (h : ∀ event ∈ events, reportedAs purpose event = 0) :
    reportedFor purpose events = 0 := by
  apply List.sum_eq_zero
  intro amount hamount
  obtain ⟨event, hevent, rfl⟩ := List.mem_map.mp hamount
  exact h event hevent

theorem moved_eq_zero {purpose : Purpose} {log : List TokenTransfer}
    (h : ∀ transfer ∈ log, transfer.purpose ≠ purpose) :
    movedFor purpose log = 0 := by
  apply List.sum_eq_zero
  intro amount hamount
  obtain ⟨transfer, htransfer, rfl⟩ := List.mem_map.mp hamount
  exact if_neg (h transfer htransfer)

theorem refundOf_nonneg (s : Stream) : 0 ≤ refundOf s :=
  le_max_right _ _

/-- A call on a stream reports what it pays. -/
theorem reported_of_emits {self : Address} {now : Nat} {w : World} {s : Stream}
    {call : StreamCall} {events : List Event} {log : List TokenTransfer}
    (h : OnStreamEmits self now w s.id s call events log) {purpose : Purpose}
    (hpurpose : Purpose.reportable purpose = true) :
    reportedFor purpose events = movedFor purpose log := by
  cases h with
  | withdrew gross fee warning hactive hwarning =>
      -- a warning reports no amount
      have hsilent : reportedFor purpose warning = 0 := by
        apply reported_eq_zero
        intro event hevent
        obtain ⟨days, rfl⟩ := hwarning event hevent
        rfl
      have hfee : reportedFor purpose (feeEvents s.id fee w.feeRecipient) =
          movedFor purpose (feeTransfers self s fee w.feeRecipient) := by
        unfold feeEvents feeTransfers
        cases w.feeRecipient with
        | none => rfl
        | some recipient =>
            simp only
            split
            · simp only [reported_cons, moved_cons, reportedAs, eq_comm]
              rfl
            · rfl
      rw [reported_append, hsilent, reported_cons, hfee, withdrawalTransfers,
        moved_cons]
      simp only [reportedAs, shareTransfer, eq_comm, zero_add]
  | settled call owed howed hcall hlive =>
      have hrefund := refundOf_nonneg { s with withdrawn := s.withdrawn + owed }
      simp only [reported_cons, reported_nil, reportedAs, settlementTransfers,
        moved_append]
      -- a share of zero is not transferred, and adds nothing to the report
      generalize refundOf { s with withdrawn := s.withdrawn + owed } = refund
        at hrefund
      by_cases hsalary : purpose = .salary s.id
      · subst hsalary
        by_cases hpos : 0 < owed
        · by_cases hback : 0 < refund <;> simp [hpos, hback]
        · have hzero : owed = 0 := by omega
          by_cases hback : 0 < refund <;> simp [hzero, hback]
      · by_cases hback : purpose = .refund s.id
        · subst hback
          by_cases hpos : 0 < refund
          · by_cases howe : 0 < owed <;> simp [hpos, howe]
          · have hzero : refund = 0 := by omega
            by_cases howe : 0 < owed <;> simp [hzero, howe]
        · by_cases hpos : 0 < owed <;> by_cases hpay : 0 < refund <;>
            simp [hsalary, hback, hpos, hpay, Ne.symm hsalary, Ne.symm hback]
  | toppedUp caller amount =>
      simp only [reported_cons, moved_cons, reportedAs, eq_comm, reported_nil,
        movedFor_nil]
  | _ =>
      simp only [reported_cons, reported_nil, reportedAs, movedFor_nil, add_zero]

theorem reportable_streamId {purpose : Purpose}
    (h : Purpose.reportable purpose = true) : purpose.streamId ≠ none := by
  cases purpose <;> simp_all [Purpose.reportable, Purpose.streamId]

/-- Calls that concern no stream report and pay nothing under one. -/
theorem reported_of_quiet {events : List Event} {log : List TokenTransfer}
    (h : Quiet events log) {purpose : Purpose}
    (hpurpose : Purpose.reportable purpose = true) :
    reportedFor purpose events = movedFor purpose log := by
  have hevents : reportedFor purpose events = 0 := by
    apply reported_eq_zero
    intro event hevent
    have hsubject := h.1 event hevent
    cases event <;> first | rfl | cases hsubject
  have hlog : movedFor purpose log = 0 := by
    apply moved_eq_zero
    rintro transfer htransfer rfl
    exact reportable_streamId hpurpose (h.2 transfer htransfer)
  rw [hevents, hlog]

theorem reportedFor_of_reaches {host : Host} {history : History} {w : World}
    (hrun : Reaches host history w) {purpose : Purpose}
    (hpurpose : Purpose.reportable purpose = true) :
    reportedFor purpose w.events = movedFor purpose w.transfers := by
  refine Reaches.invariant
    (P := fun _ w => reportedFor purpose w.events = movedFor purpose w.transfers)
    ?_ ?_ ?_ hrun
  · intro balances _
    rfl
  · intro history w inv value w' hrun _ hw hsucceeds
    by_cases hcreate : ∃ call, inv.call = .create call
    · obtain ⟨call, hcall⟩ := hcreate
      unfold Succeeds at hsucceeds
      rw [hcall] at hsucceeds
      refine execCreate_keeps
        (P := fun w => reportedFor purpose w.events = movedFor purpose w.transfers)
        ?_ ?_ ?_ hw hsucceeds
      · intro w rateState hw
        exact hw
      · intro w employer ids hw
        exact hw
      · intro employer setup cooldownPeriod p w w' id hw hone
        obtain ⟨_, log, hlogged, hpurposes⟩ := (createShared_publishes hone).logged
        -- the payments of a creation are for other purposes
        have hnone : movedFor purpose log = 0 := by
          apply moved_eq_zero
          rintro transfer htransfer rfl
          rcases hpurposes transfer htransfer with heq | heq
          · rw [heq] at hpurpose
            cases hpurpose
          · rw [heq] at hpurpose
            cases hpurpose
        rw [hlogged.events, hlogged.transfers, moved_append, hnone, zero_add, ← hw]
        simp only [List.singleton_append, reported_cons, reportedAs, zero_add]
    · have hnot : ∀ call, inv.call ≠ .create call := not_exists.mp hcreate
      by_cases hstream : ∃ id call, inv.call = .onStream id call
      · obtain ⟨id, call, hcall⟩ := hstream
        unfold Succeeds at hsucceeds
        rw [hcall] at hsucceeds
        obtain ⟨s, events, log, hs, hemits, hlogged⟩ :=
          (execOnStream_spec hsucceeds).emits
        obtain rfl : s.id = id := (keyed_of_reaches hrun id s hs).1
        rw [hlogged.events, hlogged.transfers, reported_append, moved_append, hw,
          reported_of_emits hemits hpurpose]
      · push Not at hstream
        obtain ⟨events, log, hquiet, hlogged⟩ :=
          quiet_of_succeeds hsucceeds hnot hstream
        rw [hlogged.events, hlogged.transfers, reported_append, moved_append, hw,
          reported_of_quiet hquiet hpurpose]
  · intro history w inv _ _ hw _
    exact hw

/-- In every state of every run the amounts that the events under a stream report
as topped up, paid to the employee, charged as a fee or refunded are the amounts
transferred for it. -/
theorem reported_eq_moved {host : Host} {history : History} {w : World}
    (hrun : Reaches host history w) {purpose : Purpose}
    (hpurpose : Purpose.reportable purpose = true) :
    reportedFor purpose w.events = movedFor purpose w.transfers :=
  reportedFor_of_reaches hrun hpurpose

/-- Five hundred paid out, then two hundred more and the rest refunded. -/
theorem reported_eq_moved_of_cancelled :
    ∃ history w, Reaches Sample.host history w ∧
      reportedFor (.salary 1) w.events = 700 ∧ movedFor (.salary 1) w.transfers = 700 := by
  have hrun := Sample.play_reaches [Sample.openStream 10 1000 10 0,
    Sample.invoke 60 Sample.employee (.onStream 1 (.withdraw Sample.employee)),
    Sample.manage 80 (.cancelStream Sample.employer)] (by decide)
  have hsame := @reported_eq_moved Sample.host _ _ hrun (.salary 1) rfl
  exact ⟨_, _, hrun, by decide, hsame.symm.trans (by decide)⟩

end Properties
end Paystream
