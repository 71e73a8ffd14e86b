import Paystream.Library.Slot
import Paystream.Properties.Isolation
import Paystream.Properties.AdminHandover

/-!
# Offers that stand

A new employer and a new administrator are proposed first and accept later.
`EmployerHandover` and `AdminHandover` say what an acceptance needs; here is the
other half.  An offer stands until it is accepted or replaced by another one, whatever
else happens in between: a pause of the contract, the end of the stream, a change of
the administrator.  So whether an acceptance returns can be read off the calls
that returned before (`acceptance_returns_iff`).
-/

namespace Paystream
namespace Properties

open Library
open Contract
open Contract.Storage
open Contract.StreamContract
open Semantics

/-! ## A new employer -/

/-- What an entry writes to the proposed employer of stream `id`, if it does. -/
def employerOffer (host : Host) (id : Nat) (entry : Entry World Invocation) :
    Option (Option Address) :=
  if returned host entry = true then
    match entry.input.call with
    | .onStream other (.proposeEmployerTransfer _ newEmployer) =>
        if other = id then some (some newEmployer) else none
    | .onStream other (.acceptEmployerTransfer _) =>
        if other = id then some none else none
    | _ => none
  else
    none

theorem employerOffer_of_fails {host : Host} {id : Nat} {w : World}
    {inv : Invocation} (h : Fails host w inv) :
    employerOffer host id ⟨w, inv, w⟩ = none := by
  unfold employerOffer
  rw [h.returned_eq]
  rfl

theorem employerOffer_of_other {host : Host} {id : Nat}
    {entry : Entry World Invocation}
    (h : ∀ call, entry.input.call ≠ .onStream id call) :
    employerOffer host id entry = none := by
  unfold employerOffer
  split
  · split
    · rename_i other _ _ hcall
      refine if_neg ?_
      rintro rfl
      exact h _ hcall
    · rename_i other _ hcall
      refine if_neg ?_
      rintro rfl
      exact h _ hcall
    · rfl
  · rfl

/-- A call on the stream that returned, as a write. -/
theorem employerOffer_of_onStream {host : Host} {id : Nat} {call : StreamCall}
    {entry : Entry World Invocation} (hreturned : returned host entry = true)
    (hcall : entry.input.call = .onStream id call) (pending : Option Address) :
    (employerOffer host id entry).getD pending = pendingAfter pending call := by
  unfold employerOffer
  rw [if_pos hreturned, hcall]
  cases call <;> simp [pendingAfter]

theorem pendingEmployer_of_reaches {host : Host} {history : History} {w : World}
    (hrun : Reaches host history w) (id : Nat) :
    w.pendingEmployer id = newestWrite (employerOffer host id) none history := by
  refine System.Run.slot_eq (fun w : World => w.pendingEmployer id) ?_ ?_ hrun
  · rintro w ⟨balances, _, rfl⟩
    rfl
  · intro history w inv hrun
    show (step host w inv).pendingEmployer id =
      (employerOffer host id ⟨w, inv, step host w inv⟩).getD _
    rcases step_cases host w inv with ⟨value, hsucceeds⟩ | ⟨hfails, hsame⟩
    · by_cases hother : ∀ call, inv.call ≠ .onStream id call
      · rw [employerOffer_of_other hother]
        exact (beside_of_other hsucceeds hother).1
      · push Not at hother
        obtain ⟨call, hcall⟩ := hother
        obtain ⟨s, hs⟩ := stored_of_onStream hrun hsucceeds hcall
        rw [employerOffer_of_onStream hsucceeds.returned_eq hcall]
        have hfile : fileOf w id =
            some ⟨s, w.pendingEmployer id, w.pauseHistory id⟩ := by
          unfold fileOf
          rw [hs]
          rfl
        obtain ⟨_, _, hafter⟩ := Option.map_eq_some_iff.mp
          (fileOf_of_onStream hrun hsucceeds hcall hfile)
        exact congrArg StreamFile.pendingEmployer hafter
    · rw [hsame, employerOffer_of_fails hfails]
      rfl

/-! ## A new administrator -/

/-- What an entry writes to the proposed administrator, if it does. -/
def adminOffer (host : Host) (entry : Entry World Invocation) :
    Option (Option Address) :=
  if returned host entry = true then
    match entry.input.call with
    | .admin (.proposeAdmin _ newAdmin) => some (some newAdmin)
    | .admin (.acceptAdmin _) => some none
    | _ => none
  else
    none

theorem adminOffer_of_fails {host : Host} {w : World} {inv : Invocation}
    (h : Fails host w inv) : adminOffer host ⟨w, inv, w⟩ = none := by
  unfold adminOffer
  rw [h.returned_eq]
  rfl

theorem pendingAdmin_of_succeeds {host : Host} {w w' : World} {inv : Invocation}
    {value : Value} (h : Succeeds host w inv value w') :
    w'.pendingAdmin = (adminOffer host ⟨w, inv, w'⟩).getD w.pendingAdmin := by
  unfold adminOffer
  rw [if_pos h.returned_eq]
  rcases (effect_of_succeeds h).settings_cases with
    ⟨call, hcall, _, rfl⟩ | ⟨call, hcall, hframe⟩ | hsettings
  · simp only [hcall]
    cases call with
    | addAllowedToken admin token =>
        simp only [adminNext, Storage.addAllowedToken]
        split <;> rfl
    | _ => rfl
  · simp only [hcall]
    exact hframe.pendingAdmin
  · cases hcall : inv.call with
    | admin call =>
        have hnext := ((unitResult_eq_ok_iff _ _ _).mp (show unitResult
          (execAdmin inv.toContext call w) = .ok (value, w') by
            unfold Succeeds at h
            rw [hcall] at h
            exact h)).1
        obtain ⟨_, rfl⟩ := (execAdmin_eq_ok_iff inv.toContext call w w').mp hnext
        cases call with
        | addAllowedToken admin token => exact congrArg Settings.pendingAdmin hsettings
        | _ => rfl
    | _ => exact congrArg Settings.pendingAdmin hsettings

theorem pendingAdmin_of_reaches {host : Host} {history : History} {w : World}
    (hrun : Reaches host history w) :
    w.pendingAdmin = newestWrite (adminOffer host) none history := by
  refine System.Run.slot_eq (fun w : World => w.pendingAdmin) ?_ ?_ hrun
  · rintro w ⟨balances, _, rfl⟩
    rfl
  · intro history w inv hrun
    show (step host w inv).pendingAdmin =
      (adminOffer host ⟨w, inv, step host w inv⟩).getD _
    rcases step_cases host w inv with ⟨value, hsucceeds⟩ | ⟨hfails, hsame⟩
    · exact pendingAdmin_of_succeeds hsucceeds
    · rw [hsame, adminOffer_of_fails hfails]
      rfl

/-! ## Acceptance -/

/-- The call returns in this world. -/
def Answers (host : Host) (w : World) (inv : Invocation) : Prop :=
  ∃ value w', Succeeds host w inv value w'

/-- One of the entries wrote the offer, and no later one wrote. -/
def Stands (offer : Entry World Invocation → Option (Option Address))
    (newParty : Address) (history : History) : Prop :=
  ∃ later entry earlier, history = later ++ entry :: earlier ∧
    offer entry = some (some newParty) ∧ ∀ newer ∈ later, offer newer = none

theorem stands_iff {offer : Entry World Invocation → Option (Option Address)}
    {newParty : Address} {history : History} :
    Stands offer newParty history ↔
      newestWrite offer none history = some newParty :=
  (newestWrite_eq_iff (by simp)).symm

theorem acceptEmployer_returns_iff {host : Host} {history : History} {w : World}
    {inv : Invocation} {id : Nat} {newEmployer : Address}
    (hrun : Reaches host history w)
    (hcall : inv.call = .onStream id (.acceptEmployerTransfer newEmployer)) :
    Answers host w inv ↔ newEmployer ∈ inv.auth ∧
      Stands (employerOffer host id) newEmployer history := by
  rw [stands_iff, ← pendingEmployer_of_reaches hrun id]
  unfold Answers Succeeds
  rw [hcall]
  simp only [exec, execOnStream, unitResult_eq_ok_iff, acceptEmployerTransfer,
    bind_eq_ok_iff, requireAuth_eq_ok_iff, requirePendingEmployer_eq_ok_iff,
    loadStream_eq_ok_iff, pure_eq_ok_iff]
  constructor
  · rintro ⟨_, _, ⟨_, hauth, _, hpending, _⟩, _⟩
    exact ⟨hauth, hpending⟩
  · rintro ⟨hauth, hpending⟩
    -- an offer is made on a stored stream, and no stream goes away
    have hstored : w.streams id ≠ none := by
      intro hnone
      have hnothing := ((fileReplayed_of_reaches hrun id).unborn hnone).2.1
      rw [hpending] at hnothing
      cases hnothing
    obtain ⟨s, hs⟩ := Option.ne_none_iff_exists'.mp hstored
    exact ⟨_, _, ⟨(), hauth, (), hpending, s, hs, rfl⟩, rfl⟩

theorem acceptAdmin_returns_iff {host : Host} {history : History} {w : World}
    {inv : Invocation} {newAdmin : Address} (hrun : Reaches host history w)
    (hcall : inv.call = .admin (.acceptAdmin newAdmin)) :
    Answers host w inv ↔
      newAdmin ∈ inv.auth ∧ Stands (adminOffer host) newAdmin history := by
  rw [stands_iff, ← pendingAdmin_of_reaches hrun]
  unfold Answers Succeeds
  rw [hcall]
  simp only [exec, unitResult_eq_ok_iff, execAdmin_eq_ok_iff]
  constructor
  · rintro ⟨_, _, ⟨⟨hauth, hpending⟩, _⟩, _⟩
    exact ⟨hauth, hpending⟩
  · rintro ⟨hauth, hpending⟩
    exact ⟨_, _, ⟨⟨hauth, hpending⟩, rfl⟩, rfl⟩

/-- In every state of every run, a signed acceptance returns exactly when the
newest call that returned and was a proposal or an acceptance of the same kind is a
proposal of the accepting party.  Nothing else that may have been called makes or
breaks the offer. -/
theorem acceptance_returns_iff {host : Host} {history : History} {w : World}
    (hrun : Reaches host history w) (inv : Invocation) (newParty : Address) :
    (∀ id, inv.call = .onStream id (.acceptEmployerTransfer newParty) →
      (Answers host w inv ↔ newParty ∈ inv.auth ∧
        Stands (employerOffer host id) newParty history)) ∧
      (inv.call = .admin (.acceptAdmin newParty) →
        (Answers host w inv ↔ newParty ∈ inv.auth ∧
          Stands (adminOffer host) newParty history)) :=
  ⟨fun _ => acceptEmployer_returns_iff hrun, acceptAdmin_returns_iff hrun⟩

/-- The offer outlives the stream: the employer proposes, cancels the stream, and
the contract is paused. -/
theorem acceptance_returns_after_cancel :
    ∃ history w, Reaches Sample.host history w ∧ w.config.paused = true ∧
      Answers Sample.host w (Sample.invoke 60 Sample.treasury
        (.onStream 1 (.acceptEmployerTransfer Sample.treasury))) := by
  have hrun := Sample.play_reaches [
    Sample.invoke 5 Sample.admin (.admin (.initializeContract Sample.admin)),
    Sample.openStream 10 1000 10 0,
    Sample.manage 20 (.proposeEmployerTransfer Sample.employer Sample.treasury),
    Sample.manage 30 (.cancelStream Sample.employer),
    Sample.invoke 40 Sample.admin (.admin (.emergencyPause Sample.admin))]
    (by decide)
  refine ⟨_, _, hrun, rfl, ?_⟩
  refine ((acceptance_returns_iff hrun _ Sample.treasury).1 1 rfl).mpr
    ⟨List.mem_cons_self, ?_⟩
  rw [stands_iff]
  rfl

end Properties
end Paystream
