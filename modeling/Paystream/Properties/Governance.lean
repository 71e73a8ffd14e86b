import Paystream.Semantics.Governance

/-!
# The governance protocol over whole runs

Anybody may propose, vote, tally and execute, each in a transaction of its own
and in any order.  `proposal_protocol` follows one proposal through a run: its
counters hold one vote for each address that voted, the status moves along two
edges only, the counts are frozen once it has passed, and it is applied at most
once, after passing and after the timelock.

The vote marks are what ties the counters to the history: an address is marked
exactly when one of its votes returned (`Followed.marks`).
-/

namespace Paystream
namespace Properties

open Library
open Contract
open Contract.StreamContract
open Semantics

/-! ## Reading a history -/

/-- The address whose vote on the proposal returned in this entry. -/
def voterIn (host : Host) (id : Nat) (entry : Entry World Invocation) :
    Option Address :=
  match entry.input.call with
  | .governance (.vote voter proposalId _) =>
      if proposalId = id ∧ returned host entry = true then some voter else none
  | _ => none

/-- The addresses that voted on the proposal, the latest first. -/
def votersOn (host : Host) (id : Nat) (history : History) : List Address :=
  history.filterMap (voterIn host id)

/-- `apply_proposal` ran for the proposal in this entry: `execute_proposal`, the
one place that calls it, returned. -/
def appliedIn (host : Host) (id : Nat) (entry : Entry World Invocation) : Bool :=
  returned host entry &&
    decide (entry.input.call = .governance (.executeProposal id))

/-- The proposal was created in this entry, `Active`. -/
def CreatedIn (id : Nat) (entry : Entry World Invocation) : Prop :=
  entry.before.proposals id = none ∧
    ∃ p, entry.after.proposals id = some p ∧ p.status = .active

/-- The proposal became `Passed` in this entry. -/
def PassedIn (id : Nat) (entry : Entry World Invocation) : Prop :=
  ∃ p p', entry.before.proposals id = some p ∧
    entry.after.proposals id = some p' ∧ p.status ≠ .passed ∧ p'.status = .passed

/-- The moves of a status. -/
inductive StatusMove : ProposalStatus → ProposalStatus → Prop
  | stay (status : ProposalStatus) : StatusMove status status
  | pass : StatusMove .active .passed
  | reject : StatusMove .active .rejected
  | execute : StatusMove .passed .executed

/-- What the run says about the proposal `p` stored under `id` at its end. -/
structure ProposalProtocol (host : Host) (history : History) (id : Nat)
    (p : Proposal) : Prop where
  /-- the counters hold one vote for each address that voted -/
  counted : p.votesFor + p.votesAgainst =
    (votersOn host id history).toFinset.card
  once : (votersOn host id history).Nodup
  signed : ∀ entry ∈ history, ∀ voter, voterIn host id entry = some voter →
    voter ∈ entry.input.auth ∧
      ∃ q, entry.before.proposals id = some q ∧ q.status = .active
  moves : ∀ entry ∈ history, ∀ q, entry.before.proposals id = some q →
    ∃ q', entry.after.proposals id = some q' ∧ StatusMove q.status q'.status
  majority : ∀ entry ∈ history, PassedIn id entry →
    entry.input.call = .governance (.tally id) ∧
      ∃ q, entry.before.proposals id = some q ∧ q.votesAgainst < q.votesFor
  frozen : ∀ later entry earlier, history = later ++ entry :: earlier →
    PassedIn id entry → ∃ q, entry.after.proposals id = some q ∧
      p.votesFor = q.votesFor ∧ p.votesAgainst = q.votesAgainst
  appliedOnce : (history.filter (appliedIn host id)).length ≤ 1
  appliedLate : ∀ later entry earlier, history = later ++ entry :: earlier →
    appliedIn host id entry = true →
      (∃ tally ∈ earlier, PassedIn id tally) ∧
        ∃ creation ∈ earlier, CreatedIn id creation ∧
          creation.input.now + govTimelock ≤ entry.input.now

/-! ## One entry -/

theorem voterIn_of_fails {host : Host} {id : Nat} {w : World} {inv : Invocation}
    (h : Fails host w inv) : voterIn host id ⟨w, inv, w⟩ = none := by
  unfold voterIn
  simp only [h.returned_eq]
  split <;> simp

/-- A call that does not name the proposal neither votes on it nor applies
it. -/
theorem quiet_of_other {host : Host} {id : Nat} {entry : Entry World Invocation}
    (hother : Call.proposal? entry.input.call ≠ some id) :
    voterIn host id entry = none ∧ appliedIn host id entry = false := by
  constructor
  · unfold voterIn
    split
    · rename_i voter proposalId support hcall
      rw [hcall] at hother
      have hne : proposalId ≠ id := fun heq => hother (congrArg some heq)
      simp [hne]
    · rfl
  · unfold appliedIn
    have hne : entry.input.call ≠ .governance (.executeProposal id) := by
      intro hcall
      rw [hcall] at hother
      exact hother rfl
    simp [hne]

theorem voterIn_of_vote {host : Host} {id : Nat} {w w' : World}
    {inv : Invocation} {value : Value} {voter : Address} {support : Bool}
    (h : Succeeds host w inv value w')
    (hcall : inv.call = .governance (.vote voter id support)) :
    voterIn host id ⟨w, inv, w'⟩ = some voter ∧
      appliedIn host id ⟨w, inv, w'⟩ = false := by
  simp [voterIn, appliedIn, hcall, h.returned_eq]

theorem quiet_of_tally {host : Host} {id : Nat}
    {entry : Entry World Invocation}
    (hcall : entry.input.call = .governance (.tally id)) :
    voterIn host id entry = none ∧ appliedIn host id entry = false := by
  simp [voterIn, appliedIn, hcall]

theorem appliedIn_of_execute {host : Host} {id : Nat} {w w' : World}
    {inv : Invocation} {value : Value} (h : Succeeds host w inv value w')
    (hcall : inv.call = .governance (.executeProposal id)) :
    voterIn host id ⟨w, inv, w'⟩ = none ∧
      appliedIn host id ⟨w, inv, w'⟩ = true := by
  simp [voterIn, appliedIn, hcall, h.returned_eq]

/-! ## The invariant -/

/-- What is known about a stored proposal. -/
structure KnownProposal (host : Host) (history : History) (id : Nat)
    (p : Proposal) : Prop where
  counted : p.votesFor + p.votesAgainst = (votersOn host id history).length
  applied : (history.filter (appliedIn host id)).length =
    if p.status = .executed then 1 else 0
  created : ∃ creation ∈ history, CreatedIn id creation ∧
    creation.input.now + govTimelock = p.executableAfter
  passed : p.status = .passed ∨ p.status = .executed →
    ∃ tally ∈ history, PassedIn id tally

/-- The vote marks, the counters and the status of one proposal, tied to the
history. -/
structure Followed (host : Host) (id : Nat) (history : History) (w : World) :
    Prop where
  marks : ∀ voter, w.voted id voter = true ↔ voter ∈ votersOn host id history
  once : (votersOn host id history).Nodup
  unknown : w.proposals id = none →
    votersOn host id history = [] ∧ history.filter (appliedIn host id) = []
  known : ∀ p, w.proposals id = some p → KnownProposal host history id p

theorem votersOn_cons_of_none {host : Host} {id : Nat} {history : History}
    {entry : Entry World Invocation} (h : voterIn host id entry = none) :
    votersOn host id (entry :: history) = votersOn host id history :=
  List.filterMap_cons_none h

/-- An entry in which nobody voted, and that neither applied the proposal nor
moved its counters, status or deadline. -/
theorem KnownProposal.quiet {host : Host} {history : History} {id : Nat}
    {p : Proposal} (h : KnownProposal host history id p)
    {entry : Entry World Invocation} (hvoter : voterIn host id entry = none)
    (happlied : appliedIn host id entry = false) :
    KnownProposal host (entry :: history) id p where
  counted := by
    rw [votersOn_cons_of_none hvoter]
    exact h.counted
  applied := by
    rw [List.filter_cons_of_neg (by simp [happlied])]
    exact h.applied
  created := by
    obtain ⟨creation, hmem, hcreation⟩ := h.created
    exact ⟨creation, List.mem_cons_of_mem entry hmem, hcreation⟩
  passed := by
    intro hstatus
    obtain ⟨tally, hmem, htally⟩ := h.passed hstatus
    exact ⟨tally, List.mem_cons_of_mem entry hmem, htally⟩

/-- Nothing happened to the proposal in the newest entry. -/
theorem Followed.quiet {host : Host} {id : Nat} {history : History}
    {w w' : World} {inv : Invocation} (h : Followed host id history w)
    (hvoter : voterIn host id ⟨w, inv, w'⟩ = none)
    (happlied : appliedIn host id ⟨w, inv, w'⟩ = false)
    (hproposal : w'.proposals id = w.proposals id)
    (hvoted : w'.voted id = w.voted id) :
    Followed host id (⟨w, inv, w'⟩ :: history) w' where
  marks voter := by
    rw [hvoted, votersOn_cons_of_none hvoter]
    exact h.marks voter
  once := by
    rw [votersOn_cons_of_none hvoter]
    exact h.once
  unknown hnone := by
    rw [votersOn_cons_of_none hvoter,
      List.filter_cons_of_neg (by simp [happlied])]
    exact h.unknown (hproposal ▸ hnone)
  known p hp := by
    rw [hproposal] at hp
    exact (h.known p hp).quiet hvoter happlied

/-- The newest entry stored the proposal `p'`, without a vote. -/
theorem Followed.stored {host : Host} {id : Nat} {history : History}
    {w w' : World} {inv : Invocation} {p' : Proposal}
    (h : Followed host id history w)
    (hvoter : voterIn host id ⟨w, inv, w'⟩ = none)
    (hproposal : w'.proposals id = some p')
    (hvoted : w'.voted id = w.voted id)
    (hknown : KnownProposal host (⟨w, inv, w'⟩ :: history) id p') :
    Followed host id (⟨w, inv, w'⟩ :: history) w' where
  marks voter := by
    rw [hvoted, votersOn_cons_of_none hvoter]
    exact h.marks voter
  once := by
    rw [votersOn_cons_of_none hvoter]
    exact h.once
  unknown hnone := by
    rw [hproposal] at hnone
    cases hnone
  known p hp := by
    rw [hproposal] at hp
    cases hp
    exact hknown

theorem countVote_total (support : Bool) (p : Proposal) :
    (countVote support p).votesFor + (countVote support p).votesAgainst =
      p.votesFor + p.votesAgainst + 1 := by
  cases support with
  | false =>
      simp only [countVote, Bool.false_eq_true, if_false]
      omega
  | true =>
      simp only [countVote, if_true]
      omega

theorem countVote_frame (support : Bool) (p : Proposal) :
    (countVote support p).status = p.status ∧
      (countVote support p).executableAfter = p.executableAfter := by
  cases support <;> exact ⟨rfl, rfl⟩

theorem followed_of_vote {host : Host} {id : Nat} {history : History}
    {w w' : World} {inv : Invocation} {value : Value} {voter : Address}
    {support : Bool} {p : Proposal} (h : Followed host id history w)
    (hsucceeds : Succeeds host w inv value w')
    (hcall : inv.call = .governance (.vote voter id support))
    (hfound : w.proposals id = some p)
    (hfirst : w.voted id voter = false)
    (hproposal : w'.proposals id = some (countVote support p))
    (hvoted : w'.voted id = Function.update (w.voted id) voter true) :
    Followed host id (⟨w, inv, w'⟩ :: history) w' := by
  obtain ⟨hvoter, happlied⟩ := voterIn_of_vote hsucceeds hcall
  have hcons : votersOn host id (⟨w, inv, w'⟩ :: history) =
      voter :: votersOn host id history :=
    List.filterMap_cons_some hvoter
  -- the mark is what keeps the voters of the history distinct
  have hfresh : voter ∉ votersOn host id history := by
    rw [← h.marks voter, hfirst]
    simp
  have hknown := h.known p hfound
  obtain ⟨hstatus, hafter⟩ := countVote_frame support p
  refine ⟨?_, ?_, ?_, ?_⟩
  · intro other
    rw [hvoted, hcons, List.mem_cons]
    by_cases hother : other = voter
    · subst hother
      simp
    · rw [Function.update_of_ne hother, h.marks other]
      simp [hother]
  · rw [hcons, List.nodup_cons]
    exact ⟨hfresh, h.once⟩
  · intro hnone
    rw [hproposal] at hnone
    cases hnone
  · intro found hstored
    rw [hproposal] at hstored
    cases hstored
    refine ⟨?_, ?_, ?_, ?_⟩
    · rw [hcons, List.length_cons, ← hknown.counted]
      exact countVote_total support p
    · rw [List.filter_cons_of_neg (by simp [happlied]), hstatus]
      exact hknown.applied
    · obtain ⟨creation, hmem, hcreation⟩ := hknown.created
      rw [hafter]
      exact ⟨creation, List.mem_cons_of_mem _ hmem, hcreation⟩
    · rw [hstatus]
      intro hpassed
      obtain ⟨tally, hmem, htally⟩ := hknown.passed hpassed
      exact ⟨tally, List.mem_cons_of_mem _ hmem, htally⟩

theorem tallied_status (p : Proposal) :
    ((tallied p).status = .passed ∧ p.votesAgainst < p.votesFor) ∨
      (tallied p).status = .rejected := by
  unfold tallied
  by_cases h : p.votesAgainst < p.votesFor
  · exact Or.inl ⟨if_pos h, h⟩
  · exact Or.inr (if_neg h)

theorem followed_of_tally {host : Host} {id : Nat} {history : History}
    {w w' : World} {inv : Invocation} {p : Proposal}
    (h : Followed host id history w)
    (hcall : inv.call = .governance (.tally id))
    (hfound : w.proposals id = some p) (hactive : p.status = .active)
    (hproposal : w'.proposals id = some (tallied p))
    (hvoted : w'.voted id = w.voted id) :
    Followed host id (⟨w, inv, w'⟩ :: history) w' := by
  obtain ⟨hvoter, happlied⟩ : voterIn host id ⟨w, inv, w'⟩ = none ∧
      appliedIn host id ⟨w, inv, w'⟩ = false := quiet_of_tally hcall
  have hknown := (h.known p hfound).quiet hvoter happlied
  refine h.stored hvoter hproposal hvoted ⟨hknown.counted, ?_, hknown.created, ?_⟩
  · rw [hknown.applied, hactive]
    rcases tallied_status p with ⟨hstatus, _⟩ | hstatus
    · rw [hstatus]
      rfl
    · rw [hstatus]
      rfl
  · intro hstatus
    refine ⟨⟨w, inv, w'⟩, List.mem_cons_self, p, tallied p, hfound, hproposal, ?_, ?_⟩
    · rw [hactive]
      decide
    · rcases tallied_status p with ⟨hpassed, _⟩ | hrejected
      · exact hpassed
      · rw [hrejected] at hstatus
        rcases hstatus with hstatus | hstatus <;> cases hstatus

theorem followed_of_execute {host : Host} {id : Nat} {history : History}
    {w w' : World} {inv : Invocation} {value : Value} {p : Proposal}
    (h : Followed host id history w) (hsucceeds : Succeeds host w inv value w')
    (hcall : inv.call = .governance (.executeProposal id))
    (hfound : w.proposals id = some p) (hpassed : p.status = .passed)
    (hproposal : w'.proposals id = some { p with status := .executed })
    (hvoted : w'.voted id = w.voted id) :
    Followed host id (⟨w, inv, w'⟩ :: history) w' := by
  obtain ⟨hvoter, happlied⟩ := appliedIn_of_execute hsucceeds hcall
  have hknown := h.known p hfound
  refine h.stored hvoter hproposal hvoted ⟨?_, ?_, ?_, ?_⟩
  · rw [votersOn_cons_of_none hvoter]
    exact hknown.counted
  · have hnone := hknown.applied
    rw [hpassed, if_neg (by decide)] at hnone
    rw [List.filter_cons_of_pos happlied, List.length_cons, hnone]
    rfl
  · obtain ⟨creation, hmem, hcreation⟩ := hknown.created
    exact ⟨creation, List.mem_cons_of_mem _ hmem, hcreation⟩
  · intro _
    obtain ⟨tally, hmem, htally⟩ := hknown.passed (Or.inl hpassed)
    exact ⟨tally, List.mem_cons_of_mem _ hmem, htally⟩

theorem followed_of_creation {host : Host} {id : Nat} {history : History}
    {w w' : World} {inv : Invocation} {proposer : Address} {param : GovParam}
    {newValue : Nat} (h : Followed host id history w)
    (hcall : inv.call = .governance (.proposeParameter proposer param newValue))
    (hnone : w.proposals id = none)
    (hproposal : w'.proposals id =
      some (freshProposal id inv.now param newValue))
    (hvoted : w'.voted id = w.voted id) :
    Followed host id (⟨w, inv, w'⟩ :: history) w' := by
  have hother : Call.proposal? inv.call ≠ some id := by
    rw [hcall]
    simp [Call.proposal?]
  obtain ⟨hvoter, happlied⟩ : voterIn host id ⟨w, inv, w'⟩ = none ∧
      appliedIn host id ⟨w, inv, w'⟩ = false := quiet_of_other hother
  obtain ⟨hnobody, hnever⟩ := h.unknown hnone
  refine h.stored hvoter hproposal hvoted ⟨?_, ?_, ?_, ?_⟩
  · rw [votersOn_cons_of_none hvoter, hnobody]
    rfl
  · rw [List.filter_cons_of_neg (by simp [happlied]), hnever]
    rfl
  · exact ⟨⟨w, inv, w'⟩, List.mem_cons_self, ⟨hnone, _, hproposal, rfl⟩, rfl⟩
  · intro hstatus
    rcases hstatus with hstatus | hstatus <;> cases hstatus

theorem followed_of_reaches {host : Host} {history : History} {w : World}
    (hrun : Reaches host history w) (id : Nat) : Followed host id history w := by
  refine Reaches.invariant (P := Followed host id) ?_ ?_ ?_ hrun
  · intro balances _
    refine ⟨?_, List.nodup_nil, fun _ => ⟨rfl, rfl⟩, ?_⟩
    · intro voter
      simp [World.deployed, votersOn]
    · intro p hp
      cases hp
  · intro history w inv value w' hrun _ h hsucceeds
    cases proposalChange_of_succeeds hrun hsucceeds id with
    | same hother hproposal hvoted =>
        obtain ⟨hvoter, happlied⟩ : voterIn host id ⟨w, inv, w'⟩ = none ∧
            appliedIn host id ⟨w, inv, w'⟩ = false := quiet_of_other hother
        exact h.quiet hvoter happlied hproposal hvoted
    | created proposer param newValue hcall hnone hproposal hvoted =>
        exact followed_of_creation h hcall hnone hproposal hvoted
    | voted voter support p hcall _ hfound _ hfirst hproposal hvoted =>
        exact followed_of_vote h hsucceeds hcall hfound hfirst hproposal hvoted
    | tallied p hcall hfound hactive hproposal hvoted =>
        exact followed_of_tally h hcall hfound hactive hproposal hvoted
    | executed p hcall hfound hpassed _ hproposal hvoted =>
        exact followed_of_execute h hsucceeds hcall hfound hpassed hproposal hvoted
  · intro history w inv _ _ h hfails
    refine h.quiet (voterIn_of_fails hfails) ?_ rfl rfl
    simp [appliedIn, hfails.returned_eq]

/-! ## Entries of a run -/

section Entries

variable {host : Host} {later earlier history : History}
  {entry : Entry World Invocation} {w : World} {id : Nat}

/-- An entry seen from one proposal: nothing happened to it, or the call
returned and changed it. -/
theorem proposalChange_of_entry
    (hrun : Reaches host (later ++ entry :: earlier) w) (id : Nat) :
    (returned host entry = false ∧ entry.after = entry.before) ∨
      (returned host entry = true ∧ ProposalChange entry.input.toContext
        entry.before entry.after id entry.input.call) := by
  obtain ⟨hbefore, ⟨hreturned, value, hsucceeds⟩ | hreverted⟩ := hrun.entry_cases
  · exact Or.inr ⟨hreturned, proposalChange_of_succeeds hbefore hsucceeds id⟩
  · exact Or.inl hreverted

/-- A status moves along the two edges of the protocol, and a stored proposal
stays stored. -/
theorem statusMove_of_change {ctx : Context} {w' : World} {call : Call}
    (h : ProposalChange ctx w w' id call) {p : Proposal}
    (hp : w.proposals id = some p) :
    ∃ p', w'.proposals id = some p' ∧ StatusMove p.status p'.status := by
  cases h with
  | same _ hproposal _ => exact ⟨p, hproposal.trans hp, .stay _⟩
  | created _ _ _ _ hnone _ _ =>
      rw [hp] at hnone
      cases hnone
  | voted voter support found _ _ hfound _ _ hproposal _ =>
      rw [hp] at hfound
      cases hfound
      refine ⟨_, hproposal, ?_⟩
      rw [(countVote_frame support p).1]
      exact .stay _
  | tallied found _ hfound hactive hproposal _ =>
      rw [hp] at hfound
      cases hfound
      refine ⟨_, hproposal, ?_⟩
      rw [hactive]
      rcases tallied_status p with ⟨hstatus, _⟩ | hstatus
      · rw [hstatus]
        exact .pass
      · rw [hstatus]
        exact .reject
  | executed found _ hfound hpassed _ hproposal _ =>
      rw [hp] at hfound
      cases hfound
      refine ⟨_, hproposal, ?_⟩
      rw [hpassed]
      exact .execute

/-- The counters only move while the proposal is active. -/
theorem counts_of_closed {ctx : Context} {w' : World} {call : Call}
    (h : ProposalChange ctx w w' id call) {p : Proposal}
    (hp : w.proposals id = some p) (hclosed : p.status ≠ .active) :
    ∃ p', w'.proposals id = some p' ∧ p'.status ≠ .active ∧
      p'.votesFor = p.votesFor ∧ p'.votesAgainst = p.votesAgainst := by
  cases h with
  | same _ hproposal _ => exact ⟨p, hproposal.trans hp, hclosed, rfl, rfl⟩
  | created _ _ _ _ hnone _ _ =>
      rw [hp] at hnone
      cases hnone
  | voted voter support found _ _ hfound hactive _ _ _ =>
      rw [hp] at hfound
      cases hfound
      exact absurd hactive hclosed
  | tallied found _ hfound hactive _ _ =>
      rw [hp] at hfound
      cases hfound
      exact absurd hactive hclosed
  | executed found _ hfound _ _ hproposal _ =>
      rw [hp] at hfound
      cases hfound
      refine ⟨_, hproposal, ?_, rfl, rfl⟩
      simp

/-- A proposal passes in a tally with more votes for it than against it. -/
theorem majority_of_change {ctx : Context} {w' : World} {call : Call}
    (h : ProposalChange ctx w w' id call) {p p' : Proposal}
    (hp : w.proposals id = some p) (hp' : w'.proposals id = some p')
    (hbefore : p.status ≠ .passed) (hafter : p'.status = .passed) :
    call = .governance (.tally id) ∧ p.votesAgainst < p.votesFor := by
  cases h with
  | same _ hproposal _ =>
      rw [hproposal, hp] at hp'
      cases hp'
      exact absurd hafter hbefore
  | created _ _ _ _ hnone _ _ =>
      rw [hp] at hnone
      cases hnone
  | voted voter support found _ _ hfound _ _ hproposal _ =>
      rw [hp] at hfound
      cases hfound
      rw [hproposal] at hp'
      cases hp'
      rw [(countVote_frame support p).1] at hafter
      exact absurd hafter hbefore
  | tallied found hcall hfound _ hproposal _ =>
      rw [hp] at hfound
      cases hfound
      rw [hproposal] at hp'
      cases hp'
      rcases tallied_status p with ⟨_, hmore⟩ | hrejected
      · exact ⟨hcall, hmore⟩
      · rw [hrejected] at hafter
        cases hafter
  | executed found _ hfound hpassed _ _ _ =>
      rw [hp] at hfound
      cases hfound
      exact absurd hpassed hbefore

theorem signed_of_entry (hrun : Reaches host (later ++ entry :: earlier) w)
    {voter : Address} (hvoter : voterIn host id entry = some voter) :
    voter ∈ entry.input.auth ∧
      ∃ q, entry.before.proposals id = some q ∧ q.status = .active := by
  unfold voterIn at hvoter
  split at hvoter
  · rename_i caller proposalId support hcall
    rw [Option.ite_none_right_eq_some] at hvoter
    obtain ⟨⟨rfl, hreturned⟩, hcaller⟩ := hvoter
    cases hcaller
    rcases proposalChange_of_entry hrun proposalId with ⟨hreverted, _⟩ | ⟨_, hchange⟩
    · rw [hreturned] at hreverted
      cases hreverted
    · rw [hcall] at hchange
      cases hchange with
      | same hother _ _ => exact absurd rfl hother
      | created _ _ _ hcreate => cases hcreate
      | voted other support q hvote hauth hfound hactive =>
          cases hvote
          exact ⟨hauth, q, hfound, hactive⟩
      | tallied _ htally => cases htally
      | executed _ hexecute => cases hexecute
  · cases hvoter

theorem moves_of_entry (hrun : Reaches host (later ++ entry :: earlier) w)
    {q : Proposal} (hq : entry.before.proposals id = some q) :
    ∃ q', entry.after.proposals id = some q' ∧ StatusMove q.status q'.status := by
  rcases proposalChange_of_entry hrun id with ⟨_, hsame⟩ | ⟨_, hchange⟩
  · rw [hsame]
    exact ⟨q, hq, .stay _⟩
  · exact statusMove_of_change hchange hq

theorem majority_of_entry (hrun : Reaches host (later ++ entry :: earlier) w)
    (hpassed : PassedIn id entry) :
    entry.input.call = .governance (.tally id) ∧
      ∃ q, entry.before.proposals id = some q ∧ q.votesAgainst < q.votesFor := by
  obtain ⟨q, q', hq, hq', hbefore, hafter⟩ := hpassed
  rcases proposalChange_of_entry hrun id with ⟨_, hsame⟩ | ⟨_, hchange⟩
  · rw [hsame, hq] at hq'
    cases hq'
    exact absurd hafter hbefore
  · obtain ⟨hcall, hmore⟩ :=
      majority_of_change hchange hq hq' hbefore hafter
    exact ⟨hcall, q, hq, hmore⟩

/-- Once passed, the counters stay to the end of the run. -/
theorem frozen_since_entry (hrun : Reaches host (later ++ entry :: earlier) w)
    {p : Proposal} (hp : w.proposals id = some p) (hpassed : PassedIn id entry) :
    ∃ q, entry.after.proposals id = some q ∧ p.votesFor = q.votesFor ∧
      p.votesAgainst = q.votesAgainst := by
  obtain ⟨_, q, _, hq, _, hstatus⟩ := hpassed
  have hclosed : q.status ≠ .active := by
    rw [hstatus]
    decide
  have hkept : ∃ p, w.proposals id = some p ∧ p.status ≠ .active ∧
      p.votesFor = q.votesFor ∧ p.votesAgainst = q.votesAgainst := by
    refine Reaches.persists (P := fun w => ∃ p, w.proposals id = some p ∧
      p.status ≠ .active ∧ p.votesFor = q.votesFor ∧
        p.votesAgainst = q.votesAgainst) ?_ hrun ⟨q, hq, hclosed, rfl, rfl⟩
    rintro history w inv value w' hrun _ ⟨p, hp, hclosed, hfor, hagainst⟩ hsucceeds
    obtain ⟨p', hp', hclosed', hfor', hagainst'⟩ :=
      counts_of_closed (proposalChange_of_succeeds hrun hsucceeds id) hp hclosed
    exact ⟨p', hp', hclosed', hfor'.trans hfor, hagainst'.trans hagainst⟩
  obtain ⟨found, hfound, _, hfor, hagainst⟩ := hkept
  rw [hp] at hfound
  cases hfound
  exact ⟨q, hq, hfor, hagainst⟩

theorem appliedLate_of_entry (hrun : Reaches host (later ++ entry :: earlier) w)
    (happlied : appliedIn host id entry = true) :
    (∃ tally ∈ earlier, PassedIn id tally) ∧
      ∃ creation ∈ earlier, CreatedIn id creation ∧
        creation.input.now + govTimelock ≤ entry.input.now := by
  simp only [appliedIn, Bool.and_eq_true, decide_eq_true_eq] at happlied
  obtain ⟨hreturned, hcall⟩ := happlied
  have hbefore := hrun.entry_cases.1
  rcases proposalChange_of_entry hrun id with ⟨hreverted, _⟩ | ⟨_, hchange⟩
  · rw [hreturned] at hreverted
    cases hreverted
  · rw [hcall] at hchange
    cases hchange with
    | same hother _ _ => exact absurd rfl hother
    | created _ _ _ hcreate => cases hcreate
    | voted _ _ _ hvote => cases hvote
    | tallied _ htally => cases htally
    | executed p _ hfound hpassed htimelock _ _ =>
        have hknown := (followed_of_reaches hbefore id).known p hfound
        obtain ⟨creation, hmem, hcreated, htime⟩ := hknown.created
        refine ⟨hknown.passed (Or.inl hpassed), creation, hmem, hcreated, ?_⟩
        rw [htime]
        exact htimelock

end Entries

/-! ## Every run -/

/-- Every proposal of every run went by the protocol: each counted vote belongs
to a different address, which signed it while the proposal was active; the
status moved along the two edges; a majority at a tally passed it and the counts
stayed as they were then; it was applied at most once, after it had passed and
the timelock had run since its creation. -/
theorem proposal_protocol {host : Host} {history : History} {w : World}
    (hrun : Reaches host history w) {id : Nat} {p : Proposal}
    (hp : w.proposals id = some p) : ProposalProtocol host history id p := by
  have hfollowed := followed_of_reaches hrun id
  have hknown := hfollowed.known p hp
  refine ⟨?_, hfollowed.once, ?_, ?_, ?_, ?_, ?_, ?_⟩
  · rw [List.toFinset_card_of_nodup hfollowed.once]
    exact hknown.counted
  · intro entry hentry voter hvoter
    obtain ⟨later, earlier, rfl⟩ := List.append_of_mem hentry
    exact signed_of_entry hrun hvoter
  · intro entry hentry q hq
    obtain ⟨later, earlier, rfl⟩ := List.append_of_mem hentry
    exact moves_of_entry hrun hq
  · intro entry hentry hpassed
    obtain ⟨later, earlier, rfl⟩ := List.append_of_mem hentry
    exact majority_of_entry hrun hpassed
  · rintro later entry earlier rfl hpassed
    exact frozen_since_entry hrun hp hpassed
  · rw [hknown.applied]
    split <;> omega
  · rintro later entry earlier rfl happlied
    exact appliedLate_of_entry hrun happlied

/-- Two addresses vote, one of them twice; the proposal passes and is executed
two days after its creation. -/
theorem proposal_protocol_of_two_voters :
    ∃ history w p, Reaches Sample.host history w ∧ w.proposals 1 = some p ∧
      p.status = .executed ∧ p.votesFor = 2 ∧
      votersOn Sample.host 1 history = [Sample.employer, Sample.employee] ∧
      ProposalProtocol Sample.host history 1 p := by
  have hrun := Sample.play_reaches [
    Sample.invoke 10 Sample.employee
      (.governance (.proposeParameter Sample.employee .minDeposit 700)),
    Sample.invoke 11 Sample.employee (.governance (.vote Sample.employee 1 true)),
    Sample.invoke 12 Sample.employee (.governance (.vote Sample.employee 1 true)),
    Sample.invoke 13 Sample.employer (.governance (.vote Sample.employer 1 true)),
    Sample.invoke 14 Sample.admin (.governance (.tally 1)),
    Sample.invoke 15 Sample.admin (.governance (.executeProposal 1)),
    Sample.invoke 172810 Sample.admin (.governance (.executeProposal 1))]
    (by decide)
  exact ⟨_, _, _, hrun, rfl, by decide, by decide, by decide,
    proposal_protocol hrun rfl⟩

end Properties
end Paystream
