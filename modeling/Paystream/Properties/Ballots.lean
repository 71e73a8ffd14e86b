import Paystream.Properties.Progress
import Paystream.Properties.Governance

/-!
# Ballots

A proposal is opened, voted on, tallied and executed.  `Ballot` is this and
nothing else, and `ballotOf` reads it off the calls of a run: it looks at no
stored value.  The stored proposal is the ballot (`kept_of_reaches`), so whether a
vote, a tally or an execution returns can be told from the past calls alone
(`ballot_decides`).  In particular, once the votes for it prevail nothing stands
in the way of a proposal but its two days.
-/

namespace Paystream
namespace Properties

open Library
open Contract
open Contract.Storage
open Contract.StreamContract
open Semantics

/-! ## The ballot of a history -/

/-- A ballot: when it was opened, who voted how, whether it was closed, and whether
its outcome was carried out. -/
structure Ballot where
  openedAt : Nat
  yes : List Address
  no : List Address
  closed : Bool
  executed : Bool
  deriving DecidableEq

def Ballot.opened (now : Nat) : Ballot := ⟨now, [], [], false, false⟩

def Ballot.cast (ballot : Ballot) (voter : Address) (support : Bool) : Ballot :=
  if support then { ballot with yes := voter :: ballot.yes }
  else { ballot with no := voter :: ballot.no }

/-- The votes for it prevailed when it was closed. -/
def Ballot.passed (ballot : Ballot) : Bool :=
  ballot.closed && decide (ballot.no.length < ballot.yes.length)

def Ballot.status (ballot : Ballot) : ProposalStatus :=
  if ballot.executed then .executed
  else if ballot.passed then .passed
  else if ballot.closed then .rejected
  else .active

/-- The number of proposals made. -/
def made (host : Host) : History → Nat
  | [] => 0
  | entry :: earlier =>
      match entry.input.call with
      | .governance (.proposeParameter _ _ _) =>
          if returned host entry = true then made host earlier + 1
          else made host earlier
      | _ => made host earlier

/-- The ballot after a governance call that returned, where `count` proposals had
been made. -/
def ballotAfter (id count now : Nat) (ballot : Option Ballot) :
    GovernanceCall → Option Ballot
  | .proposeParameter _ _ _ =>
      if count + 1 = id then some (.opened now) else ballot
  | .vote voter proposalId support =>
      if proposalId = id then ballot.map fun ballot => ballot.cast voter support
      else ballot
  | .tally proposalId =>
      if proposalId = id then ballot.map fun ballot => { ballot with closed := true }
      else ballot
  | .executeProposal proposalId =>
      if proposalId = id then
        ballot.map fun ballot => { ballot with executed := true }
      else
        ballot
  | _ => ballot

/-- The ballot on proposal `id`, read off the calls. -/
def ballotOf (host : Host) (id : Nat) : History → Option Ballot
  | [] => none
  | entry :: earlier =>
      match entry.input.call with
      | .governance call =>
          if returned host entry = true then
            ballotAfter id (made host earlier) entry.input.now
              (ballotOf host id earlier) call
          else
            ballotOf host id earlier
      | _ => ballotOf host id earlier

theorem made_cons_of_fails {host : Host} {w : World} {inv : Invocation}
    {history : History} (h : Fails host w inv) :
    made host (⟨w, inv, w⟩ :: history) = made host history := by
  simp only [made, h.returned_eq, Bool.false_eq_true, if_false]
  split <;> rfl

theorem ballotOf_cons_of_fails {host : Host} {id : Nat} {w : World}
    {inv : Invocation} {history : History} (h : Fails host w inv) :
    ballotOf host id (⟨w, inv, w⟩ :: history) = ballotOf host id history := by
  simp only [ballotOf, h.returned_eq, Bool.false_eq_true, if_false]
  split <;> rfl

theorem ballotOf_cons {host : Host} {id : Nat} {entry : Entry World Invocation}
    {history : History} {call : GovernanceCall}
    (hcall : entry.input.call = .governance call)
    (hreturned : returned host entry = true) :
    ballotOf host id (entry :: history) =
      ballotAfter id (made host history) entry.input.now
        (ballotOf host id history) call := by
  simp only [ballotOf, hcall, hreturned, if_true]

/-- Other calls make no proposal and touch no ballot. -/
theorem ballot_cons_of_other {host : Host} {id : Nat}
    {entry : Entry World Invocation} {history : History}
    (h : ∀ call, entry.input.call ≠ .governance call) :
    made host (entry :: history) = made host history ∧
      ballotOf host id (entry :: history) = ballotOf host id history := by
  cases hcall : entry.input.call with
  | governance call => exact absurd hcall (h call)
  | _ => simp only [made, ballotOf, hcall, and_self]

/-! ## The stored proposal -/

/-- The stored proposal is the ballot. -/
structure Ballot.Agrees (ballot : Ballot) (p : Proposal) : Prop where
  votesFor : p.votesFor = ballot.yes.length
  votesAgainst : p.votesAgainst = ballot.no.length
  status : p.status = ballot.status
  executableAfter : p.executableAfter = ballot.openedAt + govTimelock
  closed : ballot.executed = true → ballot.closed = true

/-- The storage under one id is the ballot, and the marks are those of its
voters. -/
inductive BallotKept : Option Ballot → Option Proposal → (Address → Bool) → Prop
  | absent (voted : Address → Bool) (hvoted : ∀ voter, voted voter = false) :
      BallotKept none none voted
  | stored (ballot : Ballot) (p : Proposal) (voted : Address → Bool)
      (hagrees : ballot.Agrees p)
      (hvoted : ∀ voter, voted voter = true ↔
        voter ∈ ballot.yes ∨ voter ∈ ballot.no) :
      BallotKept (some ballot) (some p) voted

/-- The status tells how far the ballot went. -/
theorem Ballot.Agrees.active_iff {ballot : Ballot} {p : Proposal}
    (h : ballot.Agrees p) : p.status = .active ↔ ballot.closed = false := by
  have hclosed := h.closed
  rw [h.status]
  unfold Ballot.status Ballot.passed
  revert hclosed
  cases ballot.closed <;> cases ballot.executed <;> simp
  split <;> simp

theorem Ballot.Agrees.passed_iff {ballot : Ballot} {p : Proposal}
    (h : ballot.Agrees p) :
    p.status = .passed ↔ ballot.passed = true ∧ ballot.executed = false := by
  rw [h.status]
  unfold Ballot.status
  cases ballot.passed <;> cases ballot.executed <;> simp
  split <;> simp

theorem Ballot.Agrees.cast {ballot : Ballot} {p : Proposal}
    (h : ballot.Agrees p) (hactive : p.status = .active) (voter : Address)
    (support : Bool) : (ballot.cast voter support).Agrees (countVote support p) := by
  have hopen := h.active_iff.mp hactive
  have hstatus : (ballot.cast voter support).status = ballot.status := by
    cases support <;> simp [Ballot.cast, Ballot.status, Ballot.passed, hopen]
  obtain ⟨hfor, hagainst, hstored, hafter, hclosed⟩ := h
  cases support with
  | false =>
      exact ⟨hfor, congrArg (· + 1) hagainst, hstored.trans hstatus.symm, hafter,
        hclosed⟩
  | true =>
      exact ⟨congrArg (· + 1) hfor, hagainst, hstored.trans hstatus.symm, hafter,
        hclosed⟩

theorem Ballot.Agrees.close {ballot : Ballot} {p : Proposal}
    (h : ballot.Agrees p) (hactive : p.status = .active) :
    { ballot with closed := true }.Agrees (tallied p) where
  votesFor := h.votesFor
  votesAgainst := h.votesAgainst
  status := by
    have hopen : ballot.executed = false := by
      have hclosed := h.closed
      rw [h.active_iff.mp hactive] at hclosed
      simpa using hclosed
    simp only [tallied, h.votesFor, h.votesAgainst, Ballot.status, Ballot.passed,
      hopen, Bool.false_eq_true, if_false, Bool.true_and, decide_eq_true_eq, if_true]
  executableAfter := h.executableAfter
  closed := fun _ => rfl

theorem Ballot.Agrees.execute {ballot : Ballot} {p : Proposal}
    (h : ballot.Agrees p) (hpassed : p.status = .passed) :
    { ballot with executed := true }.Agrees { p with status := .executed } := by
  have hclosed := (h.passed_iff.mp hpassed).1
  unfold Ballot.passed at hclosed
  rw [Bool.and_eq_true] at hclosed
  exact ⟨h.votesFor, h.votesAgainst, rfl, h.executableAfter, fun _ => hclosed.1⟩

/-- The proposals made, and the storage under every id. -/
structure BallotsKept (host : Host) (history : History) (w : World) : Prop where
  count : w.proposalCount = made host history
  kept : ∀ id, BallotKept (ballotOf host id history) (w.proposals id) (w.voted id)

/-- A vote, a tally or an execution makes no proposal. -/
theorem made_cons_of_governance {host : Host} {entry : Entry World Invocation}
    {history : History} {call : GovernanceCall}
    (hcall : entry.input.call = .governance call)
    (hother : ∀ proposer param newValue,
      call ≠ .proposeParameter proposer param newValue) :
    made host (entry :: history) = made host history := by
  cases call with
  | proposeParameter proposer param newValue =>
      exact absurd rfl (hother proposer param newValue)
  | _ => simp only [made, hcall]

theorem BallotKept.found {ballot : Option Ballot} {p : Proposal}
    {voted : Address → Bool} (h : BallotKept ballot (some p) voted) :
    ∃ found, ballot = some found ∧ found.Agrees p ∧
      ∀ voter, voted voter = true ↔ voter ∈ found.yes ∨ voter ∈ found.no := by
  cases h with
  | stored found p voted hagrees hvoted => exact ⟨found, rfl, hagrees, hvoted⟩

theorem BallotKept.unmarked {ballot : Option Ballot} {voted : Address → Bool}
    (h : BallotKept ballot none voted) (voter : Address) : voted voter = false := by
  cases h with
  | absent voted hvoted => exact hvoted voter

/-- A call on one ballot. -/
theorem BallotKept.updated {ballots : Nat → Option Ballot}
    {proposals : Nat → Option Proposal} {voted : Nat → Address → Bool}
    (h : ∀ id, BallotKept (ballots id) (proposals id) (voted id))
    {target : Nat} {p next : Proposal} {change : Ballot → Ballot}
    {marks : Address → Bool} (hfound : proposals target = some p)
    (hchange : ∀ ballot : Ballot, ballot.Agrees p →
      (∀ voter, voted target voter = true ↔
        voter ∈ ballot.yes ∨ voter ∈ ballot.no) →
      (change ballot).Agrees next ∧ ∀ voter, marks voter = true ↔
        voter ∈ (change ballot).yes ∨ voter ∈ (change ballot).no) (id : Nat) :
    BallotKept (if target = id then (ballots id).map change else ballots id)
      (Function.update proposals target (some next) id)
      (Function.update voted target marks id) := by
  by_cases hid : target = id
  · subst hid
    have hkept := h target
    rw [hfound] at hkept
    obtain ⟨ballot, hballot, hagrees, hvoted⟩ := hkept.found
    rw [if_pos rfl, hballot, Function.update_self, Function.update_self]
    obtain ⟨hnext, hmarks⟩ := hchange ballot hagrees hvoted
    exact .stored _ _ _ hnext hmarks
  · rw [if_neg hid, Function.update_of_ne (Ne.symm hid),
      Function.update_of_ne (Ne.symm hid)]
    exact h id

theorem Ballot.mem_cast {ballot : Ballot} {voter other : Address} {support : Bool} :
    (other ∈ (ballot.cast voter support).yes ∨
      other ∈ (ballot.cast voter support).no) ↔
      other = voter ∨ other ∈ ballot.yes ∨ other ∈ ballot.no := by
  cases support with
  | false => simp only [Ballot.cast, Bool.false_eq_true, if_false, List.mem_cons]; tauto
  | true => simp only [Ballot.cast, if_true, List.mem_cons]; tauto

theorem ballotsKept_of_governance {host : Host} {history : History} {w w' : World}
    {inv : Invocation} {call : GovernanceCall} (hrun : Reaches host history w)
    (hw : BallotsKept host history w)
    (hreturned : returned host ⟨w, inv, w'⟩ = true)
    (hcall : inv.call = .governance call)
    (heffect : GovernanceEffect inv.toContext w call w') :
    BallotsKept host (⟨w, inv, w'⟩ :: history) w' := by
  have hkeyed := governanceKeyed_of_reaches hrun
  have hballot := fun id => @ballotOf_cons host id ⟨w, inv, w'⟩ history call hcall
    hreturned
  cases heffect with
  | proposed proposer param newValue _ =>
      refine ⟨?_, ?_⟩
      · simp only [made, hcall, hreturned, if_true, ← hw.count]
        rfl
      · intro id
        rw [hballot id]
        simp only [ballotAfter, ← hw.count]
        by_cases hid : w.proposalCount + 1 = id
        · -- nobody is marked under a free number, so the new ballot starts empty
          subst hid
          have hbefore := hw.kept (w.proposalCount + 1)
          rw [hkeyed.proposals.next_free] at hbefore
          rw [if_pos rfl]
          show BallotKept _ (Function.update w.proposals (w.proposalCount + 1) _
            (w.proposalCount + 1)) (w.voted (w.proposalCount + 1))
          rw [Function.update_self]
          exact .stored _ _ _ ⟨rfl, rfl, rfl, rfl, fun h => by cases h⟩
            (by simp [hbefore.unmarked, Ballot.opened])
        · rw [if_neg hid]
          show BallotKept _ (Function.update w.proposals (w.proposalCount + 1) _ id)
            (w.voted id)
          rw [Function.update_of_ne (Ne.symm hid)]
          exact hw.kept id
  | voted voter proposalId support proposal _ hfound hactive _ =>
      refine ⟨by rw [made_cons_of_governance hcall (by simp)]; exact hw.count, ?_⟩
      intro id
      rw [hballot id]
      obtain rfl : proposal.id = proposalId :=
        (hkeyed.proposals proposalId proposal hfound).1
      show BallotKept _ (Function.update w.proposals (countVote support proposal).id _
        id) (Function.update w.voted proposal.id _ id)
      rw [countVote_id]
      -- the vote goes to one ballot, and marks its voter
      refine BallotKept.updated hw.kept hfound ?_ id
      intro ballot hagrees hvoted
      refine ⟨hagrees.cast hactive voter support, ?_⟩
      intro other
      rw [Ballot.mem_cast, ← hvoted other]
      by_cases hother : other = voter
      · simp [hother]
      · simp [hother]
  | tallied proposalId proposal hfound hactive =>
      refine ⟨by rw [made_cons_of_governance hcall (by simp)]; exact hw.count, ?_⟩
      intro id
      rw [hballot id]
      obtain rfl : proposal.id = proposalId :=
        (hkeyed.proposals proposalId proposal hfound).1
      show BallotKept _ (Function.update w.proposals proposal.id _ id) (w.voted id)
      rw [← Function.update_eq_self proposal.id w.voted]
      refine BallotKept.updated hw.kept hfound ?_ id
      intro ballot hagrees hvoted
      exact ⟨hagrees.close hactive, hvoted⟩
  | executed proposalId proposal hfound hpassed _ =>
      have hrecords := governanceRecords_applyProposal w proposal
      have hproposals : (applyProposal w proposal).proposals = w.proposals :=
        congrArg GovernanceRecords.proposals hrecords
      have hvotedSame : (applyProposal w proposal).voted = w.voted :=
        congrArg GovernanceRecords.voted hrecords
      refine ⟨?_, ?_⟩
      · rw [made_cons_of_governance hcall (by simp)]
        exact (congrArg GovernanceRecords.proposalCount hrecords).trans hw.count
      · intro id
        rw [hballot id]
        obtain rfl : proposal.id = proposalId :=
          (hkeyed.proposals proposalId proposal hfound).1
        show BallotKept _ (Function.update (applyProposal w proposal).proposals
          proposal.id _ id) ((applyProposal w proposal).voted id)
        rw [hproposals, hvotedSame, ← Function.update_eq_self proposal.id w.voted]
        refine BallotKept.updated hw.kept hfound ?_ id
        intro ballot hagrees hvoted
        exact ⟨hagrees.execute hpassed, hvoted⟩
  | configured caller admins threshold _ _ _ _ =>
      refine ⟨by rw [made_cons_of_governance hcall (by simp)]; exact hw.count, ?_⟩
      intro id
      rw [hballot id]
      exact hw.kept id
  | opProposed caller op config _ _ _ =>
      refine ⟨by rw [made_cons_of_governance hcall (by simp)]; exact hw.count, ?_⟩
      intro id
      rw [hballot id]
      exact hw.kept id
  | opApproved caller opId config pending _ _ _ _ _ _ _ =>
      have hrecords := governanceRecords_carriedOut config pending w
      refine ⟨?_, ?_⟩
      · rw [made_cons_of_governance hcall (by simp)]
        exact (congrArg GovernanceRecords.proposalCount hrecords).trans hw.count
      · intro id
        rw [hballot id]
        show BallotKept _ ((carriedOut config pending w).proposals id)
          ((carriedOut config pending w).voted id)
        rw [show (carriedOut config pending w).proposals = w.proposals from
            congrArg GovernanceRecords.proposals hrecords,
          show (carriedOut config pending w).voted = w.voted from
            congrArg GovernanceRecords.voted hrecords]
        exact hw.kept id

theorem ballotsKept_of_reaches {host : Host} {history : History} {w : World}
    (hrun : Reaches host history w) : BallotsKept host history w := by
  refine Reaches.invariant (P := BallotsKept host) ?_ ?_ ?_ hrun
  · intro balances _
    exact ⟨rfl, fun _ => .absent _ fun _ => rfl⟩
  · intro history w inv value w' hrun _ hw hsucceeds
    rcases governance_cases hsucceeds with ⟨call, hcall, heffect⟩ | ⟨hother, hrecords⟩
    · exact ballotsKept_of_governance hrun hw hsucceeds.returned_eq hcall heffect
    · have hsame := fun id =>
        @ballot_cons_of_other host id ⟨w, inv, w'⟩ history hother
      refine ⟨?_, ?_⟩
      · rw [(hsame 0).1, ← hw.count]
        exact congrArg GovernanceRecords.proposalCount hrecords
      · intro id
        rw [(hsame id).2]
        have hkept := hw.kept id
        have hproposals := congrArg GovernanceRecords.proposals hrecords
        have hvoted := congrArg GovernanceRecords.voted hrecords
        change w'.proposals = w.proposals at hproposals
        change w'.voted = w.voted at hvoted
        rw [hproposals, hvoted]
        exact hkept
  · intro history w inv _ _ hw hfails
    refine ⟨by rw [made_cons_of_fails hfails]; exact hw.count, ?_⟩
    intro id
    rw [ballotOf_cons_of_fails hfails]
    exact hw.kept id

/-! ## What returns -/

theorem exists_vote_iff {ctx : Context} {voter : Address} {id : Nat}
    {support : Bool} {w : World} :
    (∃ w', vote ctx voter id support w = .ok w') ↔ voter ∈ ctx.auth ∧ ∃ p,
      w.proposals id = some p ∧ p.status = .active ∧ w.voted id voter = false ∧
        (if support then p.votesFor else p.votesAgainst) + 1 ≤ u64Max := by
  simp only [vote, loadProposal, bind_eq_ok_iff, requireAuth_eq_ok_iff,
    expect_eq_ok_iff, ensure_eq_ok_iff, decide_eq_true_eq, Bool.not_eq_true']
  cases support with
  | false =>
      simp only [Bool.false_eq_true, if_false, bind_eq_ok_iff, expect_eq_ok_iff,
        checkedAddU64_eq_some_iff, pure_eq_ok_iff]
      constructor
      · rintro ⟨_, _, hauth, p, hfound, _, hactive, _, hfirst, _, ⟨hmax, _⟩, _⟩
        exact ⟨hauth, p, hfound, hactive, hfirst, hmax⟩
      · rintro ⟨hauth, p, hfound, hactive, hfirst, hmax⟩
        exact ⟨saveProposal (markVoted w id voter) (countVote false p), (), hauth, p,
          hfound, (), hactive, (), hfirst, _, ⟨hmax, rfl⟩, rfl⟩
  | true =>
      simp only [if_true, bind_eq_ok_iff, expect_eq_ok_iff,
        checkedAddU64_eq_some_iff, pure_eq_ok_iff]
      constructor
      · rintro ⟨_, _, hauth, p, hfound, _, hactive, _, hfirst, _, ⟨hmax, _⟩, _⟩
        exact ⟨hauth, p, hfound, hactive, hfirst, hmax⟩
      · rintro ⟨hauth, p, hfound, hactive, hfirst, hmax⟩
        exact ⟨saveProposal (markVoted w id voter) (countVote true p), (), hauth, p,
          hfound, (), hactive, (), hfirst, _, ⟨hmax, rfl⟩, rfl⟩

section Answers

variable {host : Host} {history : History} {w : World} {inv : Invocation} {id : Nat}

theorem stored_iff_ballot (hrun : Reaches host history w) {P : Proposal → Prop}
    {Q : Ballot → Prop}
    (hPQ : ∀ (ballot : Ballot) p, ballot.Agrees p →
      (∀ voter, w.voted id voter = true ↔ voter ∈ ballot.yes ∨ voter ∈ ballot.no) →
      (P p ↔ Q ballot)) :
    (∃ p, w.proposals id = some p ∧ P p) ↔
      ∃ ballot, ballotOf host id history = some ballot ∧ Q ballot := by
  have hkept := (ballotsKept_of_reaches hrun).kept id
  generalize ballotOf host id history = ballot at hkept
  generalize hvotedOn : w.voted id = voted at hkept hPQ
  generalize w.proposals id = p at hkept
  cases hkept with
  | absent voted hvoted => simp
  | stored ballot p voted hagrees hvoted =>
      simp only [Option.some.injEq, exists_eq_left']
      exact hPQ ballot p hagrees hvoted

theorem vote_returns_iff (hrun : Reaches host history w) {voter : Address}
    {support : Bool} (hcall : inv.call = .governance (.vote voter id support)) :
    Answers host w inv ↔ voter ∈ inv.auth ∧ ∃ ballot,
      ballotOf host id history = some ballot ∧ ballot.closed = false ∧
        voter ∉ ballot.yes ∧ voter ∉ ballot.no ∧
        (if support then ballot.yes else ballot.no).length + 1 ≤ u64Max := by
  have hstored := @stored_iff_ballot host history w id hrun
    (fun p => p.status = .active ∧ w.voted id voter = false ∧
      (if support then p.votesFor else p.votesAgainst) + 1 ≤ u64Max)
    (fun ballot => ballot.closed = false ∧ voter ∉ ballot.yes ∧ voter ∉ ballot.no ∧
      (if support then ballot.yes else ballot.no).length + 1 ≤ u64Max) (by
    intro ballot p hagrees hvoted
    have hmark : w.voted id voter = false ↔
        voter ∉ ballot.yes ∧ voter ∉ ballot.no := by
      rw [← not_or, ← hvoted voter, Bool.not_eq_true]
    rw [hagrees.active_iff, hmark, hagrees.votesFor, hagrees.votesAgainst,
      and_assoc]
    cases support <;> rfl)
  rw [← hstored, ← exists_vote_iff]
  unfold Answers Succeeds
  rw [hcall]
  simp only [exec, execGovernance, unitResult_eq_ok_iff]
  constructor
  · rintro ⟨_, w', hvote, _⟩
    exact ⟨w', hvote⟩
  · rintro ⟨w', hvote⟩
    exact ⟨_, w', hvote, rfl⟩

theorem tally_returns_iff (hrun : Reaches host history w)
    (hcall : inv.call = .governance (.tally id)) :
    Answers host w inv ↔ ∃ ballot, ballotOf host id history = some ballot ∧
      ballot.closed = false := by
  rw [← @stored_iff_ballot host history w id hrun (fun p => p.status = .active) _
    (fun _ _ hagrees _ => hagrees.active_iff)]
  unfold Answers Succeeds
  rw [hcall]
  simp only [exec, execGovernance, unitResult_eq_ok_iff, tally, loadProposal,
    bind_eq_ok_iff, expect_eq_ok_iff, ensure_eq_ok_iff, decide_eq_true_eq,
    pure_eq_ok_iff]
  constructor
  · rintro ⟨_, _, ⟨p, hfound, _, hactive, _⟩, _⟩
    exact ⟨p, hfound, hactive⟩
  · rintro ⟨p, hfound, hactive⟩
    exact ⟨_, _, ⟨p, hfound, (), hactive, rfl⟩, rfl⟩

theorem execute_returns_iff (hrun : Reaches host history w)
    (hcall : inv.call = .governance (.executeProposal id)) :
    Answers host w inv ↔ ∃ ballot, ballotOf host id history = some ballot ∧
      ballot.passed = true ∧ ballot.executed = false ∧
        ballot.openedAt + govTimelock ≤ inv.now := by
  rw [← @stored_iff_ballot host history w id hrun
    (fun p => p.status = .passed ∧ p.executableAfter ≤ inv.now) _
    (fun ballot p hagrees _ => by
      rw [hagrees.passed_iff, hagrees.executableAfter, and_assoc])]
  unfold Answers Succeeds
  rw [hcall]
  simp only [exec, execGovernance, unitResult_eq_ok_iff, executeProposal,
    loadProposal, bind_eq_ok_iff, expect_eq_ok_iff, ensure_eq_ok_iff,
    decide_eq_true_eq, pure_eq_ok_iff]
  constructor
  · rintro ⟨_, _, ⟨p, hfound, _, hpassed, _, htimelock, _⟩, _⟩
    exact ⟨p, hfound, hpassed, htimelock⟩
  · rintro ⟨p, hfound, hpassed, htimelock⟩
    exact ⟨_, _, ⟨p, hfound, (), hpassed, (), htimelock, rfl⟩, rfl⟩

end Answers

/-- In every state of every run the past calls decide which of the calls on a
proposal return: a signed vote of somebody who has not voted on an open ballot, as
long as the count fits; a tally of an open ballot; and, from two days after the
opening on, the execution of one whose votes for it prevailed, once. -/
theorem ballot_decides {host : Host} {history : History} {w : World}
    (hrun : Reaches host history w) (inv : Invocation) (id : Nat) :
    (∀ voter support, inv.call = .governance (.vote voter id support) →
      (Answers host w inv ↔ voter ∈ inv.auth ∧ ∃ ballot,
        ballotOf host id history = some ballot ∧ ballot.closed = false ∧
          voter ∉ ballot.yes ∧ voter ∉ ballot.no ∧
          (if support then ballot.yes else ballot.no).length + 1 ≤ u64Max)) ∧
      (inv.call = .governance (.tally id) → (Answers host w inv ↔
        ∃ ballot, ballotOf host id history = some ballot ∧
          ballot.closed = false)) ∧
      (inv.call = .governance (.executeProposal id) → (Answers host w inv ↔
        ∃ ballot, ballotOf host id history = some ballot ∧ ballot.passed = true ∧
          ballot.executed = false ∧ ballot.openedAt + govTimelock ≤ inv.now)) :=
  ⟨fun _ _ => vote_returns_iff hrun, tally_returns_iff hrun,
    execute_returns_iff hrun⟩

/-- One vote for the proposal, none against: executed two days after the opening,
on a paused contract. -/
theorem ballot_decides_of_one_vote :
    ∃ history w, Reaches Sample.host history w ∧
      ballotOf Sample.host 1 history =
        some ⟨10, [Sample.employer], [], true, false⟩ ∧
      Answers Sample.host w (Sample.invoke 172810 Sample.treasury
        (.governance (.executeProposal 1))) := by
  let calls := [
    Sample.invoke 5 Sample.admin (.admin (.initializeContract Sample.admin)),
    Sample.invoke 10 Sample.treasury
      (.governance (.proposeParameter Sample.treasury .feeBps 50)),
    Sample.invoke 20 Sample.employer
      (.governance (.vote Sample.employer 1 true)),
    Sample.invoke 30 Sample.employee (.governance (.tally 1)),
    Sample.invoke 40 Sample.admin (.admin (.emergencyPause Sample.admin))]
  have hrun := Sample.play_reaches calls (by decide)
  have hballot : ballotOf Sample.host 1 (Sample.play calls).1 =
      some ⟨10, [Sample.employer], [], true, false⟩ := rfl
  exact ⟨_, _, hrun, hballot,
    ((ballot_decides hrun _ 1).2.2 rfl).mpr ⟨_, hballot, rfl, rfl, by decide⟩⟩

end Properties
end Paystream
