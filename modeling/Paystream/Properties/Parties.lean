import Paystream.Semantics.StreamView
import Paystream.Semantics.Records

/-!
# Who may change a stream

Every write of a stored stream needs the signature of a party of it, and which
party depends on the field (`stream_changes_authorised`).  The employer's side is
the delicate one: the successor signs the acceptance, and the present employer
must have named it before.  That is a fact about the history of the run, kept by
the invariant `SuccessorsNamed`: a pending entry was always written by the
employer who still holds the stream.

Creation requires two different parties, and the two transfer protocols do not.
A run has no stream with one address on both sides exactly when no transfer that
returned put it there (`no_self_stream_iff`).
-/

namespace Paystream
namespace Properties

open Library
open Contract
open Contract.Storage
open Semantics

/-! ## What stays with a stream -/

/-- The fields of a stream that are fixed at its creation. -/
structure SameTerms (s s' : Stream) : Prop where
  id : s'.id = s.id
  token : s'.token = s.token
  startTime : s'.startTime = s.startTime
  stopTime : s'.stopTime = s.stopTime
  cliffTime : s'.cliffTime = s.cliffTime
  cooldownPeriod : s'.cooldownPeriod = s.cooldownPeriod

theorem SameTerms.refl (s : Stream) : SameTerms s s :=
  ⟨rfl, rfl, rfl, rfl, rfl, rfl⟩

theorem SameTerms.next (now : Nat) (s : Stream) (op : StreamOp) :
    SameTerms s (op.next now s) := by
  cases op <;> exact ⟨rfl, rfl, rfl, rfl, rfl, rfl⟩

/-- A stored stream is left as it is, or the call names it and applies one
operation to it. -/
theorem StreamChange.of_stored {host : Host} {ctx : Context} {w w' : World}
    {id : Nat} {call : Call} {s : Stream}
    (h : StreamChange host ctx w w' id call) (hs : w.streams id = some s) :
    w'.streams id = some s ∨ ∃ streamCall op, call = .onStream id streamCall ∧
      Issues ctx w id s streamCall op ∧ op.Guard ctx.now s ∧
      w'.streams id = some (op.next ctx.now s) := by
  cases h with
  | same hstream _ => exact Or.inl (hstream.trans hs)
  | born new log _ hnone =>
      rw [hs] at hnone
      cases hnone
  | updated old op log streamCall hcall hold hissues hupdate hstream _ =>
      rw [hs] at hold
      cases hold
      exact Or.inr ⟨streamCall, op, hcall, hissues, hupdate.guard, hstream⟩

/-- A stored stream stays stored, with the same terms. -/
theorem StreamChange.kept {host : Host} {ctx : Context} {w w' : World} {id : Nat}
    {call : Call} {s : Stream} (h : StreamChange host ctx w w' id call)
    (hs : w.streams id = some s) :
    ∃ s', w'.streams id = some s' ∧ SameTerms s s' := by
  rcases StreamChange.of_stored h hs with hsame | ⟨_, op, _, _, _, hnext⟩
  · exact ⟨s, hsame, .refl s⟩
  · exact ⟨_, hnext, .next ctx.now s op⟩

/-! ## Which call changes which field -/

section Issues

variable {ctx : Context} {w : World} {id now : Nat} {s : Stream}
  {call : StreamCall} {op : StreamOp}

theorem deposit_change (h : Issues ctx w id s call op)
    (hne : (op.next now s).deposit ≠ s.deposit) :
    ∃ caller amount, call = .topUp caller amount ∧ caller ∈ ctx.auth ∧
      Manages caller s := by
  cases h with
  | topUp caller amount hauth hrole => exact ⟨caller, amount, rfl, hauth, hrole⟩
  | _ => exact absurd rfl hne

theorem withdrawn_change (h : Issues ctx w id s call op)
    (hne : (op.next now s).withdrawn ≠ s.withdrawn) :
    (call = .withdraw s.employee ∧ s.employee ∈ ctx.auth) ∨
      (call = .cancelStream s.employer ∨ call = .reclaimExpired s.employer ∨
        ∃ newRate, call = .updateRate s.employer newRate) ∧
        s.employer ∈ ctx.auth := by
  cases h with
  | withdraw gross hauth => exact Or.inl ⟨rfl, hauth⟩
  | cancel owed hauth => exact Or.inr ⟨Or.inl rfl, hauth⟩
  | reclaim owed hauth => exact Or.inr ⟨Or.inr (Or.inl rfl), hauth⟩
  | updateRate newRate accrued hauth =>
      exact Or.inr ⟨Or.inr (Or.inr ⟨newRate, rfl⟩), hauth⟩
  | _ => exact absurd rfl hne

theorem rate_change (h : Issues ctx w id s call op)
    (hne : (op.next now s).ratePerSecond ≠ s.ratePerSecond) :
    s.employer ∈ ctx.auth := by
  cases h with
  | updateRate newRate accrued hauth => exact hauth
  | _ => exact absurd rfl hne

theorem delegate_change (h : Issues ctx w id s call op)
    (hne : (op.next now s).delegate ≠ s.delegate) : s.employer ∈ ctx.auth := by
  cases h with
  | changeDelegate delegate hauth => exact hauth
  | _ => exact absurd rfl hne

theorem employee_change (h : Issues ctx w id s call op)
    (hne : (op.next now s).employee ≠ s.employee) :
    call = .transferStream s.employee (op.next now s).employee ∧
      s.employee ∈ ctx.auth := by
  cases h with
  | changeEmployee newEmployee hauth => exact ⟨rfl, hauth⟩
  | _ => exact absurd rfl hne

theorem employer_change (h : Issues ctx w id s call op)
    (hne : (op.next now s).employer ≠ s.employer) :
    call = .acceptEmployerTransfer (op.next now s).employer ∧
      (op.next now s).employer ∈ ctx.auth ∧
      w.pendingEmployer id = some (op.next now s).employer := by
  cases h with
  | changeEmployer newEmployer hauth hpending => exact ⟨rfl, hauth, hpending⟩
  | _ => exact absurd rfl hne

/-- The two statuses between which a stream goes back and forth. -/
def TogglesPause (status status' : StreamStatus) : Prop :=
  (status = .active ∧ status' = .paused) ∨
    (status = .paused ∧ status' = .active)

theorem pause_change (h : Issues ctx w id s call op)
    (hguard : op.Guard now s)
    (htoggle : TogglesPause s.status (op.next now s).status) :
    ∃ caller, caller ∈ ctx.auth ∧ Manages caller s := by
  have hne : (op.next now s).status ≠ s.status := by
    rcases htoggle with ⟨hbefore, hafter⟩ | ⟨hbefore, hafter⟩
    · rw [hbefore, hafter]
      decide
    · rw [hbefore, hafter]
      decide
  cases h with
  | pause caller hauth hrole => exact ⟨caller, hauth, hrole⟩
  | resume caller hauth hrole => exact ⟨caller, hauth, hrole⟩
  | withdraw gross hauth =>
      -- a withdrawal only ever ends a stream
      rcases htoggle with ⟨_, hafter⟩ | ⟨hbefore, _⟩
      · simp only [StreamOp.next] at hafter
        split at hafter
        · cases hafter
        · rw [hguard.1] at hafter
          cases hafter
      · rw [hguard.1] at hbefore
        cases hbefore
  | cancel owed hauth =>
      rcases htoggle with ⟨_, hafter⟩ | ⟨_, hafter⟩
      · cases hafter
      · cases hafter
  | reclaim owed hauth =>
      rcases htoggle with ⟨_, hafter⟩ | ⟨_, hafter⟩
      · cases hafter
      · cases hafter
  | markExhausted =>
      rcases htoggle with ⟨_, hafter⟩ | ⟨_, hafter⟩
      · cases hafter
      · cases hafter
  | _ => exact absurd rfl hne

end Issues

/-! ## Named successors -/

/-- The employer of the stored stream `id`. -/
def employerOf (id : Nat) (w : World) : Option Address :=
  (w.streams id).map Stream.employer

/-- The employer `x` named `y` as its successor on the stream `id`, in a call
that returned, and has been its employer ever since. -/
def NamedSuccessor (host : Host) (history : History) (id : Nat)
    (x y : Address) : Prop :=
  ∃ newer entry earlier, history = newer ++ entry :: earlier ∧
    entry.input.call = .onStream id (.proposeEmployerTransfer x y) ∧
    x ∈ entry.input.auth ∧ returned host entry = true ∧
    employerOf id entry.before = some x ∧
    ∀ later ∈ newer ++ [entry], employerOf id later.after = some x

theorem NamedSuccessor.cons {host : Host} {history : History} {id : Nat}
    {x y : Address} (h : NamedSuccessor host history id x y)
    {entry : Entry World Invocation}
    (hentry : employerOf id entry.after = some x) :
    NamedSuccessor host (entry :: history) id x y := by
  obtain ⟨newer, named, earlier, rfl, hcall, hauth, hreturned, hbefore,
    hsince⟩ := h
  refine ⟨entry :: newer, named, earlier, rfl, hcall, hauth, hreturned, hbefore,
    ?_⟩
  rw [List.cons_append, List.forall_mem_cons]
  exact ⟨hentry, hsince⟩

/-- Every pending successor was named by the present employer. -/
def SuccessorsNamed (host : Host) (history : History) (w : World) : Prop :=
  ∀ id y, w.pendingEmployer id = some y →
    ∃ x, employerOf id w = some x ∧ NamedSuccessor host history id x y

/-- Only an acceptance changes the employer of a stored stream. -/
theorem employerOf_of_change {host : Host} {ctx : Context} {w w' : World}
    {id : Nat} {call : Call} {x : Address}
    (h : StreamChange host ctx w w' id call) (hx : employerOf id w = some x)
    (hcall : ∀ y, call ≠ .onStream id (.acceptEmployerTransfer y)) :
    employerOf id w' = some x := by
  obtain ⟨s, hs, rfl⟩ := Option.map_eq_some_iff.mp hx
  unfold employerOf
  rcases StreamChange.of_stored h hs with hsame |
    ⟨streamCall, op, rfl, hissues, _, hnext⟩
  · rw [hsame]
    rfl
  · rw [hnext, Option.map_some, Option.some.injEq]
    by_contra hne
    have haccept := (employer_change hissues hne).1
    exact hcall _ (by rw [haccept])

theorem successorsNamed_of_reaches {host : Host} {history : History} {w : World}
    (hrun : Reaches host history w) : SuccessorsNamed host history w := by
  refine Reaches.invariant (P := fun history w => SuccessorsNamed host history w)
    ?_ ?_ ?_ hrun
  · intro balances _ id y hy
    cases hy
  · intro history w inv value w' hrun _ ih hsucceeds id y hy
    have hchange := streamChange_of_succeeds hrun hsucceeds id
    cases pendingChange_of_succeeds hsucceeds id with
    | same hsame hcall =>
        rw [hsame] at hy
        obtain ⟨x, hx, hnamed⟩ := ih id y hy
        have hafter := employerOf_of_change hchange hx hcall
        exact ⟨x, hafter, hnamed.cons hafter⟩
    | proposed s newEmployer hcall hauth hs hafter =>
        rw [hafter] at hy
        cases hy
        have hbefore : employerOf id w = some s.employer := by
          simp only [employerOf, hs, Option.map_some]
        have hkept := employerOf_of_change hchange hbefore (by rw [hcall]; simp)
        refine ⟨s.employer, hkept, [], _, history, rfl, hcall, hauth,
          hsucceeds.returned_eq, hbefore, ?_⟩
        rw [List.nil_append, List.forall_mem_singleton]
        exact hkept
    | accepted newEmployer hcall hauth hbefore hafter =>
        rw [hafter] at hy
        cases hy
  · intro history w inv _ _ ih _ id y hy
    obtain ⟨x, hx, hnamed⟩ := ih id y hy
    exact ⟨x, hx, hnamed.cons hx⟩

/-! ## Every change of a stream -/

/-- Whose signature each change of a stored stream needs. -/
structure AuthorisedChange (host : Host) (history : History) (ctx : Context)
    (call : Call) (id : Nat) (s s' : Stream) : Prop where
  deposit : s'.deposit ≠ s.deposit → ∃ caller amount,
    call = .onStream id (.topUp caller amount) ∧ caller ∈ ctx.auth ∧
      Manages caller s
  withdrawn : s'.withdrawn ≠ s.withdrawn →
    (call = .onStream id (.withdraw s.employee) ∧ s.employee ∈ ctx.auth) ∨
      (call = .onStream id (.cancelStream s.employer) ∨
        call = .onStream id (.reclaimExpired s.employer) ∨
        ∃ newRate, call = .onStream id (.updateRate s.employer newRate)) ∧
        s.employer ∈ ctx.auth
  ratePerSecond : s'.ratePerSecond ≠ s.ratePerSecond → s.employer ∈ ctx.auth
  delegate : s'.delegate ≠ s.delegate → s.employer ∈ ctx.auth
  employee : s'.employee ≠ s.employee → s.employee ∈ ctx.auth
  employer : s'.employer ≠ s.employer → s'.employer ∈ ctx.auth ∧
    NamedSuccessor host history id s.employer s'.employer
  pausing : TogglesPause s.status s'.status →
    ∃ caller, caller ∈ ctx.auth ∧ Manages caller s
  terms : SameTerms s s'

theorem AuthorisedChange.refl (host : Host) (history : History) (ctx : Context)
    (call : Call) (id : Nat) (s : Stream) :
    AuthorisedChange host history ctx call id s s where
  deposit hne := absurd rfl hne
  withdrawn hne := absurd rfl hne
  ratePerSecond hne := absurd rfl hne
  delegate hne := absurd rfl hne
  employee hne := absurd rfl hne
  employer hne := absurd rfl hne
  pausing htoggle := by
    rcases htoggle with ⟨hbefore, hafter⟩ | ⟨hbefore, hafter⟩
    · rw [hbefore] at hafter
      cases hafter
    · rw [hbefore] at hafter
      cases hafter
  terms := .refl s

theorem AuthorisedChange.of_issues {host : Host} {history : History}
    {ctx : Context} {w : World} {id : Nat} {s : Stream} {call : StreamCall}
    {op : StreamOp} (hnamed : SuccessorsNamed host history w)
    (hs : w.streams id = some s) (hissues : Issues ctx w id s call op)
    (hguard : op.Guard ctx.now s) :
    AuthorisedChange host history ctx (.onStream id call) id s
      (op.next ctx.now s) where
  deposit hne := by
    obtain ⟨caller, amount, rfl, hauth, hrole⟩ := deposit_change hissues hne
    exact ⟨caller, amount, rfl, hauth, hrole⟩
  withdrawn hne := by
    rcases withdrawn_change hissues hne with ⟨rfl, hauth⟩ | ⟨hcall, hauth⟩
    · exact Or.inl ⟨rfl, hauth⟩
    · refine Or.inr ⟨?_, hauth⟩
      rcases hcall with rfl | rfl | ⟨newRate, rfl⟩
      · exact Or.inl rfl
      · exact Or.inr (Or.inl rfl)
      · exact Or.inr (Or.inr ⟨newRate, rfl⟩)
  ratePerSecond hne := rate_change hissues hne
  delegate hne := delegate_change hissues hne
  employee hne := (employee_change hissues hne).2
  employer hne := by
    obtain ⟨_, hauth, hpending⟩ := employer_change hissues hne
    obtain ⟨x, hx, hsuccessor⟩ := hnamed id _ hpending
    rw [employerOf, hs] at hx
    cases hx
    exact ⟨hauth, hsuccessor⟩
  pausing htoggle := pause_change hissues hguard htoggle
  terms := .next ctx.now s op

/-- Every call that returned from a reachable state changed the stored streams
and the pending successors only with the signatures due, and left alone what it
does not name. -/
theorem stream_changes_authorised {host : Host} {history : History}
    {w w' : World} {inv : Invocation} {value : Value}
    (hrun : Reaches host history w) (hsucceeds : Succeeds host w inv value w') :
    (∀ id s, w.streams id = some s → ∃ s', w'.streams id = some s' ∧
      AuthorisedChange host history inv.toContext inv.call id s s') ∧
    (∀ id, w'.pendingEmployer id ≠ w.pendingEmployer id → ∃ s,
      w.streams id = some s ∧
      ((∃ y, inv.call = .onStream id (.proposeEmployerTransfer s.employer y) ∧
          s.employer ∈ inv.auth ∧ w'.pendingEmployer id = some y) ∨
        ∃ y, inv.call = .onStream id (.acceptEmployerTransfer y) ∧
          y ∈ inv.auth ∧ NamedSuccessor host history id s.employer y ∧
          w'.pendingEmployer id = none)) ∧
    ∀ id, (∀ streamCall, inv.call ≠ .onStream id streamCall) →
      (∀ s, w.streams id = some s → w'.streams id = some s) ∧
        w'.pendingEmployer id = w.pendingEmployer id := by
  have hnamed := successorsNamed_of_reaches hrun
  refine ⟨?_, ?_, ?_⟩
  · intro id s hs
    rcases StreamChange.of_stored (streamChange_of_succeeds hrun hsucceeds id) hs
      with hsame | ⟨streamCall, op, hcall, hissues, hguard, hnext⟩
    · exact ⟨s, hsame, .refl _ _ _ _ _ _⟩
    · refine ⟨_, hnext, ?_⟩
      rw [hcall]
      exact .of_issues hnamed hs hissues hguard
  · intro id hne
    cases pendingChange_of_succeeds hsucceeds id with
    | same hsame _ => exact absurd hsame hne
    | proposed s newEmployer hcall hauth hs hafter =>
        exact ⟨s, hs, Or.inl ⟨newEmployer, hcall, hauth, hafter⟩⟩
    | accepted newEmployer hcall hauth hbefore hafter =>
        obtain ⟨x, hx, hsuccessor⟩ := hnamed id newEmployer hbefore
        obtain ⟨s, hs, rfl⟩ := Option.map_eq_some_iff.mp hx
        exact ⟨s, hs, Or.inr ⟨newEmployer, hcall, hauth, hsuccessor, hafter⟩⟩
  · intro id hother
    constructor
    · intro s hs
      rcases StreamChange.of_stored (streamChange_of_succeeds hrun hsucceeds id)
        hs with hsame | ⟨streamCall, _, hcall, _⟩
      · exact hsame
      · exact absurd hcall (hother streamCall)
    · cases pendingChange_of_succeeds hsucceeds id with
      | same hsame _ => exact hsame
      | proposed s newEmployer hcall => exact absurd hcall (hother _)
      | accepted newEmployer hcall => exact absurd hcall (hother _)

/-- The employer names the treasury as its successor. -/
def namingRun : List Invocation :=
  [Sample.openStream 11 2000 20 0,
    Sample.manage 21 (.proposeEmployerTransfer Sample.employer Sample.treasury)]

/-- The treasury accepts. -/
def acceptance : Invocation :=
  Sample.invoke 31 Sample.treasury
    (.onStream 1 (.acceptEmployerTransfer Sample.treasury))

theorem stream_changes_authorised_of_acceptance :
    ∃ history w w' inv s s', Reaches Sample.host history w ∧
      Succeeds Sample.host w inv .unit w' ∧ w.streams 1 = some s ∧
      w'.streams 1 = some s' ∧ s.employer = Sample.employer ∧
      s'.employer = Sample.treasury ∧
      AuthorisedChange Sample.host history inv.toContext inv.call 1 s s' := by
  have hrun := Sample.play_reaches namingRun (by decide)
  have hsucceeds : Succeeds Sample.host (Sample.play namingRun).2 acceptance .unit
      (Sample.play (namingRun ++ [acceptance])).2 := by
    unfold Succeeds
    rfl
  obtain ⟨s', hs', hauthorised⟩ :=
    (stream_changes_authorised hrun hsucceeds).1 1 _ rfl
  refine ⟨_, _, _, _, _, s', hrun, hsucceeds, rfl, hs', rfl, ?_, hauthorised⟩
  cases hs'
  rfl

/-! ## Two different parties -/

/-- No stored stream has one address on both sides. -/
def NoSelfStream (w : World) : Prop :=
  ∀ id s, w.streams id = some s → s.employer ≠ s.employee

/-- The call does not put one address on both sides of a stream: a
`transfer_stream` does not name the employer, an `accept_employer_transfer` is
not made by the employee. -/
def KeepsPartiesApart (w : World) (call : Call) : Prop :=
  ∀ id s, w.streams id = some s →
    (∀ employee newEmployee,
      call = .onStream id (.transferStream employee newEmployee) →
        newEmployee ≠ s.employer) ∧
    ∀ newEmployer, call = .onStream id (.acceptEmployerTransfer newEmployer) →
      newEmployer ≠ s.employee

theorem KeepsPartiesApart.of_noSelfStream {host : Host} {history : History}
    {w w' : World} {inv : Invocation} {value : Value}
    (hrun : Reaches host history w) (hsucceeds : Succeeds host w inv value w')
    (hafter : NoSelfStream w') : KeepsPartiesApart w inv.call := by
  intro id s hs
  constructor
  · intro employee newEmployee hcall
    obtain ⟨old, op, hold, hissues, _, hnext⟩ :=
      updated_of_succeeds hrun hsucceeds hcall rfl
    rw [hs] at hold
    cases hold
    have hapart := hafter id _ hnext
    cases hissues with
    | changeEmployee newEmployee hauth => exact Ne.symm hapart
  · intro newEmployer hcall
    obtain ⟨old, op, hold, hissues, _, hnext⟩ :=
      updated_of_succeeds hrun hsucceeds hcall rfl
    rw [hs] at hold
    cases hold
    have hapart := hafter id _ hnext
    cases hissues with
    | changeEmployer newEmployer hauth hpending => exact hapart

theorem NoSelfStream.step {host : Host} {history : History} {w w' : World}
    {inv : Invocation} {value : Value} (hrun : Reaches host history w)
    (hsucceeds : Succeeds host w inv value w') (h : NoSelfStream w)
    (hkeeps : KeepsPartiesApart w inv.call) : NoSelfStream w' := by
  intro id s' hs'
  cases streamChange_of_succeeds hrun hsucceeds id with
  | same hstream _ =>
      rw [hstream] at hs'
      exact h id s' hs'
  | born new log hcall hnone =>
      -- creation compared the two parties
      obtain ⟨call, hcall⟩ := hcall
      obtain ⟨p, hbirth⟩ := birth_of_succeeds hsucceeds hcall hnone hs'
      rw [hbirth.record]
      exact hbirth.parties
  | updated s op log streamCall hcall hs hissues _ hstream _ =>
      rw [hstream] at hs'
      cases hs'
      have hbefore := h id s hs
      obtain ⟨htransfer, haccept⟩ := hkeeps id s hs
      cases hissues with
      | changeEmployee newEmployee hauth =>
          exact Ne.symm (htransfer s.employee newEmployee hcall)
      | changeEmployer newEmployer hauth hpending =>
          exact haccept newEmployer hcall
      | _ => exact hbefore

/-- In every run, no state has a stream with one address on both sides exactly
when no `transfer_stream` to the employer and no `accept_employer_transfer` by
the employee returned. -/
theorem no_self_stream_iff {host : Host} {history : History} {w : World}
    (hrun : Reaches host history w) :
    System.Throughout NoSelfStream history w ↔
      ∀ entry ∈ history, KeepsPartiesApart entry.before entry.input.call ∨
        Fails host entry.before entry.input := by
  refine Reaches.throughout_iff (fun w inv => KeepsPartiesApart w inv.call)
    ?_ ?_ hrun
  · intro balances id s hs
    cases hs
  · intro history w inv value w' hrun _ hw hsucceeds
    constructor
    · intro hafter
      exact .of_noSelfStream hrun hsucceeds hafter
    · intro hkeeps
      exact hw.step hrun hsucceeds hkeeps

/-- The employee hands its stream to the treasury. -/
theorem no_self_stream_of_transfer :
    ∃ history w, Reaches Sample.host history w ∧
      (w.streams 1).map Stream.employee = some Sample.treasury ∧
      System.Throughout NoSelfStream history w := by
  have hrun := Sample.play_reaches [Sample.openStream 10 1000 10 0,
    Sample.invoke 20 Sample.employee
      (.onStream 1 (.transferStream Sample.employee Sample.treasury))] (by decide)
  refine ⟨_, _, hrun, by decide, (no_self_stream_iff hrun).mpr ?_⟩
  intro entry hentry
  change entry ∈ [_, _] at hentry
  simp only [List.mem_cons, List.not_mem_nil, or_false] at hentry
  left
  intro id s hs
  rcases hentry with rfl | rfl
  · constructor
    · intro employee newEmployee hcall
      cases hcall
      cases hs
      decide
    · intro newEmployer hcall
      cases hcall
  · constructor
    · intro employee newEmployee hcall
      cases hcall
    · intro newEmployer hcall
      cases hcall

/-- The employee hands its stream to the employer, who then pays itself. -/
theorem transfer_makes_self_stream :
    ∃ history w, Reaches Sample.host history w ∧
      (w.streams 1).map Stream.employer = some Sample.employer ∧
      (w.streams 1).map Stream.employee = some Sample.employer ∧
      ¬ System.Throughout NoSelfStream history w := by
  have hrun := Sample.play_reaches [Sample.openStream 10 1000 10 0,
    Sample.invoke 20 Sample.employee
      (.onStream 1 (.transferStream Sample.employee Sample.employer))] (by decide)
  refine ⟨_, _, hrun, by decide, by decide, ?_⟩
  rintro ⟨hlast, _⟩
  exact hlast 1 _ rfl rfl

end Properties
end Paystream
