import Paystream.Properties.Accrual

/-!
# The life of a stream

Two questions about the status of a stream over whole runs.

Does every status change follow the table of `state_machine.rs`?  All writers
do, except `reclaim_expired`, which stores `Exhausted` without asking the table;
on a paused stream that is a transition the table does not have.
`status_changes_declared_iff` says that this is the only way to leave the table.

Is a terminal stream dead?  Its delegate and its employer may still change,
nothing else (`terminal_stream_frozen`).
-/

namespace Paystream
namespace Properties

open Library
open Contract
open Contract.Storage
open Semantics

/-! ## Status changes -/

/-- Every status change of the step is in the declared table. -/
def DeclaredChanges (entry : Entry World Invocation) : Prop :=
  ∀ id s s', entry.before.streams id = some s → entry.after.streams id = some s' →
    s.status ≠ s'.status → isValidTransition s.status s'.status = true

/-- The call is `reclaim_expired` on a paused stream. -/
def ReclaimsPaused (w : World) (call : Call) : Prop :=
  ∃ id employer s, call = .onStream id (.reclaimExpired employer) ∧
    w.streams id = some s ∧ s.status = .paused

/-- An operation leaves the table exactly when it reclaims a paused stream. -/
theorem guard_declared_iff {now : Nat} {s : Stream} {op : StreamOp}
    (hguard : op.Guard now s) :
    (s.status ≠ (op.next now s).status →
      isValidTransition s.status (op.next now s).status = true) ↔
      ¬ (s.status = .paused ∧ ∃ owed, op = .reclaim owed) := by
  cases op with
  | withdraw gross =>
      obtain ⟨hactive, _⟩ := hguard
      simp only [StreamOp.next, hactive]
      split <;> simp [isValidTransition]
  | pause =>
      have hactive : s.status = .active := hguard
      simp [StreamOp.next, hactive, isValidTransition]
  | resume =>
      have hpaused : s.status = .paused := hguard
      simp [StreamOp.next, hpaused, isValidTransition]
  | cancel owed =>
      rcases hguard.1 with hstatus | hstatus
      · simp [StreamOp.next, hstatus, isValidTransition]
      · simp [StreamOp.next, hstatus, isValidTransition]
  | reclaim owed =>
      rcases hguard.1 with hstatus | hstatus
      · simp [StreamOp.next, hstatus, isValidTransition]
      · simp [StreamOp.next, hstatus, isValidTransition]
  | markExhausted =>
      obtain ⟨hactive, _⟩ := hguard
      simp [StreamOp.next, hactive, isValidTransition]
  | topUp amount => simp [StreamOp.next]
  | updateRate newRate accrued => simp [StreamOp.next]
  | changeEmployee newEmployee => simp [StreamOp.next]
  | changeDelegate delegate => simp [StreamOp.next]
  | changeEmployer newEmployer => simp [StreamOp.next]

/-- A call that returned leaves the table exactly when it is `reclaim_expired`
on a paused stream. -/
theorem returned_declared_iff {host : Host} {history : History} {w w' : World}
    {inv : Invocation} {value : Value} (hrun : Reaches host history w)
    (h : Succeeds host w inv value w') :
    DeclaredChanges ⟨w, inv, w'⟩ ↔ ¬ ReclaimsPaused w inv.call := by
  constructor
  · rintro hdeclared ⟨id, employer, s, hcall, hs, hpaused⟩
    have heffect := effect_of_succeeds h
    rw [hcall] at heffect
    cases heffect with
    | onStream _ _ heffect =>
        -- `reclaim_expired` never returns without writing
        rcases heffect with ⟨hidle, _⟩ | ⟨found, op, log, hfound, hissues, hupdate⟩
        · cases hidle
        · rw [hs] at hfound
          cases hfound
          cases hissues with
          | reclaim owed hauth =>
              have hid : s.id = id := (keyed_of_reaches hrun id s hs).1
              have hafter : w'.streams id =
                  some ((StreamOp.reclaim owed).next inv.now s) := by
                rw [hupdate.streams, ← hid, Function.update_self]
              have hvalid := (guard_declared_iff hupdate.guard).mp
                (hdeclared id s _ hs hafter)
              exact hvalid ⟨hpaused, owed, rfl⟩
  · intro hnot id s s' hs hs' hne
    change w.streams id = some s at hs
    change w'.streams id = some s' at hs'
    cases streamChange_of_succeeds hrun h id with
    | same hstream _ =>
        rw [hstream, hs] at hs'
        cases hs'
        exact absurd rfl hne
    | born new log _ hnone =>
        rw [hs] at hnone
        cases hnone
    | updated old op log call hcall hold hissues hupdate hstream _ =>
        rw [hs] at hold
        cases hold
        rw [hstream] at hs'
        cases hs'
        apply (guard_declared_iff hupdate.guard).mpr _ hne
        rintro ⟨hpaused, owed, rfl⟩
        cases hissues with
        | reclaim owed hauth => exact hnot ⟨id, _, s, hcall, hs, hpaused⟩

/-- In every run, all status changes follow the declared table exactly when no
call that returned was `reclaim_expired` on a paused stream. -/
theorem status_changes_declared_iff {host : Host} {history : History}
    {w : World} (hrun : Reaches host history w) :
    (∀ entry ∈ history, DeclaredChanges entry) ↔
      ∀ entry ∈ history, ReclaimsPaused entry.before entry.input.call →
        Fails host entry.before entry.input := by
  refine Reaches.invariant (P := fun history _ =>
    (∀ entry ∈ history, DeclaredChanges entry) ↔
      ∀ entry ∈ history, ReclaimsPaused entry.before entry.input.call →
        Fails host entry.before entry.input) ?_ ?_ ?_ hrun
  · intro _ _
    simp
  · intro history w inv value w' hrun _ ih hsucceeds
    have hlast := returned_declared_iff hrun hsucceeds
    have hreturned := hsucceeds.not_fails
    rw [List.forall_mem_cons, List.forall_mem_cons, ih, hlast]
    simp only [hreturned, imp_false]
  · intro history w inv _ _ ih hfails
    have hlast : DeclaredChanges ⟨w, inv, w⟩ := by
      intro id s s' hs hs' hne
      change w.streams id = some s at hs
      change w.streams id = some s' at hs'
      rw [hs] at hs'
      cases hs'
      exact absurd rfl hne
    rw [List.forall_mem_cons, List.forall_mem_cons, ih]
    simp only [hlast, hfails, true_and, implies_true]

/-- A run that stays in the table: opened, paused, resumed. -/
theorem status_changes_declared_of_resume :
    ∃ history w, Reaches Sample.host history w ∧
      history.map (fun entry => (entry.after.streams 1).map Stream.status) =
        [some .active, some .paused, some .active] ∧
      ∀ entry ∈ history, DeclaredChanges entry := by
  have hrun := Sample.play_reaches [Sample.openStream 10 1000 10 100,
    Sample.manage 50 (.pauseStream Sample.employer),
    Sample.manage 60 (.resumeStream Sample.employer)] (by decide)
  refine ⟨_, _, hrun, by decide, ?_⟩
  apply (status_changes_declared_iff hrun).mpr
  rintro entry hentry ⟨id, employer, s, hcall, _⟩
  have hmem := Sample.input_mem_of_play hentry
  simp only [List.mem_cons, List.not_mem_nil, or_false] at hmem
  rcases hmem with hinput | hinput | hinput
  all_goals
    rw [hinput] at hcall
    cases hcall

theorem not_declared_of_status {entry : Entry World Invocation} {id : Nat}
    {source target : StreamStatus}
    (hbefore : (entry.before.streams id).map Stream.status = some source)
    (hafter : (entry.after.streams id).map Stream.status = some target)
    (hne : source ≠ target) (hinvalid : isValidTransition source target = false) :
    ¬ DeclaredChanges entry := by
  intro hdeclared
  obtain ⟨s, hs, rfl⟩ := Option.map_eq_some_iff.mp hbefore
  obtain ⟨s', hs', rfl⟩ := Option.map_eq_some_iff.mp hafter
  have hvalid := hdeclared id s s' hs hs' hne
  rw [hinvalid] at hvalid
  cases hvalid

/-- An expired paused stream is reclaimed: from `Paused` to `Exhausted`. -/
theorem reclaim_leaves_declared_table :
    ∃ history w, Reaches Sample.host history w ∧ ∃ entry ∈ history,
      (entry.before.streams 1).map Stream.status = some .paused ∧
      (entry.after.streams 1).map Stream.status = some .exhausted ∧
      isValidTransition .paused .exhausted = false ∧ ¬ DeclaredChanges entry := by
  have hbefore : ((Sample.play [Sample.openStream 10 1000 10 100,
      Sample.manage 50 (.pauseStream Sample.employer)]).2.streams 1).map
        Stream.status = some .paused := by
    decide
  have hafter : ((Sample.play [Sample.openStream 10 1000 10 100,
      Sample.manage 50 (.pauseStream Sample.employer),
      Sample.manage 150 (.reclaimExpired Sample.employer)]).2.streams 1).map
        Stream.status = some .exhausted := by
    decide
  exact ⟨_, _, Sample.play_reaches [Sample.openStream 10 1000 10 100,
      Sample.manage 50 (.pauseStream Sample.employer),
      Sample.manage 150 (.reclaimExpired Sample.employer)] (by decide),
    _, List.mem_cons_self, hbefore, hafter, rfl,
    not_declared_of_status hbefore hafter (by decide) rfl⟩

/-! ## Terminal streams -/

/-- The money side of a stream, and who is paid. -/
structure SameFinances (s s' : Stream) : Prop where
  status : s'.status = s.status
  deposit : s'.deposit = s.deposit
  withdrawn : s'.withdrawn = s.withdrawn
  ratePerSecond : s'.ratePerSecond = s.ratePerSecond
  lastWithdrawTime : s'.lastWithdrawTime = s.lastWithdrawTime
  employee : s'.employee = s.employee
  token : s'.token = s.token

/-- The call names the stream `id`. -/
def Call.Names (id : Nat) : Call → Prop
  | .onStream streamId _ => streamId = id
  | .query (.claimable streamId) => streamId = id
  | .query (.claimableAt streamId _) => streamId = id
  | .query (.pauseHistory streamId) => streamId = id
  | _ => False

theorem SameFinances.refl (s : Stream) : SameFinances s s :=
  ⟨rfl, rfl, rfl, rfl, rfl, rfl, rfl⟩

theorem SameFinances.trans {s s' s'' : Stream} (h : SameFinances s s')
    (h' : SameFinances s' s'') : SameFinances s s'' where
  status := h'.status.trans h.status
  deposit := h'.deposit.trans h.deposit
  withdrawn := h'.withdrawn.trans h.withdrawn
  ratePerSecond := h'.ratePerSecond.trans h.ratePerSecond
  lastWithdrawTime := h'.lastWithdrawTime.trans h.lastWithdrawTime
  employee := h'.employee.trans h.employee
  token := h'.token.trans h.token

/-- Only the delegate and the employer of a terminal stream may change, and no
token moves. -/
theorem terminal_op {host : Host} {ctx : Context} {w : World} {s : Stream}
    {op : StreamOp} {log : List TokenTransfer} (hguard : op.Guard ctx.now s)
    (hpays : op.Pays host ctx w s log) (hterminal : isTerminal s.status = true) :
    SameFinances s (op.next ctx.now s) ∧ log = [] := by
  rcases hguard.live_or with hlive | ⟨delegate, rfl⟩ | ⟨newEmployer, rfl⟩
  · rw [hterminal] at hlive
    cases hlive
  · exact ⟨⟨rfl, rfl, rfl, rfl, rfl, rfl, rfl⟩, hpays⟩
  · exact ⟨⟨rfl, rfl, rfl, rfl, rfl, rfl, rfl⟩, hpays⟩

/-- One call that returned, with a terminal stream stored. -/
theorem terminal_returned {host : Host} {history : History} {w w' : World}
    {inv : Invocation} {value : Value} {id : Nat} {s : Stream}
    (hrun : Reaches host history w) (h : Succeeds host w inv value w')
    (hs : w.streams id = some s) (hterminal : isTerminal s.status = true) :
    (∃ s', w'.streams id = some s' ∧ SameFinances s s') ∧
      (Call.Names id inv.call → w'.transfers = w.transfers ∧
        w'.balances = w.balances) := by
  constructor
  · cases streamChange_of_succeeds hrun h id with
    | same hstream _ => exact ⟨s, hstream.trans hs, .refl s⟩
    | born new log _ hnone =>
        rw [hs] at hnone
        cases hnone
    | updated old op log call hcall hold hissues hupdate hstream _ =>
        rw [hs] at hold
        cases hold
        exact ⟨_, hstream,
          (terminal_op hupdate.guard hupdate.pays hterminal).1⟩
  · intro hnames
    have heffect := effect_of_succeeds h
    generalize hcall : inv.call = call at heffect hnames
    cases heffect with
    | admin call => cases hnames
    | governance call => cases hnames
    | create call => cases hnames
    | feePayout admin token amount => cases hnames
    | directTransfer token source target amount => cases hnames
    | query query hsame =>
        subst hsame
        exact ⟨rfl, rfl⟩
    | onStream streamId call heffect =>
        obtain rfl : streamId = id := hnames
        rcases heffect with ⟨_, hbooks, _⟩ | ⟨old, op, log, hold, _, hupdate⟩
        · exact ⟨congrArg Books.transfers hbooks, congrArg Books.balances hbooks⟩
        · rw [hs] at hold
          cases hold
          obtain ⟨_, rfl⟩ := terminal_op hupdate.guard hupdate.pays hterminal
          exact ⟨hupdate.transfers, hupdate.performed⟩

/-- Whatever is called after a stream became terminal, its financial fields
stay as they are, nothing is claimable of it at any time, and a call that names
it moves no token. -/
theorem terminal_stream_frozen {host : Host} {history history' : History}
    {w w' : World} {id : Nat} {s : Stream} (hrun : Reaches host history w)
    (hs : w.streams id = some s) (hterminal : isTerminal s.status = true)
    (hpath : (system host).Path history w history' w') :
    (∃ s', w'.streams id = some s' ∧ SameFinances s s' ∧
      ∀ t, claimableAmount s' t = .ok 0) ∧
    ∃ later, history' = later ++ history ∧
      ∀ entry ∈ later, Call.Names id entry.input.call →
        entry.after.transfers = entry.before.transfers ∧
          entry.after.balances = entry.before.balances := by
  induction hpath with
  | stay =>
      refine ⟨⟨s, hs, .refl s, claimableAmount_of_isTerminal hterminal⟩, [], rfl, ?_⟩
      intro entry hentry
      cases hentry
  | @next middle w₁ inv hpath htime ih =>
      obtain ⟨⟨s₁, hs₁, hsame, _⟩, later, rfl, hlater⟩ := ih
      have hterminal₁ : isTerminal s₁.status = true := by
        rw [hsame.status]
        exact hterminal
      rcases step_cases host w₁ inv with ⟨value, hsucceeds⟩ | ⟨_, hreverted⟩
      · obtain ⟨⟨s₂, hs₂, hstep⟩, hmoves⟩ :=
          terminal_returned (hrun.of_path hpath) hsucceeds hs₁ hterminal₁
        have hterminal₂ : isTerminal s₂.status = true := by
          rw [hstep.status]
          exact hterminal₁
        refine ⟨⟨s₂, hs₂, hsame.trans hstep,
          claimableAmount_of_isTerminal hterminal₂⟩, _ :: later, rfl, ?_⟩
        rw [List.forall_mem_cons]
        exact ⟨hmoves, hlater⟩
      · have hunchanged : (system host).step w₁ inv = w₁ := hreverted
        refine ⟨⟨s₁, by rw [hunchanged]; exact hs₁, hsame,
          claimableAmount_of_isTerminal hterminal₁⟩, _ :: later, rfl, ?_⟩
        rw [List.forall_mem_cons]
        refine ⟨fun _ => ?_, hlater⟩
        show ((system host).step w₁ inv).transfers = w₁.transfers ∧
          ((system host).step w₁ inv).balances = w₁.balances
        rw [hunchanged]
        exact ⟨rfl, rfl⟩

/-- A cancelled stream, and a new delegate for it afterwards. -/
theorem terminal_stream_frozen_of_cancelled :
    ∃ s, (Sample.play [Sample.openStream 10 1000 10 0,
        Sample.manage 20 (.cancelStream Sample.employer)]).2.streams 1 = some s ∧
      s.status = .cancelled ∧ s.withdrawn = 100 ∧
      ∃ s', (Sample.play [Sample.openStream 10 1000 10 0,
          Sample.manage 20 (.cancelStream Sample.employer),
          Sample.manage 30 (.setDelegate Sample.employer
            (some Sample.treasury))]).2.streams 1 = some s' ∧
        SameFinances s s' ∧ ∀ t, claimableAmount s' t = .ok 0 := by
  have hs : (Sample.play [Sample.openStream 10 1000 10 0,
      Sample.manage 20 (.cancelStream Sample.employer)]).2.streams 1 = some
      { StreamContract.newStream 1 Sample.employer Sample.employee Sample.token
          1000 10 10 0 0 0 with withdrawn := 100, status := .cancelled } := by
    decide
  have hfrozen := terminal_stream_frozen
    (Sample.play_reaches [Sample.openStream 10 1000 10 0,
      Sample.manage 20 (.cancelStream Sample.employer)] (by decide)) hs rfl
    (.next (Sample.manage 30 (.setDelegate Sample.employer
      (some Sample.treasury))) .stay (by decide))
  exact ⟨_, hs, rfl, rfl, hfrozen.1⟩

end Properties
end Paystream
