import Mathlib.Logic.Relation
import Paystream.Properties.Parties

/-!
# Handing over a stream

Three values decide who controls a stream: its employer, its delegate and the
proposed employer kept beside it.  The acceptance of a handover replaces the
first, clears the third and leaves the second.  A delegate of the former employer
(it may be the former employer itself) therefore keeps the right to pause, to
resume and to top up.

`employer_handover_iff` says when a handover is complete.  Whatever happens after
the acceptance, the stream is controlled by the new employer, by delegates it set
and by those it was handed on to, exactly when the delegate found at the
acceptance is the new employer's own, or there is none, or the stream has ended.
-/

namespace Paystream
namespace Properties

open Library
open Contract
open Contract.Storage
open Semantics

/-! ## The controlling calls -/

/-- The calls that control a stream, with the address that has to sign. -/
def controller : StreamCall → Option Address
  | .pauseStream caller => some caller
  | .resumeStream caller => some caller
  | .topUp caller _ => some caller
  | .cancelStream employer => some employer
  | .updateRate employer _ => some employer
  | .setDelegate employer _ => some employer
  | .proposeEmployerTransfer employer _ => some employer
  | .reclaimExpired employer => some employer
  | _ => none

/-- The address may control the stream as it stands: it is the employer, or the
delegate of a stream that has not ended. -/
def MayControl (x : Address) (s : Stream) : Prop :=
  x = s.employer ∨ (s.delegate = some x ∧ isTerminal s.status = false)

theorem mayControl_of_manages {x : Address} {s : Stream} (h : Manages x s)
    (hlive : isTerminal s.status = false) : MayControl x s := by
  rcases h with hemployer | hdelegate
  · exact Or.inl hemployer
  · exact Or.inr ⟨hdelegate, hlive⟩

theorem mayControl_of_issues {ctx : Context} {w : World} {id : Nat} {s : Stream}
    {call : StreamCall} {op : StreamOp} {x : Address}
    (h : Issues ctx w id s call op) (hguard : op.Guard ctx.now s)
    (hcontroller : controller call = some x) :
    x ∈ ctx.auth ∧ MayControl x s := by
  cases h with
  | topUp caller amount hauth hrole =>
      cases hcontroller
      exact ⟨hauth, mayControl_of_manages hrole hguard.2.1⟩
  | pause caller hauth hrole =>
      cases hcontroller
      exact ⟨hauth, mayControl_of_manages hrole
        ((isTerminal_eq_false_iff _).mpr (Or.inl hguard))⟩
  | resume caller hauth hrole =>
      cases hcontroller
      exact ⟨hauth, mayControl_of_manages hrole
        ((isTerminal_eq_false_iff _).mpr (Or.inr hguard))⟩
  | cancel owed hauth =>
      cases hcontroller
      exact ⟨hauth, Or.inl rfl⟩
  | reclaim owed hauth =>
      cases hcontroller
      exact ⟨hauth, Or.inl rfl⟩
  | updateRate newRate accrued hauth =>
      cases hcontroller
      exact ⟨hauth, Or.inl rfl⟩
  | changeDelegate delegate hauth =>
      cases hcontroller
      exact ⟨hauth, Or.inl rfl⟩
  | _ => cases hcontroller

/-- A proposal that returned was made by the employer. -/
theorem proposal_of_succeeds {host : Host} {w w' : World} {inv : Invocation}
    {value : Value} {id : Nat} {x y : Address}
    (h : Succeeds host w inv value w')
    (hcall : inv.call = .onStream id (.proposeEmployerTransfer x y)) :
    x ∈ inv.auth ∧ ∃ s, w.streams id = some s ∧ x = s.employer := by
  unfold Succeeds at h
  rw [hcall] at h
  simp only [exec, execOnStream, unitResult_eq_ok_iff,
    StreamContract.proposeEmployerTransfer, bind_eq_ok_iff,
    requireAuth_eq_ok_iff, requireEmployerById_eq_ok_iff] at h
  obtain ⟨⟨_, hauth, s, ⟨hs, hemployer⟩, _⟩, _⟩ := h
  exact ⟨hauth, s, hs, hemployer⟩

/-- A controlling call that returned was signed by somebody who may control the
stream. -/
theorem mayControl_of_succeeds {host : Host} {history : History} {w w' : World}
    {inv : Invocation} {value : Value} {id : Nat} {call : StreamCall}
    {x : Address} (hrun : Reaches host history w)
    (h : Succeeds host w inv value w') (hcall : inv.call = .onStream id call)
    (hcontroller : controller call = some x) :
    ∃ s, w.streams id = some s ∧ x ∈ inv.auth ∧ MayControl x s := by
  cases hidle : StreamCall.mayIdle call with
  | false =>
      obtain ⟨s, op, hs, hissues, hguard, _⟩ :=
        updated_of_succeeds hrun h hcall hidle
      obtain ⟨hauth, hmay⟩ := mayControl_of_issues hissues hguard hcontroller
      exact ⟨s, hs, hauth, hmay⟩
  | true =>
      -- of the calls that may return idle only the proposal controls a stream
      cases call with
      | proposeEmployerTransfer employer newEmployer =>
          cases hcontroller
          obtain ⟨hauth, s, hs, hemployer⟩ := proposal_of_succeeds h hcall
          exact ⟨s, hs, hauth, Or.inl hemployer⟩
      | withdraw employee => cases hcontroller
      | getStream => cases hcontroller
      | _ => cases hidle

/-! ## Those who hold the stream from the new employer -/

/-- The entry is a call on the stream that returned. -/
def Made (host : Host) (id : Nat) (call : StreamCall)
    (entry : Entry World Invocation) : Prop :=
  returned host entry = true ∧ entry.input.call = .onStream id call

/-- In these entries `x` proposed `y` as the next employer of the stream, and
`y` accepted later on. -/
def HandsOver (host : Host) (id : Nat) (since : History) (x y : Address) :
    Prop :=
  ∃ newer acceptance older, since = newer ++ acceptance :: older ∧
    Made host id (.acceptEmployerTransfer y) acceptance ∧
    ∃ proposal ∈ older, Made host id (.proposeEmployerTransfer x y) proposal

/-- In these entries `x` set `d` as the delegate of the stream. -/
def SetsDelegate (host : Host) (id : Nat) (history : History)
    (x d : Address) : Prop :=
  ∃ entry ∈ history, Made host id (.setDelegate x (some d)) entry

/-- The address holds the stream from `n`, who became its employer with the
newest entry of `past`: it is `n` or an employer to whom the stream was handed on
since, or a delegate that one of these set. -/
def HoldsFrom (host : Host) (id : Nat) (n : Address) (since past : History)
    (x : Address) : Prop :=
  ∃ m, Relation.ReflTransGen (HandsOver host id since) n m ∧
    (x = m ∨ SetsDelegate host id (since ++ past) m x)

/-- Every controlling call made on the stream since then was signed by somebody
who holds it from `n`. -/
def ControlledFrom (host : Host) (id : Nat) (n : Address)
    (later past : History) : Prop :=
  ∀ newer entry since, later = newer ++ entry :: since →
    ∀ call x, Made host id call entry → controller call = some x →
      x ∈ entry.input.auth ∧ HoldsFrom host id n since past x

section Monotone

variable {host : Host} {id : Nat} {n x y : Address} {since past : History}

theorem HandsOver.cons (h : HandsOver host id since x y)
    (entry : Entry World Invocation) : HandsOver host id (entry :: since) x y := by
  obtain ⟨newer, acceptance, older, rfl, haccepted, hproposed⟩ := h
  exact ⟨entry :: newer, acceptance, older, rfl, haccepted, hproposed⟩

theorem handedDown_cons
    (h : Relation.ReflTransGen (HandsOver host id since) n x)
    (entry : Entry World Invocation) :
    Relation.ReflTransGen (HandsOver host id (entry :: since)) n x :=
  Relation.ReflTransGen.mono (fun _ _ hstep => hstep.cons entry) _ _ h

/-- Without entries nothing is handed on. -/
theorem eq_of_handedDown_nil
    (h : Relation.ReflTransGen (HandsOver host id []) n x) : n = x := by
  rcases h.cases_head with hsame | ⟨_, ⟨newer, acceptance, older, hnil, _⟩, _⟩
  · exact hsame
  · simp at hnil

theorem HoldsFrom.cons (h : HoldsFrom host id n since past x)
    (entry : Entry World Invocation) :
    HoldsFrom host id n (entry :: since) past x := by
  obtain ⟨m, hdown, hrole⟩ := h
  refine ⟨m, handedDown_cons hdown entry, ?_⟩
  rcases hrole with hsame | ⟨setting, hmem, hmade⟩
  · exact Or.inl hsame
  · exact Or.inr ⟨setting, List.mem_cons_of_mem entry hmem, hmade⟩

end Monotone

/-! ## The invariant -/

/-- The stored stream `s` is held from `n`: so is its employer, the successor
pending is one this employer proposed, and so is the delegate while it matters. -/
structure HeldFrom (host : Host) (id : Nat) (n : Address) (since past : History)
    (w : World) (s : Stream) : Prop where
  stored : w.streams id = some s
  employer : Relation.ReflTransGen (HandsOver host id since) n s.employer
  pending : ∀ y, w.pendingEmployer id = some y → ∃ proposal ∈ since,
    Made host id (.proposeEmployerTransfer s.employer y) proposal
  delegate : ∀ d, s.delegate = some d → isTerminal s.status = false →
    HoldsFrom host id n since past d

section Held

variable {host : Host} {id : Nat} {n : Address} {since past : History}
  {w : World} {s s' : Stream} {entry : Entry World Invocation}

theorem HeldFrom.mayControl (h : HeldFrom host id n since past w s) {x : Address}
    (hmay : MayControl x s) : HoldsFrom host id n since past x := by
  rcases hmay with rfl | ⟨hdelegate, hlive⟩
  · exact ⟨s.employer, h.employer, Or.inl rfl⟩
  · exact h.delegate x hdelegate hlive

/-- One more entry, by what it may write: an employer proposed before, a
successor named by the employer, a delegate set by the employer. -/
theorem HeldFrom.next (h : HeldFrom host id n since past entry.before s)
    (hstored : entry.after.streams id = some s')
    (hemployer : s'.employer = s.employer ∨
      Made host id (.acceptEmployerTransfer s'.employer) entry ∧
        entry.before.pendingEmployer id = some s'.employer)
    (hpending : ∀ y, entry.after.pendingEmployer id = some y →
      s'.employer = s.employer ∧ (entry.before.pendingEmployer id = some y ∨
        Made host id (.proposeEmployerTransfer s.employer y) entry))
    (hdelegate : ∀ d, s'.delegate = some d → isTerminal s'.status = false →
      (s.delegate = some d ∧ isTerminal s.status = false) ∨
        Made host id (.setDelegate s.employer (some d)) entry) :
    HeldFrom host id n (entry :: since) past entry.after s' where
  stored := hstored
  employer := by
    have hdown := handedDown_cons h.employer entry
    rcases hemployer with hsame | ⟨haccepted, hproposed⟩
    · rw [hsame]
      exact hdown
    · obtain ⟨proposal, hmem, hmade⟩ := h.pending _ hproposed
      exact hdown.tail ⟨[], entry, since, rfl, haccepted, proposal, hmem, hmade⟩
  pending := by
    intro y hy
    obtain ⟨hsame, hold | hmade⟩ := hpending y hy
    · obtain ⟨proposal, hmem, hmade⟩ := h.pending y hold
      rw [hsame]
      exact ⟨proposal, List.mem_cons_of_mem entry hmem, hmade⟩
    · rw [hsame]
      exact ⟨entry, List.mem_cons_self, hmade⟩
  delegate := by
    intro d hd hlive
    rcases hdelegate d hd hlive with ⟨hold, hwas⟩ | hmade
    · exact (h.delegate d hold hwas).cons entry
    · exact ⟨s.employer, handedDown_cons h.employer entry,
        Or.inr ⟨entry, List.mem_cons_self, hmade⟩⟩

/-- An operation does not bring back a stream that has ended. -/
theorem live_of_next {now : Nat} {op : StreamOp} (hguard : op.Guard now s)
    (hlive : isTerminal (op.next now s).status = false) :
    isTerminal s.status = false := by
  rcases hguard.live_or with hwas | ⟨delegate, rfl⟩ | ⟨newEmployer, rfl⟩
  · exact hwas
  · exact hlive
  · exact hlive

/-- A successor pending after a call was pending before, or the employer has just
proposed it. -/
theorem pending_of_pendingChange {ctx : Context} {before after : World} {call : Call}
    (h : PendingChange ctx before after id call) (hs : before.streams id = some s)
    {y : Address} (hy : after.pendingEmployer id = some y) :
    (before.pendingEmployer id = some y ∧ ∀ newEmployer,
        call ≠ .onStream id (.acceptEmployerTransfer newEmployer)) ∨
      call = .onStream id (.proposeEmployerTransfer s.employer y) := by
  cases h with
  | same hsame hother => exact Or.inl ⟨hsame.symm.trans hy, hother⟩
  | proposed s₀ newEmployer hcall _ hs₀ hafter =>
      obtain rfl : s = s₀ := Option.some.inj (hs.symm.trans hs₀)
      obtain rfl : newEmployer = y := Option.some.inj (hafter.symm.trans hy)
      exact Or.inr hcall
  | accepted _ _ _ _ hafter =>
      rw [hafter] at hy
      cases hy

theorem HeldFrom.step (hrun : Reaches host (entry :: (since ++ past)) w)
    (h : HeldFrom host id n since past entry.before s) :
    ∃ s', HeldFrom host id n (entry :: since) past entry.after s' := by
  obtain ⟨hbefore, ⟨hreturned, value, hsucceeds⟩ | ⟨_, hsame⟩⟩ :=
    hrun.newest_cases
  · have hpending := pendingChange_of_succeeds hsucceeds id
    rcases StreamChange.of_stored
      (streamChange_of_succeeds hbefore hsucceeds id) h.stored with
      hstored | ⟨call, op, hcall, hissues, hguard, hstored⟩
    · refine ⟨s, h.next hstored (Or.inl rfl) ?_
        (fun d hd hlive => Or.inl ⟨hd, hlive⟩)⟩
      intro y hy
      refine ⟨rfl, ?_⟩
      rcases pending_of_pendingChange hpending h.stored hy with ⟨hold, _⟩ | hproposal
      · exact Or.inl hold
      · exact Or.inr ⟨hreturned, hproposal⟩
    · refine ⟨_, h.next hstored ?_ ?_ ?_⟩
      · by_cases hkept : (op.next entry.input.now s).employer = s.employer
        · exact Or.inl hkept
        · obtain ⟨haccept, _, hproposed⟩ := employer_change hissues hkept
          exact Or.inr ⟨⟨hreturned, haccept ▸ hcall⟩, hproposed⟩
      · intro y hy
        rcases pending_of_pendingChange hpending h.stored hy with ⟨hold, hother⟩ | hproposal
        · refine ⟨?_, Or.inl hold⟩
          by_contra hne
          exact hother _ ((employer_change hissues hne).1 ▸ hcall)
        · -- a proposal applies no operation
          rw [hcall] at hproposal
          cases hproposal
          cases hissues
      · intro d hd hlive
        have hwas := live_of_next hguard hlive
        cases hissues with
        | changeDelegate delegate hauth =>
            obtain rfl : delegate = some d := hd
            exact Or.inr ⟨hreturned, hcall⟩
        | _ => exact Or.inl ⟨hd, hwas⟩
  · refine ⟨s, h.next (by rw [hsame]; exact h.stored) (Or.inl rfl) ?_
      (fun d hd hlive => Or.inl ⟨hd, hlive⟩)⟩
    intro y hy
    rw [hsame] at hy
    exact ⟨rfl, Or.inl hy⟩

/-- The stream stays held from `n` along every run. -/
theorem HeldFrom.of_reaches {accepted : Entry World Invocation}
    {earlier later : History}
    (hrun : Reaches host (later ++ accepted :: earlier) w)
    (h : HeldFrom host id n [] (accepted :: earlier) accepted.after s) :
    ∃ s', HeldFrom host id n later (accepted :: earlier) w s' := by
  induction later generalizing w with
  | nil =>
      obtain ⟨_, _, rfl⟩ := hrun.of_cons
      exact ⟨s, h⟩
  | cons entry later ih =>
      obtain ⟨hbefore, _, rfl⟩ := hrun.of_cons
      obtain ⟨s', hs'⟩ := ih hbefore
      exact hs'.step hrun

theorem HeldFrom.controlledFrom {accepted : Entry World Invocation}
    {earlier later : History}
    (hrun : Reaches host (later ++ accepted :: earlier) w)
    (h : HeldFrom host id n [] (accepted :: earlier) accepted.after s) :
    ControlledFrom host id n later (accepted :: earlier) := by
  rintro newer entry since rfl call x ⟨hreturned, hcall⟩ hcontroller
  rw [List.append_assoc, List.cons_append] at hrun
  obtain ⟨hbefore, ⟨_, value, hsucceeds⟩ | ⟨hpanicked, _⟩⟩ := hrun.entry_cases
  · obtain ⟨s₁, hs₁, hauth, hmay⟩ :=
      mayControl_of_succeeds hbefore hsucceeds hcall hcontroller
    obtain ⟨s₂, hheld⟩ := h.of_reaches hbefore
    obtain rfl : s₂ = s₁ := Option.some.inj (hheld.stored.symm.trans hs₁)
    exact ⟨hauth, hheld.mayControl hmay⟩
  · rw [hreturned] at hpanicked
    cases hpanicked

end Held

/-! ## The delegate found at the acceptance -/

/-- A delegate of a stream that has not ended can make one more controlling
call. -/
theorem delegate_controls (host : Host) (ctx : Context) {w : World} {id : Nat}
    {s : Stream} {d : Address} (hs : w.streams id = some s)
    (hdelegate : s.delegate = some d) (hlive : isTerminal s.status = false)
    (hauth : d ∈ ctx.auth) :
    ∃ call, controller call = some d ∧ (∀ id ≤ u64Max,
      (Call.onStream id call).inRange = true) ∧
      Returns (exec host ctx (.onStream id call) w) := by
  have hmanager : StreamContract.requireManager w d id = .ok s :=
    (requireManager_eq_ok_iff w d id s).mpr ⟨hs, Or.inr hdelegate⟩
  have hsigned := (requireAuth_eq_ok_iff ctx d ()).mpr hauth
  rcases (isTerminal_eq_false_iff _).mp hlive with hactive | hpaused
  · refine ⟨.pauseStream d, rfl, fun _ => decide_eq_true, ?_⟩
    refine Returns.map ?_ _
    refine Returns.bind hsigned (Returns.bind hmanager ?_)
    refine Returns.ensure (by simp [hactive]) (Returns.ensure (by simp [hactive]) ?_)
    refine Returns.bind ((requireTransition_eq_ok_iff _ _ ()).mpr ?_)
      (Returns.of_eq rfl)
    rw [hactive]
    rfl
  · refine ⟨.resumeStream d, rfl, fun _ => decide_eq_true, ?_⟩
    refine Returns.map ?_ _
    refine Returns.bind hsigned (Returns.bind hmanager ?_)
    refine Returns.ensure (by simp [hpaused]) (Returns.ensure (by simp [hpaused]) ?_)
    refine Returns.bind ((requireTransition_eq_ok_iff _ _ ()).mpr ?_)
      (Returns.of_eq rfl)
    rw [hpaused]
    rfl

section Acceptance

variable {host : Host} {earlier : History} {accepted : Entry World Invocation}
  {id : Nat} {n : Address} {s : Stream}

/-- What an acceptance leaves: the new employer, and nobody pending. -/
theorem acceptance_after (hrun : Reaches host (accepted :: earlier) accepted.after)
    (haccepted : Made host id (.acceptEmployerTransfer n) accepted)
    (hs : accepted.before.streams id = some s) :
    accepted.after.streams id = some { s with employer := n } ∧
      accepted.after.pendingEmployer id = none := by
  obtain ⟨hreturned, hcall⟩ := haccepted
  obtain ⟨hbefore, ⟨_, value, hsucceeds⟩ | ⟨hpanicked, _⟩⟩ := hrun.newest_cases
  · obtain ⟨s₀, op, hs₀, hissues, _, hstored⟩ :=
      updated_of_succeeds hbefore hsucceeds hcall rfl
    obtain rfl : s = s₀ := Option.some.inj (hs.symm.trans hs₀)
    cases hissues with
    | changeEmployer _ _ _ =>
        refine ⟨hstored, ?_⟩
        cases pendingChange_of_succeeds hsucceeds id with
        | same _ hother => exact absurd hcall (hother n)
        | proposed _ _ hproposal =>
            rw [hcall] at hproposal
            cases hproposal
        | accepted _ _ _ _ hafter => exact hafter
  · rw [hreturned] at hpanicked
    cases hpanicked

/-- After the acceptance, the delegate it found can make one more controlling
call. -/
theorem delegate_acts_after (hrun : Reaches host (accepted :: earlier) accepted.after)
    (haccepted : Made host id (.acceptEmployerTransfer n) accepted)
    (hafter : accepted.after.streams id = some { s with employer := n })
    {d : Address} (hdelegate : s.delegate = some d)
    (hlive : isTerminal s.status = false) :
    ∃ entry call w, Reaches host (entry :: accepted :: earlier) w ∧
      Made host id call entry ∧ controller call = some d := by
  obtain ⟨call, hcontroller, hrange, ⟨value, w'⟩, hexec⟩ :=
    delegate_controls host ⟨accepted.input.now, [d]⟩ hafter hdelegate hlive
      List.mem_cons_self
  have hid : id ≤ u64Max := by
    have haccept := accepted.input.inRange
    rw [haccepted.2] at haccept
    exact of_decide_eq_true haccept
  obtain ⟨inv, hnow, hcall, hsucceeds⟩ : ∃ inv : Invocation,
      inv.now = accepted.input.now ∧ inv.call = .onStream id call ∧
        Succeeds host accepted.after inv value w' :=
    ⟨⟨⟨accepted.input.now, [d]⟩, .onStream id call, accepted.input.now_le,
      hrange id hid⟩, rfl, rfl, hexec⟩
  exact ⟨_, call, w', hrun.extend (le_of_eq hnow.symm) hsucceeds,
    ⟨hsucceeds.returned_eq, hcall⟩, hcontroller⟩

/-- A delegate that is the new employer's own leaves the stream held from it. -/
theorem heldFrom_acceptance (hafter : accepted.after.streams id =
      some { s with employer := n } ∧ accepted.after.pendingEmployer id = none)
    (hown : isTerminal s.status = true ∨ ∀ d, s.delegate = some d →
      d = n ∨ SetsDelegate host id earlier n d) :
    HeldFrom host id n [] (accepted :: earlier) accepted.after
      { s with employer := n } := by
  refine ⟨hafter.1, .refl, ?_, ?_⟩
  · intro y hy
    rw [hafter.2] at hy
    cases hy
  · intro d hd hlive
    rcases hown with hended | hown
    · change isTerminal s.status = false at hlive
      rw [hended] at hlive
      cases hlive
    · refine ⟨n, .refl, ?_⟩
      rcases hown d hd with hself | ⟨setting, hmem, hmade⟩
      · exact Or.inl hself
      · exact Or.inr ⟨setting, List.mem_cons_of_mem accepted hmem, hmade⟩

/-- The handover of a stream is complete, whatever happens next, exactly when the
delegate it finds is the new employer or one it set itself, or there is none, or
the stream has ended. -/
theorem employer_handover_iff
    (hrun : Reaches host (accepted :: earlier) accepted.after)
    (haccepted : Made host id (.acceptEmployerTransfer n) accepted)
    (hs : accepted.before.streams id = some s) :
    (∀ later w, Reaches host (later ++ accepted :: earlier) w →
      ControlledFrom host id n later (accepted :: earlier)) ↔
    (isTerminal s.status = true ∨ ∀ d, s.delegate = some d →
      d = n ∨ SetsDelegate host id earlier n d) := by
  have hafter := acceptance_after hrun haccepted hs
  constructor
  · intro hcontrolled
    by_contra hnot
    obtain ⟨hlive, hother⟩ := not_or.mp hnot
    push Not at hother
    obtain ⟨d, hdelegate, hdn, hforeign⟩ := hother
    rw [Bool.not_eq_true] at hlive
    -- the delegate of the former employer makes one more call
    obtain ⟨entry, call, w, hextended, hmade, hcontroller⟩ :=
      delegate_acts_after hrun haccepted hafter.1 hdelegate hlive
    obtain ⟨_, m, hdown, hrole⟩ := hcontrolled [entry] w hextended [] entry [] rfl
      call d hmade hcontroller
    obtain rfl := eq_of_handedDown_nil hdown
    rcases hrole with hself | ⟨setting, hmem, hset⟩
    · exact hdn hself
    · rcases List.mem_cons.mp hmem with rfl | hbefore
      · have hcall := haccepted.2.symm.trans hset.2
        cases hcall
      · exact hforeign ⟨setting, hbefore, hset⟩
  · intro hown later w hlater
    exact (heldFrom_acceptance hafter hown).controlledFrom hlater

end Acceptance

/-- The treasury takes over a stream without a delegate, sets one, and the
delegate pauses the stream. -/
theorem handover_complete_of_no_delegate :
    ∃ later earlier accepted w, Reaches Sample.host (later ++ accepted :: earlier) w ∧
      Made Sample.host 1 (.acceptEmployerTransfer Sample.treasury) accepted ∧
      (∃ entry ∈ later, Made Sample.host 1 (.pauseStream Sample.admin) entry) ∧
      ControlledFrom Sample.host 1 Sample.treasury later (accepted :: earlier) := by
  have hrun := Sample.play_reaches [
    Sample.openStream 11 2000 20 0,
    Sample.manage 21 (.proposeEmployerTransfer Sample.employer Sample.treasury),
    Sample.invoke 31 Sample.treasury
      (.onStream 1 (.acceptEmployerTransfer Sample.treasury)),
    Sample.invoke 41 Sample.treasury
      (.onStream 1 (.setDelegate Sample.treasury (some Sample.admin))),
    Sample.invoke 51 Sample.admin (.onStream 1 (.pauseStream Sample.admin))]
    (by decide)
  have haccepted := Sample.play_reaches [
    Sample.openStream 11 2000 20 0,
    Sample.manage 21 (.proposeEmployerTransfer Sample.employer Sample.treasury),
    Sample.invoke 31 Sample.treasury
      (.onStream 1 (.acceptEmployerTransfer Sample.treasury))] (by decide)
  refine ⟨[_, _], _, _, _, hrun, ⟨rfl, rfl⟩, ⟨_, List.mem_cons_self, rfl, rfl⟩,
    (employer_handover_iff haccepted ⟨rfl, rfl⟩ rfl).mpr (Or.inr ?_) [_, _] _ hrun⟩
  intro d hd
  cases hd

/-- The former employer has made itself the delegate, and pauses the stream
after the treasury has taken it over. -/
theorem handover_leaves_former_employer :
    ∃ later earlier accepted w, Reaches Sample.host (later ++ accepted :: earlier) w ∧
      Made Sample.host 1 (.acceptEmployerTransfer Sample.treasury) accepted ∧
      (∃ entry ∈ later, Made Sample.host 1 (.pauseStream Sample.employer) entry ∧
        entry.input.auth = [Sample.employer] ∧
        employerOf 1 entry.before = some Sample.treasury) ∧
      ¬ ControlledFrom Sample.host 1 Sample.treasury later
        (accepted :: earlier) := by
  have hrun := Sample.play_reaches [
    Sample.openStream 11 2000 20 0,
    Sample.manage 16 (.setDelegate Sample.employer (some Sample.employer)),
    Sample.manage 21 (.proposeEmployerTransfer Sample.employer Sample.treasury),
    Sample.invoke 31 Sample.treasury
      (.onStream 1 (.acceptEmployerTransfer Sample.treasury)),
    Sample.manage 41 (.pauseStream Sample.employer)] (by decide)
  refine ⟨[_], _, _, _, hrun, ⟨rfl, rfl⟩,
    ⟨_, List.mem_cons_self, ⟨rfl, rfl⟩, rfl, rfl⟩, ?_⟩
  intro hcontrolled
  obtain ⟨_, m, hdown, hrole⟩ := hcontrolled [] _ [] rfl
    (.pauseStream Sample.employer) Sample.employer ⟨rfl, rfl⟩ rfl
  obtain rfl := eq_of_handedDown_nil hdown
  rcases hrole with hself | ⟨setting, hmem, _, hcall⟩
  · exact absurd hself (by decide)
  · simp only [List.nil_append, List.mem_cons, List.not_mem_nil, or_false] at hmem
    rcases hmem with rfl | rfl | rfl | rfl
    · cases hcall
    · cases hcall
    · cases hcall
    · cases hcall

end Properties
end Paystream
