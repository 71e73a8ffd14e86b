import Paystream.Semantics.Steps

/-!
# Handing over the administrator

The administrator is meant to change in two steps: the sitting one proposes,
the proposed one accepts.  Three calls write the two stored values, and one of
them does not belong to the handover: `initialize` may be called again at any
time, by anybody, and stores its caller.

`handover_iff` says that this is the only way around the handover.  In a run
that starts with an `initialize`, every change of the administrator is an
acceptance of a proposal of the one who was sitting, exactly when no later
`initialize` was signed by somebody else than the sitting administrator.
-/

namespace Paystream
namespace Properties

open Library
open Contract
open Contract.Storage
open Semantics

/-! ## What a call does to the administrator -/

/-- The calls that write the administrator or the pending one, with what they
ask for and leave; every other call leaves both. -/
inductive AdminChange (ctx : Context) (w w' : World) (call : Call) : Prop
  | initialized (admin : Address)
      (hcall : call = .admin (.initializeContract admin))
      (hauth : admin ∈ ctx.auth) (hadmin : w'.admin = some admin)
      (hpending : w'.pendingAdmin = w.pendingAdmin)
  | proposed (current new : Address)
      (hcall : call = .admin (.proposeAdmin current new))
      (hauth : current ∈ ctx.auth) (hcurrent : w.admin = some current)
      (hadmin : w'.admin = w.admin) (hpending : w'.pendingAdmin = some new)
  | accepted (new : Address) (hcall : call = .admin (.acceptAdmin new))
      (hauth : new ∈ ctx.auth) (hproposed : w.pendingAdmin = some new)
      (hadmin : w'.admin = some new) (hpending : w'.pendingAdmin = none)
  | none (hadmin : w'.admin = w.admin)
      (hpending : w'.pendingAdmin = w.pendingAdmin)

theorem adminChange_of_succeeds {host : Host} {w w' : World} {inv : Invocation}
    {value : Value} (h : Succeeds host w inv value w') :
    AdminChange inv.toContext w w' inv.call := by
  rcases (effect_of_succeeds h).settings_cases with
    ⟨call, hcall, hguard, rfl⟩ | ⟨call, _, hframe⟩ | hsettings
  · rw [hcall]
    cases call with
    | initializeContract admin => exact .initialized admin rfl hguard rfl rfl
    | proposeAdmin current new =>
        exact .proposed current new rfl hguard.1 hguard.2 rfl rfl
    | acceptAdmin new => exact .accepted new rfl hguard.1 hguard.2 rfl rfl
    | addAllowedToken admin token =>
        -- the only setter that writes nothing in one of its branches
        refine .none ?_ ?_
        · simp only [adminNext, Storage.addAllowedToken]
          split <;> rfl
        · simp only [adminNext, Storage.addAllowedToken]
          split <;> rfl
    | _ => exact .none rfl rfl
  · exact .none hframe.admin hframe.pendingAdmin
  · exact .none (congrArg Settings.admin hsettings)
      (congrArg Settings.pendingAdmin hsettings)

/-- A signed `initialize` always returns and stores its signer. -/
theorem initialize_after {host : Host} {entry : Entry World Invocation}
    {admin : Address} (hstep : entry.after = step host entry.before entry.input)
    (hcall : entry.input.call = .admin (.initializeContract admin))
    (hsigned : admin ∈ entry.input.auth) :
    entry.after = setAdmin entry.before admin := by
  have hreturned : Succeeds host entry.before entry.input .unit
      (setAdmin entry.before admin) := by
    unfold Succeeds
    rw [hcall]
    show unitResult (execAdmin entry.input.toContext
      (.initializeContract admin) entry.before) = _
    rw [unitResult_eq_ok_iff, execAdmin_eq_ok_iff]
    exact ⟨⟨hsigned, rfl⟩, rfl⟩
  exact hstep.trans (step_eq_of_succeeds hreturned)

/-! ## Handovers -/

/-- The entry is `propose_admin(x, y)`, signed by `x` while `x` was the
administrator. -/
def Proposes (entry : Entry World Invocation) (x y : Address) : Prop :=
  entry.input.call = .admin (.proposeAdmin x y) ∧ x ∈ entry.input.auth ∧
    entry.before.admin = some x

/-- If the entry changed the administrator, it is an acceptance signed by the
new one, whom the old one had proposed in an earlier entry. -/
def HandedOver (earlier : History) (entry : Entry World Invocation) : Prop :=
  ∀ x y, entry.before.admin = some x → entry.after.admin = some y → x ≠ y →
    entry.input.call = .admin (.acceptAdmin y) ∧ y ∈ entry.input.auth ∧
      ∃ proposal ∈ earlier, Proposes proposal x y

/-- Every change of the administrator in these entries was a handover. -/
def ChangesByHandover : History → Prop
  | [] => True
  | entry :: earlier => HandedOver earlier entry ∧ ChangesByHandover earlier

/-- The address is the first administrator, or a sitting administrator proposed
it. -/
def Entitled (first : Address) (history : History) (y : Address) : Prop :=
  y = first ∨ ∃ proposal ∈ history, ∃ x, Proposes proposal x y

/-- No `initialize` of these entries was signed by anybody but the sitting
administrator. -/
def NoReinitialization (history : History) : Prop :=
  ∀ entry ∈ history, ∀ admin,
    entry.input.call = .admin (.initializeContract admin) →
    admin ∈ entry.input.auth → entry.before.admin = some admin

theorem ChangesByHandover.of_split {newer earlier : History}
    {entry : Entry World Invocation}
    (h : ChangesByHandover (newer ++ entry :: earlier)) :
    HandedOver earlier entry := by
  induction newer with
  | nil => exact h.1
  | cons newest newer ih => exact ih h.2

theorem Entitled.cons {first y : Address} {history : History}
    (h : Entitled first history y) (entry : Entry World Invocation) :
    Entitled first (entry :: history) y := by
  rcases h with hfirst | ⟨proposal, hmem, x, hproposes⟩
  · exact Or.inl hfirst
  · exact Or.inr ⟨proposal, List.mem_cons_of_mem entry hmem, x, hproposes⟩

/-! ## Runs that start with an initialization -/

section Initialized

variable {host : Host} {first : Entry World Invocation} {admin : Address}

/-- The first entry stores its signer, and nobody is pending. -/
theorem first_after {w : World} (hrun : Reaches host [first] w)
    (hcall : first.input.call = .admin (.initializeContract admin))
    (hsigned : admin ∈ first.input.auth) :
    w.admin = some admin ∧ w.pendingAdmin = none := by
  obtain ⟨hstart, hstep, rfl⟩ := hrun.of_cons
  obtain ⟨balances, _, hdeployed⟩ := hstart.of_nil
  rw [initialize_after hstep hcall hsigned, hdeployed]
  exact ⟨rfl, rfl⟩

/-- From the first entry on there is an administrator. -/
theorem admin_isSome {later : History} {w : World}
    (hrun : Reaches host (later ++ [first]) w)
    (hcall : first.input.call = .admin (.initializeContract admin))
    (hsigned : admin ∈ first.input.auth) : ∃ x, w.admin = some x := by
  induction later generalizing w with
  | nil => exact ⟨admin, (first_after hrun hcall hsigned).1⟩
  | cons entry earlier ih =>
      obtain ⟨hearlier, hstep, rfl⟩ := hrun.of_cons
      obtain ⟨x, hx⟩ := ih hearlier
      rw [hstep]
      rcases step_cases host entry.before entry.input with
        ⟨value, hreturned⟩ | ⟨_, hreverted⟩
      · cases adminChange_of_succeeds hreturned with
        | initialized new _ _ hadmin => exact ⟨new, hadmin⟩
        | proposed _ _ _ _ _ hadmin => exact ⟨x, hadmin.trans hx⟩
        | accepted new _ _ _ hadmin => exact ⟨new, hadmin⟩
        | none hadmin => exact ⟨x, hadmin.trans hx⟩
      · exact ⟨x, (congrArg World.admin hreverted).trans hx⟩

/-- What holds along such a run when nobody initializes again. -/
structure HandoverInvariant (admin : Address) (later : History) (w : World) :
    Prop where
  changes : ChangesByHandover later
  reached : ∀ entry ∈ later, ∀ y, entry.after.admin = some y →
    Entitled admin later y
  current : ∃ x, w.admin = some x ∧ Entitled admin later x
  pending : ∀ y, w.pendingAdmin = some y →
    ∃ x, w.admin = some x ∧ ∃ proposal ∈ later, Proposes proposal x y

/-- An entry that leaves the administrator alone; a new pending one must have
been proposed. -/
theorem HandoverInvariant.keep {earlier : History}
    {entry : Entry World Invocation}
    (h : HandoverInvariant admin earlier entry.before)
    (hadmin : entry.after.admin = entry.before.admin)
    (hpending : ∀ y, entry.after.pendingAdmin = some y →
      entry.before.pendingAdmin = some y ∨
        ∃ x, entry.before.admin = some x ∧ Proposes entry x y) :
    HandoverInvariant admin (entry :: earlier) entry.after := by
  obtain ⟨x, hx, hentitled⟩ := h.current
  refine ⟨⟨?_, h.changes⟩, ?_, ⟨x, hadmin.trans hx, hentitled.cons entry⟩, ?_⟩
  · intro x' y hbefore hafter hne
    rw [hadmin, hbefore] at hafter
    exact absurd (Option.some.inj hafter) hne
  · intro made hmade y hy
    rcases List.mem_cons.mp hmade with rfl | hold
    · rw [hadmin, hx] at hy
      cases hy
      exact hentitled.cons made
    · exact (h.reached made hold y hy).cons entry
  · intro y hy
    rcases hpending y hy with hold | ⟨x', hx', hproposes⟩
    · obtain ⟨x', hx', proposal, hmem, hproposes⟩ := h.pending y hold
      exact ⟨x', hadmin.trans hx', proposal, List.mem_cons_of_mem entry hmem,
        hproposes⟩
    · exact ⟨x', hadmin.trans hx', entry, List.mem_cons_self, hproposes⟩

/-- An acceptance of the pending administrator. -/
theorem HandoverInvariant.accept {earlier : History}
    {entry : Entry World Invocation} {new : Address}
    (h : HandoverInvariant admin earlier entry.before)
    (hcall : entry.input.call = .admin (.acceptAdmin new))
    (hauth : new ∈ entry.input.auth)
    (hproposed : entry.before.pendingAdmin = some new)
    (hadmin : entry.after.admin = some new)
    (hpending : entry.after.pendingAdmin = none) :
    HandoverInvariant admin (entry :: earlier) entry.after := by
  -- whoever is pending was proposed by the one still sitting
  obtain ⟨x, hx, proposal, hmem, hproposes⟩ := h.pending new hproposed
  have hentitled : Entitled admin (entry :: earlier) new :=
    Or.inr ⟨proposal, List.mem_cons_of_mem entry hmem, x, hproposes⟩
  refine ⟨⟨?_, h.changes⟩, ?_, ⟨new, hadmin, hentitled⟩, ?_⟩
  · intro x' y hbefore hafter _
    rw [hx] at hbefore
    rw [hadmin] at hafter
    cases hbefore
    cases hafter
    exact ⟨hcall, hauth, proposal, hmem, hproposes⟩
  · intro made hmade y hy
    rcases List.mem_cons.mp hmade with rfl | hold
    · rw [hadmin] at hy
      cases hy
      exact hentitled
    · exact (h.reached made hold y hy).cons entry
  · intro y hy
    rw [hpending] at hy
    cases hy

theorem handoverInvariant_of_reaches {later : History} {w : World}
    (hrun : Reaches host (later ++ [first]) w)
    (hcall : first.input.call = .admin (.initializeContract admin))
    (hsigned : admin ∈ first.input.auth) (hnever : NoReinitialization later) :
    HandoverInvariant admin later w := by
  induction later generalizing w with
  | nil =>
      obtain ⟨hadmin, hpending⟩ := first_after hrun hcall hsigned
      refine ⟨trivial, ?_, ⟨admin, hadmin, Or.inl rfl⟩, ?_⟩
      · intro entry hentry
        cases hentry
      · intro y hy
        rw [hpending] at hy
        cases hy
  | cons entry earlier ih =>
      obtain ⟨hearlier, hstep, rfl⟩ := hrun.of_cons
      have hbefore := ih hearlier
        (fun made hmade => hnever made (List.mem_cons_of_mem entry hmade))
      rcases step_cases host entry.before entry.input with
        ⟨value, hreturned⟩ | ⟨_, hreverted⟩
      · change Succeeds host entry.before entry.input value
          ((system host).step entry.before entry.input) at hreturned
        rw [← hstep] at hreturned
        cases adminChange_of_succeeds hreturned with
        | initialized new hinit hauth hadmin hpending =>
            -- only the sitting administrator may have done that
            have hsame := hnever entry List.mem_cons_self new hinit hauth
            refine hbefore.keep (hadmin.trans hsame.symm) ?_
            intro y hy
            exact Or.inl (hpending.symm.trans hy)
        | proposed current new hpropose hauth hcurrent hadmin hpending =>
            refine hbefore.keep hadmin ?_
            intro y hy
            rw [hpending] at hy
            cases hy
            exact Or.inr ⟨current, hcurrent, hpropose, hauth, hcurrent⟩
        | accepted new haccept hauth hproposed hadmin hpending =>
            exact hbefore.accept haccept hauth hproposed hadmin hpending
        | none hadmin hpending =>
            refine hbefore.keep hadmin ?_
            intro y hy
            exact Or.inl (hpending.symm.trans hy)
      · have hsame : entry.after = entry.before := hstep.trans hreverted
        refine hbefore.keep (congrArg World.admin hsame) ?_
        intro y hy
        rw [hsame] at hy
        exact Or.inl hy

/-- In a run that starts with `initialize`, the administrator changes only by
handovers, and only entitled addresses ever sit, exactly when no later
`initialize` is signed by anybody but the sitting administrator. -/
theorem handover_iff {later : History} {w : World}
    (hrun : Reaches host (later ++ [first]) w)
    (hcall : first.input.call = .admin (.initializeContract admin))
    (hsigned : admin ∈ first.input.auth) :
    (ChangesByHandover later ∧ ∀ entry ∈ later, ∀ y,
      entry.after.admin = some y → Entitled admin later y) ↔
      NoReinitialization later := by
  constructor
  · rintro ⟨hchanges, _⟩ entry hentry new hinit hauth
    obtain ⟨newer, earlier, rfl⟩ := List.append_of_mem hentry
    have hsplit : Reaches host (newer ++ entry :: (earlier ++ [first])) w := by
      simpa using hrun
    obtain ⟨hbefore, hstep, _⟩ := hsplit.of_split
    obtain ⟨x, hx⟩ := admin_isSome hbefore hcall hsigned
    by_contra hother
    have hafter : entry.after.admin = some new := by
      rw [initialize_after hstep hinit hauth]
      rfl
    have hne : x ≠ new := by
      rintro rfl
      exact hother hx
    have haccept := (hchanges.of_split x new hx hafter hne).1
    rw [hinit] at haccept
    cases haccept
  · intro hnever
    have hinvariant := handoverInvariant_of_reaches hrun hcall hsigned hnever
    exact ⟨hinvariant.changes, hinvariant.reached⟩

end Initialized

/-- The administrator proposes the treasury, and the treasury accepts. -/
theorem handover_of_acceptance :
    ∃ later first w, Reaches Sample.host (later ++ [first]) w ∧
      w.admin = some Sample.treasury ∧ ChangesByHandover later ∧
      ∀ entry ∈ later, ∀ y, entry.after.admin = some y →
        Entitled Sample.admin later y := by
  have hrun := Sample.play_reaches [
    Sample.invoke 1 Sample.admin (.admin (.initializeContract Sample.admin)),
    Sample.invoke 2 Sample.admin
      (.admin (.proposeAdmin Sample.admin Sample.treasury)),
    Sample.invoke 3 Sample.treasury (.admin (.acceptAdmin Sample.treasury))]
    (by decide)
  refine ⟨[_, _], _, _, hrun, by decide,
    (handover_iff hrun rfl (by decide)).mpr ?_⟩
  intro entry hentry admin hcall
  simp only [List.mem_cons, List.not_mem_nil, or_false] at hentry
  rcases hentry with rfl | rfl
  · cases hcall
  · cases hcall

/-- The treasury initializes again and becomes administrator, with no proposal
in the whole run. -/
theorem reinitialization_takes_over :
    ∃ later first w, Reaches Sample.host (later ++ [first]) w ∧
      first.input.call = .admin (.initializeContract Sample.admin) ∧
      Sample.admin ∈ first.input.auth ∧ first.after.admin = some Sample.admin ∧
      w.admin = some Sample.treasury ∧
      (∀ entry ∈ later, ∀ x y, ¬ Proposes entry x y) ∧
      ¬ ChangesByHandover later := by
  have hrun := Sample.play_reaches [
    Sample.invoke 1 Sample.admin (.admin (.initializeContract Sample.admin)),
    Sample.invoke 2 Sample.treasury
      (.admin (.initializeContract Sample.treasury))] (by decide)
  refine ⟨[_], _, _, hrun, rfl, by decide, by decide, by decide, ?_, ?_⟩
  · intro entry hentry x y hproposes
    rw [List.mem_singleton] at hentry
    subst hentry
    cases hproposes.1
  · rintro ⟨hhanded, _⟩
    have haccept := (hhanded Sample.admin Sample.treasury (by decide) (by decide)
      (by decide)).1
    cases haccept

end Properties
end Paystream
