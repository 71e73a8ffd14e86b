import Paystream.Properties.Availability
import Paystream.Semantics.Refinement

/-!
# Which calls on a stream return

`Admits` says of every call on a stream who must have signed it, in which status
the stream must be, and what the call asks of the clock, the arguments and the
caller's tokens.  In every state of a run without payouts of fees a call returns
exactly if the stream is stored and admits it (`call_returns_iff`): no check of the
arithmetic, the lock, the table of transitions or the contract's own balance refuses
anything else.
-/

namespace Paystream
namespace Properties

open Library
open Contract
open Contract.Storage
open Contract.StreamContract
open Semantics

def Admits (ctx : Context) (w : World) (id : Nat) (s : Stream) : StreamCall → Prop
  | .transferStream employee _ =>
      employee ∈ ctx.auth ∧ employee = s.employee ∧
        (s.status = .active ∨ s.status = .paused)
  | .topUp caller amount =>
      caller ∈ ctx.auth ∧ Manages caller s ∧
        (s.status = .active ∨ s.status = .paused) ∧ 0 < amount ∧
        amount ≤ w.balances s.token caller ∧ s.deposit + amount ≤ i128Max
  | .pauseStream caller =>
      caller ∈ ctx.auth ∧ Manages caller s ∧ s.status = .active
  | .resumeStream caller =>
      caller ∈ ctx.auth ∧ Manages caller s ∧ s.status = .paused
  | .setDelegate employer _ => employer ∈ ctx.auth ∧ employer = s.employer
  | .proposeEmployerTransfer employer _ => employer ∈ ctx.auth ∧ employer = s.employer
  | .acceptEmployerTransfer newEmployer =>
      newEmployer ∈ ctx.auth ∧ w.pendingEmployer id = some newEmployer
  | call => ExplicitGuards ctx w s call

/-! ## What a call that returned has checked -/

section Checked

variable {host : Host} {ctx : Context} {w w' : World} {id : Nat} {value : Value}

theorem admits_of_returns {call : StreamCall}
    (htokens : AllTokens host.tokens TokenLaw.Honest)
    (h : execOnStream host ctx id call w = .ok (value, w')) :
    ∃ s, w.streams id = some s ∧ Admits ctx w id s call := by
  cases call with
  | withdraw employee =>
      simp only [execOnStream, map_eq_ok_iff, withdraw, bind_eq_ok_iff,
        requireAuth_eq_ok_iff, ensure_eq_ok_iff, requireEmployeeById_eq_ok_iff,
        decide_eq_true_eq, Bool.not_eq_true'] at h
      obtain ⟨_, ⟨_, hauth, _, hpaused, s, ⟨hs, hrole⟩, _, hstatus, _, hcooldown, _⟩, _⟩ := h
      exact ⟨s, hs, hauth, hrole, hpaused, hstatus, hcooldown⟩
  | transferStream employee newEmployee =>
      simp only [execOnStream, unitResult_eq_ok_iff, transferStream, bind_eq_ok_iff,
        requireAuth_eq_ok_iff, ensure_eq_ok_iff, requireEmployeeById_eq_ok_iff,
        decide_eq_true_eq] at h
      obtain ⟨⟨_, hauth, s, ⟨hs, hrole⟩, _, hstatus, _⟩, _⟩ := h
      exact ⟨s, hs, hauth, hrole, hstatus⟩
  | topUp caller amount =>
      simp only [execOnStream, unitResult_eq_ok_iff, topUp, bind_eq_ok_iff,
        requireAuth_eq_ok_iff, ensure_eq_ok_iff, requireManager_eq_ok_iff,
        validateTopUp_eq_ok_iff, requireNotTerminal_eq_ok_iff,
        isTerminal_eq_false_iff, expect_eq_ok_iff, checkedAdd_eq_some_iff] at h
      obtain ⟨⟨_, hauth, _, hpos, s, ⟨hs, hrole⟩, _, _, _, _, _, hlive, w₁, hmove,
        _, ⟨hrange, _⟩, _⟩, _⟩ := h
      refine ⟨s, hs, hauth, hrole, hlive, hpos, ?_, hrange.2⟩
      obtain ⟨balances, hperform, _⟩ := (tokenTransfer_eq_ok_iff _ _ _ _).mp hmove
      exact covered_of_perform htokens hperform
  | pauseStream caller =>
      simp only [execOnStream, unitResult_eq_ok_iff, pauseStream, bind_eq_ok_iff,
        requireAuth_eq_ok_iff, ensure_eq_ok_iff, requireManager_eq_ok_iff,
        decide_eq_true_eq] at h
      obtain ⟨⟨_, hauth, s, ⟨hs, hrole⟩, _, _, _, hactive, _⟩, _⟩ := h
      exact ⟨s, hs, hauth, hrole, hactive⟩
  | resumeStream caller =>
      simp only [execOnStream, unitResult_eq_ok_iff, resumeStream, bind_eq_ok_iff,
        requireAuth_eq_ok_iff, ensure_eq_ok_iff, requireManager_eq_ok_iff,
        decide_eq_true_eq] at h
      obtain ⟨⟨_, hauth, s, ⟨hs, hrole⟩, _, _, _, hpaused, _⟩, _⟩ := h
      exact ⟨s, hs, hauth, hrole, hpaused⟩
  | cancelStream employer =>
      simp only [execOnStream, unitResult_eq_ok_iff, cancelStream, bind_eq_ok_iff,
        requireAuth_eq_ok_iff, ensure_eq_ok_iff, requireEmployerById_eq_ok_iff,
        decide_eq_true_eq] at h
      obtain ⟨⟨_, hauth, s, ⟨hs, hrole⟩, _, hlive, _⟩, _⟩ := h
      exact ⟨s, hs, hauth, hrole, hlive⟩
  | setDelegate employer delegate =>
      simp only [execOnStream, unitResult_eq_ok_iff, setDelegate, bind_eq_ok_iff,
        requireAuth_eq_ok_iff, requireEmployerById_eq_ok_iff] at h
      obtain ⟨⟨_, hauth, s, ⟨hs, hrole⟩, _⟩, _⟩ := h
      exact ⟨s, hs, hauth, hrole⟩
  | proposeEmployerTransfer employer newEmployer =>
      simp only [execOnStream, unitResult_eq_ok_iff, proposeEmployerTransfer,
        bind_eq_ok_iff, requireAuth_eq_ok_iff, requireEmployerById_eq_ok_iff] at h
      obtain ⟨⟨_, hauth, s, ⟨hs, hrole⟩, _⟩, _⟩ := h
      exact ⟨s, hs, hauth, hrole⟩
  | acceptEmployerTransfer newEmployer =>
      simp only [execOnStream, unitResult_eq_ok_iff, acceptEmployerTransfer,
        bind_eq_ok_iff, requireAuth_eq_ok_iff, requirePendingEmployer_eq_ok_iff,
        loadStream_eq_ok_iff] at h
      obtain ⟨⟨_, hauth, _, hpending, s, hs, _⟩, _⟩ := h
      exact ⟨s, hs, hauth, hpending⟩
  | updateRate employer newRate =>
      simp only [execOnStream, unitResult_eq_ok_iff, updateRate, bind_eq_ok_iff,
        requireAuth_eq_ok_iff, ensure_eq_ok_iff, requireEmployerById_eq_ok_iff,
        decide_eq_true_eq] at h
      obtain ⟨⟨_, hauth, _, hpos, _, hmax, s, ⟨hs, hrole⟩, _, hactive, _⟩, _⟩ := h
      exact ⟨s, hs, hauth, hrole, hactive, hpos, hmax⟩
  | getStream =>
      simp only [execOnStream, map_eq_ok_iff, getStream, bind_eq_ok_iff,
        loadStream_eq_ok_iff] at h
      obtain ⟨_, ⟨s, hs, _⟩, _⟩ := h
      exact ⟨s, hs, trivial⟩
  | reclaimExpired employer =>
      simp only [execOnStream, unitResult_eq_ok_iff, reclaimExpired, bind_eq_ok_iff,
        requireAuth_eq_ok_iff, ensure_eq_ok_iff, requireEmployerById_eq_ok_iff,
        decide_eq_true_eq] at h
      obtain ⟨⟨_, hauth, s, ⟨hs, hrole⟩, _, hlive, _, hexpired, _⟩, _⟩ := h
      exact ⟨s, hs, hauth, hrole, hlive, hexpired⟩

end Checked

/-! ## What returns -/

section Admitted

variable {host : Host} {ctx : Context} {w : World} {id : Nat} {s : Stream}

theorem topUp_returns (htokens : AllTokens host.tokens TokenLaw.Honest)
    (hpayable : Payable host w id s) {caller : Address} {amount : Int}
    (h : Admits ctx w id s (.topUp caller amount)) :
    Returns (topUp host ctx caller id amount w) := by
  obtain ⟨hauth, hrole, hlive, hpos, hcovered, hmax⟩ := h
  have hbounds := hpayable.toAmountsInBounds
  have hwithdrawn := hbounds.withdrawn_nonneg
  have hle := hbounds.withdrawn_le
  have hrange : InI128 (s.deposit + amount) := by
    have hmin : i128Min ≤ 0 := by decide
    exact ⟨by omega, hmax⟩
  have hnot : s.status ≠ .cancelled ∧ s.status ≠ .exhausted := by
    rcases hlive with hstatus | hstatus <;> simp [hstatus]
  let transfer : TokenTransfer := ⟨.topUp s.id, s.token, caller, host.self, amount⟩
  obtain ⟨balances, hperform⟩ : ∃ balances,
      perform host.tokens transfer w.balances = some balances :=
    perform_of_covered htokens hpayable.token_answers hpos.le hcovered
  unfold topUp
  refine Returns.bind ((requireAuth_eq_ok_iff _ _ ()).mpr hauth) ?_
  refine Returns.bind ((validateTopUp_eq_ok_iff _ ()).mpr hpos) ?_
  refine Returns.bind ((requireManager_eq_ok_iff _ _ _ _).mpr
    ⟨hpayable.stored, hrole⟩) ?_
  refine Returns.ensure (decide_eq_true hnot.1) ?_
  refine Returns.ensure (decide_eq_true hnot.2) ?_
  refine Returns.bind ((requireNotTerminal_eq_ok_iff _ ()).mpr
    ((isTerminal_eq_false_iff _).mpr hlive)) ?_
  refine Returns.bind ((tokenTransfer_eq_ok_iff _ _ _ _).mpr
    ⟨balances, hperform, rfl⟩) ?_
  exact Returns.bind ((expect_eq_ok_iff _ _ _).mpr
    ((checkedAdd_eq_some_iff _ _ _).mpr ⟨hrange, rfl⟩)) (Returns.of_eq rfl)

theorem pauseStream_returns (hs : w.streams id = some s) {caller : Address}
    (h : Admits ctx w id s (.pauseStream caller)) :
    Returns (pauseStream ctx caller id w) := by
  obtain ⟨hauth, hrole, hactive⟩ := h
  unfold pauseStream
  refine Returns.bind ((requireAuth_eq_ok_iff _ _ ()).mpr hauth) ?_
  refine Returns.bind ((requireManager_eq_ok_iff _ _ _ _).mpr ⟨hs, hrole⟩) ?_
  refine Returns.ensure (by simp [hactive]) ?_
  refine Returns.ensure (decide_eq_true hactive) ?_
  exact Returns.bind ((requireTransition_eq_ok_iff _ _ ()).mpr (by rw [hactive]; rfl))
    (Returns.of_eq rfl)

theorem resumeStream_returns (hs : w.streams id = some s) {caller : Address}
    (h : Admits ctx w id s (.resumeStream caller)) :
    Returns (resumeStream ctx caller id w) := by
  obtain ⟨hauth, hrole, hpaused⟩ := h
  unfold resumeStream
  refine Returns.bind ((requireAuth_eq_ok_iff _ _ ()).mpr hauth) ?_
  refine Returns.bind ((requireManager_eq_ok_iff _ _ _ _).mpr ⟨hs, hrole⟩) ?_
  refine Returns.ensure (by simp [hpaused]) ?_
  refine Returns.ensure (decide_eq_true hpaused) ?_
  exact Returns.bind ((requireTransition_eq_ok_iff _ _ ()).mpr (by rw [hpaused]; rfl))
    (Returns.of_eq rfl)

theorem transferStream_returns (hs : w.streams id = some s)
    {employee newEmployee : Address}
    (h : Admits ctx w id s (.transferStream employee newEmployee)) :
    Returns (transferStream ctx employee id newEmployee w) := by
  obtain ⟨hauth, hrole, hlive⟩ := h
  unfold transferStream
  refine Returns.bind ((requireAuth_eq_ok_iff _ _ ()).mpr hauth) ?_
  refine Returns.bind ((requireEmployeeById_eq_ok_iff _ _ _ _).mpr ⟨hs, hrole⟩) ?_
  exact Returns.ensure (decide_eq_true hlive) (Returns.of_eq rfl)

/-- A check of the signature and of the employer, then no other. -/
theorem returns_of_employer {employer : Address} (hs : w.streams id = some s)
    (hauth : employer ∈ ctx.auth) (hrole : employer = s.employer)
    (write : Stream → World) :
    Returns (requireAuth ctx employer >>= fun _ =>
      requireEmployerById w employer id >>= fun stream => pure (write stream)) :=
  Returns.bind ((requireAuth_eq_ok_iff _ _ ()).mpr hauth)
    (Returns.bind ((requireEmployerById_eq_ok_iff _ _ _ _).mpr ⟨hs, hrole⟩)
      (Returns.of_eq rfl))

theorem acceptEmployerTransfer_returns (hs : w.streams id = some s)
    {newEmployer : Address} (h : Admits ctx w id s (.acceptEmployerTransfer newEmployer)) :
    Returns (acceptEmployerTransfer ctx newEmployer id w) := by
  obtain ⟨hauth, hpending⟩ := h
  unfold acceptEmployerTransfer
  refine Returns.bind ((requireAuth_eq_ok_iff _ _ ()).mpr hauth) ?_
  refine Returns.bind ((requirePendingEmployer_eq_ok_iff _ _ _ ()).mpr hpending) ?_
  exact Returns.bind ((loadStream_eq_ok_iff _ _ _).mpr hs) (Returns.of_eq rfl)

theorem returns_of_admits (htokens : AllTokens host.tokens TokenLaw.Honest)
    (hpayable : Payable host w id s) (hnow : ctx.now ≤ u64Max) {call : StreamCall}
    (h : Admits ctx w id s call) : Returns (execOnStream host ctx id call w) := by
  have hs := hpayable.stored
  cases call with
  | transferStream employee newEmployee => exact (transferStream_returns hs h).map _
  | topUp caller amount => exact (topUp_returns htokens hpayable h).map _
  | pauseStream caller => exact (pauseStream_returns hs h).map _
  | resumeStream caller => exact (resumeStream_returns hs h).map _
  | setDelegate employer delegate => exact (returns_of_employer hs h.1 h.2 _).map _
  | proposeEmployerTransfer employer newEmployer =>
      exact (returns_of_employer hs h.1 h.2 _).map _
  | acceptEmployerTransfer newEmployer =>
      exact (acceptEmployerTransfer_returns hs h).map _
  | withdraw _ | cancelStream _ | updateRate _ _ | getStream | reclaimExpired _ =>
      exact onStream_returns hpayable hnow htokens h

end Admitted

/-! ## Every run -/

theorem call_returns_iff {host : Host}
    (htokens : AllTokens host.tokens TokenLaw.Honest) {history : History} {w : World}
    (hrun : Reaches host history w) (hself : SelfNeverSigns host history)
    (hfee : FeeWithinLimit history) (hnever : NeverWithdrawsFees history)
    {ctx : Context} (hnow : ctx.now ≤ u64Max) (id : Nat) (call : StreamCall) :
    Returns (exec host ctx (.onStream id call) w) ↔
      ∃ s, w.streams id = some s ∧ Admits ctx w id s call := by
  constructor
  · rintro ⟨⟨value, w'⟩, hreturned⟩
    exact admits_of_returns htokens hreturned
  · rintro ⟨s, hs, hadmits⟩
    exact returns_of_admits htokens
      (payable_of_reaches htokens hrun hself hfee hnever hs) hnow hadmits

/-- After the withdrawal of the sample run the employee can name a successor at 90, and
cannot pause the stream. -/
theorem call_returns_iff_of_withdrawal :
    Returns (exec Sample.host ⟨90, [Sample.employee]⟩
        (.onStream 1 (.transferStream Sample.employee Sample.treasury))
        (Sample.play feeBearingRun).2) ∧
      ¬ Returns (exec Sample.host ⟨90, [Sample.employee]⟩
        (.onStream 1 (.pauseStream Sample.employee)) (Sample.play feeBearingRun).2) := by
  obtain ⟨hself, hfee, hnever⟩ := feeBearingRun_within
  have hreturns := @call_returns_iff _ Sample.host_honest _ _
    (Sample.play_reaches feeBearingRun (by decide)) hself hfee hnever
    ⟨90, [Sample.employee]⟩ (by decide) 1
  constructor
  · refine (hreturns _).mpr ?_
    obtain ⟨s, hs, hemployee, hactive⟩ : ∃ s,
        (Sample.play feeBearingRun).2.streams 1 = some s ∧
          s.employee = Sample.employee ∧ s.status = .active := by
      obtain ⟨s, hs⟩ := Option.isSome_iff_exists.mp
        (show ((Sample.play feeBearingRun).2.streams 1).isSome = true by decide)
      have hall : ∀ found ∈ (Sample.play feeBearingRun).2.streams 1,
          found.employee = Sample.employee ∧ found.status = .active := by
        decide
      exact ⟨s, hs, hall s hs⟩
    exact ⟨s, hs, List.mem_singleton_self _, hemployee.symm, Or.inl hactive⟩
  · rw [hreturns]
    rintro ⟨s, hs, _, hmanages, _⟩
    have hall : ∀ found ∈ (Sample.play feeBearingRun).2.streams 1,
        found.employer ≠ Sample.employee ∧ found.delegate ≠ some Sample.employee := by
      decide
    obtain ⟨hemployer, hdelegate⟩ := hall s hs
    rcases hmanages with hrole | hrole
    · exact hemployer hrole.symm
    · exact hdelegate hrole

end Properties
end Paystream
