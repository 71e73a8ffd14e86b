import Paystream.Properties.BalanceModule

/-!
# Looking at a stream

`get_stream` is documented as a read: anybody may call it, and no signature is
asked for.  It writes, though: an active stream past its stop time whose deposit
is fully streamed is stored as exhausted, and an exhausted stream pays nothing.

`get_stream_readOnly_iff` compares two runs, with the look and without it.  They
agree on every claimable amount and on everything that is returned from then on
exactly when the look does not find such a stream.
-/

namespace Paystream
namespace Properties

open Library
open Contract
open Contract.Storage
open Contract.StreamContract
open Semantics

/-! ## Two runs compared -/

/-- What the invocations return, one after the other. -/
def results (host : Host) : World → List Invocation → List (Except String Value)
  | _, [] => []
  | w, inv :: later =>
      (exec host inv.toContext inv.call w).map Prod.fst ::
        results host (step host w inv) later

/-- The invocation changes no claimable amount, and nothing that is returned
after it. -/
structure ObservablyReadOnly (host : Host) (w : World) (inv : Invocation) :
    Prop where
  claimable : ∀ id t, claimableAt id t (step host w inv) = claimableAt id t w
  later : ∀ invocations, (system host).InOrder inv.now invocations = true →
    results host (step host w inv) invocations = results host w invocations

/-- An active stream past its stop time whose deposit was streamed by then, paid
out or not. -/
def StreamedByStop (now : Nat) (s : Stream) : Prop :=
  s.status = .active ∧ 0 < s.stopTime ∧ s.stopTime ≤ now ∧
    s.deposit ≤ s.withdrawn +
      ((s.stopTime - s.lastWithdrawTime : Nat) : Int) * s.ratePerSecond

/-! ## What a look writes -/

theorem cliff_le_stop_of_reaches {host : Host} {history : History} {w : World}
    (hrun : Reaches host history w) {id : Nat} {s : Stream}
    (hs : w.streams id = some s) :
    0 < s.cliffTime → 0 < s.stopTime → s.cliffTime ≤ s.stopTime := by
  refine stored_of_reaches (P := fun s =>
    0 < s.cliffTime → 0 < s.stopTime → s.cliffTime ≤ s.stopTime) ?_ ?_ hrun hs
  · intro inv w w' call id s p _ hfresh _
    exact hfresh.cliff_le_stop
  · intro now s op _ hcliff
    have hsame : (op.next now s).cliffTime = s.cliffTime ∧
        (op.next now s).stopTime = s.stopTime := by
      cases op <;> exact ⟨rfl, rfl⟩
    rw [hsame.1, hsame.2]
    exact hcliff

/-- A sum that overflows is above every deposit, and the code then takes the
deposit itself. -/
theorem le_checkedAdd_iff {deposit a b : Int} (hdeposit : deposit ≤ i128Max)
    (ha : 0 ≤ a) (hb : 0 ≤ b) :
    deposit ≤ (checkedAdd a b).getD deposit ↔ deposit ≤ a + b := by
  have hmin : i128Min ≤ 0 := by decide
  unfold checkedAdd checked
  split
  · rfl
  · rename_i hover
    refine iff_of_true le_rfl ?_
    by_contra hlt
    exact hover ⟨by omega, by omega⟩

section Look

variable {s : Stream} {now : Nat}

/-- What the stream earned by its stop time, as the code computes it there. -/
theorem claimableAmount_at_stop (h : SoundAmounts s) (hmax : s.stopTime ≤ u64Max)
    (hactive : s.status = .active)
    (hcliff : 0 < s.cliffTime → 0 < s.stopTime → s.cliffTime ≤ s.stopTime)
    (hpos : 0 < s.stopTime) :
    claimableAmount s s.stopTime =
      .ok (earnedIn s (s.stopTime - s.lastWithdrawTime)) := by
  have hlive : ¬ (isTerminal s.status = true ∨ s.stopTime < s.cliffTime) := by
    rw [hactive]
    simp only [isTerminal, Bool.false_eq_true, false_or, not_lt]
    omega
  have hend : effectiveEnd s s.stopTime = s.stopTime := by
    have := effectiveEnd_cases s s.stopTime
    omega
  rw [claimableAmount_of_sound h hmax, if_neg hlive]
  unfold countedSeconds
  rw [hend]

/-- The code's two tests for a fully streamed deposit come to one. -/
theorem streamed_by_stop_iff (h : SoundAmounts s) (claimable : Int) :
    ((claimable = 0 ∧ s.deposit ≤ s.withdrawn) ∨ s.deposit ≤
        (checkedAdd s.withdrawn
          (earnedIn s (s.stopTime - s.lastWithdrawTime))).getD s.deposit) ↔
      s.deposit ≤ s.withdrawn +
        ((s.stopTime - s.lastWithdrawTime : Nat) : Int) * s.ratePerSecond := by
  have hearned : 0 ≤ ((s.stopTime - s.lastWithdrawTime : Nat) : Int) *
      s.ratePerSecond := mul_nonneg (by positivity) h.rate_pos.le
  rw [le_checkedAdd_iff h.deposit_le h.withdrawn_nonneg (earnedIn_nonneg h _)]
  unfold earnedIn leftOf
  omega

/-- A look at a stream whose deposit was streamed by its stop time stores it as
exhausted. -/
theorem getStream_of_streamed {ctx : Context} {id : Nat} {w : World}
    (h : SoundAmounts s) (hmax : ctx.now ≤ u64Max) (hs : w.streams id = some s)
    (hcliff : 0 < s.cliffTime → 0 < s.stopTime → s.cliffTime ≤ s.stopTime)
    (hstreamed : StreamedByStop ctx.now s) :
    getStream ctx id w = .ok ({ s with status := .exhausted },
      saveStream w { s with status := .exhausted }) := by
  obtain ⟨hactive, hpos, hstop, hall⟩ := hstreamed
  have hatStop := claimableAmount_at_stop h (hstop.trans hmax) hactive hcliff hpos
  simp only [getStream, bind_eq_ok_iff, loadStream_eq_ok_iff]
  refine ⟨s, hs, ?_⟩
  rw [if_pos ⟨hactive, hpos, hstop⟩]
  simp only [bind_eq_ok_iff]
  obtain ⟨claimable, hclaimable⟩ : ∃ claimable,
      claimableAmount s ctx.now = .ok claimable :=
    ⟨_, claimableAmount_of_sound h hmax⟩
  refine ⟨claimable, hclaimable, ?_⟩
  rw [← streamed_by_stop_iff h claimable] at hall
  split
  · rfl
  · rename_i hfirst
    simp only [bind_eq_ok_iff]
    refine ⟨_, hatStop, ?_⟩
    rw [if_pos (hall.resolve_left hfirst)]
    rfl

/-- Any other look only reads. -/
theorem getStream_of_not_streamed {ctx : Context} {id : Nat} {w : World}
    (h : SoundAmounts s) (hmax : ctx.now ≤ u64Max) (hs : w.streams id = some s)
    (hcliff : 0 < s.cliffTime → 0 < s.stopTime → s.cliffTime ≤ s.stopTime)
    (hnot : ¬ StreamedByStop ctx.now s) : getStream ctx id w = .ok (s, w) := by
  simp only [getStream, bind_eq_ok_iff, loadStream_eq_ok_iff]
  refine ⟨s, hs, ?_⟩
  split
  · rename_i hexpired
    obtain ⟨hactive, hpos, hstop⟩ := hexpired
    have hatStop := claimableAmount_at_stop h (hstop.trans hmax) hactive hcliff hpos
    simp only [bind_eq_ok_iff]
    obtain ⟨claimable, hclaimable⟩ : ∃ claimable,
        claimableAmount s ctx.now = .ok claimable :=
      ⟨_, claimableAmount_of_sound h hmax⟩
    refine ⟨claimable, hclaimable, ?_⟩
    -- neither of the two tests succeeds
    have hnone : ¬ s.deposit ≤ s.withdrawn +
        ((s.stopTime - s.lastWithdrawTime : Nat) : Int) * s.ratePerSecond :=
      fun hall => hnot ⟨hactive, hpos, hstop, hall⟩
    rw [← streamed_by_stop_iff h claimable, not_or] at hnone
    rw [if_neg hnone.1]
    simp only [bind_eq_ok_iff]
    refine ⟨_, hatStop, ?_⟩
    rw [if_neg hnone.2]
    rfl
  · rfl

end Look

/-! ## The exact condition -/

/-- The step of a look, from what the call returns. -/
theorem step_of_getStream {host : Host} {w w' : World} {inv : Invocation} {id : Nat}
    {s : Stream} (hcall : inv.call = .onStream id .getStream)
    (h : getStream inv.toContext id w = .ok (s, w')) : step host w inv = w' := by
  have hsucceeds : Succeeds host w inv (.stream s) w' := by
    unfold Succeeds
    rw [hcall]
    simp only [exec, execOnStream, map_eq_ok_iff]
    exact ⟨(s, w'), h, rfl⟩
  exact step_eq_of_succeeds hsucceeds

/-- The employer pauses an active stream; an exhausted one cannot be paused. -/
theorem results_pause_active {host : Host} {w : World} {inv : Invocation} {id : Nat}
    {s : Stream} (hcall : inv.call = .onStream id (.pauseStream s.employer))
    (hauth : s.employer ∈ inv.auth) (hs : w.streams id = some s)
    (hactive : s.status = .active) : results host w [inv] = [.ok .unit] := by
  have hpause : ∃ w', pauseStream inv.toContext s.employer id w = .ok w' := by
    simp only [pauseStream, bind_eq_ok_iff, requireAuth_eq_ok_iff,
      requireManager_eq_ok_iff, ensure_eq_ok_iff, decide_eq_true_eq,
      requireTransition_eq_ok_iff, pure_eq_ok_iff]
    refine ⟨_, (), hauth, s, ⟨hs, Or.inl rfl⟩, (), ?_, (), hactive, (), ?_, rfl⟩
    · rw [hactive]
      decide
    · rw [hactive]
      rfl
  obtain ⟨w', hpause⟩ := hpause
  simp only [results, hcall, exec, execOnStream, hpause]
  rfl

theorem results_pause_exhausted {host : Host} {w : World} {inv : Invocation}
    {id : Nat} {s : Stream} {employer : Address}
    (hcall : inv.call = .onStream id (.pauseStream employer))
    (hs : w.streams id = some s) (hexhausted : s.status = .exhausted) :
    results host w [inv] ≠ [.ok .unit] := by
  intro h
  simp only [results, hcall, exec, execOnStream, List.cons.injEq, and_true,
    map_eq_ok_iff, unitResult] at h
  obtain ⟨_, ⟨w', hpause, _⟩, _⟩ := h
  simp only [pauseStream, bind_eq_ok_iff, requireAuth_eq_ok_iff,
    requireManager_eq_ok_iff, ensure_eq_ok_iff, decide_eq_true_eq] at hpause
  obtain ⟨_, _, found, ⟨hfound, _⟩, _, _, _, hactive, _⟩ := hpause
  obtain rfl : found = s := Option.some.inj (hfound.symm.trans hs)
  rw [hexhausted] at hactive
  cases hactive

/-- A look at stream `id` is observably a read exactly when the stream is not an
active one whose deposit was streamed by a stop time that has passed. -/
theorem get_stream_readOnly_iff {host : Host} {history : History} {w : World}
    {inv : Invocation} {id : Nat} (hrun : Reaches host history w)
    (hcall : inv.call = .onStream id .getStream) :
    ObservablyReadOnly host w inv ↔
      ∀ s, w.streams id = some s → ¬ StreamedByStop inv.now s := by
  constructor
  · rintro ⟨_, hlater⟩ s hs hstreamed
    have hlook := getStream_of_streamed (soundAmounts_of_reaches hrun hs)
      inv.now_le hs (cliff_le_stop_of_reaches hrun hs) hstreamed
    have hid : id ≤ u64Max := by
      have hrange := inv.inRange
      rw [hcall] at hrange
      simpa [Call.inRange] using hrange
    -- the employer's pause tells the two runs apart
    let pause : Invocation :=
      { now := inv.now, auth := [s.employer],
        call := .onStream id (.pauseStream s.employer), now_le := inv.now_le,
        inRange := by simpa [Call.inRange] using hid }
    have hsame := hlater [pause] (by simp [System.InOrder, system, pause])
    have hpaused : results host w [pause] = [.ok .unit] :=
      results_pause_active rfl List.mem_cons_self hs hstreamed.1
    rw [hpaused, step_of_getStream hcall hlook] at hsame
    have hexhausted : (saveStream w { s with status := .exhausted }).streams id =
        some { s with status := .exhausted } := by
      obtain rfl : s.id = id := (keyed_of_reaches hrun id s hs).1
      exact Function.update_self ..
    exact results_pause_exhausted rfl hexhausted rfl hsame
  · intro hnot
    have hsame : step host w inv = w := by
      cases hs : w.streams id with
      | none =>
          -- the call panics
          rcases step_cases host w inv with ⟨value, hsucceeds⟩ | ⟨_, hsame⟩
          · unfold Succeeds at hsucceeds
            rw [hcall] at hsucceeds
            simp only [exec, execOnStream, map_eq_ok_iff, getStream, bind_eq_ok_iff,
              loadStream_eq_ok_iff] at hsucceeds
            obtain ⟨_, ⟨s, hfound, _⟩, _⟩ := hsucceeds
            rw [hs] at hfound
            cases hfound
          · exact hsame
      | some s =>
          exact step_of_getStream hcall (getStream_of_not_streamed
            (soundAmounts_of_reaches hrun hs) inv.now_le hs
            (cliff_le_stop_of_reaches hrun hs) (hnot s hs))
    refine ⟨?_, ?_⟩
    · intro other t
      rw [hsame]
    · intro invocations _
      rw [hsame]

/-- A stream before its stop time. -/
theorem get_stream_readOnly_of_running :
    ∃ history w s, Reaches Sample.host history w ∧ w.streams 1 = some s ∧
      s.stopTime = 110 ∧
      ObservablyReadOnly Sample.host w (Sample.manage 60 .getStream) := by
  have hrun := Sample.play_reaches [Sample.openStream 10 1000 10 110] (by decide)
  refine ⟨_, _, _, hrun, rfl, rfl, (get_stream_readOnly_iff hrun rfl).mpr ?_⟩
  rintro s hs ⟨_, _, hstop, _⟩
  cases hs
  revert hstop
  decide

/-- A thousand streamed by the stop time and not withdrawn: after a look of
anybody the employee withdraws nothing. -/
theorem get_stream_forfeits_earnings :
    ∃ history w s, Reaches Sample.host history w ∧ w.streams 1 = some s ∧
      claimableAmount s 200 = .ok 1000 ∧
      results Sample.host w [Sample.invoke 200 Sample.employee
        (.onStream 1 (.withdraw Sample.employee))] = [.ok (.amount 1000)] ∧
      results Sample.host
        (step Sample.host w (Sample.invoke 200 Sample.treasury
          (.onStream 1 .getStream)))
        [Sample.invoke 200 Sample.employee
          (.onStream 1 (.withdraw Sample.employee))] = [.ok (.amount 0)] ∧
      ¬ ObservablyReadOnly Sample.host w
        (Sample.invoke 200 Sample.treasury (.onStream 1 .getStream)) := by
  have hrun := Sample.play_reaches [Sample.openStream 10 1000 10 110] (by decide)
  refine ⟨_, _, _, hrun, rfl, by decide, by decide, by decide, ?_⟩
  rintro ⟨_, hlater⟩
  have hsame := hlater [Sample.invoke 200 Sample.employee
    (.onStream 1 (.withdraw Sample.employee))] (by decide)
  revert hsame
  decide

end Properties
end Paystream
