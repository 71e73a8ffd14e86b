import Paystream.Properties.BalanceModule
import Paystream.Properties.Settlement
import Paystream.Properties.Pausing

/-!
# What a rate change leaves of the earnings

`update_rate` is documented to crystallise the earnings at the old rate.  It adds
the accrued amount to `withdrawn`, restarts the clock of the stream, and sends
nothing; from then on the accrued amount counts as paid.  Before the cliff it
accrues nothing, and the clock restarts all the same.

`rate_change_preserves_iff` says of a rate change that returned when it loses
nothing: exactly when there was nothing to lose.
-/

namespace Paystream
namespace Properties

open Library
open Contract
open Contract.Storage
open Contract.StreamContract
open Semantics

/-! ## What a rate change ought to keep -/

/-- What the stream earned at its rate since its last withdrawal. -/
def earnedSince (now : Nat) (s : Stream) : Int :=
  ((now - s.lastWithdrawTime : Nat) : Int) * s.ratePerSecond

/-- The earnings up to a rate change at `now`, and those at the new rate from
then on. -/
def earnedAcross (now : Nat) (s : Stream) (newRate : Int) (t : Nat) : Int :=
  earnedSince now s + ((t - now : Nat) : Int) * newRate

/-- The rate change from `w` to `w'` loses nothing the employee has earned. -/
structure PreservesEarnings (host : Host) (w w' : World) (now id : Nat)
    (s : Stream) (newRate : Int) : Prop where
  /-- what was paid and what is claimable add up to the same -/
  entitlement : ∃ s' before after, w'.streams id = some s' ∧
    claimableAmount s now = .ok before ∧ claimableAmount s' now = .ok after ∧
    salaryPaid id w' + after = salaryPaid id w + before
  /-- without a stop time and a fee, a later withdrawal that neither the cliff nor
  the deposit cuts off pays the earnings at both rates -/
  later : s.stopTime = 0 → w.config.feeBps = 0 → ∀ t, now ≤ t → t ≤ u64Max →
    s.cliffTime ≤ t → earnedAcross now s newRate t ≤ s.deposit - s.withdrawn →
      (∃ s', w'.streams id = some s' ∧
        claimableAmount s' t = .ok (earnedAcross now s newRate t)) ∧
      ∀ (inv : Invocation) employee value w'', inv.now = t →
        inv.call = .onStream id (.withdraw employee) →
        Succeeds host w' inv value w'' →
          value = .amount (earnedAcross now s newRate t)

/-- Nothing is claimable at `now`: the cliff is ahead, no second counts since the
last withdrawal, or the deposit is used up. -/
def NothingClaimable (now : Nat) (s : Stream) : Prop :=
  now < s.cliffTime ∨ now ≤ s.lastWithdrawTime ∨
    (0 < s.stopTime ∧ s.stopTime ≤ s.lastWithdrawTime) ∨ s.deposit ≤ s.withdrawn

/-- Nothing is earned that a later withdrawal would pay: no second passed since
the last one, or the deposit does not reach to the first withdrawal possible. -/
def NothingDue (w : World) (now : Nat) (s : Stream) (newRate : Int) : Prop :=
  s.stopTime = 0 → w.config.feeBps = 0 → now ≤ s.lastWithdrawTime ∨
    s.deposit - s.withdrawn <
      earnedSince now s + ((s.cliffTime - now : Nat) : Int) * newRate

/-! ## The claimable amounts around a rate change -/

theorem claimableAmount_eq_zero_iff {s : Stream} (h : SoundAmounts s)
    (hlive : isTerminal s.status = false) {now : Nat} (hmax : now ≤ u64Max) :
    claimableAmount s now = .ok 0 ↔ NothingClaimable now s := by
  have hend := effectiveEnd_cases s now
  rw [claimableAmount_of_sound h hmax, hlive]
  by_cases hcliff : now < s.cliffTime
  · simp [hcliff, NothingClaimable]
  · have hpast : ¬ (false = true ∨ now < s.cliffTime) := by simp [hcliff]
    rw [if_neg hpast, Except.ok.injEq, earnedIn_eq_zero_iff h]
    unfold NothingClaimable countedSeconds
    omega

/-- The record a rate change leaves. -/
theorem rate_changed_of_succeeds {host : Host} {history : History} {w w' : World}
    {inv : Invocation} {value : Value} {id : Nat} {employer : Address}
    {newRate : Int} {s : Stream} (hrun : Reaches host history w)
    (h : Succeeds host w inv value w')
    (hcall : inv.call = .onStream id (.updateRate employer newRate))
    (hs : w.streams id = some s) :
    ∃ accrued, (StreamOp.updateRate newRate accrued).Guard inv.now s ∧
      w'.streams id =
        some ((StreamOp.updateRate newRate accrued).next inv.now s) ∧
      w'.transfers = w.transfers ∧ w'.config = w.config := by
  have heffect := effect_of_succeeds h
  rw [hcall] at heffect
  cases heffect with
  | onStream _ _ heffect =>
      rcases heffect with ⟨hidle, _⟩ | ⟨found, op, log, hfound, hissues, hupdate⟩
      · cases hidle
      · obtain rfl : found = s := Option.some.inj (hfound.symm.trans hs)
        obtain rfl : found.id = id := (keyed_of_reaches hrun id found hs).1
        cases hissues with
        | updateRate _ accrued _ =>
            have hlog : log = [] := hupdate.pays
            refine ⟨accrued, hupdate.guard, ?_, ?_, ?_⟩
            · rw [hupdate.streams, Function.update_self]
            · rw [hupdate.transfers, hlog, List.nil_append]
            · exact congrArg Settings.config hupdate.sameSettings

/-- Right after the change nothing is claimable: the clock has restarted. -/
theorem claimableAmount_at_change {s : Stream} {now : Nat} {newRate accrued : Int}
    (h : SoundAmounts s) (hmax : now ≤ u64Max)
    (hguard : (StreamOp.updateRate newRate accrued).Guard now s) :
    claimableAmount ((StreamOp.updateRate newRate accrued).next now s) now =
      .ok 0 := by
  have hlive : isTerminal ((StreamOp.updateRate newRate accrued).next now s).status =
      false := by
    show isTerminal s.status = false
    rw [hguard.1]
    rfl
  rw [claimableAmount_eq_zero_iff (h.next hguard) hlive hmax]
  exact Or.inr (Or.inl le_rfl)

/-- Where the change booked nothing, what it leaves pays for the seconds from the
change on, at the new rate. -/
theorem claimableAmount_after_change {s : Stream} {now t : Nat} {newRate : Int}
    (h : SoundAmounts s) (hmax : t ≤ u64Max)
    (hguard : (StreamOp.updateRate newRate 0).Guard now s)
    (hstop : s.stopTime = 0) (hcliff : s.cliffTime ≤ t)
    (hroom : ((t - now : Nat) : Int) * newRate ≤ s.deposit - s.withdrawn) :
    claimableAmount ((StreamOp.updateRate newRate 0).next now s) t =
      .ok (((t - now : Nat) : Int) * newRate) := by
  have hlive : ¬ (isTerminal s.status = true ∨ t < s.cliffTime) := by
    rw [hguard.1]
    simp [isTerminal, hcliff]
  have hseconds : countedSeconds ((StreamOp.updateRate newRate 0).next now s) t =
      t - now := by
    have hend : effectiveEnd ((StreamOp.updateRate newRate 0).next now s) t = t := by
      rcases effectiveEnd_cases ((StreamOp.updateRate newRate 0).next now s) t with
        ⟨hpos, _⟩ | ⟨_, hend⟩
      · have : 0 < s.stopTime := hpos
        omega
      · exact hend
    unfold countedSeconds
    rw [hend]
    rfl
  rw [claimableAmount_of_sound (h.next hguard) hmax]
  refine congrArg Except.ok ((if_neg hlive).trans ?_)
  rw [hseconds]
  unfold earnedIn leftOf
  simp only [StreamOp.next, add_zero]
  omega

/-! ## The cliff is a ledger time -/

theorem requests_inRange {call : CreateCall}
    (h : (Call.create call).inRange = true) :
    ∀ p ∈ CreateCall.requests call, StreamParams.inRange p = true := by
  cases call with
  | createStream employer employee token deposit rate stopTime cooldownPeriod
      cliffTime =>
      intro p hp
      obtain rfl := List.mem_singleton.mp hp
      simp only [Call.inRange, Bool.and_eq_true] at h
      obtain ⟨⟨⟨⟨hdeposit, hrate⟩, hstop⟩, _⟩, hcliff⟩ := h
      simp only [StreamParams.inRange, hdeposit, hrate, hstop, hcliff,
        Bool.and_self]
  | createStreamsBatch employer params =>
      simp only [Call.inRange, Bool.and_eq_true, List.all_eq_true] at h
      exact h.2

theorem cliffTime_le_of_reaches {host : Host} {history : History} {w : World}
    (hrun : Reaches host history w) {id : Nat} {s : Stream}
    (hs : w.streams id = some s) : s.cliffTime ≤ u64Max := by
  refine stored_of_reaches (P := fun s => s.cliffTime ≤ u64Max) ?_ ?_ hrun hs
  · intro inv w w' call id s p hcall _ hbirth
    have hrange := inv.inRange
    rw [hcall] at hrange
    have hp := requests_inRange hrange p (List.mem_of_getElem? hbirth.request)
    simp only [StreamParams.inRange, Bool.and_eq_true, decide_eq_true_eq] at hp
    rw [hbirth.record]
    exact hp.2
  · intro now s op _ hcliff
    have hsame : (op.next now s).cliffTime = s.cliffTime := by
      cases op <;> rfl
    rw [hsame]
    exact hcliff

/-! ## The exact condition -/

/-- Without a fee the employee's share is the gross amount. -/
theorem share_without_fee {gross fee : Int} (hgross : 0 ≤ gross)
    (hmax : gross ≤ i128Max) (h : withdrawalFee 0 gross = .ok fee) :
    max (saturatingSub gross fee) 0 = gross := by
  cases h
  rw [share_eq hmax le_rfl hgross, sub_zero]

/-- A withdrawal without a fee returns what is claimable. -/
theorem withdraw_returns_claimable {host : Host} {w w' : World} {inv : Invocation}
    {value : Value} {id : Nat} {employee : Address} {s : Stream} {amount : Int}
    (h : Succeeds host w inv value w')
    (hcall : inv.call = .onStream id (.withdraw employee))
    (hs : w.streams id = some s) (hfee : w.config.feeBps = 0)
    (hamount : claimableAmount s inv.now = .ok amount)
    (hmax : amount ≤ i128Max) : value = .amount amount := by
  have hnonneg := claimableAmount_nonneg hamount
  obtain ⟨found, hfound, _, _, hcases⟩ := withdraw_of_succeeds h hcall
  obtain rfl : found = s := Option.some.inj (hfound.symm.trans hs)
  rcases hcases with ⟨hzero, _, rfl⟩ | ⟨gross, fee, hshare, rfl, hupdate⟩
  · rw [hzero] at hamount
    cases hamount
    rfl
  · obtain ⟨_, _, _, hgross⟩ := hupdate.guard
    rw [hgross] at hamount
    cases hamount
    rw [hfee] at hshare
    rw [share_without_fee hnonneg hmax hshare]

/-- The first time a withdrawal can pay is the cliff, or the change itself. -/
theorem earnedAcross_max_cliff (now : Nat) (s : Stream) (newRate : Int) :
    earnedAcross now s newRate (max now s.cliffTime) =
      earnedSince now s + ((s.cliffTime - now : Nat) : Int) * newRate := by
  unfold earnedAcross
  rw [show max now s.cliffTime - now = s.cliffTime - now by omega]

/-- Where nothing is due and the deposit reaches to a time from the cliff on, nothing
was earned before the change. -/
theorem earnedSince_eq_zero_of_room {now t : Nat} {s : Stream} {newRate : Int}
    (hpos : 0 < newRate) (hcliff : s.cliffTime ≤ t)
    (hdue : now ≤ s.lastWithdrawTime ∨ s.deposit - s.withdrawn <
      earnedSince now s + ((s.cliffTime - now : Nat) : Int) * newRate)
    (hroom : earnedAcross now s newRate t ≤ s.deposit - s.withdrawn) :
    earnedSince now s = 0 := by
  rcases hdue with hclock | hshort
  · unfold earnedSince
    rw [Nat.sub_eq_zero_of_le hclock, Nat.cast_zero, zero_mul]
  · exfalso
    have hmono : ((s.cliffTime - now : Nat) : Int) * newRate ≤
        ((t - now : Nat) : Int) * newRate := by
      refine mul_le_mul_of_nonneg_right ?_ hpos.le
      exact_mod_cast Nat.sub_le_sub_right hcliff now
    unfold earnedAcross at hroom
    omega

/-- A change that booked nothing and loses nothing leaves nothing due: the first
withdrawal possible would show what was lost. -/
theorem nothingDue_of_preserves {host : Host} {w w' : World} {now id : Nat}
    {s : Stream} {newRate : Int} (hsound : SoundAmounts s) (hnow : now ≤ u64Max)
    (hcliff : s.cliffTime ≤ u64Max)
    (hguard : (StreamOp.updateRate newRate 0).Guard now s)
    (hafter : w'.streams id = some ((StreamOp.updateRate newRate 0).next now s))
    (h : PreservesEarnings host w w' now id s newRate) :
    NothingDue w now s newRate := by
  intro hstop hfee
  by_contra hdue
  rw [not_or, not_le, not_lt] at hdue
  obtain ⟨helapsed, hreach⟩ := hdue
  have hmax : max now s.cliffTime ≤ u64Max := max_le hnow hcliff
  have hearned : 0 < earnedSince now s := by
    refine mul_pos ?_ hsound.rate_pos
    exact_mod_cast Nat.sub_pos_of_lt helapsed
  rw [← earnedAcross_max_cliff] at hreach
  obtain ⟨⟨s', hs', hclaimable⟩, _⟩ := h.later hstop hfee _ (le_max_left _ _)
    hmax (le_max_right _ _) hreach
  obtain rfl : s' = _ := Option.some.inj (hs'.symm.trans hafter)
  unfold earnedAcross at hreach hclaimable
  rw [claimableAmount_after_change hsound hmax hguard hstop (le_max_right _ _)
    (by omega), Except.ok.injEq] at hclaimable
  omega

/-- A rate change that returned loses none of the earnings exactly when nothing
was claimable at its time and nothing else was due to a later withdrawal. -/
theorem rate_change_preserves_iff {host : Host} {history : History} {w w' : World}
    {inv : Invocation} {value : Value} {id : Nat} {employer : Address}
    {newRate : Int} {s : Stream} (hrun : Reaches host history w)
    (h : Succeeds host w inv value w')
    (hcall : inv.call = .onStream id (.updateRate employer newRate))
    (hs : w.streams id = some s) :
    PreservesEarnings host w w' inv.now id s newRate ↔
      NothingClaimable inv.now s ∧ NothingDue w inv.now s newRate := by
  have hsound := soundAmounts_of_reaches hrun hs
  obtain ⟨accrued, hguard, hafter, htransfers, hconfig⟩ :=
    rate_changed_of_succeeds hrun h hcall hs
  have hpos := hguard.2.1
  have haccrued := hguard.2.2.2
  have hlive : isTerminal s.status = false := by
    rw [hguard.1]
    rfl
  have hzero := claimableAmount_eq_zero_iff hsound hlive inv.now_le
  have hpaid : salaryPaid id w' = salaryPaid id w := by
    unfold salaryPaid
    rw [htransfers]
  constructor
  · intro hpreserves
    -- the entitlement is kept only if nothing was booked
    obtain ⟨s', before, after, hs', hbefore, hat, hsum⟩ := hpreserves.entitlement
    obtain rfl : s' = _ := Option.some.inj (hs'.symm.trans hafter)
    rw [claimableAmount_at_change hsound inv.now_le hguard] at hat
    cases hat
    rw [haccrued] at hbefore
    cases hbefore
    obtain rfl : accrued = 0 := by omega
    exact ⟨hzero.mp haccrued, nothingDue_of_preserves hsound inv.now_le
      (cliffTime_le_of_reaches hrun hs) hguard hafter hpreserves⟩
  · rintro ⟨hnothing, hdue⟩
    rw [hzero.mpr hnothing] at haccrued
    cases haccrued
    refine ⟨⟨_, 0, 0, hafter, hzero.mpr hnothing,
      claimableAmount_at_change hsound inv.now_le hguard, by rw [hpaid]⟩, ?_⟩
    intro hstop hfee t hnow hmax hcliff hroom
    have hnone := earnedSince_eq_zero_of_room hpos hcliff (hdue hstop hfee) hroom
    have hacross : earnedAcross inv.now s newRate t =
        ((t - inv.now : Nat) : Int) * newRate := by
      unfold earnedAcross
      omega
    rw [hacross] at hroom ⊢
    have hclaimable := claimableAmount_after_change hsound hmax hguard hstop hcliff
      hroom
    refine ⟨⟨_, hafter, hclaimable⟩, ?_⟩
    rintro later employee paid w'' rfl hwithdraw hsucceeds
    refine withdraw_returns_claimable hsucceeds hwithdraw hafter
      (hconfig ▸ hfee) hclaimable ?_
    have hdeposit := hsound.deposit_le
    have hwithdrawn := hsound.withdrawn_nonneg
    omega

/-- The rate is changed in the second of the creation. -/
theorem rate_change_preserves_of_fresh :
    ∃ history w w' s, Reaches Sample.host history w ∧ w.streams 1 = some s ∧
      Succeeds Sample.host w (Sample.manage 10 (.updateRate Sample.employer 20))
        .unit w' ∧
      PreservesEarnings Sample.host w w' 10 1 s 20 := by
  have hrun := Sample.play_reaches [Sample.openStream 10 1000 10 0] (by decide)
  have hsucceeds : Succeeds Sample.host
      (Sample.play [Sample.openStream 10 1000 10 0]).2
      (Sample.manage 10 (.updateRate Sample.employer 20)) .unit
      (step Sample.host (Sample.play [Sample.openStream 10 1000 10 0]).2
        (Sample.manage 10 (.updateRate Sample.employer 20))) := rfl
  exact ⟨_, _, _, _, hrun, rfl, hsucceeds,
    (rate_change_preserves_iff hrun hsucceeds rfl rfl).mpr
      ⟨Or.inr (Or.inl (by decide)), fun _ _ => Or.inl (by decide)⟩⟩

/-- Fifty seconds into a stream of ten a second the rate is doubled: the five
hundred earned are neither paid nor claimable any more. -/
theorem rate_change_loses_earnings :
    ∃ history w w' s, Reaches Sample.host history w ∧ w.streams 1 = some s ∧
      Succeeds Sample.host w (Sample.manage 60 (.updateRate Sample.employer 20))
        .unit w' ∧
      claimableAmount s 60 = .ok 500 ∧
      ¬ PreservesEarnings Sample.host w w' 60 1 s 20 := by
  have hrun := Sample.play_reaches [Sample.openStream 10 1000 10 0] (by decide)
  have hsucceeds : Succeeds Sample.host
      (Sample.play [Sample.openStream 10 1000 10 0]).2
      (Sample.manage 60 (.updateRate Sample.employer 20)) .unit
      (step Sample.host (Sample.play [Sample.openStream 10 1000 10 0]).2
        (Sample.manage 60 (.updateRate Sample.employer 20))) := rfl
  refine ⟨_, _, _, _, hrun, rfl, hsucceeds, by decide, ?_⟩
  rintro ⟨⟨s', before, after, hs', hbefore, hafter, hsum⟩, _⟩
  cases hs'
  cases hbefore
  cases hafter
  revert hsum
  decide

end Properties
end Paystream
