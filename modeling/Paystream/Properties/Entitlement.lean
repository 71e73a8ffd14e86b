import Paystream.Properties.Isolation

/-!
# What the employee has earned

`entitlement s t` is what is booked as withdrawn plus what could be claimed at time
`t`.  What is booked need not have been paid: `update_rate` books what has accrued
and pays nothing.  A withdrawal leaves the entitlement as it is, at the time of the
withdrawal and at every later time (`entitlement_withdraw`).  So it does not matter
how often the employee withdraws (`withdrawals_path_independent`).

Over a whole run the entitlement only grows (`entitlement_grows`).  There are two
exceptions: a resumption takes back what the pause let accrue, and a look at a
stream past its stop time ends it with what was not claimed.
-/

namespace Paystream
namespace Properties

open Library
open Contract
open Contract.Storage
open Contract.StreamContract
open Semantics

/-- What is booked as withdrawn, or can be claimed at `t`. -/
def entitlement (s : Stream) (t : Nat) : Int := s.withdrawn + claimableOf s t

section Record

variable {s : Stream} {now t t' : Nat}

theorem claimableOf_of_sound (h : SoundAmounts s) (ht : t ≤ u64Max) :
    claimableOf s t = if isTerminal s.status = true ∨ t < s.cliffTime then 0
      else earnedIn s (countedSeconds s t) :=
  claimableOf_eq (claimableAmount_of_sound h ht)

theorem claimableOf_nonneg (h : SoundAmounts s) (ht : t ≤ u64Max) :
    0 ≤ claimableOf s t := by
  rw [claimableOf_of_sound h ht]
  split
  · exact le_rfl
  · exact earnedIn_nonneg h _

theorem earnedIn_mono (h : SoundAmounts s) {n m : Nat} (hnm : n ≤ m) :
    earnedIn s n ≤ earnedIn s m := by
  have hseconds : (n : Int) ≤ (m : Int) := by exact_mod_cast hnm
  exact min_le_min_right _ (mul_le_mul_of_nonneg_right hseconds h.rate_pos.le)

theorem claimableOf_mono (h : SoundAmounts s) (htt : t ≤ t') (ht : t' ≤ u64Max) :
    claimableOf s t ≤ claimableOf s t' := by
  have hnonneg := claimableOf_nonneg h ht
  rw [claimableOf_of_sound h ht] at hnonneg ⊢
  rw [claimableOf_of_sound h (htt.trans ht)]
  by_cases hlive : isTerminal s.status = true ∨ t < s.cliffTime
  · rw [if_pos hlive]
    exact hnonneg
  · rw [if_neg hlive]
    rw [not_or] at hlive
    rw [if_neg (by rw [not_or]; exact ⟨hlive.1, by omega⟩)]
    exact earnedIn_mono h (countedSeconds_mono s htt)

theorem entitlement_mono (h : SoundAmounts s) (htt : t ≤ t') (ht : t' ≤ u64Max) :
    entitlement s t ≤ entitlement s t' := by
  have := claimableOf_mono h htt ht
  unfold entitlement
  omega

/-- Nothing more is claimable than what is left of the deposit. -/
theorem claimableOf_le_left (h : SoundAmounts s) (ht : t ≤ u64Max) :
    claimableOf s t ≤ leftOf s := by
  rw [claimableOf_of_sound h ht]
  split
  · exact le_max_right _ _
  · exact min_le_right _ _

/-- Where something is claimable, time was counted from the last withdrawal on,
and the stream is past its cliff. -/
theorem claimableOf_pos (h : SoundAmounts s) (ht : t ≤ u64Max)
    (hpos : claimableOf s t ≠ 0) :
    isTerminal s.status = false ∧ s.cliffTime ≤ t ∧
      claimableOf s t = earnedIn s (countedSeconds s t) ∧
      s.lastWithdrawTime < effectiveEnd s t := by
  have heq := claimableOf_of_sound h ht
  by_cases hlive : isTerminal s.status = true ∨ t < s.cliffTime
  · rw [if_pos hlive] at heq
    exact absurd heq hpos
  · rw [if_neg hlive] at heq
    rw [not_or, Bool.not_eq_true, not_lt] at hlive
    refine ⟨hlive.1, hlive.2, heq, ?_⟩
    by_contra hcounted
    have hzero : countedSeconds s t = 0 := by
      unfold countedSeconds
      omega
    rw [hzero, earnedIn_zero] at heq
    exact hpos heq

/-- The record a paying withdrawal leaves. -/
theorem recordAfter_withdraw (employee : Address)
    (hpos : claimableOf s now ≠ 0) :
    recordAfter now s (.withdraw employee) =
      (StreamOp.withdraw (claimableOf s now)).next now s := by
  simp only [recordAfter, operationOf, if_neg hpos]

theorem recordAfter_withdraw_nothing (employee : Address)
    (hzero : claimableOf s now = 0) :
    recordAfter now s (.withdraw employee) = s := by
  simp only [recordAfter, operationOf, if_pos hzero]

theorem SoundAmounts.recordAfter_withdraw (h : SoundAmounts s)
    (hnow : now ≤ u64Max) (employee : Address) :
    SoundAmounts (recordAfter now s (.withdraw employee)) := by
  by_cases hzero : claimableOf s now = 0
  · rw [recordAfter_withdraw_nothing employee hzero]
    exact h
  · have hnonneg := claimableOf_nonneg h hnow
    have hwithdrawn := h.withdrawn_nonneg
    rw [Properties.recordAfter_withdraw employee hzero]
    exact ⟨by show 0 ≤ s.withdrawn + _; omega, h.deposit_le, h.rate_pos, h.rate_le⟩

/-- After a withdrawal at `now` nothing of the entitlement at `now` is open. -/
theorem withdrawn_recordAfter (employee : Address) :
    (recordAfter now s (.withdraw employee)).withdrawn = entitlement s now := by
  unfold entitlement
  by_cases hzero : claimableOf s now = 0
  · rw [recordAfter_withdraw_nothing employee hzero]
    omega
  · rw [recordAfter_withdraw employee hzero]
    rfl

/-- A withdrawal at `now` leaves what the employee is entitled to at every time
from `now` on. -/
theorem entitlement_withdraw (h : SoundAmounts s) (hnow : now ≤ t)
    (ht : t ≤ u64Max) (employee : Address) :
    entitlement (recordAfter now s (.withdraw employee)) t = entitlement s t := by
  by_cases hzero : claimableOf s now = 0
  · rw [recordAfter_withdraw_nothing employee hzero]
  · have hmono := claimableOf_mono h hnow ht
    have hnext := h.recordAfter_withdraw (hnow.trans ht) employee
    obtain ⟨hlive, hcliff, hclaim, hcounted⟩ :=
      claimableOf_pos h (hnow.trans ht) hzero
    have hpos := lt_of_le_of_ne (claimableOf_nonneg h (hnow.trans ht))
      (Ne.symm hzero)
    have hleftNow := claimableOf_le_left h (hnow.trans ht)
    have hleft : leftOf s = s.deposit - s.withdrawn := by
      unfold leftOf at hleftNow ⊢
      omega
    have hat : claimableOf s t = earnedIn s (countedSeconds s t) := by
      rw [claimableOf_of_sound h ht, if_neg]
      rw [hlive]
      simp only [Bool.false_eq_true, false_or, not_lt]
      omega
    rw [Properties.recordAfter_withdraw employee hzero] at hnext ⊢
    unfold entitlement
    rw [claimableOf_of_sound hnext ht]
    show s.withdrawn + claimableOf s now + _ = s.withdrawn + claimableOf s t
    by_cases hall : s.deposit ≤ s.withdrawn + claimableOf s now
    · -- everything is paid out: nothing can be added to it
      have hterminal : isTerminal
          ((StreamOp.withdraw (claimableOf s now)).next now s).status = true := by
        simp only [StreamOp.next, if_pos hall, isTerminal]
      rw [if_pos (Or.inl hterminal)]
      have := claimableOf_le_left h ht
      omega
    · have hstatus :
          ((StreamOp.withdraw (claimableOf s now)).next now s).status = s.status := by
        simp only [StreamOp.next, if_neg hall]
      have hgoesOn : ¬ (isTerminal
          ((StreamOp.withdraw (claimableOf s now)).next now s).status = true ∨
            t < ((StreamOp.withdraw (claimableOf s now)).next now s).cliffTime) := by
        rw [hstatus, hlive]
        show ¬ (false = true ∨ t < s.cliffTime)
        simp only [Bool.false_eq_true, false_or, not_lt]
        omega
      rw [if_neg hgoesOn]
      -- the seconds before and after the withdrawal make up all seconds
      have hseconds : countedSeconds s t = countedSeconds s now +
          countedSeconds ((StreamOp.withdraw (claimableOf s now)).next now s) t := by
        have hendNow := effectiveEnd_cases s now
        have hendT := effectiveEnd_cases s t
        show effectiveEnd s t - s.lastWithdrawTime =
          (effectiveEnd s now - s.lastWithdrawTime) + (effectiveEnd s t - now)
        omega
      have hleftNext : leftOf ((StreamOp.withdraw (claimableOf s now)).next now s) =
          s.deposit - (s.withdrawn + claimableOf s now) := by
        show max (s.deposit - (s.withdrawn + claimableOf s now)) 0 = _
        omega
      have hrate : ((StreamOp.withdraw (claimableOf s now)).next now s).ratePerSecond
          = s.ratePerSecond := rfl
      have hearned : claimableOf s now =
          ((countedSeconds s now : Nat) : Int) * s.ratePerSecond := by
        unfold earnedIn at hclaim
        omega
      rw [hat, hseconds]
      unfold earnedIn
      rw [hleftNext, hleft, hrate, Nat.cast_add, add_mul, ← hearned]
      omega

end Record

/-! ## Calls since a state -/

/-- The record after some calls on the stream, newest first. -/
def recordSince (s : Stream) (calls : List (Nat × StreamCall)) : Stream :=
  calls.foldr (fun call s => recordAfter call.1 s call.2) s

/-- Along a run from a state on, the record follows the calls on the stream that
returned since, and these arrive in order. -/
theorem record_of_path {host : Host} {history₀ history : History} {w₀ w : World}
    {id : Nat} {s : Stream} (hrun : Reaches host history₀ w₀)
    (hpath : (system host).Path history₀ w₀ history w)
    (hs : w₀.streams id = some s) :
    ∃ since, ownCalls host id history = since ++ ownCalls host id history₀ ∧
      w.streams id = some (recordSince s since) ∧
      (∀ call ∈ since, call.1 ≤ ledgerTime host history ∧ call.1 ≤ u64Max) ∧
      since.Pairwise fun newer older => older.1 ≤ newer.1 := by
  induction hpath with
  | stay => exact ⟨[], rfl, hs, by simp, .nil⟩
  | @next history w inv hpath htime ih =>
      obtain ⟨since, hcalls, hrecord, htimes, horder⟩ := ih
      have hreaches : Reaches host history w := hrun.of_path hpath
      have hlater : ∀ call ∈ since, call.1 ≤ inv.now ∧ call.1 ≤ u64Max :=
        fun call hcall => ⟨(htimes call hcall).1.trans htime, (htimes call hcall).2⟩
      show ∃ since', ownCalls host id (⟨w, inv, step host w inv⟩ :: history) = _ ∧
        (step host w inv).streams id = _ ∧ _
      rcases step_cases host w inv with ⟨value, hsucceeds⟩ | ⟨hfails, hsame⟩
      · -- other calls leave the record, one on the stream is the next step of the fold
        by_cases hother : ∀ call, inv.call ≠ .onStream id call
        · refine ⟨since, ?_, ?_, hlater, horder⟩
          · rw [ownCalls_cons_of_other hother, hcalls]
          · have hfile := fileOf_of_other hreaches hsucceeds hother
              (show fileOf w id = some ⟨_, w.pendingEmployer id, w.pauseHistory id⟩ by
                unfold fileOf
                rw [hrecord]
                rfl)
            obtain ⟨found, hfound, heq⟩ := Option.map_eq_some_iff.mp hfile
            rw [hfound]
            exact congrArg some (congrArg StreamFile.record heq)
        · push Not at hother
          obtain ⟨call, hcall⟩ := hother
          refine ⟨(inv.now, call) :: since, ?_, ?_, ?_, ?_⟩
          · rw [ownCalls_cons_of_onStream hcall, if_pos hsucceeds.returned_eq, hcalls]
            rfl
          · exact record_of_succeeds hreaches hsucceeds hcall hrecord
          · exact List.forall_mem_cons.mpr ⟨⟨le_rfl, inv.now_le⟩, hlater⟩
          · exact .cons (fun older holder => (hlater older holder).1) horder
      · refine ⟨since, ?_, ?_, hlater, horder⟩
        · rw [hsame]
          by_cases hother : ∀ call, inv.call ≠ .onStream id call
          · rw [ownCalls_cons_of_other hother, hcalls]
          · push Not at hother
            obtain ⟨call, hcall⟩ := hother
            rw [ownCalls_cons_of_onStream hcall, hfails.returned_eq, hcalls]
            rfl
        · rw [hsame]
          exact hrecord

/-! ## How often is withdrawn -/

/-- All the calls are withdrawals. -/
def OnlyWithdrawals (calls : List (Nat × StreamCall)) : Prop :=
  ∀ call ∈ calls, ∃ employee, call.2 = .withdraw employee

/-- The status after withdrawals: the stream ends once they have paid the last of
the deposit. -/
def SettledStatus (s s' : Stream) : Prop :=
  s'.status = if s.withdrawn < s'.withdrawn ∧ s.deposit ≤ s'.withdrawn then
    .exhausted else s.status

/-- What any number of withdrawals up to time `t` leave. -/
structure Withdrawals (s s' : Stream) (t : Nat) : Prop where
  sound : SoundAmounts s'
  entitled : ∀ t', t ≤ t' → t' ≤ u64Max → entitlement s' t' = entitlement s t'
  grown : s.withdrawn ≤ s'.withdrawn
  deposit : s'.deposit = s.deposit
  status : SettledStatus s s'

theorem Withdrawals.none {s : Stream} (h : SoundAmounts s) (t : Nat) :
    Withdrawals s s t :=
  ⟨h, fun _ _ _ => rfl, le_rfl, rfl, by simp [SettledStatus]⟩

theorem Withdrawals.next {s s' : Stream} {t now : Nat} (h : Withdrawals s s' t)
    (hnow : now ≤ t) (ht : t ≤ u64Max) (employee : Address) :
    Withdrawals s (recordAfter now s' (.withdraw employee)) t := by
  have hbound := hnow.trans ht
  refine ⟨h.sound.recordAfter_withdraw hbound employee, ?_, ?_, ?_, ?_⟩
  · intro t' htt ht'
    rw [entitlement_withdraw h.sound (hnow.trans htt) ht', h.entitled t' htt ht']
  · rw [withdrawn_recordAfter]
    have hnonneg := claimableOf_nonneg h.sound hbound
    have hgrown := h.grown
    unfold entitlement
    omega
  · by_cases hzero : claimableOf s' now = 0
    · rw [recordAfter_withdraw_nothing employee hzero]
      exact h.deposit
    · rw [Properties.recordAfter_withdraw employee hzero]
      exact h.deposit
  · by_cases hzero : claimableOf s' now = 0
    · rw [recordAfter_withdraw_nothing employee hzero]
      exact h.status
    · have hnonneg := claimableOf_nonneg h.sound hbound
      have hgrown := h.grown
      obtain ⟨hlive, _⟩ := claimableOf_pos h.sound hbound hzero
      -- a stream that pays has not ended before
      have hbefore : s'.status = s.status := by
        have hstatus := h.status
        unfold SettledStatus at hstatus
        split at hstatus
        · rw [hstatus] at hlive
          cases hlive
        · exact hstatus
      rw [Properties.recordAfter_withdraw employee hzero]
      show (if s'.deposit ≤ s'.withdrawn + claimableOf s' now
        then StreamStatus.exhausted else s'.status) =
          if s.withdrawn < s'.withdrawn + claimableOf s' now ∧
            s.deposit ≤ s'.withdrawn + claimableOf s' now then .exhausted
          else s.status
      rw [hbefore, h.deposit]
      by_cases hall : s.deposit ≤ s'.withdrawn + claimableOf s' now
      · rw [if_pos hall, if_pos ⟨by omega, hall⟩]
      · rw [if_neg hall, if_neg (by tauto)]

theorem withdrawals_of_calls {s : Stream} (h : SoundAmounts s) {t : Nat}
    (ht : t ≤ u64Max) {calls : List (Nat × StreamCall)}
    (hcalls : OnlyWithdrawals calls) (htimes : ∀ call ∈ calls, call.1 ≤ t) :
    Withdrawals s (recordSince s calls) t := by
  induction calls with
  | nil => exact .none h t
  | cons call calls ih =>
      obtain ⟨⟨employee, hemployee⟩, hrest⟩ := List.forall_mem_cons.mp hcalls
      obtain ⟨hnow, htimes⟩ := List.forall_mem_cons.mp htimes
      have hnext := (ih hrest htimes).next hnow ht employee
      rw [← hemployee] at hnext
      exact hnext

/-- If from some state on the calls on a stream that return are withdrawals, the
newest one at `now`, then what was withdrawn, the status and what can be claimed at
any time from `now` on depend on that state and on `now` alone, not on how many
withdrawals there were or when; nor on anything that happens to other streams. -/
theorem withdrawals_path_independent {host : Host} {history₀ history : History}
    {w₀ w : World} {id : Nat} {s : Stream} {now : Nat} {employee : Address}
    {withdrawals : List (Nat × StreamCall)} (hrun : Reaches host history₀ w₀)
    (hpath : (system host).Path history₀ w₀ history w)
    (hs : w₀.streams id = some s)
    (hcalls : ownCalls host id history =
      (now, .withdraw employee) :: withdrawals ++ ownCalls host id history₀)
    (honly : OnlyWithdrawals withdrawals) :
    ∃ s', w.streams id = some s' ∧ s'.withdrawn = entitlement s now ∧
      s'.status = (if s.withdrawn < entitlement s now ∧
        s.deposit ≤ entitlement s now then .exhausted else s.status) ∧
      ∀ t, now ≤ t → t ≤ u64Max →
        claimableAmount s' t = .ok (entitlement s t - entitlement s now) := by
  obtain ⟨since, hsince, hrecord, htimes, horder⟩ := record_of_path hrun hpath hs
  have hsplit : since = (now, .withdraw employee) :: withdrawals :=
    List.append_cancel_right (hsince.symm.trans hcalls)
  subst hsplit
  have hnow : now ≤ u64Max := (htimes _ List.mem_cons_self).2
  have hearlier : ∀ call ∈ withdrawals, call.1 ≤ now := (List.pairwise_cons.mp horder).1
  have hbefore := withdrawals_of_calls (soundAmounts_of_reaches hrun hs) hnow honly
    hearlier
  have hafter := hbefore.next le_rfl hnow employee
  have hwithdrawn : (recordAfter now (recordSince s withdrawals)
      (.withdraw employee)).withdrawn = entitlement s now := by
    rw [withdrawn_recordAfter, hbefore.entitled now le_rfl hnow]
  refine ⟨_, hrecord, hwithdrawn, ?_, ?_⟩
  · have hstatus := hafter.status
    unfold SettledStatus at hstatus
    rw [hwithdrawn] at hstatus
    exact hstatus
  · intro t hnowt ht
    have hclaim := claimableAmount_of_sound hafter.sound ht
    have hentitled := hafter.entitled t hnowt ht
    unfold entitlement at hentitled
    rw [claimableOf_eq hclaim, hwithdrawn] at hentitled
    refine hclaim.trans (congrArg Except.ok ?_)
    unfold entitlement at hentitled ⊢
    omega

/-- The employee withdraws. -/
def samplePayday (now : Nat) (now_le : now ≤ u64Max := by decide)
    (inRange : (Call.onStream 1 (.withdraw Sample.employee)).inRange = true :=
      by decide) : Invocation :=
  Sample.invoke now Sample.employee (.onStream 1 (.withdraw Sample.employee)) now_le
    inRange

/-- Three withdrawals, the last of them at second seventy. -/
theorem withdrawals_path_independent_of_three :
    ∃ s s', (Sample.play [Sample.openStream 10 1000 10 0]).2.streams 1 = some s ∧
      (Sample.play [Sample.openStream 10 1000 10 0, samplePayday 30,
        samplePayday 45, samplePayday 70]).2.streams 1 = some s' ∧
      s'.withdrawn = entitlement s 70 ∧ s'.withdrawn = 600 := by
  have hrun := Sample.play_reaches [Sample.openStream 10 1000 10 0] (by decide)
  have hpath : (system Sample.host).Path
      (Sample.play [Sample.openStream 10 1000 10 0]).1
      (Sample.play [Sample.openStream 10 1000 10 0]).2 _ _ :=
    ((System.Path.stay.next (samplePayday 30) (by decide)).next
      (samplePayday 45) (by decide)).next (samplePayday 70) (by decide)
  have honly : OnlyWithdrawals [(45, .withdraw Sample.employee),
      (30, .withdraw Sample.employee)] := by
    intro call hcall
    simp only [List.mem_cons, List.not_mem_nil, or_false] at hcall
    rcases hcall with rfl | rfl
    · exact ⟨_, rfl⟩
    · exact ⟨_, rfl⟩
  obtain ⟨s', hs', hwithdrawn, _⟩ :=
    @withdrawals_path_independent Sample.host _ _ _ _ 1 _ 70 Sample.employee _ hrun
      hpath rfl rfl honly
  exact ⟨_, s', rfl, hs', hwithdrawn, hwithdrawn.trans (by decide)⟩

/-! ## The entitlement grows -/

/-- The two ways an operation at `now` takes something away from the employee. -/
def TakesBack (now : Nat) (s : Stream) (op : StreamOp) : Prop :=
  op = .resume ∨ (op = .markExhausted ∧ claimableOf s now ≠ 0)

theorem leftOf_topUp (s : Stream) (now : Nat) {amount : Int} (hpos : 0 < amount) :
    leftOf s ≤ leftOf ((StreamOp.topUp amount).next now s) := by
  show max (s.deposit - s.withdrawn) 0 ≤ max (s.deposit + amount - s.withdrawn) 0
  omega

/-- Any other operation leaves what the employee is entitled to at that time, or
adds to it. -/
theorem entitlement_le_next {s : Stream} {now : Nat} {op : StreamOp}
    (h : SoundAmounts s) (hnow : now ≤ u64Max) (hguard : op.Guard now s)
    (hkeeps : ¬ TakesBack now s op) :
    entitlement s now ≤ entitlement (op.next now s) now := by
  have hnext := h.next hguard
  have hnonneg := claimableOf_nonneg hnext hnow
  have hsound := claimableOf_of_sound h hnow
  have hsoundNext := claimableOf_of_sound hnext hnow
  unfold entitlement
  cases op with
  | withdraw gross =>
      rw [claimableOf_eq hguard.2.2.2]
      show s.withdrawn + gross ≤ s.withdrawn + gross + _
      omega
  | topUp amount =>
      obtain ⟨hpos, _⟩ := hguard
      have hgrow : claimableOf s now ≤
          claimableOf ((StreamOp.topUp amount).next now s) now := by
        rw [hsound, hsoundNext]
        show _ ≤ if isTerminal s.status = true ∨ now < s.cliffTime then 0
          else min (((countedSeconds s now : Nat) : Int) * s.ratePerSecond)
            (leftOf ((StreamOp.topUp amount).next now s))
        split
        · exact le_rfl
        · exact min_le_min_left _ (leftOf_topUp s now hpos)
      exact add_le_add_right hgrow s.withdrawn
  | pause =>
      have hsame : claimableOf (StreamOp.next now s .pause) now =
          claimableOf s now := by
        change s.status = .active at hguard
        rw [hsound, hsoundNext, hguard]
        rfl
      rw [hsame]
      exact le_rfl
  | resume => exact absurd (Or.inl rfl) hkeeps
  | cancel owed =>
      rw [claimableOf_eq hguard.2]
      show s.withdrawn + owed ≤ s.withdrawn + owed + _
      omega
  | reclaim owed =>
      rw [claimableOf_eq hguard.2.2]
      show s.withdrawn + owed ≤ s.withdrawn + owed + _
      omega
  | updateRate newRate accrued =>
      rw [claimableOf_eq hguard.2.2.2]
      show s.withdrawn + accrued ≤ s.withdrawn + accrued + _
      omega
  | markExhausted =>
      have hzero : claimableOf s now = 0 := by
        by_contra hpos
        exact hkeeps (Or.inr ⟨rfl, hpos⟩)
      rw [hzero]
      show s.withdrawn + 0 ≤ s.withdrawn + _
      omega
  | changeEmployee newEmployee => exact le_rfl
  | changeDelegate delegate => exact le_rfl
  | changeEmployer newEmployer => exact le_rfl

/-- The call of an entry takes nothing back from the employee of stream `id`: it is
no resumption, and no look at a moment when the stream has ended with something to
claim. -/
def KeepsEarnings (id : Nat) (entry : Entry World Invocation) : Prop :=
  (∀ caller, entry.input.call ≠ .onStream id (.resumeStream caller)) ∧
    (entry.input.call = .onStream id .getStream → ∀ s,
      entry.before.streams id = some s → StreamedByStop entry.input.now s →
        claimableOf s entry.input.now = 0)

theorem streamedByStop_of_fullyStreamed {s : Stream} {now : Nat}
    (h : SoundAmounts s) (hnow : now ≤ u64Max)
    (hcliff : 0 < s.cliffTime → 0 < s.stopTime → s.cliffTime ≤ s.stopTime)
    (hguard : StreamOp.markExhausted.Guard now s) : StreamedByStop now s := by
  obtain ⟨hactive, ⟨hpos, hstop⟩, claimable, hclaimable, htests⟩ := hguard
  have hatStop := claimableAmount_at_stop h (hstop.trans hnow) hactive hcliff hpos
  refine ⟨hactive, hpos, hstop, ?_⟩
  rw [← streamed_by_stop_iff h claimable]
  rcases htests with hfirst | ⟨earned, hearned, hall⟩
  · exact Or.inl hfirst
  · rw [hatStop] at hearned
    cases hearned
    exact Or.inr hall

/-- One call. -/
theorem entitlement_le_of_succeeds {host : Host} {history : History} {w w' : World}
    {inv : Invocation} {value : Value} {id : Nat} {s s' : Stream}
    (hrun : Reaches host history w) (h : Succeeds host w inv value w')
    (hkeeps : KeepsEarnings id ⟨w, inv, w'⟩) (hs : w.streams id = some s)
    (hs' : w'.streams id = some s') :
    entitlement s inv.now ≤ entitlement s' inv.now := by
  cases streamChange_of_succeeds hrun h id with
  | same hstream _ =>
      rw [hstream, hs] at hs'
      cases hs'
      exact le_rfl
  | born _ _ _ hnone =>
      rw [hs] at hnone
      cases hnone
  | updated found op log call hcall hfound hissues hupdate hstream _ =>
      rw [hs] at hfound
      cases hfound
      rw [hstream] at hs'
      cases hs'
      have hsound := soundAmounts_of_reaches hrun hs
      refine entitlement_le_next hsound inv.now_le hupdate.guard ?_
      rintro (rfl | ⟨rfl, hpos⟩)
      · cases hissues with
        | resume caller _ _ => exact hkeeps.1 caller hcall
      · cases hissues with
        | markExhausted =>
            exact hpos (hkeeps.2 hcall s hs (streamedByStop_of_fullyStreamed hsound
              inv.now_le (cliff_le_stop_of_reaches hrun hs) hupdate.guard))

/-- From an entry of a run on, what the employee is entitled to never falls, as
long as no call resumes the stream or ends it by a look. -/
theorem entitlement_grows {host : Host} {later earlier : History}
    {entry : Entry World Invocation} {w : World} {id : Nat} {s s' : Stream}
    (hrun : Reaches host (later ++ entry :: earlier) w)
    (hs : entry.after.streams id = some s) (hs' : w.streams id = some s')
    (hkeeps : ∀ newer ∈ later, returned host newer = true → KeepsEarnings id newer)
    {t : Nat} (htime : ledgerTime host (later ++ entry :: earlier) ≤ t)
    (ht : t ≤ u64Max) : entitlement s entry.input.now ≤ entitlement s' t := by
  induction later generalizing w s' t with
  | nil =>
      obtain ⟨_, _, rfl⟩ := hrun.of_cons
      rw [hs] at hs'
      cases hs'
      exact entitlement_mono (soundAmounts_of_reaches hrun hs) htime ht
  | cons newest later ih =>
      obtain ⟨hnewest, hrest⟩ := List.forall_mem_cons.mp hkeeps
      obtain ⟨hbefore, hcases⟩ := Reaches.newest_cases hrun
      obtain ⟨_, _, hend⟩ := hrun.of_cons
      have hsplit : System.Run (system host) ([] ++ newest ::
          (later ++ entry :: earlier)) w := hrun
      have horder := hsplit.of_split.2.2
      -- the stream was stored before the newest call
      obtain ⟨old, hold⟩ : ∃ old, newest.before.streams id = some old :=
        Reaches.persists (P := fun w => ∃ old, w.streams id = some old)
          (fun history w inv value w' hrun _ hw hsucceeds => by
            obtain ⟨old, hold⟩ := hw
            exact (streamChange_of_succeeds hrun hsucceeds id).stored hold)
          hbefore ⟨s, hs⟩
      have hsofar := ih hbefore hold hrest horder newest.input.now_le
      refine hsofar.trans ?_
      have hsound := soundAmounts_of_reaches hrun hs'
      have hlast : entitlement s' newest.input.now ≤ entitlement s' t :=
        entitlement_mono hsound htime ht
      refine le_trans ?_ hlast
      subst hend
      rcases hcases with ⟨hreturned, value, hsucceeds⟩ | ⟨_, hsame⟩
      · exact entitlement_le_of_succeeds hbefore hsucceeds (hnewest hreturned) hold hs'
      · rw [hsame, hold] at hs'
        cases hs'
        exact le_rfl

/-- A top-up and a higher rate after the first payday. -/
theorem entitlement_grows_after_payday :
    ∃ s s', (Sample.play [Sample.openStream 10 1000 10 0,
        samplePayday 40]).2.streams 1 = some s ∧
      (Sample.play [Sample.openStream 10 1000 10 0, samplePayday 40,
        Sample.manage 45 (.topUp Sample.employer 500),
        Sample.manage 50 (.updateRate Sample.employer 20)]).2.streams 1 = some s' ∧
      entitlement s 40 = 300 ∧ entitlement s 40 ≤ entitlement s' 60 := by
  have hrun := Sample.play_reaches [Sample.openStream 10 1000 10 0, samplePayday 40,
    Sample.manage 45 (.topUp Sample.employer 500),
    Sample.manage 50 (.updateRate Sample.employer 20)] (by decide)
  refine ⟨_, _, rfl, rfl, by decide, ?_⟩
  refine @entitlement_grows Sample.host [_, _] _ _ _ 1 _ _ hrun rfl rfl ?_ 60
    (by decide) (by decide)
  intro newer hnewer _
  simp only [List.mem_cons, List.not_mem_nil, or_false] at hnewer
  rcases hnewer with rfl | rfl
  · exact ⟨nofun, nofun⟩
  · exact ⟨nofun, nofun⟩

end Properties
end Paystream
