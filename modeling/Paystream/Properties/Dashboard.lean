import Paystream.Properties.BalanceService
import Paystream.Properties.Indexes
import Paystream.Services.Dashboard

/-!
# What the demo shows, against the contract

* The counters add the whole time since `last_withdraw_time` to an amount that was
  polled later and contains a part of it.  `counters_track_iff` says when this gives
  what the contract would pay.
* The dashboard scans the ids below the stream count, and the contract counts from one:
  the newest stream is not looked at, and one stream too many at the other end.
  `loadDashboard_complete_iff` says for whom this makes no difference.
-/

namespace Paystream
namespace Properties

open Library
open Contract
open Contract.Storage
open Semantics
open Services.BalanceService
open Services.Dashboard

/-! ## Live counters -/

section Counters

variable {s : Stream}

/-- The condition under which the counter shows what the contract would pay: from the
stop time on nothing must have been missing at the poll, and before it nothing must
have been claimable then. -/
def CounterExact (s : Stream) (polled shown : Nat) : Prop :=
  if 0 < s.stopTime ∧ s.stopTime ≤ shown then
    shown < s.cliffTime ∨ s.stopTime ≤ s.lastWithdrawTime ∨ s.deposit ≤ s.withdrawn ∨
      (s.cliffTime ≤ polled ∧ (s.stopTime ≤ polled ∨
        s.deposit - s.withdrawn ≤
          ((polled : Int) - s.lastWithdrawTime) * s.ratePerSecond))
  else
    shown = s.lastWithdrawTime ∨
      (s.cliffTime ≤ shown ∧ (polled < s.cliffTime ∨ polled = s.lastWithdrawTime) ∧
        ((shown : Int) - s.lastWithdrawTime) * s.ratePerSecond ≤
          s.deposit - s.withdrawn)

instance (s : Stream) (polled shown : Nat) : Decidable (CounterExact s polled shown) :=
  inferInstanceAs (Decidable (if 0 < s.stopTime ∧ s.stopTime ≤ shown then _ else _))

/-- What the contract would pay at `t`, of an active stream. -/
def payable (s : Stream) (t : Nat) : Int :=
  if t < s.cliffTime then 0 else earnedIn s (countedSeconds s t)

theorem claimableAmount_of_active (h : SoundAmounts s) (hactive : s.status = .active)
    {t : Nat} (ht : t ≤ u64Max) : claimableAmount s t = .ok (payable s t) := by
  rw [claimableAmount_of_sound h ht]
  simp [payable, hactive, isTerminal]

/-- The earnings of the seconds since the last withdrawal. -/
theorem mul_seconds_nonneg (h : SoundAmounts s) {t : Nat} (hlast : s.lastWithdrawTime ≤ t) :
    0 ≤ ((t : Int) - s.lastWithdrawTime) * s.ratePerSecond :=
  mul_nonneg (by omega) h.rate_pos.le

theorem mul_seconds_eq_zero_iff (h : SoundAmounts s) {t : Nat}
    (hlast : s.lastWithdrawTime ≤ t) :
    ((t : Int) - s.lastWithdrawTime) * s.ratePerSecond = 0 ↔ t = s.lastWithdrawTime := by
  have hrate := h.rate_pos
  rw [mul_eq_zero]
  omega

theorem countedSeconds_cast {t : Nat} (hlast : s.lastWithdrawTime ≤ t)
    (hrunning : s.stopTime = 0 ∨ t ≤ s.stopTime) :
    (countedSeconds s t : Int) = (t : Int) - s.lastWithdrawTime := by
  have := effectiveEnd_cases s t
  unfold countedSeconds
  omega

theorem earnedIn_countedSeconds {t : Nat} (hlast : s.lastWithdrawTime ≤ t)
    (hrunning : s.stopTime = 0 ∨ t ≤ s.stopTime) :
    earnedIn s (countedSeconds s t) =
      min (((t : Int) - s.lastWithdrawTime) * s.ratePerSecond) (leftOf s) := by
  rw [earnedIn, countedSeconds_cast hlast hrunning]

/-- The counter of an active stream that has started. -/
theorem extrapolate_of_started (hactive : s.status = .active) {shown : Nat}
    (hstarted : s.startTime ≤ shown) (base : Int) :
    extrapolate s base shown =
      if 0 < s.stopTime ∧ s.stopTime ≤ shown then base
      else base + ((shown : Int) - s.lastWithdrawTime) * s.ratePerSecond := by
  unfold extrapolate
  rw [if_neg (not_not_intro hactive), if_neg (by omega)]

/-- From the stop time on the counter shows the polled amount. -/
theorem payable_eq_of_stopped_iff (h : SoundAmounts s) {polled shown : Nat}
    (hlast : s.lastWithdrawTime ≤ polled) (hshown : polled ≤ shown)
    (hpos : 0 < s.stopTime) (hstop : s.stopTime ≤ shown) :
    payable s shown = payable s polled ↔
      shown < s.cliffTime ∨ s.stopTime ≤ s.lastWithdrawTime ∨ s.deposit ≤ s.withdrawn ∨
        (s.cliffTime ≤ polled ∧ (s.stopTime ≤ polled ∨
          s.deposit - s.withdrawn ≤
            ((polled : Int) - s.lastWithdrawTime) * s.ratePerSecond)) := by
  have hend : countedSeconds s shown = s.stopTime - s.lastWithdrawTime := by
    have := effectiveEnd_cases s shown
    unfold countedSeconds
    omega
  unfold payable
  rw [hend]
  by_cases hbefore : shown < s.cliffTime
  · rw [if_pos hbefore, if_pos (by omega)]
    simp [hbefore]
  rw [if_neg hbefore, or_iff_right hbefore]
  by_cases hcliff : polled < s.cliffTime
  · rw [if_pos hcliff, earnedIn_eq_zero_iff h]
    omega
  · rw [if_neg hcliff]
    by_cases hstopped : s.stopTime ≤ polled
    · -- the poll came after the stop time already
      have hsame : countedSeconds s polled = s.stopTime - s.lastWithdrawTime := by
        have := effectiveEnd_cases s polled
        unfold countedSeconds
        omega
      rw [hsame]
      exact iff_of_true rfl (Or.inr (Or.inr ⟨by omega, Or.inl hstopped⟩))
    · have hpolled : countedSeconds s polled =
          s.stopTime - s.lastWithdrawTime - (s.stopTime - polled) := by
        have := effectiveEnd_cases s polled
        unfold countedSeconds
        omega
      have hearned := mul_seconds_nonneg h hlast
      rw [hpolled, earnedIn_sub_eq_iff h (by omega), ← hpolled,
        countedSeconds_cast hlast (Or.inr (by omega))]
      omega

/-- Before the stop time the counter adds all seconds since the last withdrawal. -/
theorem payable_eq_of_running_iff (h : SoundAmounts s) {polled shown : Nat}
    (hlast : s.lastWithdrawTime ≤ polled) (hshown : polled ≤ shown)
    (hrunning : ¬ (0 < s.stopTime ∧ s.stopTime ≤ shown)) :
    payable s shown = payable s polled +
        ((shown : Int) - s.lastWithdrawTime) * s.ratePerSecond ↔
      shown = s.lastWithdrawTime ∨
        (s.cliffTime ≤ shown ∧
          (polled < s.cliffTime ∨ polled = s.lastWithdrawTime) ∧
          ((shown : Int) - s.lastWithdrawTime) * s.ratePerSecond ≤
            s.deposit - s.withdrawn) := by
  have hpolled := earnedIn_countedSeconds hlast (by omega)
  have hnow := earnedIn_countedSeconds (hlast.trans hshown) (by omega)
  have hzero := mul_seconds_eq_zero_iff h hlast
  have hzero' := mul_seconds_eq_zero_iff h (hlast.trans hshown)
  have hnonneg := mul_seconds_nonneg h hlast
  have hnonneg' := mul_seconds_nonneg h (hlast.trans hshown)
  have hleft : leftOf s = max (s.deposit - s.withdrawn) 0 := rfl
  unfold payable
  rw [hpolled, hnow]
  split
  · split
    · omega
    · omega
  · split
    · omega
    · omega

end Counters

/-- Of an active stream of a run, polled after its last operation, both counters show
what the contract would pay exactly under `CounterExact`. -/
theorem counters_track_iff {host : Host} {history : History} {w : World}
    (hrun : Reaches host history w) {id : Nat} {s : Stream}
    (hs : w.streams id = some s) (hactive : s.status = .active) {polled shown : Nat}
    (hpoll : ledgerTime host history ≤ polled) (hshown : polled ≤ shown)
    (hexact : shown ≤ maxSafeInteger) {baseClaimable : Int}
    (hbase : claimableAmount s polled = .ok baseClaimable) :
    (claimableAmount s shown = .ok (calculateClaimableAtTime s baseClaimable shown) ∧
      claimableAmount s shown = .ok (calculateCurrentClaimable s baseClaimable shown)) ↔
      CounterExact s polled shown := by
  have hsound := soundAmounts_of_reaches hrun hs
  have hclock := (clockFollowed_of_reaches hrun id).state s hs
  have hlast := hclock.last_le
  have hstart := hclock.start_le
  have hreset := hclock.reset_le
  have hmax : shown ≤ u64Max := hexact.trans (by decide)
  rw [claimableAmount_of_active hsound hactive (hshown.trans hmax), Except.ok.injEq] at hbase
  subst hbase
  unfold calculateClaimableAtTime calculateCurrentClaimable CounterExact
  rw [and_self_iff, claimableAmount_of_active hsound hactive hmax, Except.ok.injEq,
    extrapolate_of_started hactive (by omega)]
  by_cases hstopped : 0 < s.stopTime ∧ s.stopTime ≤ shown
  · rw [if_pos hstopped, if_pos hstopped]
    exact payable_eq_of_stopped_iff hsound (by omega) hshown hstopped.1 hstopped.2
  · rw [if_neg hstopped, if_neg hstopped]
    exact payable_eq_of_running_iff hsound (by omega) hshown hstopped

/-- A stream from 10 on that is polled at once: at 30 the counter shows the 200 that have
accrued since then. -/
theorem counters_track_from_start :
    ∃ history w s, Reaches Sample.host history w ∧ w.streams 1 = some s ∧
      calculateClaimableAtTime s 0 30 = 200 ∧
      claimableAmount s 30 = .ok (calculateClaimableAtTime s 0 30) := by
  have hrun := Sample.play_reaches [Sample.openStream 10 1000 10 0] (by decide)
  have htrack := @counters_track_iff _ _ _ hrun 1 _ rfl rfl 10 30 (by decide) (by decide)
    (by decide) 0 (by decide)
  exact ⟨_, _, _, hrun, rfl, by decide, (htrack.mpr (by decide)).1⟩

/-- A stream from 10 on at a rate of 10, polled and shown at 20: 100 can be claimed, and
the counter shows 200. -/
theorem counters_count_twice :
    ∃ history w s, Reaches Sample.host history w ∧ w.streams 1 = some s ∧
      s.status = .active ∧ ledgerTime Sample.host history ≤ 20 ∧
      claimableAmount s 20 = .ok 100 ∧ calculateClaimableAtTime s 100 20 = 200 ∧
      calculateCurrentClaimable s 100 20 = 200 ∧
      claimableAmount s 20 ≠ .ok (calculateClaimableAtTime s 100 20) := by
  have hrun := Sample.play_reaches [Sample.openStream 10 1000 10 0] (by decide)
  exact ⟨_, _, _, hrun, rfl, by decide, by decide, by decide, by decide, by decide,
    by decide⟩

/-! ## The scan -/

/-- What `get_stream` returns is the stored stream, perhaps marked as exhausted. -/
theorem stored_of_getStream {ctx : Context} {id : Nat} {w w' : World} {seen : Stream}
    (h : StreamContract.getStream ctx id w = .ok (seen, w')) :
    ∃ s, w.streams id = some s ∧ seen.id = s.id ∧ seen.employer = s.employer := by
  simp only [StreamContract.getStream, bind_eq_ok_iff, loadStream_eq_ok_iff] at h
  obtain ⟨s, hs, h⟩ := h
  refine ⟨s, hs, ?_⟩
  split at h
  · simp only [bind_eq_ok_iff] at h
    obtain ⟨claimable, _, h⟩ := h
    split at h
    · cases h
      exact ⟨rfl, rfl⟩
    · simp only [bind_eq_ok_iff] at h
      obtain ⟨earned, _, h⟩ := h
      split at h
      · cases h
        exact ⟨rfl, rfl⟩
      · cases h
        exact ⟨rfl, rfl⟩
  · cases h
    exact ⟨rfl, rfl⟩

/-- The client's reads in this state of the contract: of an id that exists `get_stream`
returns, at the time of the read, and any other read throws. -/
structure ReadsSucceed (w : World) (read : Nat → Option Stream) : Prop where
  existing : ∀ id s, w.streams id = some s → ∃ ctx seen w',
    StreamContract.getStream ctx id w = .ok (seen, w') ∧ read id = some seen
  missing : ∀ id, w.streams id = none → read id = none

section Scan

variable {w : World} {read : Nat → Option Stream} (key : Address)

/-- The scan collects what the reads of its ids return for this employer. -/
theorem foldl_scanId (total : Nat) (ids : List Nat) (dashboard : DashboardState) :
    (ids.foldl (scanId read key total) dashboard).streams =
      dashboard.streams ++ (ids.filterMap read).filter fun s => s.employer = key := by
  induction ids generalizing dashboard with
  | nil => simp
  | cons i ids ih =>
      rw [List.foldl_cons, ih, List.filterMap_cons]
      unfold scanId
      cases read i with
      | none => rfl
      | some stream =>
          by_cases hkey : stream.employer = key
          · simp [hkey]
          · simp [hkey]

theorem streams_loadDashboard (total : Nat) (dashboard : DashboardState) :
    (loadDashboard (.ok total) read key dashboard).streams =
      ((scanIds total (total - maxScan)).filterMap read).filter
        fun s => s.employer = key := by
  unfold loadDashboard
  dsimp only
  split
  · rename_i hnone
    subst hnone
    rfl
  · exact (foldl_scanId key total _ _).trans (List.nil_append _)

theorem mem_scanIds (total start i : Nat) :
    i ∈ scanIds total start ↔ start ≤ i ∧ i < total := by
  unfold scanIds
  rw [List.mem_reverse, List.mem_range'_1]
  omega

/-- The streams that are found: those of the employer whose id is scanned. -/
theorem mem_loadDashboard_iff (hreads : ReadsSucceed w read) (hkeyed : Keyed w)
    (dashboard : DashboardState) (id : Nat) :
    id ∈ (loadDashboard (.ok w.streamCount) read key dashboard).streams.map Stream.id ↔
      ∃ s, w.streams id = some s ∧ s.employer = key ∧
        w.streamCount - maxScan ≤ id ∧ id < w.streamCount := by
  rw [streams_loadDashboard]
  simp only [List.mem_map, List.mem_filter, List.mem_filterMap, mem_scanIds,
    decide_eq_true_eq]
  constructor
  · rintro ⟨seen, ⟨⟨i, hi, hseen⟩, hemployer⟩, rfl⟩
    cases hs : w.streams i with
    | none =>
        rw [hreads.missing i hs] at hseen
        cases hseen
    | some s =>
        obtain ⟨ctx, seen', w', hget, hread⟩ := hreads.existing i s hs
        rw [hread] at hseen
        cases hseen
        obtain ⟨s', hs', hid, hsame⟩ := stored_of_getStream hget
        rw [hs] at hs'
        cases hs'
        rw [hid, (hkeyed i s hs).1]
        exact ⟨s, hs, hsame ▸ hemployer, hi⟩
  · rintro ⟨s, hs, hemployer, hi⟩
    obtain ⟨ctx, seen, w', hget, hread⟩ := hreads.existing id s hs
    obtain ⟨s', hs', hid, hsame⟩ := stored_of_getStream hget
    rw [hs] at hs'
    cases hs'
    exact ⟨seen, ⟨⟨id, hi, hread⟩, hsame.trans hemployer⟩, hid.trans (hkeyed id s hs).1⟩

end Scan

/-- The dashboard finds exactly the employer's streams, or those among the newest 200,
if the newest stream is another's and so is the one just outside the window. -/
theorem loadDashboard_complete_iff {host : Host} {history : History} {w : World}
    (hrun : Reaches host history w) {read : Nat → Option Stream}
    (hreads : ReadsSucceed w read) (key : Address) (dashboard : DashboardState) :
    (∀ id, id ∈ (loadDashboard (.ok w.streamCount) read key dashboard).streams.map
        Stream.id ↔
      ∃ s, w.streams id = some s ∧ s.employer = key ∧
        (w.streamCount ≤ maxScan ∨ w.streamCount - maxScan < id)) ↔
    (∀ s, w.streams w.streamCount = some s → s.employer ≠ key) ∧
      (maxScan < w.streamCount → ∀ s, w.streams (w.streamCount - maxScan) = some s →
        s.employer ≠ key) := by
  have hkeyed := keyed_of_reaches hrun
  simp only [mem_loadDashboard_iff key hreads hkeyed dashboard]
  constructor
  · intro hexact
    constructor
    · intro s hs hkey
      obtain ⟨_, hpos, _⟩ := hkeyed _ s hs
      obtain ⟨_, _, _, _, hlt⟩ := (hexact _).mpr ⟨s, hs, hkey, by unfold maxScan; omega⟩
      omega
    · intro hmany s hs hkey
      obtain ⟨_, _, _, hwindow⟩ := (hexact _).mp
        ⟨s, hs, hkey, le_rfl, by unfold maxScan at *; omega⟩
      omega
  · rintro ⟨hnewest, houtside⟩ id
    constructor
    · rintro ⟨s, hs, hkey, hstart, hend⟩
      refine ⟨s, hs, hkey, ?_⟩
      by_contra hnot
      have hid : id = w.streamCount - maxScan := by omega
      exact houtside (by omega) s (hid ▸ hs) hkey
    · rintro ⟨s, hs, hkey, hwindow⟩
      obtain ⟨_, hpos, hle⟩ := hkeyed id s hs
      have hne : id ≠ w.streamCount := by
        rintro rfl
        exact hnewest s hs hkey
      exact ⟨s, hs, hkey, by omega, by omega⟩

namespace ScanSample

/-- The empty dashboard. -/
def dashboard : DashboardState := ⟨[], 0, 0, none⟩

/-- One stream of the employer. -/
def created : List Invocation := [Sample.openStream 14 7000 70 0]

/-- Two streams of the employer, who hands the newer one over. -/
def handedOver : List Invocation :=
  [Sample.openStream 14 7000 70 0, Sample.openStream 15 5000 50 0,
    Sample.invoke 16 Sample.employer
      (.onStream 2 (.proposeEmployerTransfer Sample.employer Sample.treasury)),
    Sample.invoke 17 Sample.treasury
      (.onStream 2 (.acceptEmployerTransfer Sample.treasury))]

/-- What `get_stream` returns at 20. -/
def read (w : World) (id : Nat) : Option Stream :=
  match StreamContract.getStream ⟨20, []⟩ id w with
  | .ok (stream, _) => some stream
  | .error _ => none

theorem readsSucceed {w : World}
    (h : ∀ id s, w.streams id = some s → ∃ seen w',
      StreamContract.getStream ⟨20, []⟩ id w = .ok (seen, w')) :
    ReadsSucceed w (read w) where
  existing := by
    intro id s hs
    obtain ⟨seen, w', hget⟩ := h id s hs
    refine ⟨⟨20, []⟩, seen, w', hget, ?_⟩
    unfold read
    rw [hget]
  missing := by
    intro id hnone
    unfold read
    split
    · rename_i stream w' hget
      obtain ⟨s, hs, _⟩ := stored_of_getStream hget
      rw [hnone] at hs
      cases hs
    · rfl

theorem readsSucceed_created : ReadsSucceed (Sample.play created).2
    (read (Sample.play created).2) := by
  refine readsSucceed ?_
  intro id s hs
  have hrun := Sample.play_reaches created (by decide)
  obtain ⟨_, hpos, hle⟩ := keyed_of_reaches hrun id s hs
  have hone : (Sample.play created).2.streamCount = 1 := by decide
  obtain rfl : id = 1 := by omega
  exact ⟨_, _, rfl⟩

theorem readsSucceed_handedOver : ReadsSucceed (Sample.play handedOver).2
    (read (Sample.play handedOver).2) := by
  refine readsSucceed ?_
  intro id s hs
  have hrun := Sample.play_reaches handedOver (by decide)
  obtain ⟨_, hpos, hle⟩ := keyed_of_reaches hrun id s hs
  have htwo : (Sample.play handedOver).2.streamCount = 2 := by decide
  obtain rfl | rfl : id = 1 ∨ id = 2 := by omega
  · exact ⟨_, _, rfl⟩
  · exact ⟨_, _, rfl⟩

end ScanSample

open ScanSample in
/-- The employer who has handed the newest stream over finds the one that is left. -/
theorem loadDashboard_complete_of_other :
    (Sample.play handedOver).2.streamCount = 2 ∧
    (loadDashboard (.ok 2) (read (Sample.play handedOver).2) Sample.employer
      dashboard).streams.map Stream.id = [1] ∧
    ∀ id, id ∈ (loadDashboard (.ok 2) (read (Sample.play handedOver).2) Sample.employer
        dashboard).streams.map Stream.id ↔
      ∃ s, (Sample.play handedOver).2.streams id = some s ∧
        s.employer = Sample.employer ∧ (2 ≤ maxScan ∨ 2 - maxScan < id) := by
  have hrun := Sample.play_reaches handedOver (by decide)
  refine ⟨by decide, by decide, (loadDashboard_complete_iff hrun readsSucceed_handedOver
    Sample.employer dashboard).mpr ⟨?_, by decide⟩⟩
  intro s hs
  cases hs
  decide

open ScanSample in
/-- The employer's only stream, which is stream 1 of 1, is not found. -/
theorem loadDashboard_misses_newest :
    ∃ history w, Reaches Sample.host history w ∧ ReadsSucceed w (read w) ∧
      w.streamCount = 1 ∧
      (∃ s, w.streams 1 = some s ∧ s.id = 1 ∧ s.employer = Sample.employer) ∧
      (loadDashboard (.ok w.streamCount) (read w) Sample.employer dashboard).streams =
        [] := by
  have hrun := Sample.play_reaches created (by decide)
  exact ⟨_, _, hrun, readsSucceed_created, by decide, ⟨_, rfl, by decide, by decide⟩,
    by decide⟩

end Properties
end Paystream
