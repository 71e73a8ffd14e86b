import Paystream.Properties.Representation

/-!
# The accrual law

The contract keeps no accrual history.  Past withdrawals and pauses live in two
numbers only, `withdrawn` and a `last_withdraw_time` that is moved forward at
every withdrawal and resume.  The law ties them to the real history: what a
stream has paid out and can pay out is its rate times the seconds it was not
paused since its start, capped by its deposit.

`ClockLaw` is the invariant behind it.  With `W` the seconds already paid for,
the seconds of the history up to a time are `W` and those the stored clock still
counts; while a stream is paused the clock stands at `paused_at`.

With a stop time one step can break it.  A resume shifts the clock by the whole
pause, also by the part of it that lies behind the stop time, where no second
was going to count anyway.  `ResumeLosesNothing` says when that does no harm.
-/

namespace Paystream
namespace Properties

open Library
open Contract
open Contract.Storage
open Semantics

/-! ## Seconds a stream was not paused -/

/-- The stream `id` exists and is not paused. -/
def unpaused (id : Nat) (w : World) : Bool :=
  match w.streams id with
  | some s => decide (s.status ≠ .paused)
  | none => false

/-- The seconds from `start` to `stop` during which stream `id` was not
paused. -/
def unpausedSeconds (host : Host) (id : Nat) (history : History)
    (start stop : Nat) : Nat :=
  secondsWhile (system host) (unpaused id) history start stop

theorem unpaused_eq {id : Nat} {w : World} {s : Stream}
    (hs : w.streams id = some s) : unpaused id w = decide (s.status ≠ .paused) := by
  unfold unpaused
  rw [hs]

/-- A new entry decides the seconds after it, as far as they count. -/
theorem unpausedSeconds_cons (host : Host) (id : Nat)
    (entry : Entry World Invocation) (history : History) {s : Stream}
    {start t : Nat} (hstart : start ≤ entry.input.now)
    (ht : entry.input.now ≤ t) :
    unpausedSeconds host id (entry :: history) start (effectiveEnd s t) =
      unpausedSeconds host id history start (effectiveEnd s entry.input.now) +
        if unpaused id entry.after then
          effectiveEnd s t - effectiveEnd s entry.input.now
        else 0 := by
  have hnowCases := effectiveEnd_cases s entry.input.now
  have htCases := effectiveEnd_cases s t
  unfold unpausedSeconds
  by_cases hstopped : 0 < s.stopTime ∧ s.stopTime < entry.input.now
  · -- the stop time is behind: nothing counts any more
    have hsame : effectiveEnd s t = effectiveEnd s entry.input.now := by omega
    have hbefore : effectiveEnd s entry.input.now ≤
        (system host).time entry.input := effectiveEnd_le s entry.input.now
    rw [hsame, secondsWhile_cons_of_le (unpaused id) entry history hbefore]
    simp
  · have hnow : effectiveEnd s entry.input.now = entry.input.now := by omega
    have hend : entry.input.now ≤ effectiveEnd s t := by omega
    rw [hnow]
    exact secondsWhile_cons (unpaused id) entry history hstart hend

/-! ## The clock of a stream -/

/-- The time the clock of the stream shows at `now`: it stands still during a
pause. -/
def clockTime (s : Stream) (now : Nat) : Nat :=
  if s.status = .paused then s.pausedAt else now

/-- Of `seconds` seconds, `paid` are paid for and the others are those the
stored clock counts at `now`. -/
def ClockLaw (s : Stream) (paid seconds now : Nat) : Prop :=
  s.withdrawn = s.ratePerSecond * paid ∧
    seconds = paid + (effectiveEnd s (clockTime s now) - s.lastWithdrawTime)

/-- The shift of a resume at `now` takes no second away that counted. -/
def ResumeLosesNothing (s : Stream) (now : Nat) : Prop :=
  now ≤ s.stopTime ∨ s.pausedAt = now ∨ s.pausedAt ≤ s.lastWithdrawTime ∨
    s.stopTime ≤ s.lastWithdrawTime

/-- The operation is no rate update, and if it is a resume it loses nothing. -/
def KeepsClock (now : Nat) (s : Stream) : StreamOp → Prop
  | .updateRate _ _ => False
  | .resume => s.stopTime = 0 ∨ ResumeLosesNothing s now
  | _ => True

/-- From `now` on the clock runs with the seconds, or stands with them. -/
theorem ClockLaw.later {s : Stream} {paid seconds now t : Nat}
    (h : ClockLaw s paid seconds now) (hwell : WellFormed now s) (ht : now ≤ t) :
    ClockLaw s paid (seconds + if decide (s.status ≠ .paused) then
      effectiveEnd s t - effectiveEnd s now else 0) t := by
  obtain ⟨hwithdrawn, hseconds⟩ := h
  refine ⟨hwithdrawn, ?_⟩
  have hlast := hwell.last_le
  by_cases hpaused : s.status = .paused
  · simp [clockTime, hpaused] at hseconds ⊢
    exact hseconds
  · simp only [clockTime, if_neg hpaused] at hseconds ⊢
    have hnowCases := effectiveEnd_cases s now
    have htCases := effectiveEnd_cases s t
    rw [if_pos (by simpa using hpaused)]
    omega

/-- A withdrawal that leaves the stream alive pays for all seconds the clock
counts. -/
theorem ClockLaw.withdraw {s : Stream} {gross : Int} {paid seconds now : Nat}
    (h : ClockLaw s paid seconds now) (hwell : WellFormed now s)
    (hmax : now ≤ u64Max) (hguard : (StreamOp.withdraw gross).Guard now s)
    (hlive : isTerminal ((StreamOp.withdraw gross).next now s).status = false) :
    ClockLaw ((StreamOp.withdraw gross).next now s) (paid + countedSeconds s now)
      seconds now := by
  obtain ⟨hwithdrawn, hseconds⟩ := h
  obtain ⟨hactive, _, hne, hgross⟩ := hguard
  -- a stream that stays alive was paid by the second, not by the cap
  have hleft : s.withdrawn + gross < s.deposit := by
    by_contra hcapped
    have hexhausted : (StreamOp.next now s (.withdraw gross)).status =
        .exhausted := if_pos (by omega)
    rw [hexhausted] at hlive
    cases hlive
  have hamount : gross = s.ratePerSecond * (countedSeconds s now : Int) := by
    obtain rfl := eq_accrued_of_claimableAmount hwell.toAmountsInBounds hmax
      hgross
    have hpast : s.cliffTime ≤ now := by
      by_contra hbefore
      exact hne (accrued_of_lt_cliff (by omega))
    rw [accrued_of_cliff_le (by rw [hactive]; rfl) hpast] at hleft ⊢
    omega
  constructor
  · show s.withdrawn + gross = s.ratePerSecond * _
    rw [hwithdrawn, hamount]
    push_cast
    ring
  · have hclock : clockTime s now = now := by simp [clockTime, hactive]
    have hclock' : clockTime (StreamOp.next now s (.withdraw gross)) now =
        now := by
      unfold clockTime
      rw [if_neg]
      show ¬ (if _ then StreamStatus.exhausted else s.status) = .paused
      rw [hactive]
      split <;> simp
    rw [hclock] at hseconds
    rw [hclock']
    have hend := effectiveEnd_le s now
    show seconds = paid + countedSeconds s now + (effectiveEnd s now - now)
    unfold countedSeconds
    omega

/-- A resume that loses nothing leaves the seconds the clock counted at the
pause. -/
theorem ClockLaw.resume {s : Stream} {paid seconds now : Nat}
    (h : ClockLaw s paid seconds now) (hwell : WellFormed now s)
    (hmax : now ≤ u64Max) (hpaused : s.status = .paused)
    (hkeeps : s.stopTime = 0 ∨ ResumeLosesNothing s now) :
    ClockLaw (StreamOp.resume.next now s) paid seconds now := by
  obtain ⟨hwithdrawn, hseconds⟩ := h
  have hlast := hwell.paused_last_le hpaused
  have hpausedNow := hwell.paused_le hpaused
  have hclock : clockTime s now = s.pausedAt := if_pos hpaused
  have hclock' : clockTime (StreamOp.next now s .resume) now = now := rfl
  refine ⟨hwithdrawn, ?_⟩
  rw [hclock] at hseconds
  rw [hclock']
  show seconds = paid + (effectiveEnd s now - saturatingAddU64 _ _)
  rw [hwell.resume_last hmax hpaused, hseconds]
  -- both sides count the seconds from the last withdrawal to the pause
  have hnowCases := effectiveEnd_cases s now
  have hpauseCases := effectiveEnd_cases s s.pausedAt
  unfold ResumeLosesNothing at hkeeps
  omega

/-- Every operation that keeps the clock keeps the law, as long as the stream
lives. -/
theorem ClockLaw.next {s : Stream} {op : StreamOp} {paid seconds now : Nat}
    (h : ClockLaw s paid seconds now) (hwell : WellFormed now s)
    (hmax : now ≤ u64Max) (hguard : op.Guard now s) (hkeeps : KeepsClock now s op)
    (hlive : isTerminal (op.next now s).status = false) :
    ∃ paid', ClockLaw (op.next now s) paid' seconds now := by
  cases op with
  | withdraw gross => exact ⟨_, h.withdraw hwell hmax hguard hlive⟩
  | topUp amount => exact ⟨paid, h⟩
  | pause =>
      -- the clock stops where it stands
      have hactive : s.status = .active := hguard
      obtain ⟨hwithdrawn, hseconds⟩ := h
      refine ⟨paid, hwithdrawn, ?_⟩
      rw [hseconds]
      simp [clockTime, hactive, StreamOp.next, effectiveEnd]
  | resume => exact ⟨paid, h.resume hwell hmax hguard hkeeps⟩
  | cancel owed => cases hlive
  | reclaim owed => cases hlive
  | updateRate newRate accrued => cases hkeeps
  | markExhausted => cases hlive
  | changeEmployee newEmployee => exact ⟨paid, h⟩
  | changeDelegate delegate => exact ⟨paid, h⟩
  | changeEmployer newEmployer => exact ⟨paid, h⟩

/-- No operation changes when a stream starts, stops and vests. -/
theorem next_schedule (now : Nat) (s : Stream) (op : StreamOp) :
    (op.next now s).startTime = s.startTime ∧
      (op.next now s).stopTime = s.stopTime ∧
      (op.next now s).cliffTime = s.cliffTime := by
  cases op <;> exact ⟨rfl, rfl, rfl⟩

/-- A live stream was live before the operation. -/
theorem live_of_next_live {now : Nat} {s : Stream} {op : StreamOp}
    (hguard : op.Guard now s) (hlive : isTerminal (op.next now s).status = false) :
    isTerminal s.status = false := by
  rcases hguard.live_or with hbefore | ⟨delegate, rfl⟩ | ⟨newEmployer, rfl⟩
  · exact hbefore
  · exact hlive
  · exact hlive

/-! ## Every run -/

/-- `update_rate` was never called on the stream `id`. -/
def NeverRateUpdated (id : Nat) (history : History) : Prop :=
  ∀ entry ∈ history, ∀ employer newRate,
    entry.input.call ≠ .onStream id (.updateRate employer newRate)

/-- Every `resume_stream` on the stream `id` that returned lost nothing. -/
def ResumesLoseNothing (host : Host) (id : Nat) (history : History) : Prop :=
  ∀ entry ∈ history, ∀ caller s,
    entry.input.call = .onStream id (.resumeStream caller) →
    entry.before.streams id = some s → ¬ Fails host entry.before entry.input →
      ResumeLosesNothing s entry.input.now

/-- The law for the stream `id` at the end of a run: from the last ledger time
on, the seconds of the history are those of the stored clock. -/
def RunLaw (host : Host) (history : History) (id : Nat) (s : Stream) : Prop :=
  ∃ paid, ∀ t, ledgerTime host history ≤ t →
    ClockLaw s paid
      (unpausedSeconds host id history s.startTime (effectiveEnd s t)) t

/-- The entry just made carries the law to its own time, and from there on. -/
theorem RunLaw.of_entry {host : Host} {history : History} {w w' : World}
    {inv : Invocation} {id : Nat} {s : Stream} {paid : Nat}
    (hs : w'.streams id = some s) (hwell : WellFormed inv.now s)
    (h : ClockLaw s paid (unpausedSeconds host id history s.startTime
      (effectiveEnd s inv.now)) inv.now) :
    RunLaw host (⟨w, inv, w'⟩ :: history) id s := by
  refine ⟨paid, ?_⟩
  intro t ht
  have htime : inv.now ≤ t := ht
  have hlater := h.later hwell htime
  have hstart : s.startTime ≤ inv.now := hwell.start_le.trans hwell.last_le
  rw [unpausedSeconds_cons host id ⟨w, inv, w'⟩ history hstart htime,
    unpaused_eq hs]
  exact hlater

/-- A new stream has no seconds and has paid for none. -/
theorem ClockLaw.of_fresh {host : Host} {history : History} {id now : Nat}
    {s : Stream} (h : FreshStream now s) :
    ClockLaw s 0 (unpausedSeconds host id history s.startTime
      (effectiveEnd s now)) now := by
  have hend : effectiveEnd s now = now := by
    have hstop := h.stop_after
    have hcases := effectiveEnd_cases s now
    omega
  have hclock : clockTime s now = now := by
    unfold clockTime
    rw [if_neg]
    rw [h.status]
    simp
  constructor
  · rw [h.withdrawn]
    simp
  · rw [hclock, hend, h.startTime, h.lastWithdrawTime]
    simp [unpausedSeconds]

/-- The entry of a call that returned keeps the clock of the stream it works
on, when the two conditions on the run cover it. -/
theorem keepsClock_of_issues {host : Host} {history : History} {w w' : World}
    {inv : Invocation} {value : Value} {id : Nat} {s : Stream} {op : StreamOp}
    {call : StreamCall} (hsucceeds : Succeeds host w inv value w')
    (hcall : inv.call = .onStream id call) (hs : w.streams id = some s)
    (hissues : Issues inv.toContext w id s call op)
    (hrate : NeverRateUpdated id (⟨w, inv, w'⟩ :: history))
    (hresume : s.stopTime = 0 ∨
      ResumesLoseNothing host id (⟨w, inv, w'⟩ :: history)) :
    KeepsClock inv.now s op := by
  cases hissues with
  | updateRate newRate accrued _ =>
      exact hrate _ List.mem_cons_self _ _ hcall
  | resume caller _ _ =>
      rcases hresume with hstop | hresume
      · exact Or.inl hstop
      · exact Or.inr (hresume _ List.mem_cons_self caller s hcall hs
          hsucceeds.not_fails)
  | _ => trivial

theorem runLaw_of_reaches {host : Host}
    (htokens : AllTokens host.tokens TokenLaw.RejectsNegative)
    {history : History} {w : World} (hrun : Reaches host history w) {id : Nat}
    (hrate : NeverRateUpdated id history) {s : Stream}
    (hs : w.streams id = some s) (hlive : isTerminal s.status = false)
    (hresume : s.stopTime = 0 ∨ ResumesLoseNothing host id history) :
    RunLaw host history id s := by
  refine Reaches.invariant (P := fun history w => NeverRateUpdated id history →
    ∀ s : Stream, w.streams id = some s → isTerminal s.status = false →
      (s.stopTime = 0 ∨ ResumesLoseNothing host id history) →
      RunLaw host history id s) ?_ ?_ ?_ hrun hrate s hs hlive hresume
  · intro _ _ _ s hs
    cases hs
  · intro history w inv value w' hrun htime ih hsucceeds hrate s hs hlive hresume
    have hrate' : NeverRateUpdated id history :=
      fun entry hentry => hrate entry (List.mem_cons_of_mem _ hentry)
    have hresume' : s.stopTime = 0 ∨ ResumesLoseNothing host id history :=
      hresume.imp_right
        (fun h entry hentry => h entry (List.mem_cons_of_mem _ hentry))
    have hwell' : WellFormed inv.now s := allWellFormed_of_change htokens
      (streamChange_of_succeeds hrun hsucceeds)
      (allWellFormed_of_reaches htokens hrun) htime inv.now_le id s hs
    -- the law is passed on to the time of the call, and from there over its operation
    cases streamChange_of_succeeds hrun hsucceeds id with
    | same hstream _ =>
        obtain ⟨paid, hlaw⟩ := ih hrate' s (hstream.symm.trans hs) hlive hresume'
        exact .of_entry hs hwell' (hlaw inv.now htime)
    | born new log _ _ hstream _ hfresh _ _ _ =>
        rw [hs] at hstream
        cases hstream
        exact .of_entry hs hwell' (.of_fresh hfresh)
    | updated old op log call hcall hold hissues hupdate hstream _ =>
        rw [hs] at hstream
        cases hstream
        obtain ⟨hstart, hstop, _⟩ := next_schedule inv.now old op
        have hend : effectiveEnd (op.next inv.now old) inv.now =
            effectiveEnd old inv.now := by
          unfold effectiveEnd
          rw [hstop]
        rw [hstop] at hresume hresume'
        obtain ⟨paid, hlaw⟩ := ih hrate' old hold
          (live_of_next_live hupdate.guard hlive) hresume'
        have hwell := (allWellFormed_of_reaches htokens hrun).mono htime id old hold
        obtain ⟨paid', hlaw'⟩ := (hlaw inv.now htime).next hwell inv.now_le
          hupdate.guard
          (keepsClock_of_issues hsucceeds hcall hold hissues hrate hresume) hlive
        rw [← hend, ← hstart] at hlaw'
        exact .of_entry hs hwell' hlaw'
  · intro history w inv hrun htime ih _ hrate s hs hlive hresume
    have hrate' : NeverRateUpdated id history :=
      fun entry hentry => hrate entry (List.mem_cons_of_mem _ hentry)
    have hresume' : s.stopTime = 0 ∨ ResumesLoseNothing host id history :=
      hresume.imp_right
        (fun h entry hentry => h entry (List.mem_cons_of_mem _ hentry))
    have hwell := (allWellFormed_of_reaches htokens hrun).mono htime id s hs
    obtain ⟨paid, hlaw⟩ := ih hrate' s hs hlive hresume'
    exact .of_entry hs hwell (hlaw inv.now htime)

/-- What the law says about the claimable amount of an active stream. -/
theorem RunLaw.claimable {host : Host} {history : History} {id : Nat}
    {s : Stream} (h : RunLaw host history id s)
    (hbounds : AmountsInBounds s) (hactive : s.status = .active) {now : Nat}
    (hnow : ledgerTime host history ≤ now) (hmax : now ≤ u64Max)
    (hcliff : s.cliffTime ≤ now) :
    ∃ amount, claimableAmount s now = .ok amount ∧
      s.withdrawn + amount = min s.deposit (s.ratePerSecond *
        unpausedSeconds host id history s.startTime (effectiveEnd s now)) := by
  obtain ⟨paid, hlaw⟩ := h
  obtain ⟨hwithdrawn, hseconds⟩ := hlaw now hnow
  have hclock : clockTime s now = now := by simp [clockTime, hactive]
  have hlive : isTerminal s.status = false :=
    (isTerminal_eq_false_iff _).mpr (Or.inl hactive)
  refine ⟨accrued s now, claimableAmount_eq hbounds hmax, ?_⟩
  rw [hclock] at hseconds
  rw [accrued_of_cliff_le hlive hcliff, hseconds, hwithdrawn]
  have hsplit : s.ratePerSecond * ((paid + (effectiveEnd s now -
      s.lastWithdrawTime) : Nat) : Int) = s.ratePerSecond * paid +
        s.ratePerSecond * (countedSeconds s now : Int) := by
    unfold countedSeconds
    push_cast
    ring
  rw [hsplit]
  omega

/-- Without a stop time and without rate updates, an active stream past its
cliff has paid out and can pay out its rate times the seconds it was not paused,
up to its deposit, whatever else happened. -/
theorem accrual_law_without_stop {host : Host}
    (htokens : AllTokens host.tokens TokenLaw.RejectsNegative)
    {history : History} {w : World} (hrun : Reaches host history w) {id : Nat}
    {s : Stream} (hs : w.streams id = some s) (hstop : s.stopTime = 0)
    (hrate : NeverRateUpdated id history) (hactive : s.status = .active)
    {now : Nat} (hnow : ledgerTime host history ≤ now) (hmax : now ≤ u64Max)
    (hcliff : s.cliffTime ≤ now) :
    ∃ amount, claimableAmount s now = .ok amount ∧
      s.withdrawn + amount = min s.deposit (s.ratePerSecond *
        unpausedSeconds host id history s.startTime now) := by
  have hlive : isTerminal s.status = false :=
    (isTerminal_eq_false_iff _).mpr (Or.inl hactive)
  have hlaw := runLaw_of_reaches htokens hrun hrate hs hlive (Or.inl hstop)
  have hbounds := (allWellFormed_of_reaches htokens hrun id s hs).toAmountsInBounds
  have hend : effectiveEnd s now = now := by
    have hcases := effectiveEnd_cases s now
    omega
  have hclaimable := hlaw.claimable hbounds hactive hnow hmax hcliff
  rw [hend] at hclaimable
  exact hclaimable

/-- Paused from 30 to 50 and withdrawn at 60: at 70 the 40 seconds that count
are paid or claimable. -/
theorem accrual_law_of_pause :
    ∃ s, (Sample.play [Sample.openStream 10 1000 10 0,
        Sample.manage 30 (.pauseStream Sample.employer),
        Sample.manage 50 (.resumeStream Sample.employer),
        Sample.invoke 60 Sample.employee
          (.onStream 1 (.withdraw Sample.employee))]).2.streams 1 = some s ∧
      s.withdrawn = 300 ∧
      ∃ amount, claimableAmount s 70 = .ok amount ∧
        s.withdrawn + amount = min s.deposit (s.ratePerSecond *
          unpausedSeconds Sample.host 1 (Sample.play [
            Sample.openStream 10 1000 10 0,
            Sample.manage 30 (.pauseStream Sample.employer),
            Sample.manage 50 (.resumeStream Sample.employer),
            Sample.invoke 60 Sample.employee
              (.onStream 1 (.withdraw Sample.employee))]).1 s.startTime 70) := by
  have hs : (Sample.play [Sample.openStream 10 1000 10 0,
      Sample.manage 30 (.pauseStream Sample.employer),
      Sample.manage 50 (.resumeStream Sample.employer),
      Sample.invoke 60 Sample.employee
        (.onStream 1 (.withdraw Sample.employee))]).2.streams 1 = some
      { StreamContract.newStream 1 Sample.employer Sample.employee Sample.token
          1000 10 10 0 0 0 with withdrawn := 300, lastWithdrawTime := 60 } := by
    decide
  refine ⟨_, hs, rfl, accrual_law_without_stop Sample.host_honest.rejectsNegative
    (Sample.play_reaches _ (by decide)) hs rfl ?_ rfl (by decide) (by decide)
    (by decide)⟩
  intro entry hentry employer newRate hcall
  have hmem := Sample.input_mem_of_play hentry
  simp only [List.mem_cons, List.not_mem_nil, or_false] at hmem
  rcases hmem with hinput | hinput | hinput | hinput
  all_goals
    rw [hinput] at hcall
    cases hcall

/-- With a stop time the same law holds up to that time in every run whose
resumes of the stream lose nothing. -/
theorem accrual_law_with_stop {host : Host}
    (htokens : AllTokens host.tokens TokenLaw.RejectsNegative)
    {history : History} {w : World} (hrun : Reaches host history w) {id : Nat}
    {s : Stream} (hs : w.streams id = some s) (hstop : 0 < s.stopTime)
    (hrate : NeverRateUpdated id history)
    (hresume : ResumesLoseNothing host id history) (hactive : s.status = .active)
    {now : Nat} (hnow : ledgerTime host history ≤ now) (hmax : now ≤ u64Max)
    (hcliff : s.cliffTime ≤ now) :
    ∃ amount, claimableAmount s now = .ok amount ∧
      s.withdrawn + amount = min s.deposit (s.ratePerSecond *
        unpausedSeconds host id history s.startTime (min now s.stopTime)) := by
  have hlive : isTerminal s.status = false :=
    (isTerminal_eq_false_iff _).mpr (Or.inl hactive)
  have hlaw := runLaw_of_reaches htokens hrun hrate hs hlive (Or.inr hresume)
  have hbounds := (allWellFormed_of_reaches htokens hrun id s hs).toAmountsInBounds
  have hend : effectiveEnd s now = min now s.stopTime := by
    have hcases := effectiveEnd_cases s now
    omega
  have hclaimable := hlaw.claimable hbounds hactive hnow hmax hcliff
  rw [hend] at hclaimable
  exact hclaimable

/-- Paused from 30 to 50, before the stop time 100: at 150 the 70 seconds that
count are claimable. -/
theorem accrual_law_of_early_resume :
    ∃ s, (Sample.play [Sample.openStream 10 1000 10 100,
        Sample.manage 30 (.pauseStream Sample.employer),
        Sample.manage 50 (.resumeStream Sample.employer)]).2.streams 1 = some s ∧
      ∃ amount, claimableAmount s 150 = .ok amount ∧
        s.withdrawn + amount = min s.deposit (s.ratePerSecond *
          unpausedSeconds Sample.host 1 (Sample.play [
            Sample.openStream 10 1000 10 100,
            Sample.manage 30 (.pauseStream Sample.employer),
            Sample.manage 50 (.resumeStream Sample.employer)]).1 s.startTime
              (min 150 s.stopTime)) := by
  have hs : (Sample.play [Sample.openStream 10 1000 10 100,
      Sample.manage 30 (.pauseStream Sample.employer),
      Sample.manage 50 (.resumeStream Sample.employer)]).2.streams 1 = some
      { StreamContract.newStream 1 Sample.employer Sample.employee Sample.token
          1000 10 10 100 0 0 with lastWithdrawTime := 30 } := by
    decide
  refine ⟨_, hs, accrual_law_with_stop Sample.host_honest.rejectsNegative
    (Sample.play_reaches _ (by decide)) hs (by decide) ?_ ?_ rfl (by decide)
    (by decide) (by decide)⟩
  · intro entry hentry employer newRate hcall
    have hmem := Sample.input_mem_of_play hentry
    simp only [List.mem_cons, List.not_mem_nil, or_false] at hmem
    rcases hmem with hinput | hinput | hinput
    all_goals
      rw [hinput] at hcall
      cases hcall
  · intro entry hentry caller s hcall hbefore _
    simp only [Sample.play, System.replay, List.mem_cons, List.not_mem_nil,
      or_false] at hentry
    rcases hentry with rfl | rfl | rfl
    · have hpaused : (Sample.play [Sample.openStream 10 1000 10 100,
          Sample.manage 30 (.pauseStream Sample.employer)]).2.streams 1 = some
          { StreamContract.newStream 1 Sample.employer Sample.employee
              Sample.token 1000 10 10 100 0 0 with
            pausedAt := 30, status := .paused } := by
        decide
      obtain rfl := Option.some.inj (hpaused.symm.trans hbefore)
      exact Or.inl (by decide)
    · cases hcall
    · cases hcall

/-- Paused at 50 with 400 accrued and resumed at 150, after the stop time 100:
nothing is left to claim, and the law asks for 400. -/
theorem late_resume_loses_accrual :
    ∃ history w s, Reaches Sample.host history w ∧ w.streams 1 = some s ∧
      s.status = .active ∧ s.stopTime = 100 ∧ s.withdrawn = 0 ∧
      s.deposit = 1000 ∧ NeverRateUpdated 1 history ∧
      (∀ entry ∈ history, entry.input.call ≠ .onStream 1 .getStream) ∧
      ledgerTime Sample.host history = 150 ∧
      claimableAmount s 150 = .ok 0 ∧ s.ratePerSecond *
        unpausedSeconds Sample.host 1 history s.startTime (min 150 100) = 400 := by
  have hs : (Sample.play [Sample.openStream 10 1000 10 100,
      Sample.manage 50 (.pauseStream Sample.employer),
      Sample.manage 150 (.resumeStream Sample.employer)]).2.streams 1 = some
      { StreamContract.newStream 1 Sample.employer Sample.employee Sample.token
          1000 10 10 100 0 0 with lastWithdrawTime := 110 } := by
    decide
  have hinputs : ∀ entry ∈ (Sample.play [Sample.openStream 10 1000 10 100,
      Sample.manage 50 (.pauseStream Sample.employer),
      Sample.manage 150 (.resumeStream Sample.employer)]).1,
      entry.input = Sample.openStream 10 1000 10 100 ∨
        entry.input = Sample.manage 50 (.pauseStream Sample.employer) ∨
        entry.input = Sample.manage 150 (.resumeStream Sample.employer) := by
    intro entry hentry
    have hmem := Sample.input_mem_of_play hentry
    simp only [List.mem_cons, List.not_mem_nil, or_false] at hmem
    exact hmem
  refine ⟨_, _, _, Sample.play_reaches _ (by decide), hs, rfl, rfl, rfl, rfl, ?_,
    ?_, rfl, rfl, by decide⟩
  · intro entry hentry employer newRate hcall
    rcases hinputs entry hentry with hinput | hinput | hinput
    all_goals
      rw [hinput] at hcall
      cases hcall
  · intro entry hentry hcall
    rcases hinputs entry hentry with hinput | hinput | hinput
    all_goals
      rw [hinput] at hcall
      cases hcall

end Properties
end Paystream
