import Paystream.Properties.BalanceModule
import Paystream.Properties.PauseHistory

/-!
# The cooldown of withdrawals

A stream with a cooldown rejects a withdrawal that comes too early after the last
one.  The code measures from `last_withdraw_time`, which is the accrual clock of
the stream as well: a resume shifts it by the time paused, a rate change restarts
it, and so does a withdrawal that is used up by its fee.  None of these pays the
employee, and all of them start the cooldown again.

`cooldown_exact_iff`: at the end of a run the cooldown is counted from the last
payment exactly when no call has moved the clock since, or the moved clock makes
no difference to the calls still to come.
-/

namespace Paystream
namespace Properties

open Library
open Contract
open Contract.Storage
open Contract.StreamContract
open Semantics

/-! ## Payments and clock moves in a history -/

/-- The result is a positive amount. -/
def isPositiveAmount : Except String (Value × World) → Bool
  | .ok (.amount amount, _) => decide (0 < amount)
  | _ => false

/-- The entry is a `withdraw` on the stream that paid a positive amount. -/
def paysEmployee (host : Host) (id : Nat) (entry : Entry World Invocation) :
    Bool :=
  match entry.input.call with
  | .onStream streamId (.withdraw employee) =>
      decide (streamId = id) && isPositiveAmount (exec host entry.input.toContext
        (.onStream streamId (.withdraw employee)) entry.before)
  | _ => false

/-- The ledger time of the last payment, `start` if there was none. -/
def lastPayment (host : Host) (id start : Nat) : History → Nat
  | [] => start
  | entry :: earlier =>
      if paysEmployee host id entry then entry.input.now
      else lastPayment host id start earlier

/-- The calls that move the clock of the stream `s` when they return at `now`. -/
def movesClock (now : Nat) (s : Stream) : StreamCall → Bool
  | .resumeStream _ => decide (s.pausedAt < now)
  | .updateRate _ _ => decide (s.lastWithdrawTime < now)
  | .withdraw _ => decide (claimableAmount s now ≠ .ok 0)
  | _ => false

/-- The call of the entry returned and moved the clock of the stream. -/
def clockMovedIn (host : Host) (id : Nat) (entry : Entry World Invocation) :
    Bool :=
  match entry.input.call with
  | .onStream streamId call =>
      decide (streamId = id) && returned host entry &&
        (entry.before.streams id).any fun s => movesClock entry.input.now s call
  | _ => false

/-- Since the last payment some call moved the clock of the stream. -/
def clockMovedSince (host : Host) (id : Nat) : History → Bool
  | [] => false
  | entry :: earlier =>
      !paysEmployee host id entry &&
        (clockMovedIn host id entry || clockMovedSince host id earlier)

/-- The cooldown of the stream `s`, stored under `id` at the end of the run, is
exact: of the withdrawals that pass the other guards, those are rejected by it
that come less than the cooldown after the last payment. -/
def CooldownExact (host : Host) (history : History) (w : World) (id : Nat)
    (s : Stream) : Prop :=
  ∀ inv : Invocation, ledgerTime host history ≤ inv.now →
    inv.call = .onStream id (.withdraw s.employee) → s.employee ∈ inv.auth →
    w.config.paused = false →
      (exec host inv.toContext inv.call w = .error errWithdrawCooldown ↔
        inv.now - lastPayment host id s.startTime history < s.cooldownPeriod)

/-! ## When the code rejects -/

theorem claimableAmount_error {s : Stream} {now : Nat} {message : String}
    (h : claimableAmount s now = .error message) : message = errOverflow := by
  unfold claimableAmount at h
  split at h
  · cases h
  · cases h
  all_goals
    split at h
    · cases h
    · simp only at h
      split at h
      · cases h
      · simp only [bind_eq_error_iff, expect_eq_error_iff] at h
        rcases h with ⟨_, rfl⟩ | ⟨_, _, hpure⟩
        · rfl
        · cases hpure

theorem tokenTransfer_error {host : Host} {transfer : TokenTransfer} {w : World}
    {message : String} (h : tokenTransfer host transfer w = .error message) :
    message = "token transfer failed" := by
  unfold tokenTransfer at h
  split at h
  · cases h
  · cases h
    rfl

theorem withdrawalFee_error {feeBps : Nat} {gross : Int} {message : String}
    (h : withdrawalFee feeBps gross = .error message) : message = errOverflow := by
  unfold withdrawalFee at h
  split at h
  · simp only [bind_eq_error_iff, expect_eq_error_iff] at h
    rcases h with ⟨_, rfl⟩ | ⟨_, _, hpure⟩
    · rfl
    · cases hpure
  · cases h

theorem payWithdrawalFee_error {host : Host} {s : Stream} {id : Nat} {fee : Int}
    {w : World} {message : String}
    (h : payWithdrawalFee host s id fee w = .error message) :
    message = "token transfer failed" := by
  unfold payWithdrawalFee at h
  split at h
  · split at h
    · simp only [bind_eq_error_iff] at h
      rcases h with htransfer | ⟨_, _, hpure⟩
      · exact tokenTransfer_error htransfer
      · cases hpure
    · cases h
  · cases h

theorem statusAfterWithdraw_ne_error {s : Stream} {message : String} :
    statusAfterWithdraw s ≠ .error message := by
  unfold statusAfterWithdraw
  split
  · intro h
    cases h
  · intro h
    cases h

/-- A withdrawal of an active stream that passes the guards before is rejected by
the cooldown exactly when it comes before the cooldown's end on the clock. -/
theorem withdraw_cooldown_iff {host : Host} {ctx : Context} {id : Nat} {w : World}
    {s : Stream} (hs : w.streams id = some s) (hauth : s.employee ∈ ctx.auth)
    (hrunning : w.config.paused = false) (hactive : s.status = .active)
    (hcooldown : 0 < s.cooldownPeriod) :
    withdraw host ctx s.employee id w = .error errWithdrawCooldown ↔
      ctx.now < saturatingAddU64 s.lastWithdrawTime s.cooldownPeriod := by
  have hsigned : requireAuth ctx s.employee = .ok () :=
    (requireAuth_eq_ok_iff ..).mpr hauth
  have hloaded : requireEmployeeById w s.employee id = .ok s :=
    (requireEmployeeById_eq_ok_iff ..).mpr ⟨hs, rfl⟩
  simp only [withdraw, bind_eq_error_iff, ensure_eq_error_iff, hsigned, hloaded,
    hrunning, ensure_eq_ok_iff]
  constructor
  · intro h
    rcases h with h | ⟨_, _, ⟨h, _⟩ | ⟨_, _, h | ⟨found, hfound, ⟨h, _⟩ | ⟨_, _,
      ⟨hearly, _⟩ | ⟨_, _, hrest⟩⟩⟩⟩⟩
    · cases h
    · cases h
    · cases h
    · cases hfound
      simp [hactive] at h
    · cases hfound
      simpa [hactive, hcooldown] using hearly
    · -- past the cooldown every panic has another message
      exfalso
      rcases hrest with hclaimable | ⟨gross, _, hrest⟩
      · exact absurd (claimableAmount_error hclaimable) (by decide)
      split at hrest
      · cases hrest
      · simp only [bind_eq_error_iff, ensure_eq_error_iff, expect_eq_error_iff] at hrest
        rcases hrest with ⟨_, h⟩ | ⟨_, _, h | ⟨fee, _, ⟨_, h⟩ | ⟨_, _, h | ⟨_, _,
          h | ⟨_, _, h | ⟨_, _, h⟩⟩⟩⟩⟩⟩
        · exact absurd h (by decide)
        · exact absurd (withdrawalFee_error h) (by decide)
        · exact absurd h (by decide)
        · exact statusAfterWithdraw_ne_error h
        · exact absurd (payWithdrawalFee_error h) (by decide)
        · exact absurd (tokenTransfer_error h) (by decide)
        · cases h
  · intro hearly
    refine Or.inr ⟨(), trivial, Or.inr ⟨(), rfl, Or.inr ⟨s, rfl, Or.inr ⟨(), ?_,
      Or.inl ⟨?_, trivial⟩⟩⟩⟩⟩
    · simp [hactive]
    · simpa [hactive, hcooldown] using hearly

/-! ## One entry -/

/-- What an entry does to the clock of the stream: it paid and set the clock, it
moved the clock without a payment, or it left it. -/
inductive ClockStep (host : Host) (id : Nat) (entry : Entry World Invocation)
    (s s' : Stream) : Prop
  | paid (hpays : paysEmployee host id entry = true)
      (hclock : s'.lastWithdrawTime = entry.input.now)
  | moved (hpays : paysEmployee host id entry = false)
      (hmoved : clockMovedIn host id entry = true)
      (hclock : s.lastWithdrawTime < s'.lastWithdrawTime)
  | kept (hpays : paysEmployee host id entry = false)
      (hmoved : clockMovedIn host id entry = false)
      (hclock : s'.lastWithdrawTime = s.lastWithdrawTime)

/-- The calls that write the clock of the stream they name. -/
def writesClock : StreamCall → Bool
  | .withdraw _ => true
  | .resumeStream _ => true
  | .updateRate _ _ => true
  | _ => false

/-- An entry whose call writes no clock of this stream pays nothing on it. -/
theorem no_clock_step (host : Host) {id : Nat} (entry : Entry World Invocation)
    (h : ∀ call, entry.input.call = .onStream id call → writesClock call = false) :
    paysEmployee host id entry = false ∧ clockMovedIn host id entry = false := by
  unfold paysEmployee clockMovedIn
  cases hcall : entry.input.call with
  | onStream streamId call =>
      by_cases hid : streamId = id
      · subst hid
        have hwrites := h call hcall
        cases call with
        | withdraw employee => cases hwrites
        | resumeStream caller => cases hwrites
        | updateRate employer newRate => cases hwrites
        | _ => simp [movesClock]
      · cases call <;> simp [hid]
  | _ => exact ⟨rfl, rfl⟩

/-- The terms of a stream that time is counted by do not change, and its clock
only by a call that writes it. -/
theorem clock_of_streamChange {host : Host} {ctx : Context} {w w' : World} {id : Nat}
    {call : Call} {s s' : Stream} (h : StreamChange host ctx w w' id call)
    (hs : w.streams id = some s) (hs' : w'.streams id = some s') :
    s'.startTime = s.startTime ∧
      ((∀ streamCall, call = .onStream id streamCall →
        writesClock streamCall = false) →
          s'.lastWithdrawTime = s.lastWithdrawTime) := by
  cases h with
  | same hstream _ =>
      obtain rfl : s' = s := by
        rw [hstream, hs] at hs'
        exact (Option.some.inj hs').symm
      exact ⟨rfl, fun _ => rfl⟩
  | born _ _ _ hnone =>
      rw [hs] at hnone
      cases hnone
  | updated old op log streamCall hcall hold hissues _ hstream _ =>
      obtain rfl : old = s := Option.some.inj (hold.symm.trans hs)
      obtain rfl : s' = op.next ctx.now old :=
        Option.some.inj (hs'.symm.trans hstream)
      refine ⟨next_startTime _ _ _, fun hkeeps => ?_⟩
      have hwrites := hkeeps streamCall hcall
      cases hissues with
      | withdraw _ _ => cases hwrites
      | resume _ _ _ => cases hwrites
      | updateRate _ _ _ => cases hwrites
      | _ => rfl

section Step

variable {host : Host} {history : History} {w w' : World} {inv : Invocation}
  {value : Value} {id : Nat} {s s' : Stream}

theorem clockStep_of_withdraw {employee : Address} (hrun : Reaches host history w)
    (h : Succeeds host w inv value w')
    (hcall : inv.call = .onStream id (.withdraw employee))
    (hs : w.streams id = some s) (hs' : w'.streams id = some s') :
    ClockStep host id ⟨w, inv, w'⟩ s s' := by
  have hexec : exec host inv.toContext (.onStream id (.withdraw employee)) w =
      .ok (value, w') := by
    rw [← hcall]
    exact h
  obtain ⟨found, hfound, _, _, hcases⟩ := withdraw_of_succeeds h hcall
  obtain rfl : found = s := Option.some.inj (hfound.symm.trans hs)
  rcases hcases with ⟨hzero, rfl, rfl⟩ | ⟨gross, fee, _, rfl, hupdate⟩
  · obtain rfl : s' = found := Option.some.inj (hs'.symm.trans hs)
    refine .kept ?_ ?_ rfl
    · simp [paysEmployee, hcall, hexec, isPositiveAmount]
    · simp [clockMovedIn, hcall, hs, movesClock, hzero]
  · obtain ⟨_, _, hne, hgross⟩ := hupdate.guard
    obtain rfl : found.id = id := (keyed_of_reaches hrun id found hs).1
    have hclock : s'.lastWithdrawTime = inv.now := by
      rw [hupdate.streams, Function.update_self, Option.some.injEq] at hs'
      rw [← hs']
      rfl
    by_cases hpaid : 0 < max (saturatingSub gross fee) 0
    · refine .paid ?_ hclock
      simpa [paysEmployee, hcall, hexec, isPositiveAmount] using hpaid
    · -- the fee took everything
      refine .moved ?_ ?_ ?_
      · simpa [paysEmployee, hcall, hexec, isPositiveAmount] using hpaid
      · simp [clockMovedIn, hcall, h.returned_eq, hs, movesClock, hgross, hne]
      · rw [hclock]
        by_contra hlate
        apply hne
        have hnone : countedSeconds found inv.now = 0 := by
          have := effectiveEnd_le found inv.now
          unfold countedSeconds
          omega
        rw [claimableAmount_of_sound (soundAmounts_of_reaches hrun hs) inv.now_le,
          hnone, earnedIn_zero, ite_self] at hgross
        exact (Except.ok.inj hgross).symm

theorem clockStep_of_resume {caller : Address} (hrun : Reaches host history w)
    (htime : ledgerTime host history ≤ inv.now) (h : Succeeds host w inv value w')
    (hcall : inv.call = .onStream id (.resumeStream caller))
    (hs : w.streams id = some s) (hs' : w'.streams id = some s') :
    ClockStep host id ⟨w, inv, w'⟩ s s' := by
  obtain ⟨found, op, hfound, hissues, hguard, hafter⟩ :=
    updated_of_succeeds hrun h hcall rfl
  obtain rfl : found = s := Option.some.inj (hfound.symm.trans hs)
  cases hissues with
  | resume _ _ _ =>
      obtain ⟨_, hlast, hnow⟩ :=
        ((clockFollowed_of_reaches hrun id).state found hs).paused_last hguard
      have hmax := inv.now_le
      have hclock : s'.lastWithdrawTime =
          found.lastWithdrawTime + (inv.now - found.pausedAt) := by
        rw [hafter, Option.some.injEq] at hs'
        rw [← hs']
        exact saturatingAddU64_of_le (by omega)
      have hpays : paysEmployee host id ⟨w, inv, w'⟩ = false := by
        simp [paysEmployee, hcall]
      by_cases hmoved : found.pausedAt < inv.now
      · refine .moved hpays ?_ (by omega)
        simp [clockMovedIn, hcall, h.returned_eq, hs, movesClock, hmoved]
      · refine .kept hpays ?_ (by omega)
        simp [clockMovedIn, hcall, hs, movesClock, hmoved]

theorem clockStep_of_updateRate {employer : Address} {newRate : Int}
    (hrun : Reaches host history w) (htime : ledgerTime host history ≤ inv.now)
    (h : Succeeds host w inv value w')
    (hcall : inv.call = .onStream id (.updateRate employer newRate))
    (hs : w.streams id = some s) (hs' : w'.streams id = some s') :
    ClockStep host id ⟨w, inv, w'⟩ s s' := by
  obtain ⟨found, op, hfound, hissues, hguard, hafter⟩ :=
    updated_of_succeeds hrun h hcall rfl
  obtain rfl : found = s := Option.some.inj (hfound.symm.trans hs)
  have hlast := ((clockFollowed_of_reaches hrun id).state found hs).last_le
  cases hissues with
  | updateRate _ accrued _ =>
      have hclock : s'.lastWithdrawTime = inv.now := by
        rw [hafter, Option.some.injEq] at hs'
        rw [← hs']
        rfl
      have hpays : paysEmployee host id ⟨w, inv, w'⟩ = false := by
        simp [paysEmployee, hcall]
      by_cases hmoved : found.lastWithdrawTime < inv.now
      · refine .moved hpays ?_ (by omega)
        simp [clockMovedIn, hcall, h.returned_eq, hs, movesClock, hmoved]
      · refine .kept hpays ?_ (by omega)
        simp [clockMovedIn, hcall, hs, movesClock, hmoved]

theorem clockStep_of_succeeds (hrun : Reaches host history w)
    (htime : ledgerTime host history ≤ inv.now) (h : Succeeds host w inv value w')
    (hs : w.streams id = some s) (hs' : w'.streams id = some s') :
    ClockStep host id ⟨w, inv, w'⟩ s s' := by
  by_cases hwrites : ∀ call, inv.call = .onStream id call → writesClock call = false
  · obtain ⟨hpays, hmoved⟩ := no_clock_step host ⟨w, inv, w'⟩ hwrites
    have hchange := streamChange_of_succeeds hrun h id
    exact .kept hpays hmoved ((clock_of_streamChange hchange hs hs').2 hwrites)
  · rw [not_forall] at hwrites
    obtain ⟨call, hcall⟩ := hwrites
    obtain ⟨hcall, hwrites⟩ := Classical.not_imp.mp hcall
    cases call with
    | withdraw employee => exact clockStep_of_withdraw hrun h hcall hs hs'
    | resumeStream caller => exact clockStep_of_resume hrun htime h hcall hs hs'
    | updateRate employer newRate =>
        exact clockStep_of_updateRate hrun htime h hcall hs hs'
    | _ => exact absurd rfl hwrites

end Step

/-! ## Every run -/

/-- The clock of the stream under `id` against its last payment: they agree until
some call moves the clock, and from then on the clock is ahead. -/
structure CooldownClock (host : Host) (id : Nat) (history : History) (w : World) :
    Prop where
  unborn : w.streams id = none → clockMovedSince host id history = false ∧
    ∀ start, lastPayment host id start history = start
  exact : ∀ s, w.streams id = some s → clockMovedSince host id history = false →
    s.lastWithdrawTime = lastPayment host id s.startTime history
  ahead : ∀ s, w.streams id = some s → clockMovedSince host id history = true →
    lastPayment host id s.startTime history < s.lastWithdrawTime

theorem CooldownClock.payment_le {host : Host} {id : Nat} {history : History}
    {w : World} (h : CooldownClock host id history w) {s : Stream}
    (hs : w.streams id = some s) :
    lastPayment host id s.startTime history ≤ s.lastWithdrawTime := by
  cases hmoved : clockMovedSince host id history with
  | false => exact (h.exact s hs hmoved).ge
  | true => exact (h.ahead s hs hmoved).le

/-- An entry that pays nothing and moves no clock. -/
theorem history_cons_of_quiet {host : Host} {id : Nat}
    {entry : Entry World Invocation} (hpays : paysEmployee host id entry = false)
    (hmoved : clockMovedIn host id entry = false) (history : History) :
    clockMovedSince host id (entry :: history) = clockMovedSince host id history ∧
      ∀ start, lastPayment host id start (entry :: history) =
        lastPayment host id start history := by
  simp [clockMovedSince, lastPayment, hpays, hmoved]

/-- Nothing is paid on a stream that does not exist. -/
theorem quiet_of_unborn {host : Host} {history : History} {id : Nat}
    {w w' : World} {inv : Invocation} {value : Value}
    (hrun : Reaches host history w) (h : Succeeds host w inv value w')
    (hnone : w.streams id = none) :
    paysEmployee host id ⟨w, inv, w'⟩ = false ∧
      clockMovedIn host id ⟨w, inv, w'⟩ = false := by
  refine no_clock_step host ⟨w, inv, w'⟩ ?_
  intro call hcall
  -- the calls that write a clock load the stream
  cases call with
  | withdraw employee =>
      obtain ⟨s, hs, _⟩ := withdraw_of_succeeds h hcall
      rw [hnone] at hs
      cases hs
  | resumeStream caller =>
      obtain ⟨s, _, hs, _⟩ := updated_of_succeeds hrun h hcall rfl
      rw [hnone] at hs
      cases hs
  | updateRate employer newRate =>
      obtain ⟨s, _, hs, _⟩ := updated_of_succeeds hrun h hcall rfl
      rw [hnone] at hs
      cases hs
  | _ => rfl

theorem quiet_of_fails {host : Host} {id : Nat} {w : World} {inv : Invocation}
    (h : Fails host w inv) :
    paysEmployee host id ⟨w, inv, w⟩ = false ∧
      clockMovedIn host id ⟨w, inv, w⟩ = false := by
  have hreturned := h.returned_eq
  obtain ⟨message, hmessage⟩ := h
  unfold paysEmployee clockMovedIn
  cases hcall : inv.call with
  | onStream streamId call =>
      rw [hcall] at hmessage
      cases call with
      | withdraw employee => simp [hmessage, isPositiveAmount, hreturned]
      | _ => simp [hreturned]
  | _ => exact ⟨rfl, rfl⟩

theorem CooldownClock.quiet {host : Host} {id : Nat} {history : History}
    {w w' : World} {inv : Invocation} (h : CooldownClock host id history w)
    (hpays : paysEmployee host id ⟨w, inv, w'⟩ = false)
    (hmoved : clockMovedIn host id ⟨w, inv, w'⟩ = false)
    (hsame : w'.streams id = w.streams id) :
    CooldownClock host id (⟨w, inv, w'⟩ :: history) w' := by
  obtain ⟨hsince, hpayment⟩ := history_cons_of_quiet hpays hmoved history
  refine ⟨?_, ?_, ?_⟩
  · intro hnone
    rw [hsame] at hnone
    obtain ⟨hunmoved, hstart⟩ := h.unborn hnone
    exact ⟨hsince.trans hunmoved, fun start => (hpayment start).trans (hstart start)⟩
  · intro s hs hunmoved
    rw [hsame] at hs
    rw [hsince] at hunmoved
    rw [hpayment]
    exact h.exact s hs hunmoved
  · intro s hs hahead
    rw [hsame] at hs
    rw [hsince] at hahead
    rw [hpayment]
    exact h.ahead s hs hahead

/-- A returning call takes the clock of a stored stream along. -/
theorem CooldownClock.stored {host : Host} {id : Nat} {history : History}
    {w w' : World} {inv : Invocation} {s s' : Stream}
    (h : CooldownClock host id history w) (hs : w.streams id = some s)
    (hs' : w'.streams id = some s') (hstart : s'.startTime = s.startTime)
    (hstep : ClockStep host id ⟨w, inv, w'⟩ s s') :
    CooldownClock host id (⟨w, inv, w'⟩ :: history) w' := by
  have hborn : w'.streams id ≠ none := by
    rw [hs']
    simp
  have hexact := h.exact s hs
  have hahead := h.ahead s hs
  refine ⟨fun hnone => absurd hnone hborn, ?_, ?_⟩
  · intro found hfound
    obtain rfl : found = s' := Option.some.inj (hfound.symm.trans hs')
    rw [hstart]
    intro hunmoved
    cases hstep with
    | paid hpays hclock => simpa [lastPayment, hpays] using hclock
    | moved hpays hmoved _ => simp [clockMovedSince, hpays, hmoved] at hunmoved
    | kept hpays hmoved hclock =>
        obtain ⟨hsince, hpayment⟩ := history_cons_of_quiet hpays hmoved history
        rw [hsince] at hunmoved
        rw [hpayment, hclock]
        exact hexact hunmoved
  · intro found hfound
    obtain rfl : found = s' := Option.some.inj (hfound.symm.trans hs')
    rw [hstart]
    intro hsince
    cases hstep with
    | paid hpays _ => simp [clockMovedSince, hpays] at hsince
    | moved hpays _ hclock =>
        -- ahead of the payment already, or moved ahead of it now
        have hle := h.payment_le hs
        have hpayment : lastPayment host id s.startTime (⟨w, inv, w'⟩ :: history) =
            lastPayment host id s.startTime history := by
          simp [lastPayment, hpays]
        omega
    | kept hpays hmoved hclock =>
        obtain ⟨hearlier, hpayment⟩ := history_cons_of_quiet hpays hmoved history
        rw [hearlier] at hsince
        rw [hpayment, hclock]
        exact hahead hsince

theorem cooldownClock_of_reaches {host : Host} {history : History} {w : World}
    (hrun : Reaches host history w) (id : Nat) :
    CooldownClock host id history w := by
  refine Reaches.invariant (P := CooldownClock host id) ?_ ?_ ?_ hrun
  · intro balances _
    refine ⟨fun _ => ⟨rfl, fun _ => rfl⟩, ?_, ?_⟩
    · intro s hs
      cases hs
    · intro s hs
      cases hs
  · intro history w inv value w' hrun htime h hsucceeds
    have hchange := streamChange_of_succeeds hrun hsucceeds id
    cases hs : w.streams id with
    | some s =>
        obtain ⟨s', hs'⟩ := hchange.stored hs
        exact h.stored hs hs' (clock_of_streamChange hchange hs hs').1
          (clockStep_of_succeeds hrun htime hsucceeds hs hs')
    | none =>
        obtain ⟨hpays, hmoved⟩ := quiet_of_unborn hrun hsucceeds hs
        cases hchange with
        | same hstream _ => exact h.quiet hpays hmoved hstream
        | updated old _ _ _ _ hold _ _ _ _ =>
            rw [hs] at hold
            cases hold
        | born s log _ _ hstream _ hfresh _ _ _ =>
            obtain ⟨hunmoved, hstart⟩ := h.unborn hs
            obtain ⟨hsince, hpayment⟩ := history_cons_of_quiet hpays hmoved history
            refine ⟨fun hnone => ?_, ?_, ?_⟩
            · rw [hstream] at hnone
              cases hnone
            · intro found hfound _
              obtain rfl : found = s := Option.some.inj (hfound.symm.trans hstream)
              rw [hpayment, hstart, hfresh.lastWithdrawTime, hfresh.startTime]
            · intro found _ hmovedSince
              rw [hsince, hunmoved] at hmovedSince
              cases hmovedSince
  · intro history w inv _ _ h hfails
    obtain ⟨hpays, hmoved⟩ := quiet_of_fails hfails
    exact h.quiet hpays hmoved rfl

theorem ledgerTime_le {host : Host} {history : History} {w : World}
    (hrun : Reaches host history w) : ledgerTime host history ≤ u64Max := by
  refine Reaches.invariant (P := fun history _ => ledgerTime host history ≤ u64Max)
    ?_ ?_ ?_ hrun
  · intro balances _
    exact Nat.zero_le _
  · intro history w inv value w' _ _ _ _
    exact inv.now_le
  · intro history w inv _ _ _ _
    exact inv.now_le

/-- At the end of every run, for every active stream with a cooldown that ends at
a `u64` time: the cooldown is counted from the last payment exactly when no
withdrawal passes the guards before it, or no call moved the clock since that
payment, or the cooldown is over on the moved clock too. -/
theorem cooldown_exact_iff {host : Host} {history : History} {w : World}
    (hrun : Reaches host history w) {id : Nat} {s : Stream}
    (hs : w.streams id = some s) (hactive : s.status = .active)
    (hcooldown : 0 < s.cooldownPeriod)
    (hsmall : s.lastWithdrawTime + s.cooldownPeriod ≤ u64Max)
    (hid : id ≤ u64Max) :
    CooldownExact host history w id s ↔
      w.config.paused = true ∨ clockMovedSince host id history = false ∨
        s.lastWithdrawTime + s.cooldownPeriod ≤ ledgerTime host history := by
  have hclock := cooldownClock_of_reaches hrun id
  have hrejects : ∀ inv : Invocation, inv.call = .onStream id (.withdraw s.employee) →
      s.employee ∈ inv.auth → w.config.paused = false →
      (exec host inv.toContext inv.call w = .error errWithdrawCooldown ↔
        inv.now < s.lastWithdrawTime + s.cooldownPeriod) := by
    intro inv hcall hauth hrunning
    rw [hcall, ← saturatingAddU64_of_le hsmall,
      ← withdraw_cooldown_iff hs hauth hrunning hactive hcooldown]
    show (withdraw host inv.toContext s.employee id w).map _ = _ ↔ _
    cases withdraw host inv.toContext s.employee id w with
    | error message => simp [Except.map]
    | ok result => simp [Except.map]
  constructor
  · intro hexact
    by_contra hcondition
    simp only [not_or, Bool.not_eq_true, not_le] at hcondition
    obtain ⟨hrunning, hmoved, hopen⟩ := hcondition
    have hmoved : clockMovedSince host id history = true := by
      simpa using hmoved
    have hahead := hclock.ahead s hs hmoved
    have hmax := ledgerTime_le hrun
    -- the first call at which the two clocks disagree
    let now := max (ledgerTime host history)
      (lastPayment host id s.startTime history + s.cooldownPeriod)
    let early : Invocation :=
      { now := now, auth := [s.employee], call := .onStream id (.withdraw s.employee),
        now_le := max_le hmax (by omega),
        inRange := by simpa [Call.inRange] using hid }
    have hrejected := hrejects early rfl List.mem_cons_self hrunning
    have hclaimed := hexact early (le_max_left _ _) rfl List.mem_cons_self hrunning
    have hbefore : now < s.lastWithdrawTime + s.cooldownPeriod :=
      max_lt hopen (by omega)
    have hless : now - lastPayment host id s.startTime history < s.cooldownPeriod :=
      hclaimed.mp (hrejected.mpr hbefore)
    have hpast : lastPayment host id s.startTime history + s.cooldownPeriod ≤ now :=
      le_max_right _ _
    omega
  · intro hcondition inv htime hcall hauth hrunning
    rw [hrejects inv hcall hauth hrunning]
    rcases hcondition with hpaused | hunmoved | hover
    · rw [hrunning] at hpaused
      cases hpaused
    · have := hclock.exact s hs hunmoved
      omega
    · have hle := hclock.payment_le hs
      omega

/-- A cooldown of a hundred seconds after a payment at 120. -/
theorem cooldown_exact_of_payment :
    ∃ history w s, Reaches Sample.host history w ∧ w.streams 1 = some s ∧
      s.status = .active ∧ s.cooldownPeriod = 100 ∧
      lastPayment Sample.host 1 s.startTime history = 120 ∧
      CooldownExact Sample.host history w 1 s := by
  have hrun := Sample.play_reaches [
    Sample.invoke 10 Sample.employer (.create (.createStream Sample.employer
      Sample.employee Sample.token 1000 1 0 100 0)),
    Sample.invoke 120 Sample.employee (.onStream 1 (.withdraw Sample.employee))]
    (by decide)
  exact ⟨_, _, _, hrun, rfl, rfl, rfl, by decide,
    (cooldown_exact_iff hrun rfl rfl (by decide) (by decide) (by decide)).mpr
      (Or.inr (Or.inl (by decide)))⟩

/-- A pause of forty seconds: a hundred and ten seconds after the start the first
withdrawal is still rejected by a cooldown of a hundred. -/
theorem cooldown_extended_by_pause :
    ∃ history w s, Reaches Sample.host history w ∧ w.streams 1 = some s ∧
      s.status = .active ∧ s.cooldownPeriod = 100 ∧
      lastPayment Sample.host 1 s.startTime history = 10 ∧
      exec Sample.host (Sample.invoke 120 Sample.employee
          (.onStream 1 (.withdraw Sample.employee))).toContext
        (.onStream 1 (.withdraw Sample.employee)) w =
          .error errWithdrawCooldown ∧
      ¬ CooldownExact Sample.host history w 1 s := by
  have hrun := Sample.play_reaches [
    Sample.invoke 10 Sample.employer (.create (.createStream Sample.employer
      Sample.employee Sample.token 1000 1 0 100 0)),
    Sample.manage 50 (.pauseStream Sample.employer),
    Sample.manage 90 (.resumeStream Sample.employer)] (by decide)
  refine ⟨_, _, _, hrun, rfl, rfl, rfl, by decide, rfl, ?_⟩
  intro hexact
  have hless := (hexact (Sample.invoke 120 Sample.employee
    (.onStream 1 (.withdraw Sample.employee))) (by decide) rfl
      List.mem_cons_self rfl).mp rfl
  revert hless
  decide

end Properties
end Paystream
