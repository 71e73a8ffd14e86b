import Paystream.Semantics.StreamOps
import Paystream.Semantics.AdminOps

/-!
# The entry points refine the stream automaton

Every call that returns does one of five things to the books of the contract,
that is to its streams, its fee ledger, the token balances and the transfer log:

* nothing (administration, governance, queries);
* it creates streams, one after the other (`Created`);
* it applies one operation to one stream (`StreamUpdate`);
* it pays out part of the fee ledger (`FeePayout`);
* it is a transfer somebody makes on a token directly.

This module proves it for the calls on one stream, and `Steps` for the others:
`effect_of_succeeds` there is the whole case distinction.  Everything the later
modules say about runs goes through it; no entry point is unfolded again.
-/

namespace Paystream
namespace Semantics

open Library
open Contract
open Contract.Storage
open Contract.StreamContract

/-! ## Effects -/

/-- `w'` is `w` with one operation applied to the stream `s` of it. -/
structure StreamUpdate (host : Host) (ctx : Context) (w w' : World)
    (s : Stream) (op : StreamOp) (log : List TokenTransfer) : Prop where
  guard : op.Guard ctx.now s
  pays : op.Pays host ctx w s log
  performed : Performed host.tokens log w.balances w'.balances
  streams : w'.streams =
    Function.update w.streams s.id (some (op.next ctx.now s))
  streamCount : w'.streamCount = w.streamCount
  feeBalance : w'.feeBalance = op.feeBalance w s
  transfers : w'.transfers = log ++ w.transfers
  sameSettings : settings w' = settings w

/-- `w'` is `w` with the new stream `s`, funded by its employer. -/
structure CreateOne (host : Host) (ctx : Context) (w w' : World) (s : Stream)
    (log : List TokenTransfer) : Prop where
  fresh : FreshStream ctx.now s
  id : s.id = w.streamCount + 1
  signed : s.employer ∈ ctx.auth
  pays : CreationTransfers host.self s log
  performed : Performed host.tokens log w.balances w'.balances
  streams : w'.streams = Function.update w.streams s.id (some s)
  streamCount : w'.streamCount = w.streamCount + 1
  feeBalance : w'.feeBalance = w.feeBalance
  transfers : w'.transfers = log ++ w.transfers
  sameSettings : settings w' = settings w

/-- `w'` is `w` with some new streams, created one after the other. -/
inductive Created (host : Host) (ctx : Context) : World → World → Prop
  | done {w w' : World} (hbooks : books w' = books w)
      (hsettings : settings w' = settings w) : Created host ctx w w'
  | cons {w middle w' : World} {s : Stream} {log : List TokenTransfer}
      (hfirst : CreateOne host ctx w middle s log)
      (hrest : Created host ctx middle w') : Created host ctx w w'

/-- `w'` is `w` after a payout from the fee ledger. -/
structure FeePayout (host : Host) (w w' : World) (token recipient : Address)
    (amount : Int) : Prop where
  amount_pos : 0 < amount
  amount_le : amount ≤ w.feeBalance token
  performed : Performed host.tokens
    [(⟨.feePayout, token, host.self, recipient, amount⟩ : TokenTransfer)]
    w.balances w'.balances
  streams : w'.streams = w.streams
  streamCount : w'.streamCount = w.streamCount
  feeBalance : w'.feeBalance =
    Function.update w.feeBalance token (w.feeBalance token - amount)
  transfers : w'.transfers =
    ⟨.feePayout, token, host.self, recipient, amount⟩ :: w.transfers
  sameSettings : settings w' = settings w

/-- `w'` is `w` after a transfer made on a token directly. -/
structure DirectTransfer (host : Host) (ctx : Context) (w w' : World)
    (token source target : Address) (amount : Int) : Prop where
  signed : source ∈ ctx.auth
  performed : Performed host.tokens
    [(⟨.direct, token, source, target, amount⟩ : TokenTransfer)]
    w.balances w'.balances
  streams : w'.streams = w.streams
  streamCount : w'.streamCount = w.streamCount
  feeBalance : w'.feeBalance = w.feeBalance
  transfers : w'.transfers =
    ⟨.direct, token, source, target, amount⟩ :: w.transfers
  sameSettings : settings w' = settings w

/-! ## Claimable amounts, as far as the guards need them -/

theorem claimableAmount_nonneg {s : Stream} {now : Nat} {amount : Int}
    (h : claimableAmount s now = .ok amount) : 0 ≤ amount := by
  unfold claimableAmount at h
  split at h
  · cases h
    exact le_rfl
  · cases h
    exact le_rfl
  -- active or paused: zero before the cliff and with no second elapsed, and
  -- cut off at zero otherwise
  all_goals
    split at h
    · cases h
      exact le_rfl
    · simp only at h
      split at h
      · cases h
        exact le_rfl
      · simp only [bind_eq_ok_iff, pure_eq_ok_iff] at h
        obtain ⟨earned, _, rfl⟩ := h
        exact le_max_right _ _

/-- A claimable amount is left of the deposit. -/
theorem withdrawn_add_claimable_le {s : Stream} {now : Nat} {amount : Int}
    (hle : s.withdrawn ≤ s.deposit) (h : claimableAmount s now = .ok amount) :
    s.withdrawn + amount ≤ s.deposit := by
  have hremaining : (checkedSub s.deposit s.withdrawn).getD 0 ≤
      s.deposit - s.withdrawn := by
    cases hsub : checkedSub s.deposit s.withdrawn with
    | none =>
        show 0 ≤ s.deposit - s.withdrawn
        omega
    | some rest =>
        obtain ⟨_, rfl⟩ := (checked_eq_some_iff _ _).mp hsub
        exact le_rfl
  have hzero : s.withdrawn + 0 ≤ s.deposit := by omega
  unfold claimableAmount at h
  split at h
  · cases h
    exact hzero
  · cases h
    exact hzero
  all_goals
    split at h
    · cases h
      exact hzero
    · simp only at h
      split at h
      · cases h
        exact hzero
      · simp only [bind_eq_ok_iff, pure_eq_ok_iff] at h
        obtain ⟨earned, _, rfl⟩ := h
        omega

/-- Nothing is claimable of a terminal stream. -/
theorem claimableAmount_of_isTerminal {s : Stream}
    (h : isTerminal s.status = true) (now : Nat) :
    claimableAmount s now = .ok 0 := by
  unfold claimableAmount
  cases hstatus : s.status with
  | active => simp [hstatus, isTerminal] at h
  | paused => simp [hstatus, isTerminal] at h
  | cancelled => rfl
  | exhausted => rfl

@[simp] theorem requireManager_eq_ok_iff (w : World) (caller : Address)
    (streamId : Nat) (s : Stream) :
    requireManager w caller streamId = .ok s ↔
      w.streams streamId = some s ∧ Manages caller s := by
  have hrole : (isEmployer caller s || isDelegate caller s) = true ↔
      Manages caller s := by
    unfold isEmployer isDelegate Manages
    cases s.delegate with
    | none => simp
    | some delegate => simp [@eq_comm Address delegate caller]
  simp only [requireManager, bind_eq_ok_iff, loadStream_eq_ok_iff,
    ensure_eq_ok_iff, pure_eq_ok_iff]
  constructor
  · rintro ⟨found, hfound, _, hmanages, rfl⟩
    exact ⟨hfound, hrole.mp hmanages⟩
  · rintro ⟨hfound, hmanages⟩
    exact ⟨s, hfound, (), hrole.mpr hmanages, rfl⟩

/-! ## Storing one operation -/

/-- `w'` is `w` after the transfers of a log, and nothing else. -/
structure Moved (host : Host) (w w' : World) (log : List TokenTransfer) :
    Prop where
  performed : Performed host.tokens log w.balances w'.balances
  same : w' = { w with
    balances := w'.balances, transfers := log ++ w.transfers }

theorem Moved.none (host : Host) (w : World) : Moved host w w [] :=
  ⟨rfl, rfl⟩

theorem tokenTransfer_moved {host : Host} {transfer : TokenTransfer}
    {w w' : World} (h : tokenTransfer host transfer w = .ok w') :
    Moved host w w' [transfer] := by
  rw [tokenTransfer_eq_ok_iff] at h
  obtain ⟨balances, hperform, rfl⟩ := h
  exact ⟨.single hperform, rfl⟩

theorem Moved.append {host : Host} {w middle w' : World}
    {earlier later : List TokenTransfer} (hearlier : Moved host w middle earlier)
    (hlater : Moved host middle w' later) :
    Moved host w w' (later ++ earlier) where
  performed := hearlier.performed.append hlater.performed
  same := by
    rw [hlater.same, hearlier.same]
    simp

theorem Moved.records {host : Host} {w w' : World} {log : List TokenTransfer}
    (h : Moved host w w' log) : records w' = records w := by
  rw [h.same]
  rfl

/-- `w'` is `w` with these events and transfers. -/
structure Logged (w w' : World) (events : List Event)
    (log : List TokenTransfer) : Prop where
  events : w'.events = events ++ w.events
  transfers : w'.transfers = log ++ w.transfers

theorem Moved.logged {host : Host} {w w' : World} {log : List TokenTransfer}
    (h : Moved host w w' log) : Logged w w' [] log := by
  rw [h.same]
  exact ⟨rfl, rfl⟩

/-- The transfers are made and then an event is published. -/
theorem Moved.logged_emit {host : Host} {w w₁ w' : World} {log : List TokenTransfer}
    (h : Moved host w w₁ log) {event : Event} (hevents : w'.events = event :: w₁.events)
    (htransfers : w'.transfers = w₁.transfers) : Logged w w' [event] log where
  events := by rw [hevents, h.logged.events]; rfl
  transfers := htransfers.trans h.logged.transfers

/-- An operation that makes its transfers, stores the stream, and leaves the
rest of the books. -/
theorem StreamUpdate.of_moved {host : Host} {ctx : Context} {w w₁ w' : World}
    {s : Stream} {op : StreamOp} {log : List TokenTransfer}
    (hguard : op.Guard ctx.now s) (hpays : op.Pays host ctx w s log)
    (hmoved : Moved host w w₁ log)
    (hbooks : books w' = books (saveStream w₁ (op.next ctx.now s)))
    (hsettings : settings w' = settings w₁)
    (hid : (op.next ctx.now s).id = s.id)
    (hfee : op.feeBalance w s = w.feeBalance) :
    StreamUpdate host ctx w w' s op log := by
  obtain ⟨hperformed, hsame⟩ := hmoved
  have hstreams : w'.streams =
      Function.update w₁.streams s.id (some (op.next ctx.now s)) := by
    have := congrArg Books.streams hbooks
    rw [← hid]
    exact this
  have hcount : w'.streamCount = w₁.streamCount :=
    congrArg Books.streamCount hbooks
  have hledger : w'.feeBalance = w₁.feeBalance :=
    congrArg Books.feeBalance hbooks
  have hbalances : w'.balances = w₁.balances := congrArg Books.balances hbooks
  have htransfers : w'.transfers = w₁.transfers :=
    congrArg Books.transfers hbooks
  rw [hsame] at hstreams hcount hledger htransfers hsettings
  exact
    { guard := hguard
      pays := hpays
      performed := by rw [hbalances]; exact hperformed
      streams := hstreams
      streamCount := hcount
      feeBalance := hledger.trans hfee.symm
      transfers := htransfers
      sameSettings := hsettings }

/-! ## Operations that move no token -/

/-- What a call on a stream can do. -/
def OnStreamEffect (host : Host) (ctx : Context) (w w' : World) (streamId : Nat)
    (call : StreamCall) : Prop :=
  (StreamCall.mayIdle call = true ∧ books w' = books w ∧
      settings w' = settings w) ∨
    ∃ s op log, w.streams streamId = some s ∧
      Issues ctx w streamId s call op ∧ StreamUpdate host ctx w w' s op log

/-- What a call on a stream that returned did: to the books, in the event log, and to
the records. -/
structure OnStreamSpec (host : Host) (ctx : Context) (w w' : World) (streamId : Nat)
    (call : StreamCall) : Prop where
  effect : OnStreamEffect host ctx w w' streamId call
  emits : ∃ s events log, w.streams streamId = some s ∧
    OnStreamEmits host.self ctx.now w streamId s call events log ∧
      Logged w w' events log
  records : records w' = recordsNext ctx.now w (.onStream streamId call)

theorem transferStream_spec (host : Host) {ctx : Context}
    {employee newEmployee : Address} {streamId : Nat} {w w' : World}
    (h : transferStream ctx employee streamId newEmployee w = .ok w') :
    OnStreamSpec host ctx w w' streamId (.transferStream employee newEmployee) := by
  simp only [transferStream, bind_eq_ok_iff, requireAuth_eq_ok_iff,
    requireEmployeeById_eq_ok_iff, ensure_eq_ok_iff, decide_eq_true_eq,
    pure_eq_ok_iff] at h
  obtain ⟨_, hauth, s, ⟨hs, rfl⟩, _, hstatus, rfl⟩ := h
  exact
    { effect := Or.inr ⟨s, _, [], hs, .changeEmployee newEmployee hauth,
        .of_moved hstatus rfl (.none host w) rfl rfl rfl rfl⟩
      emits := ⟨s, _, _, hs, .employeeChanged newEmployee, rfl, rfl⟩
      records := rfl }

theorem pauseStream_spec (host : Host) {ctx : Context} {caller : Address}
    {streamId : Nat} {w w' : World}
    (h : pauseStream ctx caller streamId w = .ok w') :
    OnStreamSpec host ctx w w' streamId (.pauseStream caller) := by
  simp only [pauseStream, bind_eq_ok_iff, requireAuth_eq_ok_iff,
    requireManager_eq_ok_iff, ensure_eq_ok_iff, decide_eq_true_eq,
    requireTransition_eq_ok_iff, pure_eq_ok_iff] at h
  obtain ⟨_, hauth, s, ⟨hs, hrole⟩, _, _, _, hstatus, _, _, rfl⟩ := h
  exact
    { effect := Or.inr ⟨s, _, [], hs, .pause caller hauth hrole,
        .of_moved hstatus rfl (.none host w) rfl rfl rfl rfl⟩
      emits := ⟨s, _, _, hs, .paused caller hstatus, rfl, rfl⟩
      records := rfl }

theorem resumeStream_spec (host : Host) {ctx : Context} {caller : Address}
    {streamId : Nat} {w w' : World}
    (h : resumeStream ctx caller streamId w = .ok w') :
    OnStreamSpec host ctx w w' streamId (.resumeStream caller) := by
  simp only [resumeStream, bind_eq_ok_iff, requireAuth_eq_ok_iff,
    requireManager_eq_ok_iff, ensure_eq_ok_iff, decide_eq_true_eq,
    requireTransition_eq_ok_iff, pure_eq_ok_iff] at h
  obtain ⟨_, hauth, s, ⟨hs, hrole⟩, _, _, _, hstatus, _, _, rfl⟩ := h
  exact
    { effect := Or.inr ⟨s, _, [], hs, .resume caller hauth hrole,
        .of_moved hstatus rfl (.none host w) rfl rfl rfl rfl⟩
      emits := ⟨s, _, _, hs, .resumed caller hstatus, rfl, rfl⟩
      records := rfl }

theorem setDelegate_spec (host : Host) {ctx : Context} {employer : Address}
    {streamId : Nat} {delegate : Option Address} {w w' : World}
    (h : setDelegate ctx employer streamId delegate w = .ok w') :
    OnStreamSpec host ctx w w' streamId (.setDelegate employer delegate) := by
  simp only [setDelegate, bind_eq_ok_iff, requireAuth_eq_ok_iff,
    requireEmployerById_eq_ok_iff, pure_eq_ok_iff] at h
  obtain ⟨_, hauth, s, ⟨hs, rfl⟩, rfl⟩ := h
  exact
    { effect := Or.inr ⟨s, _, [], hs, .changeDelegate delegate hauth,
        .of_moved trivial rfl (.none host w) rfl rfl rfl rfl⟩
      emits := ⟨s, _, _, hs, .delegateSet delegate, rfl, rfl⟩
      records := rfl }

theorem proposeEmployerTransfer_spec (host : Host) {ctx : Context}
    {employer newEmployer : Address} {streamId : Nat} {w w' : World}
    (h : proposeEmployerTransfer ctx employer streamId newEmployer w = .ok w') :
    OnStreamSpec host ctx w w' streamId
      (.proposeEmployerTransfer employer newEmployer) := by
  simp only [proposeEmployerTransfer, bind_eq_ok_iff, requireEmployerById_eq_ok_iff,
    pure_eq_ok_iff] at h
  obtain ⟨_, _, s, ⟨hs, rfl⟩, rfl⟩ := h
  exact
    { effect := Or.inl ⟨rfl, rfl, rfl⟩
      emits := ⟨s, _, _, hs, .employerProposed newEmployer, rfl, rfl⟩
      records := rfl }

theorem acceptEmployerTransfer_spec (host : Host) {ctx : Context}
    {newEmployer : Address} {streamId : Nat} {w w' : World}
    (h : acceptEmployerTransfer ctx newEmployer streamId w = .ok w') :
    OnStreamSpec host ctx w w' streamId (.acceptEmployerTransfer newEmployer) := by
  simp only [acceptEmployerTransfer, bind_eq_ok_iff, requireAuth_eq_ok_iff,
    requirePendingEmployer_eq_ok_iff, loadStream_eq_ok_iff, pure_eq_ok_iff] at h
  obtain ⟨_, hauth, _, hpending, s, hs, rfl⟩ := h
  exact
    { effect := Or.inr ⟨s, _, [], hs, .changeEmployer newEmployer hauth hpending,
        .of_moved trivial rfl (.none host w) rfl rfl rfl rfl⟩
      emits := ⟨s, _, _, hs, .employerChanged newEmployer hpending, rfl, rfl⟩
      records := rfl }

theorem updateRate_spec (host : Host) {ctx : Context} {employer : Address}
    {streamId : Nat} {newRate : Int} {w w' : World}
    (h : updateRate ctx employer streamId newRate w = .ok w') :
    OnStreamSpec host ctx w w' streamId (.updateRate employer newRate) := by
  simp only [updateRate, bind_eq_ok_iff, requireAuth_eq_ok_iff,
    ensure_eq_ok_iff, decide_eq_true_eq, requireEmployerById_eq_ok_iff,
    expect_eq_ok_iff, checkedAdd_eq_some_iff, pure_eq_ok_iff] at h
  obtain ⟨_, hauth, _, hpos, _, hmax, s, ⟨hs, rfl⟩, _, hstatus, accrued,
    haccrued, _, ⟨_, rfl⟩, rfl⟩ := h
  exact
    { effect := Or.inr ⟨s, _, [], hs, .updateRate newRate accrued hauth,
        .of_moved ⟨hstatus, hpos, hmax, haccrued⟩ rfl (.none host w) rfl rfl rfl rfl⟩
      emits := ⟨s, _, _, hs, .rateChanged newRate, rfl, rfl⟩
      records := rfl }

/-- A look at a stream writes nothing, or it marks the stream exhausted. -/
theorem getStream_cases {ctx : Context} {streamId : Nat} {w w' : World}
    {result : Stream} (h : getStream ctx streamId w = .ok (result, w')) :
    ∃ s, w.streams streamId = some s ∧
      (w' = w ∨ (StreamOp.markExhausted.Guard ctx.now s ∧
        w' = saveStream w (StreamOp.markExhausted.next ctx.now s))) := by
  simp only [getStream, bind_eq_ok_iff, loadStream_eq_ok_iff] at h
  obtain ⟨s, hs, h⟩ := h
  refine ⟨s, hs, ?_⟩
  split at h
  · -- past the stop time there are two ways to be marked
    rename_i hexpired
    simp only [bind_eq_ok_iff] at h
    obtain ⟨claimable, hclaimable, h⟩ := h
    split at h
    · rename_i hdone
      cases h
      exact Or.inr ⟨⟨hexpired.1, hexpired.2, claimable, hclaimable, Or.inl hdone⟩, rfl⟩
    · simp only [bind_eq_ok_iff] at h
      obtain ⟨earned, hearned, h⟩ := h
      split at h
      · rename_i htotal
        cases h
        exact Or.inr ⟨⟨hexpired.1, hexpired.2, claimable, hclaimable,
          Or.inr ⟨earned, hearned, htotal⟩⟩, rfl⟩
      · cases h
        exact Or.inl rfl
  · cases h
    exact Or.inl rfl

theorem getStream_spec (host : Host) {ctx : Context} {streamId : Nat}
    {w w' : World} {result : Stream}
    (h : getStream ctx streamId w = .ok (result, w')) :
    OnStreamSpec host ctx w w' streamId .getStream := by
  obtain ⟨s, hs, rfl | ⟨hguard, rfl⟩⟩ := getStream_cases h
  · exact
      { effect := Or.inl ⟨rfl, rfl, rfl⟩
        emits := ⟨s, [], [], hs, .looked, rfl, rfl⟩
        records := rfl }
  · exact
      { effect := Or.inr ⟨s, _, [], hs, .markExhausted,
          .of_moved hguard rfl (.none host w) rfl rfl rfl rfl⟩
        emits := ⟨s, [], [], hs, .looked, rfl, rfl⟩
        records := rfl }

/-! ## Operations that move tokens -/

theorem topUp_spec {host : Host} {ctx : Context} {caller : Address}
    {streamId : Nat} {amount : Int} {w w' : World}
    (h : topUp host ctx caller streamId amount w = .ok w') :
    OnStreamSpec host ctx w w' streamId (.topUp caller amount) := by
  simp only [topUp, bind_eq_ok_iff, requireAuth_eq_ok_iff,
    validateTopUp_eq_ok_iff, requireManager_eq_ok_iff, ensure_eq_ok_iff,
    requireNotTerminal_eq_ok_iff, expect_eq_ok_iff, checkedAdd_eq_some_iff,
    pure_eq_ok_iff] at h
  obtain ⟨_, hauth, _, hpos, s, ⟨hs, hrole⟩, _, _, _, _, _, hstatus, w₁, hmove,
    _, ⟨hrange, rfl⟩, rfl⟩ := h
  have hmoved := tokenTransfer_moved hmove
  exact
    { effect := Or.inr ⟨s, _, _, hs, .topUp caller amount hauth hrole,
        .of_moved ⟨hpos, hstatus, hrange.2⟩ ⟨caller, hauth, rfl⟩ hmoved
          rfl rfl rfl rfl⟩
      emits := ⟨s, _, _, hs, .toppedUp caller amount, hmoved.logged_emit rfl rfl⟩
      records := hmoved.records }

theorem payOwed_moved {host : Host} {s s' : Stream} {owed : Int} {w w' : World}
    (howed : 0 ≤ owed) (h : payOwed host s owed w = .ok (s', w')) :
    s' = { s with withdrawn := s.withdrawn + owed } ∧
      Moved host w w' (if 0 < owed then
        [⟨.salary s.id, s.token, host.self, s.employee, owed⟩] else []) := by
  unfold payOwed at h
  split at h
  · rename_i hpos
    simp only [bind_eq_ok_iff, expect_eq_ok_iff, checkedAdd_eq_some_iff,
      pure_eq_ok_iff, Prod.mk.injEq] at h
    obtain ⟨w₁, hmove, _, ⟨_, rfl⟩, rfl, rfl⟩ := h
    rw [if_pos hpos]
    exact ⟨rfl, tokenTransfer_moved hmove⟩
  · rename_i hpos
    cases h
    have hzero : owed = 0 := by omega
    subst hzero
    exact ⟨by simp, Moved.none host w⟩

theorem payRefund_moved {host : Host} {s : Stream} {employer : Address}
    {refund : Int} {w w' : World}
    (h : payRefund host s employer refund w = .ok w') :
    Moved host w w' (if 0 < refund then
      [⟨.refund s.id, s.token, host.self, employer, refund⟩] else []) := by
  unfold payRefund at h
  split at h
  · rename_i hpos
    rw [if_pos hpos]
    exact tokenTransfer_moved h
  · rename_i hpos
    cases h
    rw [if_neg hpos]
    exact Moved.none host w

/-- A settlement pays out, stores the final status and publishes one event. -/
theorem settleStream_ok {host : Host} {s : Stream} {streamId : Nat} {owed : Int}
    {final : StreamStatus} {w w' : World} (howed : 0 ≤ owed)
    (h : settleStream host s streamId s.employer owed final w = .ok w') :
    ∃ w₁, Moved host w w₁ (settlementTransfers host.self s owed) ∧
      w' = (saveStream w₁ { s with
        withdrawn := s.withdrawn + owed, status := final }).emit
          (.streamCancelled streamId s.employer s.employee
            (refundOf { s with withdrawn := s.withdrawn + owed }) owed) := by
  simp only [settleStream, bind_eq_ok_iff, pure_eq_ok_iff] at h
  obtain ⟨⟨s', w₁⟩, howedPaid, w₂, hrefundPaid, rfl⟩ := h
  -- the refund is computed from the record the first payment left
  obtain ⟨rfl, hfirst⟩ := payOwed_moved howed howedPaid
  have hsecond := payRefund_moved hrefundPaid
  exact ⟨w₂, hfirst.append hsecond, rfl⟩

theorem cancelStream_spec {host : Host} {ctx : Context} {employer : Address}
    {streamId : Nat} {w w' : World}
    (h : cancelStream host ctx employer streamId w = .ok w') :
    OnStreamSpec host ctx w w' streamId (.cancelStream employer) := by
  simp only [cancelStream, bind_eq_ok_iff, requireAuth_eq_ok_iff,
    requireEmployerById_eq_ok_iff, ensure_eq_ok_iff, decide_eq_true_eq,
    requireTransition_eq_ok_iff] at h
  obtain ⟨_, hauth, s, ⟨hs, rfl⟩, _, hstatus, _, _, owed, howed, h⟩ := h
  have hnonneg := claimableAmount_nonneg howed
  obtain ⟨w₁, hmoved, rfl⟩ := settleStream_ok hnonneg h
  exact
    { effect := Or.inr ⟨s, _, _, hs, .cancel owed hauth,
        .of_moved ⟨hstatus, howed⟩ rfl hmoved rfl rfl rfl rfl⟩
      emits := ⟨s, _, _, hs, .settled _ owed hnonneg (Or.inl rfl)
        ((isTerminal_eq_false_iff _).mpr hstatus), hmoved.logged_emit rfl rfl⟩
      records := hmoved.records }

theorem reclaimExpired_spec {host : Host} {ctx : Context} {employer : Address}
    {streamId : Nat} {w w' : World}
    (h : reclaimExpired host ctx employer streamId w = .ok w') :
    OnStreamSpec host ctx w w' streamId (.reclaimExpired employer) := by
  simp only [reclaimExpired, bind_eq_ok_iff, requireAuth_eq_ok_iff,
    requireEmployerById_eq_ok_iff, ensure_eq_ok_iff, decide_eq_true_eq] at h
  obtain ⟨_, hauth, s, ⟨hs, rfl⟩, _, hstatus, _, hexpired, owed, howed, h⟩ := h
  have hnonneg := claimableAmount_nonneg howed
  obtain ⟨w₁, hmoved, rfl⟩ := settleStream_ok hnonneg h
  exact
    { effect := Or.inr ⟨s, _, _, hs, .reclaim owed hauth,
        .of_moved ⟨hstatus, hexpired, howed⟩ rfl hmoved rfl rfl rfl rfl⟩
      emits := ⟨s, _, _, hs, .settled _ owed hnonneg (Or.inr rfl)
        ((isTerminal_eq_false_iff _).mpr hstatus), hmoved.logged_emit rfl rfl⟩
      records := hmoved.records }

/-! ## The withdrawal -/

/-- What the fee part of a withdrawal does to the world. -/
structure FeePaid (host : Host) (w w' : World) (s : Stream) (streamId : Nat)
    (fee : Int) : Prop where
  performed : Performed host.tokens (feeTransfers host.self s fee w.feeRecipient)
    w.balances w'.balances
  same : w' = { w with
    balances := w'.balances
    feeBalance := feeLedgerAfter w s.token fee
    transfers := feeTransfers host.self s fee w.feeRecipient ++ w.transfers
    events := feeEvents streamId fee w.feeRecipient ++ w.events }

theorem FeePaid.nothing {host : Host} {w : World} {s : Stream} {streamId : Nat}
    {fee : Int} (hlog : feeTransfers host.self s fee w.feeRecipient = [])
    (hevents : feeEvents streamId fee w.feeRecipient = [])
    (hledger : feeLedgerAfter w s.token fee = w.feeBalance) :
    FeePaid host w w s streamId fee where
  performed := by
    rw [hlog]
    rfl
  same := by
    rw [hlog, hevents, hledger]
    rfl

theorem payWithdrawalFee_ok {host : Host} {s : Stream} {streamId : Nat}
    {fee : Int} {w w' : World}
    (h : payWithdrawalFee host s streamId fee w = .ok w') :
    FeePaid host w w' s streamId fee := by
  unfold payWithdrawalFee at h
  cases hrecipient : w.feeRecipient with
  | none =>
      -- without a recipient nothing is sent, whatever the fee
      have hsame : w' = w := by
        rw [hrecipient] at h
        split at h
        · cases h
          rfl
        · cases h
          rfl
      subst hsame
      apply FeePaid.nothing
      · simp only [feeTransfers, hrecipient]
      · simp only [feeEvents, hrecipient]
      · simp only [feeLedgerAfter, hrecipient]
  | some recipient =>
      rw [hrecipient] at h
      by_cases hpos : 0 < fee
      · have hlog : feeTransfers host.self s fee w.feeRecipient =
            [⟨.withdrawalFee s.id, s.token, host.self, recipient, fee⟩] := by
          simp only [feeTransfers, hrecipient, if_pos hpos]
        have hevents : feeEvents streamId fee w.feeRecipient =
            [.protocolFeeCollected streamId fee recipient] := by
          simp only [feeEvents, hrecipient, if_pos hpos]
        have hledger : feeLedgerAfter w s.token fee =
            (addFeeBalance w s.token fee).feeBalance := by
          simp only [feeLedgerAfter, hrecipient, if_pos hpos]
        simp only [if_pos hpos, bind_eq_ok_iff, tokenTransfer_eq_ok_iff,
          pure_eq_ok_iff] at h
        obtain ⟨_, ⟨balances, hperform, rfl⟩, rfl⟩ := h
        constructor
        · rw [hlog]
          exact .single hperform
        · rw [hlog, hevents, hledger]
          rfl
      · rw [if_neg hpos] at h
        cases h
        apply FeePaid.nothing
        · simp only [feeTransfers, hrecipient, if_neg hpos]
        · simp only [feeEvents, hrecipient, if_neg hpos]
        · simp only [feeLedgerAfter, hrecipient, if_neg hpos]

/-- The warning publishes at most one event, and writes nothing. -/
theorem maybeWarnExhaustion_eq (s : Stream) (w : World) :
    ∃ warning : List Event,
      (∀ event ∈ warning, ∃ days, event = .nearExhaustion s.id s.employer days) ∧
        maybeWarnExhaustion s w = { w with events := warning ++ w.events } := by
  have hone : ∀ days, ∀ event ∈ [Event.nearExhaustion s.id s.employer days],
      ∃ days, event = .nearExhaustion s.id s.employer days := by
    intro days event hevent
    exact ⟨days, List.mem_singleton.mp hevent⟩
  unfold maybeWarnExhaustion
  split
  · exact ⟨[], nofun, rfl⟩
  · simp only
    split
    · exact ⟨_, hone 1, rfl⟩
    · split
      · exact ⟨_, hone 7, rfl⟩
      · exact ⟨[], nofun, rfl⟩

theorem books_maybeWarnExhaustion (s : Stream) (w : World) :
    books (maybeWarnExhaustion s w) = books w := by
  obtain ⟨warning, _, heq⟩ := maybeWarnExhaustion_eq s w
  rw [heq]
  rfl

theorem statusAfterWithdraw_ok {s : Stream} {status : StreamStatus}
    (h : statusAfterWithdraw s = .ok status) :
    status = if s.deposit ≤ s.withdrawn then .exhausted else s.status := by
  unfold statusAfterWithdraw at h
  split at h
  · rename_i hdone
    simp only [bind_eq_ok_iff, pure_eq_ok_iff] at h
    obtain ⟨_, _, rfl⟩ := h
    rw [if_pos hdone]
  · rename_i hdone
    cases h
    rw [if_neg hdone]

/-- What a withdrawal that pays leaves. -/
structure Withdrawal (host : Host) (ctx : Context) (w w' : World) (s : Stream)
    (streamId : Nat) (gross fee : Int) (warning : List Event) : Prop where
  performed : Performed host.tokens
    (withdrawalTransfers host.self s gross fee w.feeRecipient) w.balances w'.balances
  same : w' = { w with
    streams := Function.update w.streams s.id
      (some ((StreamOp.withdraw gross).next ctx.now s))
    balances := w'.balances
    feeBalance := feeLedgerAfter w s.token fee
    transfers := withdrawalTransfers host.self s gross fee w.feeRecipient ++ w.transfers
    events := (warning ++ .withdrawn streamId s.employee
      (max (saturatingSub gross fee) 0) :: feeEvents streamId fee w.feeRecipient) ++
        w.events }

/-- The closing writes of a withdrawal, after its fee part and the transfer of the
salary. -/
theorem FeePaid.withdrawal {host : Host} {ctx : Context} {w w₁ w' : World}
    {s : Stream} {streamId : Nat} {gross fee : Int}
    {balances : Balances Address Address} {warning : List Event}
    (hpaid : FeePaid host (saveStream w { s with locked := true }) w₁ s streamId fee)
    (hsalary : perform host.tokens (shareTransfer host.self s gross fee)
      w₁.balances = some balances)
    (hlast : w' = { w₁ with
      streams := Function.update w₁.streams s.id
        (some ((StreamOp.withdraw gross).next ctx.now s))
      balances := balances
      transfers := shareTransfer host.self s gross fee :: w₁.transfers
      events := warning ++ .withdrawn streamId s.employee
        (max (saturatingSub gross fee) 0) :: w₁.events }) :
    Withdrawal host ctx w w' s streamId gross fee warning where
  performed := by
    rw [hlast]
    exact ⟨w₁.balances, hpaid.performed, hsalary⟩
  same := by
    rw [hlast, hpaid.same]
    -- the locked record written first is overwritten by the last one
    simp only [saveStream, Function.update_idem, List.append_assoc, List.cons_append]
    rfl

/-- For the books a withdrawal is one operation. -/
theorem Withdrawal.update {host : Host} {ctx : Context} {w w' : World} {s : Stream}
    {streamId : Nat} {gross fee : Int} {warning : List Event}
    (h : Withdrawal host ctx w w' s streamId gross fee warning)
    (hguard : (StreamOp.withdraw gross).Guard ctx.now s)
    (hfee : withdrawalFee w.config.feeBps gross = .ok fee) :
    StreamUpdate host ctx w w' s (.withdraw gross)
      (withdrawalTransfers host.self s gross fee w.feeRecipient) where
  guard := hguard
  pays := ⟨fee, hfee, rfl⟩
  performed := h.performed
  streams := by rw [h.same]
  streamCount := by rw [h.same]
  feeBalance := by
    rw [h.same]
    simp only [StreamOp.feeBalance, hfee]
  transfers := by rw [h.same]
  sameSettings := by
    rw [h.same]
    rfl

/-- A withdrawal that returned found nothing to claim and wrote nothing, or it
settled the claimable amount and returned the employee's share of it. -/
theorem withdraw_cases {host : Host} {ctx : Context} {employee : Address}
    {streamId : Nat} {w w' : World} {amount : Int}
    (h : withdraw host ctx employee streamId w = .ok (amount, w')) :
    ∃ s, w.streams streamId = some s ∧ s.employee = employee ∧
      employee ∈ ctx.auth ∧
        ((claimableAmount s ctx.now = .ok 0 ∧ w' = w ∧ amount = 0) ∨
          ∃ gross fee warning, withdrawalFee w.config.feeBps gross = .ok fee ∧
            amount = max (saturatingSub gross fee) 0 ∧
            (StreamOp.withdraw gross).Guard ctx.now s ∧
            (∀ event ∈ warning, ∃ days,
              event = .nearExhaustion s.id s.employer days) ∧
            Withdrawal host ctx w w' s streamId gross fee warning) := by
  simp only [withdraw, bind_eq_ok_iff, requireAuth_eq_ok_iff, ensure_eq_ok_iff,
    requireEmployeeById_eq_ok_iff, decide_eq_true_eq] at h
  obtain ⟨_, hauth, _, _, s, ⟨hs, rfl⟩, _, hstatus, _, _, gross, hgross, h⟩ := h
  refine ⟨s, hs, rfl, hauth, ?_⟩
  split at h
  · -- nothing to claim: the call returns before its first write
    rename_i hzero
    cases h
    rw [hzero] at hgross
    exact Or.inl ⟨hgross, rfl, rfl⟩
  · rename_i hne
    simp only [bind_eq_ok_iff, ensure_eq_ok_iff, Bool.not_eq_true',
      expect_eq_ok_iff, checkedAdd_eq_some_iff, pure_eq_ok_iff,
      tokenTransfer_eq_ok_iff, Prod.mk.injEq] at h
    obtain ⟨_, hlocked, fee, hfee, _, ⟨_, rfl⟩, status, hnext, w₁, hpaid, _,
      ⟨balances, hsalary, rfl⟩, rfl, rfl⟩ := h
    -- a terminal stream has nothing to claim, so this one is active
    have hactive : s.status = .active := by
      rcases hstatus with hactive | hexhausted
      · exact hactive
      · exfalso
        apply hne
        have hzero := claimableAmount_of_isTerminal
          (s := s) (by rw [hexhausted]; rfl) ctx.now
        rw [hzero] at hgross
        cases hgross
        rfl
    obtain rfl := statusAfterWithdraw_ok hnext
    obtain ⟨warning, hwarning, hwarned⟩ := maybeWarnExhaustion_eq
      ((StreamOp.withdraw gross).next ctx.now s)
      ((saveStream { w₁ with
        balances := balances
        transfers := shareTransfer host.self s gross fee :: w₁.transfers }
        ((StreamOp.withdraw gross).next ctx.now s)).emit
          (.withdrawn streamId s.employee (max (saturatingSub gross fee) 0)))
    have hfeePaid : FeePaid host (saveStream w { s with locked := true }) w₁ s
        streamId fee := payWithdrawalFee_ok hpaid
    exact Or.inr ⟨gross, fee, warning, hfee, rfl, ⟨hactive, hlocked, hne, hgross⟩,
      hwarning, hfeePaid.withdrawal hsalary hwarned⟩

theorem withdraw_spec {host : Host} {ctx : Context} {employee : Address}
    {streamId : Nat} {w w' : World} {amount : Int}
    (h : withdraw host ctx employee streamId w = .ok (amount, w')) :
    OnStreamSpec host ctx w w' streamId (.withdraw employee) := by
  obtain ⟨s, hs, rfl, hauth, ⟨hzero, rfl, _⟩ | ⟨gross, fee, warning, hfee, _, hguard,
    hwarning, hdone⟩⟩ := withdraw_cases h
  · exact
      { effect := Or.inl ⟨rfl, rfl, rfl⟩
        emits := ⟨s, [], [], hs, .withdrewNothing hzero, rfl, rfl⟩
        records := rfl }
  · exact
      { effect := Or.inr ⟨s, _, _, hs, .withdraw gross hauth, hdone.update hguard hfee⟩
        emits := ⟨s, _, _, hs, .withdrew gross fee warning hguard.1 hwarning,
          by rw [hdone.same], by rw [hdone.same]⟩
        records := by
          rw [hdone.same]
          rfl }

/-! ## All calls on a stream -/

theorem execOnStream_spec {host : Host} {ctx : Context} {streamId : Nat}
    {call : StreamCall} {w w' : World} {value : Value}
    (h : execOnStream host ctx streamId call w = .ok (value, w')) :
    OnStreamSpec host ctx w w' streamId call := by
  cases call with
  | withdraw employee =>
      simp only [execOnStream, map_eq_ok_iff] at h
      obtain ⟨⟨amount, w₁⟩, hcall, heq⟩ := h
      cases heq
      exact withdraw_spec hcall
  | transferStream employee newEmployee =>
      exact transferStream_spec host ((unitResult_eq_ok_iff _ _ _).mp h).1
  | topUp caller amount =>
      exact topUp_spec ((unitResult_eq_ok_iff _ _ _).mp h).1
  | pauseStream caller =>
      exact pauseStream_spec host ((unitResult_eq_ok_iff _ _ _).mp h).1
  | resumeStream caller =>
      exact resumeStream_spec host ((unitResult_eq_ok_iff _ _ _).mp h).1
  | cancelStream employer =>
      exact cancelStream_spec ((unitResult_eq_ok_iff _ _ _).mp h).1
  | setDelegate employer delegate =>
      exact setDelegate_spec host ((unitResult_eq_ok_iff _ _ _).mp h).1
  | proposeEmployerTransfer employer newEmployer =>
      exact proposeEmployerTransfer_spec host
        ((unitResult_eq_ok_iff _ _ _).mp h).1
  | acceptEmployerTransfer newEmployer =>
      exact acceptEmployerTransfer_spec host
        ((unitResult_eq_ok_iff _ _ _).mp h).1
  | updateRate employer newRate =>
      exact updateRate_spec host ((unitResult_eq_ok_iff _ _ _).mp h).1
  | getStream =>
      simp only [execOnStream, map_eq_ok_iff] at h
      obtain ⟨⟨stream, w₁⟩, hcall, heq⟩ := h
      cases heq
      exact getStream_spec host hcall
  | reclaimExpired employer =>
      exact reclaimExpired_spec ((unitResult_eq_ok_iff _ _ _).mp h).1

end Semantics
end Paystream
