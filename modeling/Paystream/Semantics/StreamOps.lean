import Paystream.Semantics.AdminOps

/-!
# The abstract stream automaton

A run of the contract touches many streams through a dozen entry points.  Seen
from one stream it is much simpler: the stream is created, and from then on each
call that writes it is one of eleven operations.  `StreamOp` lists them,
`StreamOp.Guard` says when an operation may happen, and `StreamOp.next` what it
leaves.

An operation moves tokens too.  `StreamOp.Pays` fixes the transfers that go with
it, and `Issues` the call that asks for it and whose signature it needs.
`OnStreamEmits` lists what a call on a stream publishes, and `recordsNext` what a
call leaves of the maps beside the streams.
The module `Refinement` shows that the entry points do nothing else.
-/

namespace Paystream
namespace Semantics

open Library
open Contract
open Contract.Storage
open Contract.StreamContract

/-- What a call does to the stream it names. -/
inductive StreamOp
  | withdraw (gross : Int)
  | topUp (amount : Int)
  | pause
  | resume
  | cancel (owed : Int)
  | reclaim (owed : Int)
  | updateRate (newRate accrued : Int)
  /-- the status write inside `get_stream` -/
  | markExhausted
  | changeEmployee (newEmployee : Address)
  | changeDelegate (delegate : Option Address)
  | changeEmployer (newEmployer : Address)

/-- The condition under which `get_stream` marks a stream exhausted. -/
def FullyStreamed (now : Nat) (s : Stream) : Prop :=
  ∃ claimable, claimableAmount s now = .ok claimable ∧
    ((claimable = 0 ∧ s.deposit ≤ s.withdrawn) ∨
      ∃ earned, claimableAmount s s.stopTime = .ok earned ∧
        s.deposit ≤ (checkedAdd s.withdrawn earned).getD s.deposit)

/-- When an operation may happen, at ledger time `now`. -/
def StreamOp.Guard (now : Nat) (s : Stream) : StreamOp → Prop
  | .withdraw gross =>
      s.status = .active ∧ s.locked = false ∧ gross ≠ 0 ∧
        claimableAmount s now = .ok gross
  | .topUp amount =>
      0 < amount ∧ isTerminal s.status = false ∧ s.deposit + amount ≤ i128Max
  | .pause => s.status = .active
  | .resume => s.status = .paused
  | .cancel owed =>
      (s.status = .active ∨ s.status = .paused) ∧
        claimableAmount s now = .ok owed
  | .reclaim owed =>
      (s.status = .active ∨ s.status = .paused) ∧
        (0 < s.stopTime ∧ s.stopTime ≤ now) ∧ claimableAmount s now = .ok owed
  | .updateRate newRate accrued =>
      s.status = .active ∧ 0 < newRate ∧ newRate ≤ maxRatePerSecond ∧
        claimableAmount s now = .ok accrued
  | .markExhausted =>
      s.status = .active ∧ (0 < s.stopTime ∧ s.stopTime ≤ now) ∧
        FullyStreamed now s
  | .changeEmployee _ => s.status = .active ∨ s.status = .paused
  | .changeDelegate _ => True
  | .changeEmployer _ => True

/-- Only two operations are open to a terminal stream: naming a delegate and
changing the employer. -/
theorem StreamOp.Guard.live_or {now : Nat} {s : Stream} {op : StreamOp}
    (h : op.Guard now s) :
    isTerminal s.status = false ∨ (∃ delegate, op = .changeDelegate delegate) ∨
      ∃ newEmployer, op = .changeEmployer newEmployer := by
  cases op with
  | withdraw gross => exact Or.inl ((isTerminal_eq_false_iff _).mpr (Or.inl h.1))
  | topUp amount => exact Or.inl h.2.1
  | pause => exact Or.inl ((isTerminal_eq_false_iff _).mpr (Or.inl h))
  | resume => exact Or.inl ((isTerminal_eq_false_iff _).mpr (Or.inr h))
  | cancel owed => exact Or.inl ((isTerminal_eq_false_iff _).mpr h.1)
  | reclaim owed => exact Or.inl ((isTerminal_eq_false_iff _).mpr h.1)
  | updateRate newRate accrued =>
      exact Or.inl ((isTerminal_eq_false_iff _).mpr (Or.inl h.1))
  | markExhausted => exact Or.inl ((isTerminal_eq_false_iff _).mpr (Or.inl h.1))
  | changeEmployee newEmployee => exact Or.inl ((isTerminal_eq_false_iff _).mpr h)
  | changeDelegate delegate => exact Or.inr (Or.inl ⟨delegate, rfl⟩)
  | changeEmployer newEmployer => exact Or.inr (Or.inr ⟨newEmployer, rfl⟩)

/-- The stream an operation leaves. -/
def StreamOp.next (now : Nat) (s : Stream) : StreamOp → Stream
  | .withdraw gross =>
      { s with
        withdrawn := s.withdrawn + gross
        lastWithdrawTime := now
        status := if s.deposit ≤ s.withdrawn + gross then .exhausted else s.status
        locked := false }
  | .topUp amount => { s with deposit := s.deposit + amount }
  | .pause => { s with pausedAt := now, status := .paused }
  | .resume =>
      { s with
        lastWithdrawTime := saturatingAddU64 s.lastWithdrawTime (now - s.pausedAt)
        pausedAt := 0
        status := .active }
  | .cancel owed =>
      { s with withdrawn := s.withdrawn + owed, status := .cancelled }
  | .reclaim owed =>
      { s with withdrawn := s.withdrawn + owed, status := .exhausted }
  | .updateRate newRate accrued =>
      { s with
        withdrawn := s.withdrawn + accrued
        lastWithdrawTime := now
        ratePerSecond := newRate }
  | .markExhausted => { s with status := .exhausted }
  | .changeEmployee newEmployee => { s with employee := newEmployee }
  | .changeDelegate delegate => { s with delegate := delegate }
  | .changeEmployer newEmployer => { s with employer := newEmployer }

/-! ## Tokens moved by an operation -/

/-- The transfer of a protocol fee: only a positive fee is sent, and only when
a recipient is set. -/
def feeTransfers (self : Address) (s : Stream) (fee : Int)
    (recipient : Option Address) : List TokenTransfer :=
  match recipient with
  | some recipient =>
      if 0 < fee then [⟨.withdrawalFee s.id, s.token, self, recipient, fee⟩]
      else []
  | none => []

/-- The fee ledger after a withdrawal with this fee: a fee that is sent is
added to the ledger as well. -/
def feeLedgerAfter (w : World) (token : Address) (fee : Int) : Address → Int :=
  match w.feeRecipient with
  | some _ =>
      if 0 < fee then (addFeeBalance w token fee).feeBalance else w.feeBalance
  | none => w.feeBalance

/-- The employee's share of a withdrawal; a share of zero is sent too. -/
def shareTransfer (self : Address) (s : Stream) (gross fee : Int) :
    TokenTransfer :=
  ⟨.salary s.id, s.token, self, s.employee, max (saturatingSub gross fee) 0⟩

/-- The transfers of a withdrawal, newest first. -/
def withdrawalTransfers (self : Address) (s : Stream) (gross fee : Int)
    (recipient : Option Address) : List TokenTransfer :=
  shareTransfer self s gross fee :: feeTransfers self s fee recipient

/-- The transfers of a settlement, newest first: the refund to the employer,
and before it what is owed to the employee; zero amounts are not sent. -/
def settlementTransfers (self : Address) (s : Stream) (owed : Int) :
    List TokenTransfer :=
  let refund := refundOf { s with withdrawn := s.withdrawn + owed }
  (if 0 < refund then [⟨.refund s.id, s.token, self, s.employer, refund⟩] else []) ++
    (if 0 < owed then [⟨.salary s.id, s.token, self, s.employee, owed⟩] else [])

/-- The transfers that go with an operation. -/
def StreamOp.Pays (host : Host) (ctx : Context) (w : World) (s : Stream)
    (log : List TokenTransfer) : StreamOp → Prop
  | .withdraw gross =>
      ∃ fee, withdrawalFee w.config.feeBps gross = .ok fee ∧
        log = withdrawalTransfers host.self s gross fee w.feeRecipient
  | .topUp amount =>
      ∃ caller, caller ∈ ctx.auth ∧
        log = [⟨.topUp s.id, s.token, caller, host.self, amount⟩]
  | .cancel owed => log = settlementTransfers host.self s owed
  | .reclaim owed => log = settlementTransfers host.self s owed
  | _ => log = []

/-- The fee ledger after an operation: only a withdrawal touches it. -/
def StreamOp.feeBalance (w : World) (s : Stream) : StreamOp → Address → Int
  | .withdraw gross =>
      match withdrawalFee w.config.feeBps gross with
      | .ok fee => feeLedgerAfter w s.token fee
      | .error _ => w.feeBalance
  | _ => w.feeBalance

/-! ## Who asks for an operation -/

/-- The employer, or the delegate the employer set. -/
def Manages (caller : Address) (s : Stream) : Prop :=
  caller = s.employer ∨ s.delegate = some caller

/-- The call on stream `streamId` that asks for the operation, with the role
and the signature it needs. -/
inductive Issues (ctx : Context) (w : World) (streamId : Nat) (s : Stream) :
    StreamCall → StreamOp → Prop
  | withdraw (gross : Int) (hauth : s.employee ∈ ctx.auth) :
      Issues ctx w streamId s (.withdraw s.employee) (.withdraw gross)
  | topUp (caller : Address) (amount : Int) (hauth : caller ∈ ctx.auth)
      (hrole : Manages caller s) :
      Issues ctx w streamId s (.topUp caller amount) (.topUp amount)
  | pause (caller : Address) (hauth : caller ∈ ctx.auth)
      (hrole : Manages caller s) :
      Issues ctx w streamId s (.pauseStream caller) .pause
  | resume (caller : Address) (hauth : caller ∈ ctx.auth)
      (hrole : Manages caller s) :
      Issues ctx w streamId s (.resumeStream caller) .resume
  | cancel (owed : Int) (hauth : s.employer ∈ ctx.auth) :
      Issues ctx w streamId s (.cancelStream s.employer) (.cancel owed)
  | reclaim (owed : Int) (hauth : s.employer ∈ ctx.auth) :
      Issues ctx w streamId s (.reclaimExpired s.employer) (.reclaim owed)
  | updateRate (newRate accrued : Int) (hauth : s.employer ∈ ctx.auth) :
      Issues ctx w streamId s (.updateRate s.employer newRate)
        (.updateRate newRate accrued)
  | markExhausted : Issues ctx w streamId s .getStream .markExhausted
  | changeEmployee (newEmployee : Address) (hauth : s.employee ∈ ctx.auth) :
      Issues ctx w streamId s (.transferStream s.employee newEmployee)
        (.changeEmployee newEmployee)
  | changeDelegate (delegate : Option Address) (hauth : s.employer ∈ ctx.auth) :
      Issues ctx w streamId s (.setDelegate s.employer delegate)
        (.changeDelegate delegate)
  | changeEmployer (newEmployer : Address) (hauth : newEmployer ∈ ctx.auth)
      (hpending : w.pendingEmployer streamId = some newEmployer) :
      Issues ctx w streamId s (.acceptEmployerTransfer newEmployer)
        (.changeEmployer newEmployer)

/-- The calls on a stream that may return without an operation: a withdrawal
of nothing, a look at a stream, and the proposal of a new employer, which is
kept beside the stream. -/
def StreamCall.mayIdle : StreamCall → Bool
  | .withdraw _ => true
  | .getStream => true
  | .proposeEmployerTransfer _ _ => true
  | _ => false

/-! ## What a call publishes -/

/-- The event that goes with a fee on a withdrawal. -/
def feeEvents (id : Nat) (fee : Int) (recipient : Option Address) : List Event :=
  match recipient with
  | some recipient =>
      if 0 < fee then [.protocolFeeCollected id fee recipient] else []
  | none => []

/-- The events and the transfers of a call on stream `id` that returned, where
the stored record is `s`. -/
inductive OnStreamEmits (self : Address) (now : Nat) (w : World) (id : Nat)
    (s : Stream) : StreamCall → List Event → List TokenTransfer → Prop
  | looked : OnStreamEmits self now w id s .getStream [] []
  | withdrewNothing (hzero : claimableAmount s now = .ok 0) :
      OnStreamEmits self now w id s (.withdraw s.employee) [] []
  | withdrew (gross fee : Int) (warning : List Event)
      (hactive : s.status = .active)
      (hwarning : ∀ event ∈ warning, ∃ days,
        event = .nearExhaustion s.id s.employer days) :
      OnStreamEmits self now w id s (.withdraw s.employee)
        (warning ++ .withdrawn id s.employee
          (max (saturatingSub gross fee) 0) :: feeEvents id fee w.feeRecipient)
        (withdrawalTransfers self s gross fee w.feeRecipient)
  | employeeChanged (newEmployee : Address) :
      OnStreamEmits self now w id s (.transferStream s.employee newEmployee)
        [.streamTransferred id s.employee newEmployee] []
  | toppedUp (caller : Address) (amount : Int) :
      OnStreamEmits self now w id s (.topUp caller amount)
        [.toppedUp id s.employer amount]
        [⟨.topUp s.id, s.token, caller, self, amount⟩]
  | paused (caller : Address) (hactive : s.status = .active) :
      OnStreamEmits self now w id s (.pauseStream caller)
        [.streamPaused id s.employer s.employee now] []
  | resumed (caller : Address) (hpaused : s.status = .paused) :
      OnStreamEmits self now w id s (.resumeStream caller)
        [.streamResumed id s.employer s.employee now] []
  | settled (call : StreamCall) (owed : Int) (howed : 0 ≤ owed)
      (hcall : call = .cancelStream s.employer ∨
        call = .reclaimExpired s.employer)
      (hlive : isTerminal s.status = false) :
      OnStreamEmits self now w id s call
        [.streamCancelled id s.employer s.employee
          (refundOf { s with withdrawn := s.withdrawn + owed }) owed]
        (settlementTransfers self s owed)
  | delegateSet (delegate : Option Address) :
      OnStreamEmits self now w id s (.setDelegate s.employer delegate)
        [.delegateSet id delegate] []
  | employerProposed (newEmployer : Address) :
      OnStreamEmits self now w id s
        (.proposeEmployerTransfer s.employer newEmployer)
        [.employerTransferProposed id s.employer newEmployer] []
  | employerChanged (newEmployer : Address)
      (hpending : w.pendingEmployer id = some newEmployer) :
      OnStreamEmits self now w id s (.acceptEmployerTransfer newEmployer)
        [.employerTransferAccepted id s.employer newEmployer] []
  | rateChanged (newRate : Int) :
      OnStreamEmits self now w id s (.updateRate s.employer newRate)
        [.rateChanged id s.ratePerSecond newRate] []

/-- The records a call other than a creation leaves at ledger time `now`. -/
def recordsNext (now : Nat) (w : World) : Call → Records
  | .onStream streamId (.pauseStream _) =>
      records (addPauseEvent w streamId now true)
  | .onStream streamId (.resumeStream _) =>
      records (addPauseEvent w streamId now false)
  | .onStream streamId (.proposeEmployerTransfer _ newEmployer) =>
      records (setPendingEmployer w streamId newEmployer)
  | .onStream streamId (.acceptEmployerTransfer _) =>
      records (clearPendingEmployer w streamId)
  | _ => records w

/-! ## Creation -/

/-- A stream as it is born at ledger time `now`. -/
structure FreshStream (now : Nat) (s : Stream) : Prop where
  withdrawn : s.withdrawn = 0
  deposit_le : s.deposit ≤ i128Max
  rate_pos : 0 < s.ratePerSecond
  rate_le : s.ratePerSecond ≤ maxRatePerSecond
  startTime : s.startTime = now
  lastWithdrawTime : s.lastWithdrawTime = now
  stop_after : 0 < s.stopTime → now < s.stopTime
  cliff_le_stop : 0 < s.cliffTime → 0 < s.stopTime → s.cliffTime ≤ s.stopTime
  status : s.status = .active
  unlocked : s.locked = false
  pausedAt : s.pausedAt = 0

/-- The transfers of a creation, newest first: possibly the fee to the
recipient, and before it the net deposit to the contract. -/
inductive CreationTransfers (self : Address) (s : Stream) :
    List TokenTransfer → Prop
  | depositOnly :
      CreationTransfers self s
        [⟨.deposit s.id, s.token, s.employer, self, s.deposit⟩]
  | withFee (recipient : Address) (fee : Int) :
      CreationTransfers self s
        [⟨.creationFee s.id, s.token, s.employer, recipient, fee⟩,
          ⟨.deposit s.id, s.token, s.employer, self, s.deposit⟩]

end Semantics
end Paystream
