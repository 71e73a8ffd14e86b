import Paystream.Contract.Exec

/-!
# Withdrawals that the token interrupts

`exec` carries out a withdrawal in one piece.  Here it is cut at its transfers, the
places where control leaves the contract, so that the token can call back.  A
`Frame` is a withdrawal under way, with the copy of the stream it is going to write
back, and a `Config` is a world with a stack of frames.

At every moment one of three things happens:

* `call`: an entry point is invoked, by anybody while the stack is empty and by
  the token of the top frame otherwise, with whatever authorisations.  A callback
  runs at the ledger time of the withdrawal it interrupts;
* `proceed`: the token of the top frame moves the balances, or returns to the
  contract;
* `refuse`: the token of the top frame fails the transfer.

A call that panics has no effect: the token catches it, or refuses in turn.  A
withdrawal whose transfer fails panics, and the world it started from is restored.

Without callbacks the machine does what `step` does (`uninterrupted_eq_step`).
-/

namespace Paystream
namespace Contract

open Library
open Storage
open StreamContract

/-! ## Frames -/

/-- How far a withdrawal has come.  In each phase it is the token's turn. -/
inductive Phase
  /-- inside the fee transfer, before the balances move -/
  | feeDue (recipient : Address)
  /-- inside the fee transfer, after the balances moved -/
  | feeMoved (recipient : Address)
  /-- inside the transfer to the employee, before the balances move -/
  | salaryDue
  /-- inside the transfer to the employee, after the balances moved -/
  | salaryMoved

/-- A withdrawal under way. -/
structure Frame where
  /-- the world the call started from; a panic restores it -/
  saved : World
  now : Nat
  now_le : now ≤ u64Max
  employee : Address
  streamId : Nat
  /-- the local copy, with the withdrawal booked but the old status -/
  stream : Stream
  status : StreamStatus
  fee : Int
  netAmount : Int
  phase : Phase

/-- A positive fee with a recipient is sent first. -/
def firstPhase (fee : Int) (feeRecipient : Option Address) : Phase :=
  if 0 < fee then
    match feeRecipient with
    | some recipient => .feeDue recipient
    | none => .salaryDue
  else
    .salaryDue

/-- `withdraw` up to its first transfer.  There is no frame when nothing is
claimable: the call has returned already. -/
def beginWithdraw (ctx : Context) (hnow : ctx.now ≤ u64Max) (employee : Address)
    (streamId : Nat) (w : World) : Except String (Option Frame × World) := do
  requireAuth ctx employee
  ensure (!w.config.paused) "contract is paused"
  let stream ← requireEmployeeById w employee streamId
  ensure (decide (stream.status = .active ∨ stream.status = .exhausted))
    "stream not active"
  ensure (decide (stream.status = .active ∧ 0 < stream.cooldownPeriod →
    saturatingAddU64 stream.lastWithdrawTime stream.cooldownPeriod ≤ ctx.now))
    errWithdrawCooldown
  let gross ← claimableAmount stream ctx.now
  if gross = 0 then
    return (none, w)
  else
    ensure (!stream.locked) errReentrant
    let saved := w
    let w := saveStream w { stream with locked := true }
    let fee ← withdrawalFee w.config.feeBps gross
    let netAmount := max (saturatingSub gross fee) 0
    let withdrawn ← expect (checkedAdd stream.withdrawn gross)
      "withdrawn overflow"
    let stream := { stream with withdrawn, lastWithdrawTime := ctx.now }
    let status ← statusAfterWithdraw stream
    let frame : Frame :=
      { saved, now := ctx.now, now_le := hnow, employee, streamId, stream, status,
        fee, netAmount, phase := firstPhase fee w.feeRecipient }
    return (some frame, w)

/-- A withdrawal has begun: what its frame holds, and what is stored. -/
structure Begun (ctx : Context) (w w' : World) (streamId : Nat) (s : Stream)
    (gross : Int) (frame : Frame) : Prop where
  stored : w.streams streamId = some s
  unlocked : s.locked = false
  gross_ne : gross ≠ 0
  claimable : claimableAmount s ctx.now = .ok gross
  fee : withdrawalFee w.config.feeBps gross = .ok frame.fee
  world : w' = saveStream w { s with locked := true }
  saved : frame.saved = w
  streamId_eq : frame.streamId = streamId
  stream : frame.stream =
    { s with withdrawn := s.withdrawn + gross, lastWithdrawTime := ctx.now }
  netAmount : frame.netAmount = max (saturatingSub gross frame.fee) 0
  phase : frame.phase = firstPhase frame.fee w.feeRecipient

theorem beginWithdraw_ok {ctx : Context} {hnow : ctx.now ≤ u64Max}
    {employee : Address} {streamId : Nat} {w w' : World} {frame : Option Frame}
    (h : beginWithdraw ctx hnow employee streamId w = .ok (frame, w')) :
    (frame = none ∧ w' = w) ∨
      ∃ s gross begun, frame = some begun ∧
        Begun ctx w w' streamId s gross begun := by
  simp only [beginWithdraw, bind_eq_ok_iff, requireAuth_eq_ok_iff,
    ensure_eq_ok_iff, requireEmployeeById_eq_ok_iff, decide_eq_true_eq] at h
  obtain ⟨_, _, _, _, s, ⟨hs, _⟩, _, _, _, _, gross, hgross, h⟩ := h
  split at h
  · cases h
    exact Or.inl ⟨rfl, rfl⟩
  · rename_i hne
    simp only [bind_eq_ok_iff, ensure_eq_ok_iff, Bool.not_eq_true',
      expect_eq_ok_iff, checkedAdd_eq_some_iff, pure_eq_ok_iff,
      Prod.mk.injEq] at h
    obtain ⟨_, hlocked, fee, hfee, _, ⟨_, rfl⟩, status, _, rfl, rfl⟩ := h
    exact Or.inr ⟨s, gross, _, rfl, hs, hlocked, hne, hgross, hfee, rfl, rfl, rfl,
      rfl, rfl, rfl⟩

def Frame.feeTransfer (self : Address) (frame : Frame) (recipient : Address) :
    TokenTransfer :=
  ⟨.withdrawalFee frame.stream.id, frame.stream.token, self, recipient, frame.fee⟩

def Frame.salaryTransfer (self : Address) (frame : Frame) : TokenTransfer :=
  ⟨.salary frame.stream.id, frame.stream.token, self, frame.employee,
    frame.netAmount⟩

/-- What `withdraw` does once the fee transfer has returned. -/
def Frame.bookFee (frame : Frame) (recipient : Address) (w : World) : World :=
  (addFeeBalance w frame.stream.token frame.fee).emit
    (.protocolFeeCollected frame.streamId frame.fee recipient)

/-- What `withdraw` does once the transfer to the employee has returned: the
copy is written back, unlocked. -/
def Frame.close (frame : Frame) (w : World) : World :=
  let stream := { frame.stream with status := frame.status, locked := false }
  maybeWarnExhaustion stream ((saveStream w stream).emit
    (.withdrawn frame.streamId frame.employee frame.netAmount))

/-- The token's next move in a frame, up to where it is its turn again. -/
def Frame.proceed (host : Host) (frame : Frame) (w : World) :
    Except String (Option Frame × World) :=
  match frame.phase with
  | .feeDue recipient =>
      (tokenTransfer host (frame.feeTransfer host.self recipient) w).map fun w =>
        (some { frame with phase := .feeMoved recipient }, w)
  | .feeMoved recipient =>
      .ok (some { frame with phase := .salaryDue }, frame.bookFee recipient w)
  | .salaryDue =>
      (tokenTransfer host (frame.salaryTransfer host.self) w).map fun w =>
        (some { frame with phase := .salaryMoved }, w)
  | .salaryMoved => .ok (none, frame.close w)

/-! ## The machine -/

/-- A world, and the withdrawals under way in it, innermost first. -/
structure Config where
  world : World
  stack : List Frame

inductive Action
  | call (inv : Invocation)
  | proceed (now : Nat)
  | refuse (now : Nat)

def Action.time : Action → Nat
  | .call inv => inv.now
  | .proceed now => now
  | .refuse now => now

/-- The invocation as it is carried out: ledger time stands still while a
withdrawal is under way. -/
def Config.atClock (c : Config) (inv : Invocation) : Invocation :=
  match c.stack with
  | [] => inv
  | frame :: _ => { inv with now := frame.now, now_le := frame.now_le }

@[simp] theorem Config.atClock_call (c : Config) (inv : Invocation) :
    (c.atClock inv).call = inv.call := by
  unfold Config.atClock
  split
  · rfl
  · rfl

/-- The configuration after a piece of a withdrawal: the frame it left, if there
is one, above the others, or the reverted world. -/
def Config.after (rest : List Frame) (reverted : World)
    (result : Except String (Option Frame × World)) : Config :=
  match result with
  | .ok (frame, w) => ⟨w, frame.toList ++ rest⟩
  | .error _ => ⟨reverted, rest⟩

/-- An entry point is invoked. -/
def Config.invoke (host : Host) (c : Config) (inv : Invocation) : Config :=
  match inv.call with
  | .onStream streamId (.withdraw employee) =>
      .after c.stack c.world
        (beginWithdraw inv.toContext inv.now_le employee streamId c.world)
  | _ => { c with world := Contract.step host c.world inv }

/-- One action. -/
def Config.step (host : Host) (c : Config) : Action → Config
  | .call inv => c.invoke host (c.atClock inv)
  | .proceed _ =>
      match c.stack with
      | [] => c
      | frame :: rest => .after rest frame.saved (frame.proceed host c.world)
  | .refuse _ =>
      match c.stack with
      | [] => c
      | frame :: rest => ⟨frame.saved, rest⟩

/-- The contract with tokens that call back, from deployment on. -/
def machine (host : Host) : System Config Action where
  initial c := (system host).initial c.world ∧ c.stack = []
  time := Action.time
  step := Config.step host

/-- The entries of a run of the machine, newest first. -/
abbrev Trace := List (Entry Config Action)

/-- The run of the machine with this trace ends in this configuration. -/
abbrev MachineReaches (host : Host) (trace : Trace) (c : Config) : Prop :=
  (machine host).Run trace c

/-! ## Without callbacks -/

/-- The rest of `withdraw`, from its first transfer on. -/
def Frame.finish (host : Host) (frame : Frame) (w : World) :
    Except String (Int × World) := do
  let w ← payWithdrawalFee host frame.stream frame.streamId frame.fee w
  let w ← tokenTransfer host (frame.salaryTransfer host.self) w
  return (frame.netAmount, frame.close w)

/-- What is left of `withdraw` after its first half. -/
def completeWithdraw (host : Host) :
    Option Frame × World → Except String (Int × World)
  | (none, w) => .ok (0, w)
  | (some frame, w) => frame.finish host w

/-- The two halves of `withdraw`. -/
theorem withdraw_eq_begin_complete (host : Host) (ctx : Context)
    (hnow : ctx.now ≤ u64Max) (employee : Address) (streamId : Nat) (w : World) :
    withdraw host ctx employee streamId w =
      beginWithdraw ctx hnow employee streamId w >>= completeWithdraw host := by
  unfold withdraw beginWithdraw
  simp only [bind_assoc]
  refine bind_congr fun _ => ?_
  refine bind_congr fun _ => ?_
  refine bind_congr fun stream => ?_
  refine bind_congr fun _ => ?_
  refine bind_congr fun _ => ?_
  refine bind_congr fun gross => ?_
  by_cases hzero : gross = 0
  · rw [if_pos hzero, if_pos hzero]
    rfl
  · rw [if_neg hzero, if_neg hzero]
    simp only [bind_assoc]
    refine bind_congr fun _ => ?_
    refine bind_congr fun fee => ?_
    refine bind_congr fun withdrawn => ?_
    refine bind_congr fun status => ?_
    rfl

/-- The world a computation leaves: its own, or the reverted one. -/
def outcome {α : Type} (reverted : World) : Except String (α × World) → World
  | .ok (_, w) => w
  | .error _ => reverted

theorem step_eq_outcome (host : Host) (w : World) (inv : Invocation) :
    Contract.step host w inv =
      outcome w (exec host inv.toContext inv.call w) := by
  unfold Contract.step outcome
  cases exec host inv.toContext inv.call w with
  | error message => rfl
  | ok result => rfl

section Uninterrupted

variable (host : Host) (now : Nat)

/-- The token of the top frame moves on, without a callback. -/
def Config.resume (c : Config) : Config := c.step host (.proceed now)

theorem resume_of_empty (w : World) :
    Config.resume host now ⟨w, []⟩ = ⟨w, []⟩ := rfl

theorem resume_frame (frame : Frame) (w : World) :
    Config.resume host now ⟨w, [frame]⟩ =
      .after [] frame.saved (frame.proceed host w) := rfl

/-- The second transfer and the closing write. -/
theorem resume_salary {frame : Frame} (hphase : frame.phase = .salaryDue)
    (w : World) :
    Config.resume host now (Config.resume host now ⟨w, [frame]⟩) =
      ⟨outcome frame.saved (do
        let w ← tokenTransfer host (frame.salaryTransfer host.self) w
        return (frame.netAmount, frame.close w)), []⟩ := by
  rw [resume_frame]
  unfold Frame.proceed
  rw [hphase]
  cases tokenTransfer host (frame.salaryTransfer host.self) w with
  | error message => rfl
  | ok w₁ => rfl

/-- Without callbacks a frame ends where `withdraw` ends. -/
theorem resume_frame_to_end {frame : Frame} {w : World}
    (hphase : frame.phase = firstPhase frame.fee w.feeRecipient) :
    (Config.resume host now)^[4] ⟨w, [frame]⟩ =
      ⟨outcome frame.saved (frame.finish host w), []⟩ := by
  show Config.resume host now (Config.resume host now (Config.resume host now
    (Config.resume host now ⟨w, [frame]⟩))) = _
  unfold Frame.finish payWithdrawalFee
  unfold firstPhase at hphase
  by_cases hpos : 0 < frame.fee
  · rw [if_pos hpos]
    rw [if_pos hpos] at hphase
    cases hrecipient : w.feeRecipient with
    | none =>
        rw [hrecipient] at hphase
        rw [resume_salary host now hphase]
        rfl
    | some recipient =>
        rw [hrecipient] at hphase
        rw [resume_frame]
        unfold Frame.proceed
        simp only [hphase]
        show Config.resume host now (Config.resume host now (Config.resume host now
          (.after [] frame.saved ((tokenTransfer host
            (frame.feeTransfer host.self recipient) w).map _)))) = _
        unfold Frame.feeTransfer
        cases tokenTransfer host ⟨.withdrawalFee frame.stream.id,
            frame.stream.token, host.self, recipient, frame.fee⟩ w with
        | error message => rfl
        | ok w₁ => exact resume_salary host now rfl _
  · rw [if_neg hpos]
    rw [if_neg hpos] at hphase
    rw [resume_salary host now hphase]
    rfl

theorem resume_withdraw (w : World) (ctx : Context) (hnow : ctx.now ≤ u64Max)
    (employee : Address) (streamId : Nat) :
    (Config.resume host now)^[4]
        (.after [] w (beginWithdraw ctx hnow employee streamId w)) =
      ⟨outcome w (withdraw host ctx employee streamId w), []⟩ := by
  rw [withdraw_eq_begin_complete host ctx hnow]
  cases hbegin : beginWithdraw ctx hnow employee streamId w with
  | error message => rfl
  | ok result =>
      obtain ⟨frame, w₁⟩ := result
      rcases beginWithdraw_ok hbegin with ⟨rfl, rfl⟩ | ⟨s, gross, begun, rfl, h⟩
      · rfl
      · -- the lock is the only thing written so far
        have hphase : begun.phase = firstPhase begun.fee w₁.feeRecipient := by
          rw [h.phase, h.world]
          rfl
        have hend := resume_frame_to_end host now hphase
        rw [h.saved] at hend
        exact hend

/-- A call no token interrupts does what `step` does. -/
theorem uninterrupted_eq_step (w : World) (inv : Invocation) :
    (Config.resume host now)^[4] (Config.step host ⟨w, []⟩ (.call inv)) =
      ⟨Contract.step host w inv, []⟩ := by
  have hidle : ∀ w', (Config.resume host now)^[4] ⟨w', []⟩ = ⟨w', []⟩ := by
    intro w'
    exact Function.iterate_fixed (resume_of_empty host now w') 4
  show (Config.resume host now)^[4] (Config.invoke host ⟨w, []⟩ inv) = _
  unfold Config.invoke
  split
  · rename_i streamId employee hcall
    rw [resume_withdraw, step_eq_outcome, hcall]
    show _ = (⟨outcome w ((withdraw host inv.toContext employee streamId w).map _),
      []⟩ : Config)
    cases withdraw host inv.toContext employee streamId w with
    | error message => rfl
    | ok result => rfl
  · exact hidle _

end Uninterrupted

namespace Sample

/-- The run of a list of actions from the deployment on. -/
def playMachine (actions : List Action) : Trace × Config :=
  (machine host).replay [] ⟨start, []⟩ actions

theorem playMachine_reaches (actions : List Action)
    (horder : (machine host).InOrder 0 actions = true) :
    MachineReaches host (playMachine actions).1 (playMachine actions).2 :=
  ⟨⟨start, []⟩, ⟨start_initial, rfl⟩, System.Path.stay.replay horder⟩

end Sample

end Contract
end Paystream
