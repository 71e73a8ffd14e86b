import Paystream.Contract.Reentrancy
import Paystream.Properties.Settlement

/-!
# Withdrawals under re-entrancy

While a withdrawal is under way, the stored stream is locked and half a step
behind: the amount is not booked yet, and the copy in the frame is written over
whatever a callback stores.  Only `withdraw` looks at the lock.  A callback that
changes who is paid, the rate or the status is overwritten, which does no harm to
the books; one that moves funds of the stream (`movesFunds`) is paid for and then
forgotten.

`Guarded` excludes these, and fees above the amount withdrawn.  In a run of
guarded calls, callbacks included, the deposit is what was received for the
stream and no more than that is paid out (`reentrant_books_kept`).
-/

namespace Paystream
namespace Properties

open Library
open Contract
open Contract.Storage
open Contract.StreamContract
open Semantics

/-! ## The condition -/

/-- The calls that move funds of the stream they name, withdrawals apart. -/
def movesFunds : StreamCall → Bool
  | .topUp _ _ => true
  | .cancelStream _ => true
  | .reclaimExpired _ => true
  | _ => false

/-- The condition on a call: it moves funds of the stream `id` only while that is
not locked, and a withdrawal from it that begins has no fee recipient, or a fee
within the claimable amount. -/
structure Guarded (host : Host) (id : Nat) (w : World) (inv : Invocation) :
    Prop where
  unlocked : ∀ call s value w', inv.call = .onStream id call →
    movesFunds call = true → w.streams id = some s →
      Succeeds host w inv value w' → s.locked = false
  fee_le : ∀ employee s gross frame w',
    inv.call = .onStream id (.withdraw employee) → w.streams id = some s →
      beginWithdraw inv.toContext inv.now_le employee id w = .ok (some frame, w') →
      claimableAmount s inv.now = .ok gross → w.feeRecipient.isSome = true →
        gross * w.config.feeBps < 10000 * (gross + 1)

/-- The condition on an action: what the token does on its own is not
restricted. -/
def GuardedAction (host : Host) (id : Nat) (c : Config) : Action → Prop
  | .call inv => Guarded host id c.world (c.atClock inv)
  | .proceed _ => True
  | .refuse _ => True

/-! ## Operations on an unlocked stream -/

theorem next_withdrawn_le {now : Nat} {s : Stream} {op : StreamOp}
    (hle : s.withdrawn ≤ s.deposit) (hguard : op.Guard now s) :
    (op.next now s).withdrawn ≤ (op.next now s).deposit := by
  cases op with
  | withdraw gross => exact withdrawn_add_claimable_le hle hguard.2.2.2
  | topUp amount =>
      have hpos := hguard.1
      show s.withdrawn ≤ s.deposit + amount
      omega
  | cancel owed => exact withdrawn_add_claimable_le hle hguard.2
  | reclaim owed => exact withdrawn_add_claimable_le hle hguard.2.2
  | updateRate newRate accrued =>
      exact withdrawn_add_claimable_le hle hguard.2.2.2
  | _ => exact hle

theorem next_unlocked {now : Nat} {s : Stream} (op : StreamOp)
    (h : s.locked = false) : (op.next now s).locked = false := by
  cases op with
  | withdraw gross => rfl
  | _ => exact h

/-! ## A stream at rest -/

/-- The books of a stream no withdrawal is working on. -/
structure AtRest (id : Nat) (w : World) (s : Stream) : Prop where
  unlocked : s.locked = false
  receipts : received id w = s.deposit
  withdrawn_le : s.withdrawn ≤ s.deposit
  payments : paidOut id w ≤ settledAmount s

theorem AtRest.congr {id : Nat} {w w' : World} {s : Stream} (h : AtRest id w s)
    (hlog : logOf id w'.transfers = logOf id w.transfers) : AtRest id w' s :=
  { h with
    receipts := (received_congr hlog).trans h.receipts
    payments := (paidOut_congr hlog).le.trans h.payments }

theorem AtRest.next {host : Host} {ctx : Context} {w w' : World} {s : Stream}
    {op : StreamOp} {log : List TokenTransfer} (h : AtRest s.id w s)
    (hop : ∀ gross, op ≠ .withdraw gross)
    (hupdate : StreamUpdate host ctx w w' s op log)
    (hlog : logOf s.id w'.transfers = log ++ logOf s.id w.transfers) :
    AtRest s.id w' (op.next ctx.now s) where
  unlocked := next_unlocked op h.unlocked
  receipts := by
    rw [received_append hlog, op_receipts hupdate.pays, h.receipts]
    omega
  withdrawn_le := next_withdrawn_le h.withdrawn_le hupdate.guard
  payments := by
    have hbooked := op_payments_booked h.withdrawn_le hop hupdate.guard hupdate.pays
    have hpaid := h.payments
    rw [paidOut_append hlog]
    omega

/-- A stream as it is created. -/
theorem AtRest.of_born {host : Host} {now : Nat} {w : World} {s : Stream}
    {log : List TokenTransfer} {before after : Balances Address Address}
    (htokens : AllTokens host.tokens TokenLaw.RejectsNegative)
    (hfresh : FreshStream now s) (hpays : CreationTransfers host.self s log)
    (hperformed : Performed host.tokens log before after)
    (hlog : logOf s.id w.transfers = log) : AtRest s.id w s := by
  obtain ⟨hin, hout⟩ := creation_totals hpays
  refine ⟨hfresh.unlocked, ?_, ?_, ?_⟩
  · rw [received_eq, hlog, hin]
  · rw [hfresh.withdrawn]
    exact creation_deposit_nonneg htokens hpays hperformed
  · rw [paidOut_eq, hlog, hout, settledAmount_of_open (Or.inl hfresh.status),
      hfresh.withdrawn]

/-! ## A withdrawal under way -/

/-- What a frame still has to pay. -/
def amountDue (frame : Frame) : Int :=
  match frame.phase with
  | .feeDue _ => frame.fee + frame.netAmount
  | .feeMoved _ => frame.netAmount
  | .salaryDue => frame.netAmount
  | .salaryMoved => 0

/-- The books of the stream a frame is working on: the copy in the frame has the
withdrawal booked, and covers what was paid and what is still due. -/
structure InFlight (id : Nat) (w : World) (frame : Frame) (s : Stream) : Prop where
  locked : s.locked = true
  receipts : received id w = s.deposit
  copy_deposit : frame.stream.deposit = s.deposit
  withdrawn_le : frame.stream.withdrawn ≤ frame.stream.deposit
  fee_nonneg : 0 ≤ frame.fee
  netAmount_nonneg : 0 ≤ frame.netAmount
  payments : paidOut id w + amountDue frame ≤ frame.stream.withdrawn

theorem InFlight.congr {id : Nat} {w w' : World} {frame : Frame} {s : Stream}
    (h : InFlight id w frame s)
    (hlog : logOf id w'.transfers = logOf id w.transfers) :
    InFlight id w' frame s :=
  { h with
    receipts := (received_congr hlog).trans h.receipts
    payments := by
      rw [paidOut_congr hlog]
      exact h.payments }

theorem InFlight.amountDue_nonneg {id : Nat} {w : World} {frame : Frame}
    {s : Stream} (h : InFlight id w frame s) : 0 ≤ amountDue frame := by
  have hfee := h.fee_nonneg
  have hnet := h.netAmount_nonneg
  unfold amountDue
  split
  · omega
  · exact hnet
  · exact hnet
  · exact le_rfl

/-- The books of a stream, the withdrawals under way taken into account. -/
structure BooksKept (id : Nat) (w : World) (stack : List Frame) : Prop where
  keyed : Keyed w
  frames : ∀ frame ∈ stack, frame.stream.id = frame.streamId ∧
    ∃ s, w.streams frame.streamId = some s
  absent : w.streams id = none → logOf id w.transfers = []
  atRest : ∀ s, w.streams id = some s →
    (∀ frame ∈ stack, frame.streamId ≠ id) → AtRest id w s
  inFlight : ∀ frame ∈ stack, frame.streamId = id →
    ∃ s, w.streams id = some s ∧ InFlight id w frame s

/-- The books are kept in the world as it is, and in each world that a panic may
restore.  A frame began when its stream was not locked. -/
def Sound (id : Nat) : World → List Frame → Prop
  | w, [] => BooksKept id w []
  | w, frame :: rest =>
      BooksKept id w (frame :: rest) ∧
        (∃ s, frame.saved.streams frame.streamId = some s ∧ s.locked = false) ∧
        Sound id frame.saved rest

theorem Sound.kept {id : Nat} {w : World} {stack : List Frame}
    (h : Sound id w stack) : BooksKept id w stack := by
  cases stack with
  | nil => exact h
  | cons frame rest => exact h.1

theorem Sound.replace {id : Nat} {w w' : World} {stack : List Frame}
    (h : Sound id w stack) (hkept : BooksKept id w' stack) :
    Sound id w' stack := by
  cases stack with
  | nil => exact hkept
  | cons frame rest => exact ⟨hkept, h.2⟩

/-- A stream that is not locked has no frame. -/
theorem BooksKept.no_frame {id : Nat} {w : World} {stack : List Frame}
    (h : BooksKept id w stack) {s : Stream} (hs : w.streams id = some s)
    (hunlocked : s.locked = false) : ∀ frame ∈ stack, frame.streamId ≠ id := by
  intro frame hmem hid
  obtain ⟨found, hfound, hflight⟩ := h.inFlight frame hmem hid
  rw [hs] at hfound
  cases hfound
  rw [hflight.locked] at hunlocked
  cases hunlocked

/-- So no other frame works on the stream of the top one. -/
theorem Sound.rest_ne {id : Nat} {w : World} {frame : Frame} {rest : List Frame}
    (h : Sound id w (frame :: rest)) (hid : frame.streamId = id) :
    ∀ other ∈ rest, other.streamId ≠ id := by
  obtain ⟨_, ⟨s, hs, hunlocked⟩, hsaved⟩ := h
  rw [hid] at hs
  exact hsaved.kept.no_frame hs hunlocked

theorem BooksKept.cons_other {id : Nat} {w : World} {frame : Frame}
    {rest : List Frame} (h : BooksKept id w rest)
    (hframe : frame.stream.id = frame.streamId ∧
      ∃ s, w.streams frame.streamId = some s)
    (hne : frame.streamId ≠ id) : BooksKept id w (frame :: rest) where
  keyed := h.keyed
  frames := List.forall_mem_cons.mpr ⟨hframe, h.frames⟩
  absent := h.absent
  atRest s hs hnone := h.atRest s hs (List.forall_mem_cons.mp hnone).2
  inFlight := List.forall_mem_cons.mpr ⟨fun hid => absurd hid hne, h.inFlight⟩

theorem BooksKept.of_cons_other {id : Nat} {w : World} {frame : Frame}
    {rest : List Frame} (h : BooksKept id w (frame :: rest))
    (hne : frame.streamId ≠ id) : BooksKept id w rest where
  keyed := h.keyed
  frames := (List.forall_mem_cons.mp h.frames).2
  absent := h.absent
  atRest s hs hnone := h.atRest s hs (List.forall_mem_cons.mpr ⟨hne, hnone⟩)
  inFlight := (List.forall_mem_cons.mp h.inFlight).2

theorem BooksKept.of_inFlight {id : Nat} {w : World} {frame : Frame}
    {rest : List Frame} {s : Stream} (hkeyed : Keyed w)
    (hframes : ∀ other ∈ frame :: rest, other.stream.id = other.streamId ∧
      ∃ s, w.streams other.streamId = some s)
    (hid : frame.streamId = id) (hrest : ∀ other ∈ rest, other.streamId ≠ id)
    (hs : w.streams id = some s) (hflight : InFlight id w frame s) :
    BooksKept id w (frame :: rest) where
  keyed := hkeyed
  frames := hframes
  absent hnone := by
    rw [hs] at hnone
    cases hnone
  atRest _ _ hnone := absurd hid (hnone frame List.mem_cons_self)
  inFlight := List.forall_mem_cons.mpr
    ⟨fun _ => ⟨s, hs, hflight⟩, fun other hmem heq => absurd heq (hrest other hmem)⟩

theorem BooksKept.of_atRest {id : Nat} {w : World} {stack : List Frame}
    {s : Stream} (hkeyed : Keyed w)
    (hframes : ∀ other ∈ stack, other.stream.id = other.streamId ∧
      ∃ s, w.streams other.streamId = some s)
    (hnone : ∀ other ∈ stack, other.streamId ≠ id)
    (hs : w.streams id = some s) (hrest : AtRest id w s) :
    BooksKept id w stack where
  keyed := hkeyed
  frames := hframes
  absent hmissing := by
    rw [hs] at hmissing
    cases hmissing
  atRest found hfound _ := by
    rw [hs] at hfound
    cases hfound
    exact hrest
  inFlight frame hmem hid := absurd hid (hnone frame hmem)

/-! ## One call -/

/-- Where stream and log are as before, so are the books. -/
theorem BooksKept.same {id : Nat} {w w' : World} {stack : List Frame}
    (h : BooksKept id w stack) (hkeyed : Keyed w')
    (hframes : ∀ frame ∈ stack, frame.stream.id = frame.streamId ∧
      ∃ s, w'.streams frame.streamId = some s)
    (hstream : w'.streams id = w.streams id)
    (hlog : logOf id w'.transfers = logOf id w.transfers) :
    BooksKept id w' stack where
  keyed := hkeyed
  frames := hframes
  absent hnone := hlog.trans (h.absent (hstream.symm.trans hnone))
  atRest s hs hnone := (h.atRest s (hstream.symm.trans hs) hnone).congr hlog
  inFlight frame hmem hid := by
    obtain ⟨s, hs, hflight⟩ := h.inFlight frame hmem hid
    exact ⟨s, hstream.trans hs, hflight.congr hlog⟩

/-- A call that is not a withdrawal and moves no funds of a stream leaves its
deposit and its lock, and pays nothing. -/
theorem op_keeps_locked {host : Host} {ctx : Context} {w : World} {id : Nat}
    {s : Stream} {call : StreamCall} {op : StreamOp} {log : List TokenTransfer}
    (hissues : Issues ctx w id s call op) (hpays : op.Pays host ctx w s log)
    (hplain : ∀ employee, call ≠ .withdraw employee)
    (hfunds : movesFunds call = false) :
    (op.next ctx.now s).deposit = s.deposit ∧
      (op.next ctx.now s).locked = s.locked ∧ log = [] := by
  cases hissues with
  | withdraw gross _ => exact absurd rfl (hplain _)
  | topUp _ _ _ _ => cases hfunds
  | cancel _ _ => cases hfunds
  | reclaim _ _ => cases hfunds
  | _ => exact ⟨rfl, rfl, hpays⟩

/-- A locked stream stays in flight through a call that moves none of its funds. -/
theorem InFlight.next {host : Host} {ctx : Context} {w w' : World} {id : Nat}
    {s : Stream} {frame : Frame} {call : StreamCall} {op : StreamOp}
    {log : List TokenTransfer} (h : InFlight id w frame s)
    (hissues : Issues ctx w id s call op) (hpays : op.Pays host ctx w s log)
    (hplain : ∀ employee, call ≠ .withdraw employee)
    (hfunds : movesFunds call = false)
    (hlog : logOf id w'.transfers = log ++ logOf id w.transfers) :
    InFlight id w' frame (op.next ctx.now s) := by
  obtain ⟨hdeposit, hlocked, rfl⟩ := op_keeps_locked hissues hpays hplain hfunds
  have hsame := h.congr hlog
  exact
    { hsame with
      locked := hlocked.trans h.locked
      receipts := hsame.receipts.trans hdeposit.symm
      copy_deposit := h.copy_deposit.trans hdeposit.symm }

/-- A guarded call on a locked stream moves none of its funds. -/
theorem Guarded.moves_no_funds {host : Host} {id : Nat} {w w' : World}
    {inv : Invocation} {value : Value} (h : Guarded host id w inv)
    (hsucceeds : Succeeds host w inv value w') {call : StreamCall}
    (hcall : inv.call = .onStream id call) {s : Stream} (hs : w.streams id = some s)
    (hlocked : s.locked = true) : movesFunds call = false := by
  cases hmoves : movesFunds call with
  | false => rfl
  | true =>
      have hunlocked := h.unlocked call s value w' hcall hmoves hs hsucceeds
      rw [hlocked] at hunlocked
      cases hunlocked

/-- A guarded call that is not a withdrawal keeps the books. -/
theorem BooksKept.call {host : Host} {id : Nat} {w w' : World}
    {stack : List Frame} {inv : Invocation} {value : Value}
    (htokens : AllTokens host.tokens TokenLaw.RejectsNegative)
    (h : BooksKept id w stack) (hguarded : Guarded host id w inv)
    (hplain : ∀ streamId employee, inv.call ≠ .onStream streamId (.withdraw employee))
    (hsucceeds : Succeeds host w inv value w') : BooksKept id w' stack := by
  have heffect := effect_of_succeeds hsucceeds
  have hkeyed := heffect.keyed h.keyed
  have hframes : ∀ frame ∈ stack, frame.stream.id = frame.streamId ∧
      ∃ s, w'.streams frame.streamId = some s := by
    intro frame hmem
    obtain ⟨hid, s, hs⟩ := h.frames frame hmem
    exact ⟨hid, (heffect.streamChange h.keyed frame.streamId).stored hs⟩
  cases heffect.streamChange h.keyed id with
  | same hstream hlog => exact h.same hkeyed hframes hstream hlog
  | born s log _ hnone hstream hid hfresh hpays hperformed hlog =>
      subst hid
      obtain ⟨_, _, hperformed⟩ := hperformed
      rw [h.absent hnone, List.append_nil] at hlog
      refine ⟨hkeyed, hframes, ?_, ?_, ?_⟩
      · intro hstill
        rw [hstream] at hstill
        cases hstill
      · intro found hfound _
        rw [hstream] at hfound
        cases hfound
        exact .of_born htokens hfresh hpays hperformed hlog
      · intro frame hmem hframe
        obtain ⟨found, hfound, _⟩ := h.inFlight frame hmem hframe
        rw [hnone] at hfound
        cases hfound
  | updated s op log streamCall hcall hs hissues hupdate hstream hlog =>
      obtain rfl : s.id = id := (h.keyed id s hs).1
      have hnot : ∀ employee, streamCall ≠ .withdraw employee := by
        rintro employee rfl
        exact hplain _ _ hcall
      refine ⟨hkeyed, hframes, ?_, ?_, ?_⟩
      · intro hnone
        rw [hstream] at hnone
        cases hnone
      · intro found hfound hrest
        rw [hstream] at hfound
        cases hfound
        refine (h.atRest s hs hrest).next ?_ hupdate hlog
        rintro gross rfl
        cases hissues
        exact hnot _ rfl
      · intro frame hmem hframe
        obtain ⟨found, hfound, hflight⟩ := h.inFlight frame hmem hframe
        rw [hs] at hfound
        cases hfound
        -- under a withdrawal in flight the guard refuses every call that would pay
        have hfunds := hguarded.moves_no_funds hsucceeds hcall hs hflight.locked
        exact ⟨_, hstream, hflight.next hissues hupdate.pays hnot hfunds hlog⟩

/-! ## The pieces of a withdrawal -/

/-- A withdrawal that begins has no more to pay than it books. -/
theorem amountDue_le_of_begun {ctx : Context} {w w' : World} {streamId : Nat}
    {s : Stream} {gross : Int} {frame : Frame}
    (h : Begun ctx w w' streamId s gross frame)
    (hfee : w.feeRecipient.isSome = true →
      gross * w.config.feeBps < 10000 * (gross + 1)) :
    0 ≤ frame.fee ∧ 0 ≤ frame.netAmount ∧ amountDue frame ≤ gross := by
  have hnonneg := claimableAmount_nonneg h.claimable
  have hvalue := withdrawalFee_eq hnonneg h.fee
  have hproduct : 0 ≤ gross * (w.config.feeBps : Int) := by positivity
  have hfeeNonneg : 0 ≤ frame.fee := by omega
  have hnet := h.netAmount
  have hnetLe : frame.netAmount ≤ gross := by
    rw [hnet]
    exact share_le hnonneg hfeeNonneg
  -- with a fee within the gross amount the share is at most the difference
  have hsum : frame.fee ≤ gross → frame.fee + frame.netAmount ≤ gross := by
    intro hle
    have hmin : i128Min ≤ 0 := by decide
    rw [hnet]
    unfold saturatingSub saturate
    omega
  refine ⟨hfeeNonneg, by rw [hnet]; exact le_max_right _ _, ?_⟩
  unfold amountDue
  rw [h.phase]
  unfold firstPhase
  by_cases hpos : 0 < frame.fee
  · rw [if_pos hpos]
    cases hrecipient : w.feeRecipient with
    | none => exact hnetLe
    | some recipient =>
        have hwithin := hfee (by rw [hrecipient]; rfl)
        exact hsum (by omega)
  · rw [if_neg hpos]
    exact hnetLe

/-- A withdrawal that begins on a stream at rest: what is due is booked. -/
theorem InFlight.of_begun {ctx : Context} {w w' : World} {streamId : Nat}
    {s : Stream} {gross : Int} {frame : Frame}
    (hbegun : Begun ctx w w' streamId s gross frame) (hrest : AtRest streamId w s)
    (hfee : w.feeRecipient.isSome = true →
      gross * w.config.feeBps < 10000 * (gross + 1))
    (hlog : logOf streamId w'.transfers = logOf streamId w.transfers) :
    InFlight streamId w' frame { s with locked := true } := by
  obtain ⟨hfeeNonneg, hnetNonneg, hdue⟩ := amountDue_le_of_begun hbegun hfee
  have hbooked := withdrawn_add_claimable_le hrest.withdrawn_le hbegun.claimable
  -- something is claimable, so the stream is live
  have hsettled : settledAmount s = s.withdrawn := by
    apply settledAmount_of_live
    cases hlive : isTerminal s.status with
    | false => rfl
    | true =>
        have hzero := claimableAmount_of_isTerminal hlive ctx.now
        rw [hbegun.claimable] at hzero
        exact absurd (Except.ok.inj hzero) hbegun.gross_ne
  have hpaid := hrest.payments
  refine
    { locked := rfl
      receipts := (received_congr hlog).trans hrest.receipts
      copy_deposit := by rw [hbegun.stream]
      withdrawn_le := by rw [hbegun.stream]; exact hbooked
      fee_nonneg := hfeeNonneg
      netAmount_nonneg := hnetNonneg
      payments := ?_ }
  rw [paidOut_congr hlog, hbegun.stream]
  show paidOut streamId w + amountDue frame ≤ s.withdrawn + gross
  omega

/-- After a write over the stream `streamId`, the frames still have streams. -/
theorem frames_overwrite {w w' : World} {stack : List Frame} {streamId : Nat}
    {new : Stream}
    (hframes : ∀ frame ∈ stack, frame.stream.id = frame.streamId ∧
      ∃ s, w.streams frame.streamId = some s)
    (hstreams : w'.streams = Function.update w.streams streamId (some new)) :
    ∀ frame ∈ stack, frame.stream.id = frame.streamId ∧
      ∃ s, w'.streams frame.streamId = some s := by
  intro frame hmem
  obtain ⟨hid, s, hs⟩ := hframes frame hmem
  refine ⟨hid, ?_⟩
  rw [hstreams]
  by_cases hsame : frame.streamId = streamId
  · rw [hsame, Function.update_self]
    exact ⟨new, rfl⟩
  · rw [Function.update_of_ne hsame]
    exact ⟨s, hs⟩

/-- A guarded withdrawal begins with its books in order. -/
theorem Sound.begin {ctx : Context} {id : Nat} {w w' : World} {stack : List Frame}
    {streamId : Nat} {s : Stream} {gross : Int} {frame : Frame}
    (h : Sound id w stack) (hbegun : Begun ctx w w' streamId s gross frame)
    (hfee : streamId = id → w.feeRecipient.isSome = true →
      gross * w.config.feeBps < 10000 * (gross + 1)) :
    Sound id w' (frame :: stack) := by
  have hkept := h.kept
  have hs := hbegun.stored
  have hkey := (hkept.keyed streamId s hs).1
  let locked : Stream := { s with locked := true }
  have hstreams : w'.streams = Function.update w.streams streamId (some locked) := by
    rw [hbegun.world, ← hkey]
    rfl
  have hlog : logOf id w'.transfers = logOf id w.transfers := by
    rw [hbegun.world]
    rfl
  have hcount : w'.streamCount = w.streamCount := by
    rw [hbegun.world]
    rfl
  have hstored : w'.streams streamId = some locked := by
    rw [hstreams, Function.update_self]
  have hlockedId : locked.id = streamId := hkey
  have hkeyed : Keyed w' := hkept.keyed.overwrite hs hlockedId hstreams hcount
  have hframes := frames_overwrite hkept.frames hstreams
  have hframe : frame.stream.id = frame.streamId ∧
      ∃ s, w'.streams frame.streamId = some s := by
    rw [hbegun.streamId_eq, hbegun.stream]
    exact ⟨hkey, locked, hstored⟩
  have hsaved : ∃ s, frame.saved.streams frame.streamId = some s ∧
      s.locked = false := by
    rw [hbegun.saved, hbegun.streamId_eq]
    exact ⟨s, hs, hbegun.unlocked⟩
  refine ⟨?_, hsaved, by rw [hbegun.saved]; exact h⟩
  -- the new frame is in flight on this stream, or leaves its books alone
  by_cases hid : streamId = id
  · subst hid
    have hnone := hkept.no_frame hs hbegun.unlocked
    exact .of_inFlight hkeyed (List.forall_mem_cons.mpr ⟨hframe, hframes⟩)
      hbegun.streamId_eq hnone hstored
      (.of_begun hbegun (hkept.atRest s hs hnone) (hfee rfl) hlog)
  · have hother : w'.streams id = w.streams id := by
      rw [hstreams, Function.update_of_ne (Ne.symm hid)]
    refine (hkept.same hkeyed hframes hother hlog).cons_other hframe ?_
    rw [hbegun.streamId_eq]
    exact hid

/-- A move of the token that pays part of what is due. -/
theorem Sound.move {id : Nat} {w w' : World} {frame : Frame} {rest : List Frame}
    {phase : Phase} (h : Sound id w (frame :: rest)) (paid : List TokenTransfer)
    (hstreams : w'.streams = w.streams) (hcount : w'.streamCount = w.streamCount)
    (htransfers : w'.transfers = paid ++ w.transfers)
    (hbooked : BookedUnder frame.stream paid)
    (hin : totalFor (isReceipt frame.stream.id) paid = 0)
    (hout : totalFor (isPayment frame.stream.id) paid +
      amountDue { frame with phase := phase } ≤ amountDue frame) :
    Sound id w' ({ frame with phase := phase } :: rest) := by
  obtain ⟨hframe, hframes⟩ := List.forall_mem_cons.mp h.kept.frames
  have hkeyed : Keyed w' := by
    intro other found hfound
    rw [hstreams] at hfound
    rw [hcount]
    exact h.kept.keyed other found hfound
  refine ⟨?_, h.2⟩
  -- what is paid counts under the stream of the frame only
  by_cases hid : frame.streamId = id
  · have hlog : logOf id w'.transfers = paid ++ logOf id w.transfers := by
      rw [htransfers, logOf_append, ← hid, ← hframe.1, hbooked.logOf_self]
    obtain ⟨s, hs, hflight⟩ := h.kept.inFlight frame List.mem_cons_self hid
    have hpaid := hflight.payments
    have hstreamId : frame.stream.id = id := hframe.1.trans hid
    rw [hstreamId] at hin hout
    refine .of_inFlight hkeyed
      (by rw [hstreams]; exact List.forall_mem_cons.mpr ⟨hframe, hframes⟩) hid
      (h.rest_ne hid) (by rw [hstreams]; exact hs)
      { hflight with
        receipts := ?_
        payments := ?_ }
    · rw [received_append hlog, hin, zero_add]
      exact hflight.receipts
    · rw [paidOut_append hlog]
      show _ ≤ frame.stream.withdrawn
      omega
  · have hlog : logOf id w'.transfers = logOf id w.transfers := by
      rw [htransfers, logOf_append, hbooked.logOf_of_ne (by rw [hframe.1]; exact hid),
        List.nil_append]
    refine ((h.kept.of_cons_other hid).same hkeyed ?_ (by rw [hstreams])
      hlog).cons_other ?_ hid
    · rw [hstreams]
      exact hframes
    · rw [hstreams]
      exact hframe

/-- The closing write: the copy, with everything paid, becomes the stream. -/
theorem Sound.close {id : Nat} {w : World} {frame : Frame} {rest : List Frame}
    (h : Sound id w (frame :: rest)) (hphase : frame.phase = .salaryMoved) :
    Sound id (frame.close w) rest := by
  obtain ⟨⟨hframe, _, hstored⟩, hframes⟩ := List.forall_mem_cons.mp h.kept.frames
  let closed : Stream := { frame.stream with status := frame.status, locked := false }
  have hclosedId : closed.id = frame.streamId := hframe
  -- the warning that may follow publishes an event and nothing else
  have hbooks : books (frame.close w) = books (saveStream w closed) :=
    books_maybeWarnExhaustion closed _
  have hstreams : (frame.close w).streams =
      Function.update w.streams frame.streamId (some closed) := by
    rw [← hclosedId]
    exact congrArg Books.streams hbooks
  have hlog : logOf id (frame.close w).transfers = logOf id w.transfers :=
    congrArg (logOf id) (congrArg Books.transfers hbooks)
  have hkeyed : Keyed (frame.close w) :=
    h.kept.keyed.overwrite hstored hclosedId hstreams
      (congrArg Books.streamCount hbooks)
  have hframes' := frames_overwrite hframes hstreams
  apply h.2.2.replace
  by_cases hid : frame.streamId = id
  · subst hid
    obtain ⟨s, _, hflight⟩ := h.kept.inFlight frame List.mem_cons_self rfl
    have hpaid := hflight.payments
    have hnothing : amountDue frame = 0 := by
      unfold amountDue
      rw [hphase]
    have hbooked : closed.withdrawn ≤ closed.deposit := hflight.withdrawn_le
    refine .of_atRest hkeyed hframes' (h.rest_ne rfl)
      (by rw [hstreams, Function.update_self])
      { unlocked := rfl
        receipts := ?_
        withdrawn_le := hbooked
        payments := ?_ }
    · rw [received_congr hlog, hflight.receipts]
      exact hflight.copy_deposit.symm
    · rw [paidOut_congr hlog]
      refine le_trans ?_ (settledAmount_bounds hbooked).1
      show paidOut frame.streamId w ≤ frame.stream.withdrawn
      omega
  · have hother : (frame.close w).streams id = w.streams id := by
      rw [hstreams, Function.update_of_ne (Ne.symm hid)]
    exact (h.kept.of_cons_other hid).same hkeyed hframes' hother hlog

/-- The token of the top frame goes on. -/
theorem Sound.proceed {host : Host} {id : Nat} {w w' : World} {frame : Frame}
    {rest : List Frame} {next : Option Frame} (h : Sound id w (frame :: rest))
    (hproceed : frame.proceed host w = .ok (next, w')) :
    Sound id w' (next.toList ++ rest) := by
  unfold Frame.proceed at hproceed
  cases hphase : frame.phase with
  | feeDue recipient =>
      simp only [hphase, map_eq_ok_iff, tokenTransfer_eq_ok_iff,
        Prod.mk.injEq] at hproceed
      obtain ⟨_, ⟨balances, _, rfl⟩, rfl, rfl⟩ := hproceed
      refine h.move [frame.feeTransfer host.self recipient] rfl rfl rfl ?_ ?_ ?_
      · exact List.forall_mem_singleton.mpr ⟨rfl, rfl⟩
      · simp [Frame.feeTransfer, isReceipt]
      · simp [Frame.feeTransfer, isPayment, amountDue, hphase]
  | feeMoved recipient =>
      simp only [hphase, Except.ok.injEq, Prod.mk.injEq] at hproceed
      obtain ⟨rfl, rfl⟩ := hproceed
      refine h.move [] rfl rfl rfl ?_ ?_ ?_
      · intro transfer hmem
        cases hmem
      · rfl
      · simp [amountDue, hphase]
  | salaryDue =>
      simp only [hphase, map_eq_ok_iff, tokenTransfer_eq_ok_iff,
        Prod.mk.injEq] at hproceed
      obtain ⟨_, ⟨balances, _, rfl⟩, rfl, rfl⟩ := hproceed
      refine h.move [frame.salaryTransfer host.self] rfl rfl rfl ?_ ?_ ?_
      · exact List.forall_mem_singleton.mpr ⟨rfl, rfl⟩
      · simp [Frame.salaryTransfer, isReceipt]
      · simp [Frame.salaryTransfer, isPayment, amountDue, hphase]
  | salaryMoved =>
      simp only [hphase, Except.ok.injEq, Prod.mk.injEq] at hproceed
      obtain ⟨rfl, rfl⟩ := hproceed
      exact h.close hphase

/-! ## Every run -/

theorem Sound.invoke {host : Host} {id : Nat} {c : Config} {inv : Invocation}
    (htokens : AllTokens host.tokens TokenLaw.RejectsNegative)
    (h : Sound id c.world c.stack) (hguarded : Guarded host id c.world inv) :
    Sound id (c.invoke host inv).world (c.invoke host inv).stack := by
  unfold Config.invoke
  split
  · rename_i streamId employee hcall
    cases hbegin : beginWithdraw inv.toContext inv.now_le employee streamId
        c.world with
    | error message => exact h
    | ok result =>
        obtain ⟨next, w'⟩ := result
        rcases beginWithdraw_ok hbegin with ⟨rfl, rfl⟩ | ⟨s, gross, frame, rfl, hbegun⟩
        · exact h
        · refine h.begin hbegun ?_
          rintro rfl
          exact hguarded.fee_le employee s gross frame w' hcall hbegun.stored hbegin
            hbegun.claimable
  · rename_i hplain
    rcases step_cases host c.world inv with ⟨value, hsucceeds⟩ | ⟨_, hsame⟩
    · exact h.replace (h.kept.call htokens hguarded hplain hsucceeds)
    · show Sound id (Contract.step host c.world inv) c.stack
      rw [hsame]
      exact h

theorem Sound.step {host : Host} {id : Nat} {c : Config} {action : Action}
    (htokens : AllTokens host.tokens TokenLaw.RejectsNegative)
    (h : Sound id c.world c.stack) (hguarded : GuardedAction host id c action) :
    Sound id (c.step host action).world (c.step host action).stack := by
  obtain ⟨w, stack⟩ := c
  cases action with
  | call inv => exact h.invoke htokens hguarded
  | proceed now =>
      cases stack with
      | nil => exact h
      | cons frame rest =>
          show Sound id
            (Config.after rest frame.saved (frame.proceed host w)).world
            (Config.after rest frame.saved (frame.proceed host w)).stack
          cases hproceed : frame.proceed host w with
          | error message => exact h.2.2
          | ok result =>
              obtain ⟨next, w'⟩ := result
              exact h.proceed hproceed
  | refuse now =>
      cases stack with
      | nil => exact h
      | cons frame rest => exact h.2.2

theorem sound_of_machineReaches {host : Host}
    (htokens : AllTokens host.tokens TokenLaw.RejectsNegative) {trace : Trace}
    {c : Config} (hrun : MachineReaches host trace c) {id : Nat}
    (hguarded : ∀ entry ∈ trace, GuardedAction host id entry.before entry.input) :
    Sound id c.world c.stack := by
  refine System.Run.invariant (P := fun trace c =>
    (∀ entry ∈ trace, GuardedAction host id entry.before entry.input) →
      Sound id c.world c.stack) ?_ ?_ hrun hguarded
  · rintro ⟨w, stack⟩ ⟨⟨balances, _, hw⟩, hstack⟩ _
    obtain rfl : w = World.deployed balances := hw
    obtain rfl : stack = [] := hstack
    refine ⟨?_, ?_, fun _ => rfl, ?_, ?_⟩
    · intro other s hs
      cases hs
    · intro frame hmem
      cases hmem
    · intro s hs
      cases hs
    · intro frame hmem
      cases hmem
  · intro trace c action _ _ ih hguarded
    obtain ⟨hnow, hearlier⟩ := List.forall_mem_cons.mp hguarded
    exact (ih hearlier).step htokens hnow

/-- In every run of the contract with tokens that call back, at any moment of it:
as long as all calls made, callbacks included, meet the condition for a stream,
its deposit is what was received for it, top-ups inside callbacks included, and no
more than that has been paid out on its behalf. -/
theorem reentrant_books_kept {host : Host}
    (htokens : AllTokens host.tokens TokenLaw.RejectsNegative) {trace : Trace}
    {c : Config} (hrun : MachineReaches host trace c) {id : Nat}
    (hguarded : ∀ entry ∈ trace, GuardedAction host id entry.before entry.input)
    {s : Stream} (hs : c.world.streams id = some s) :
    paidOut id c.world ≤ received id c.world ∧ s.deposit = received id c.world := by
  have hkept := (sound_of_machineReaches htokens hrun hguarded).kept
  by_cases hnone : ∀ frame ∈ c.stack, frame.streamId ≠ id
  · have hrest := hkept.atRest s hs hnone
    have hsettled := (settledAmount_bounds hrest.withdrawn_le).2
    have hpaid := hrest.payments
    have hreceived := hrest.receipts
    exact ⟨by omega, hreceived.symm⟩
  · push Not at hnone
    obtain ⟨frame, hmem, hid⟩ := hnone
    obtain ⟨found, hfound, hflight⟩ := hkept.inFlight frame hmem hid
    rw [hs] at hfound
    cases hfound
    have hdue := hflight.amountDue_nonneg
    have hpaid := hflight.payments
    have hbooked := hflight.withdrawn_le
    have hcopy := hflight.copy_deposit
    have hreceived := hflight.receipts
    exact ⟨by omega, hreceived.symm⟩

/-- A withdrawal of 500 during which the token has the employer pause the stream
and the employee withdraw once more, which panics. -/
theorem reentrant_books_kept_of_pause :
    ∃ trace c, MachineReaches Sample.host trace c ∧ trace.length = 6 ∧
      c.stack = [] ∧ paidOut 1 c.world = 500 ∧ received 1 c.world = 1000 ∧
      paidOut 1 c.world ≤ received 1 c.world := by
  let actions : List Action := [
    .call (Sample.openStream 10 1000 10 0),
    .call (Sample.invoke 60 Sample.employee
      (.onStream 1 (.withdraw Sample.employee))),
    .call (Sample.manage 60 (.pauseStream Sample.employer)),
    .proceed 60,
    .call (Sample.invoke 60 Sample.employee
      (.onStream 1 (.withdraw Sample.employee))),
    .proceed 60]
  have hrun := Sample.playMachine_reaches actions (by decide)
  have hs : (Sample.playMachine actions).2.world.streams 1 = some
      { newStream 1 Sample.employer Sample.employee Sample.token 1000 10 10 0 0 0
          with withdrawn := 500, lastWithdrawTime := 60 } := by
    decide
  have hrecipient : ∀ entry ∈ (Sample.playMachine actions).1,
      entry.before.world.feeRecipient = none := by
    decide
  refine ⟨_, _, hrun, by decide, List.eq_nil_of_length_eq_zero (by decide),
    by decide, by decide, (reentrant_books_kept
      Sample.host_honest.rejectsNegative hrun ?_ hs).1⟩
  intro entry hentry
  have hnone := hrecipient entry hentry
  -- nobody collects fees, and none of the calls moves funds of the stream
  have hquiet : ∀ inv, (∀ call, inv.call = .onStream 1 call →
      movesFunds call = false) →
      Guarded Sample.host 1 entry.before.world (entry.before.atClock inv) := by
    intro inv hfunds
    constructor
    · intro call s value w' hcall hmoves
      rw [Config.atClock_call] at hcall
      rw [hfunds call hcall] at hmoves
      cases hmoves
    · intro employee s gross frame w' _ _ _ _ hsome
      rw [hnone] at hsome
      cases hsome
  have hinput : entry.input ∈ actions := System.input_mem_of_replay_nil hentry
  simp only [actions, List.mem_cons, List.not_mem_nil, or_false] at hinput
  rcases hinput with hinput | hinput | hinput | hinput | hinput | hinput
  all_goals rw [hinput]
  · exact hquiet _ (fun call hcall => by cases hcall)
  · exact hquiet _ (fun call hcall => by cases hcall; rfl)
  · exact hquiet _ (fun call hcall => by cases hcall; rfl)
  · trivial
  · exact hquiet _ (fun call hcall => by cases hcall; rfl)
  · trivial

/-- Two streams of 1000, and a withdrawal of 500 from the first during which the
token has the employer cancel it: 1500 are paid for it, and it is active
afterwards.  The second run has a top-up of 400 in the place of the cancellation,
and the deposit does not show it afterwards. -/
theorem callbacks_break_books :
    (∃ trace c s, MachineReaches Sample.host trace c ∧ c.stack = [] ∧
      c.world.streams 1 = some s ∧ s.status = .active ∧
      paidOut 1 c.world = 1500 ∧ received 1 c.world = 1000 ∧
      ¬ paidOut 1 c.world ≤ received 1 c.world) ∧
    (∃ trace c s, MachineReaches Sample.host trace c ∧ c.stack = [] ∧
      c.world.streams 1 = some s ∧ received 1 c.world = 1400 ∧
      s.deposit = 1000 ∧ ¬ s.deposit = received 1 c.world) := by
  constructor
  · have hrun := Sample.playMachine_reaches [
      .call (Sample.openStream 10 1000 10 0),
      .call (Sample.openStream 10 1000 10 0),
      .call (Sample.invoke 60 Sample.employee
        (.onStream 1 (.withdraw Sample.employee))),
      .call (Sample.manage 60 (.cancelStream Sample.employer)),
      .proceed 60, .proceed 60] (by decide)
    exact ⟨_, _, { newStream 1 Sample.employer Sample.employee Sample.token 1000 10
        10 0 0 0 with withdrawn := 500, lastWithdrawTime := 60 }, hrun,
      List.eq_nil_of_length_eq_zero (by decide), by decide, rfl, by decide,
      by decide, by decide⟩
  · have hrun := Sample.playMachine_reaches [
      .call (Sample.openStream 10 1000 10 0),
      .call (Sample.invoke 60 Sample.employee
        (.onStream 1 (.withdraw Sample.employee))),
      .call (Sample.manage 60 (.topUp Sample.employer 400)),
      .proceed 60, .proceed 60] (by decide)
    exact ⟨_, _, { newStream 1 Sample.employer Sample.employee Sample.token 1000 10
        10 0 0 0 with withdrawn := 500, lastWithdrawTime := 60 }, hrun,
      List.eq_nil_of_length_eq_zero (by decide), by decide, by decide, rfl,
      by decide⟩

end Properties
end Paystream
