import Paystream.Semantics.Steps

/-!
# The contract seen from one stream

Seen from the stream stored under one id, a call that returned did nothing, or
it created the stream, or it applied one operation to it
(`streamChange_of_succeeds`).  The transfers booked under the id
(`streamLog`) grow by exactly the transfers of that creation or operation.

The view needs that streams are stored under their own id and that ids are
given out in order, which is the first invariant of the contract
(`keyed_of_reaches`).
-/

namespace Paystream
namespace Semantics

open Library
open Contract
open Contract.Storage
open Contract.StreamContract

/-! ## Streams are stored under their own id -/

/-- Every stream is stored under its own id, and ids run from one up to the
stream count. -/
def Keyed (w : World) : Prop :=
  ∀ id s, w.streams id = some s → s.id = id ∧ 1 ≤ id ∧ id ≤ w.streamCount

/-- No operation changes the id of a stream. -/
@[simp] theorem StreamOp.next_id (now : Nat) (s : Stream) (op : StreamOp) :
    (op.next now s).id = s.id := by
  cases op <;> rfl

theorem Keyed.of_books {w w' : World} (hkeyed : Keyed w)
    (hbooks : books w' = books w) : Keyed w' := by
  have hstreams : w'.streams = w.streams := congrArg Books.streams hbooks
  have hcount : w'.streamCount = w.streamCount :=
    congrArg Books.streamCount hbooks
  intro id s hs
  rw [hstreams] at hs
  rw [hcount]
  exact hkeyed id s hs

theorem Keyed.not_stored {w : World} (hkeyed : Keyed w) {id : Nat}
    (hid : w.streamCount < id) : w.streams id = none := by
  cases hs : w.streams id with
  | none => rfl
  | some s =>
      have := (hkeyed id s hs).2.2
      omega

theorem CreateOne.keyed {host : Host} {ctx : Context} {w w' : World}
    {s : Stream} {log : List TokenTransfer}
    (h : CreateOne host ctx w w' s log) (hkeyed : Keyed w) : Keyed w' := by
  intro id found hfound
  rw [h.streams] at hfound
  rw [h.streamCount]
  by_cases hid : id = s.id
  · subst hid
    rw [Function.update_self] at hfound
    cases hfound
    have := h.id
    omega
  · rw [Function.update_of_ne hid] at hfound
    have := hkeyed id found hfound
    omega

/-- Writing a new record over a stored one keeps the keys. -/
theorem Keyed.overwrite {w w' : World} (h : Keyed w) {id : Nat} {old new : Stream}
    (hold : w.streams id = some old) (hnew : new.id = id)
    (hstreams : w'.streams = Function.update w.streams id (some new))
    (hcount : w'.streamCount = w.streamCount) : Keyed w' := by
  intro other found hfound
  rw [hstreams] at hfound
  rw [hcount]
  by_cases hid : other = id
  · subst hid
    rw [Function.update_self] at hfound
    cases hfound
    exact ⟨hnew, (h other old hold).2⟩
  · rw [Function.update_of_ne hid] at hfound
    exact h other found hfound

theorem StreamUpdate.keyed {host : Host} {ctx : Context} {w w' : World}
    {s : Stream} {op : StreamOp} {log : List TokenTransfer} {streamId : Nat}
    (h : StreamUpdate host ctx w w' s op log)
    (hs : w.streams streamId = some s) (hkeyed : Keyed w) : Keyed w' := by
  obtain rfl : s.id = streamId := (hkeyed streamId s hs).1
  exact hkeyed.overwrite hs (StreamOp.next_id ctx.now s op) h.streams h.streamCount

theorem Created.keyed {host : Host} {ctx : Context} {w w' : World}
    (h : Created host ctx w w') (hkeyed : Keyed w) : Keyed w' := by
  induction h with
  | done hbooks _hsettings => exact hkeyed.of_books hbooks
  | cons hfirst _hrest ih => exact ih (hfirst.keyed hkeyed)

theorem CallEffect.keyed {host : Host} {ctx : Context} {w w' : World}
    {call : Call} (h : CallEffect host ctx w w' call) (hkeyed : Keyed w) :
    Keyed w' := by
  cases h with
  | admin call _hguard hnext =>
      subst hnext
      exact hkeyed.of_books (books_adminNext w call)
  | governance call hframe => exact hkeyed.of_books hframe.books
  | create call hcreated => exact hcreated.keyed hkeyed
  | onStream streamId call heffect =>
      rcases heffect with ⟨_, hbooks, _⟩ | ⟨s, op, log, hs, _, hupdate⟩
      · exact hkeyed.of_books hbooks
      · exact hupdate.keyed hs hkeyed
  | feePayout admin token amount _hauth _hadmin hpayout =>
      intro id s hs
      rw [hpayout.streams] at hs
      rw [hpayout.streamCount]
      exact hkeyed id s hs
  | query query hsame =>
      subst hsame
      exact hkeyed
  | directTransfer token source target amount hdirect =>
      intro id s hs
      rw [hdirect.streams] at hs
      rw [hdirect.streamCount]
      exact hkeyed id s hs

theorem keyed_of_reaches {host : Host} {history : History} {w : World}
    (hrun : Reaches host history w) : Keyed w := by
  refine Reaches.invariant (P := fun _ w => Keyed w) ?_ ?_ ?_ hrun
  · intro balances _ id s hs
    cases hs
  · intro history w inv value w' _ _ hkeyed hsucceeds
    exact (effect_of_succeeds hsucceeds).keyed hkeyed
  · intro history w inv _ _ hkeyed _
    exact hkeyed

/-! ## Transfers of one stream -/

/-- The transfers of a log booked under the stream `id`. -/
def logOf (id : Nat) (log : List TokenTransfer) : List TokenTransfer :=
  log.filter (fun transfer => decide (transfer.purpose.streamId = some id))

@[simp] theorem logOf_append (id : Nat) (later earlier : List TokenTransfer) :
    logOf id (later ++ earlier) = logOf id later ++ logOf id earlier :=
  List.filter_append later earlier

/-- All transfers of the log are booked under the stream and are in its
token. -/
def BookedUnder (s : Stream) (log : List TokenTransfer) : Prop :=
  ∀ transfer ∈ log, transfer.purpose.streamId = some s.id ∧
    transfer.token = s.token

theorem BookedUnder.logOf_self {s : Stream} {log : List TokenTransfer}
    (h : BookedUnder s log) : logOf s.id log = log := by
  unfold logOf
  rw [List.filter_eq_self]
  intro transfer hmem
  exact decide_eq_true (h transfer hmem).1

theorem BookedUnder.logOf_of_ne {s : Stream} {other : Nat}
    {log : List TokenTransfer} (h : BookedUnder s log) (hne : s.id ≠ other) :
    logOf other log = [] := by
  unfold logOf
  rw [List.filter_eq_nil_iff]
  intro transfer hmem hother
  have hbooked := (h transfer hmem).1
  rw [of_decide_eq_true hother] at hbooked
  exact hne (Option.some.inj hbooked).symm

theorem CreationTransfers.bookedUnder {self : Address} {s : Stream}
    {log : List TokenTransfer} (h : CreationTransfers self s log) :
    BookedUnder s log := by
  intro transfer hmem
  cases h with
  | depositOnly =>
      simp only [List.mem_singleton] at hmem
      subst hmem
      exact ⟨rfl, rfl⟩
  | withFee recipient fee =>
      simp only [List.mem_cons, List.not_mem_nil, or_false] at hmem
      rcases hmem with rfl | rfl
      · exact ⟨rfl, rfl⟩
      · exact ⟨rfl, rfl⟩

theorem settlementTransfers_bookedUnder (self : Address) (s : Stream)
    (owed : Int) : BookedUnder s (settlementTransfers self s owed) := by
  intro transfer hmem
  simp only [settlementTransfers, List.mem_append] at hmem
  rcases hmem with hmem | hmem
  · split at hmem
    · rw [List.mem_singleton] at hmem
      subst hmem
      exact ⟨rfl, rfl⟩
    · cases hmem
  · split at hmem
    · rw [List.mem_singleton] at hmem
      subst hmem
      exact ⟨rfl, rfl⟩
    · cases hmem

theorem withdrawalTransfers_bookedUnder (self : Address) (s : Stream)
    (gross fee : Int) (recipient : Option Address) :
    BookedUnder s (withdrawalTransfers self s gross fee recipient) := by
  intro transfer hmem
  simp only [withdrawalTransfers, List.mem_cons] at hmem
  rcases hmem with rfl | hmem
  · exact ⟨rfl, rfl⟩
  · unfold feeTransfers at hmem
    split at hmem
    · split at hmem
      · rw [List.mem_singleton] at hmem
        subst hmem
        exact ⟨rfl, rfl⟩
      · cases hmem
    · cases hmem

/-- An operation books its transfers under the stream it works on. -/
theorem StreamOp.Pays.bookedUnder {host : Host} {ctx : Context} {w : World}
    {s : Stream} {log : List TokenTransfer} {op : StreamOp}
    (h : op.Pays host ctx w s log) : BookedUnder s log := by
  cases op with
  | withdraw gross =>
      obtain ⟨fee, _, rfl⟩ := h
      exact withdrawalTransfers_bookedUnder _ _ _ _ _
  | topUp amount =>
      obtain ⟨caller, _, rfl⟩ := h
      intro transfer hmem
      rw [List.mem_singleton] at hmem
      subst hmem
      exact ⟨rfl, rfl⟩
  | cancel owed =>
      obtain rfl := h
      exact settlementTransfers_bookedUnder _ _ _
  | reclaim owed =>
      obtain rfl := h
      exact settlementTransfers_bookedUnder _ _ _
  | _ =>
      obtain rfl := h
      intro transfer hmem
      cases hmem

/-! ## The change of one stream -/

/-- What a call that returned did to the stream stored under `id`. -/
inductive StreamChange (host : Host) (ctx : Context) (w w' : World) (id : Nat)
    (call : Call) : Prop
  | same (hstream : w'.streams id = w.streams id)
      (hlog : logOf id w'.transfers = logOf id w.transfers)
  | born (s : Stream) (log : List TokenTransfer)
      (hcall : ∃ create, call = .create create) (hnone : w.streams id = none)
      (hstream : w'.streams id = some s) (hid : s.id = id)
      (hfresh : FreshStream ctx.now s) (hpays : CreationTransfers host.self s log)
      (hperformed : ∃ before after, Performed host.tokens log before after)
      (hlog : logOf id w'.transfers = log ++ logOf id w.transfers)
  | updated (s : Stream) (op : StreamOp) (log : List TokenTransfer)
      (streamCall : StreamCall) (hcall : call = .onStream id streamCall)
      (hs : w.streams id = some s) (hissues : Issues ctx w id s streamCall op)
      (hupdate : StreamUpdate host ctx w w' s op log)
      (hstream : w'.streams id = some (op.next ctx.now s))
      (hlog : logOf id w'.transfers = log ++ logOf id w.transfers)

theorem StreamChange.of_books {host : Host} {ctx : Context} {w w' : World}
    {id : Nat} {call : Call} (hbooks : books w' = books w) :
    StreamChange host ctx w w' id call := by
  have hstreams : w'.streams = w.streams := congrArg Books.streams hbooks
  have htransfers : w'.transfers = w.transfers :=
    congrArg Books.transfers hbooks
  exact .same (by rw [hstreams]) (by rw [htransfers])

/-- No call removes a stream. -/
theorem StreamChange.stored {host : Host} {ctx : Context} {w w' : World} {id : Nat}
    {call : Call} (h : StreamChange host ctx w w' id call) {s : Stream}
    (hs : w.streams id = some s) : ∃ s', w'.streams id = some s' := by
  cases h with
  | same hstream _ => exact ⟨s, hstream.trans hs⟩
  | born new log _ _ hstream _ _ _ _ _ => exact ⟨new, hstream⟩
  | updated old op log _ _ _ _ _ hstream _ => exact ⟨_, hstream⟩

theorem Created.streamChange {host : Host} {ctx : Context} {w w' : World}
    (h : Created host ctx w w') (hkeyed : Keyed w) (id : Nat) (call : CreateCall) :
    StreamChange host ctx w w' id (.create call) := by
  induction h with
  | done hbooks _hsettings => exact .of_books hbooks
  | @cons w middle w' s log hfirst _hrest ih =>
      have hlater := ih (hfirst.keyed hkeyed)
      have hbooked := hfirst.pays.bookedUnder
      by_cases hid : s.id = id
      · -- this is the stream in question; the later creations leave it alone
        subst hid
        have hnone : w.streams s.id = none :=
          hkeyed.not_stored (by rw [hfirst.id]; omega)
        have hmiddle : middle.streams s.id = some s := by
          rw [hfirst.streams, Function.update_self]
        have hmiddleLog : logOf s.id middle.transfers =
            log ++ logOf s.id w.transfers := by
          rw [hfirst.transfers, logOf_append, hbooked.logOf_self]
        cases hlater with
        | same hstream hlog =>
            exact .born s log ⟨call, rfl⟩ hnone (hstream.trans hmiddle) rfl
              hfirst.fresh hfirst.pays ⟨_, _, hfirst.performed⟩
              (hlog.trans hmiddleLog)
        | born other _ _ hother =>
            rw [hmiddle] at hother
            cases hother
        | updated _ _ _ _ hcall => cases hcall
      · have hmiddle : middle.streams id = w.streams id := by
          rw [hfirst.streams, Function.update_of_ne (Ne.symm hid)]
        have hmiddleLog : logOf id middle.transfers = logOf id w.transfers := by
          rw [hfirst.transfers, logOf_append, hbooked.logOf_of_ne hid,
            List.nil_append]
        cases hlater with
        | same hstream hlog =>
            exact .same (hstream.trans hmiddle) (hlog.trans hmiddleLog)
        | born other otherLog hcall hnone hstream hotherId hfresh hpays
            hperformed hlog =>
            rw [hmiddle] at hnone
            rw [hmiddleLog] at hlog
            exact .born other otherLog hcall hnone hstream hotherId hfresh hpays
              hperformed hlog
        | updated _ _ _ _ hcall => cases hcall

theorem StreamUpdate.streamChange {host : Host} {ctx : Context} {w w' : World}
    {s : Stream} {op : StreamOp} {log : List TokenTransfer} {streamId : Nat}
    {call : StreamCall} (h : StreamUpdate host ctx w w' s op log)
    (hs : w.streams streamId = some s)
    (hissues : Issues ctx w streamId s call op) (hkeyed : Keyed w) (id : Nat) :
    StreamChange host ctx w w' id (.onStream streamId call) := by
  have hbooked := h.pays.bookedUnder
  obtain rfl : s.id = streamId := (hkeyed streamId s hs).1
  by_cases hid : s.id = id
  · subst hid
    refine .updated s op log call rfl hs hissues h ?_ ?_
    · rw [h.streams, Function.update_self]
    · rw [h.transfers, logOf_append, hbooked.logOf_self]
  · refine .same ?_ ?_
    · rw [h.streams, Function.update_of_ne (Ne.symm hid)]
    · rw [h.transfers, logOf_append, hbooked.logOf_of_ne hid, List.nil_append]

theorem CallEffect.streamChange {host : Host} {ctx : Context} {w w' : World}
    {call : Call} (h : CallEffect host ctx w w' call) (hkeyed : Keyed w)
    (id : Nat) : StreamChange host ctx w w' id call := by
  cases h with
  | admin call _hguard hnext =>
      subst hnext
      exact .of_books (books_adminNext w call)
  | governance call hframe => exact .of_books hframe.books
  | create call hcreated => exact hcreated.streamChange hkeyed id call
  | onStream streamId call heffect =>
      rcases heffect with ⟨_, hbooks, _⟩ | ⟨s, op, log, hs, hissues, hupdate⟩
      · exact .of_books hbooks
      · exact hupdate.streamChange hs hissues hkeyed id
  | feePayout admin token amount _hauth _hadmin hpayout =>
      refine .same (by rw [hpayout.streams]) ?_
      rw [hpayout.transfers]
      rfl
  | query query hsame =>
      subst hsame
      exact .same rfl rfl
  | directTransfer token source target amount hdirect =>
      refine .same (by rw [hdirect.streams]) ?_
      rw [hdirect.transfers]
      rfl

/-! ## The funding of one stream -/

section Funding

variable {host : Host} {ctx : Context} {employer : Address} {setup : BatchSetup}
  {cooldownPeriod : Nat} {w w' : World} {params : List StreamParams}
  {news : List Stream}

theorem CreatesAll.logOf_of_not_mem
    (h : CreatesAll host ctx employer setup cooldownPeriod w params news w')
    {id : Nat} (hid : id ∉ news.map Stream.id) :
    logOf id w'.transfers = logOf id w.transfers := by
  induction h with
  | nil => rfl
  | cons hfirst _hrest ih =>
      rw [List.map_cons, List.mem_cons, not_or] at hid
      have hbooked := hfirst.created.pays.bookedUnder
      rw [ih hid.2, hfirst.created.transfers, logOf_append,
        hbooked.logOf_of_ne (Ne.symm hid.1), List.nil_append]

/-- The transfers booked under a new stream are the ones that fund it. -/
theorem CreatesAll.logOf_of_mem
    (h : CreatesAll host ctx employer setup cooldownPeriod w params news w')
    {s : Stream} (hs : s ∈ news) {p : StreamParams}
    (hp : params[s.id - w.streamCount - 1]? = some p) :
    logOf s.id w'.transfers =
      creationLog host.self setup s p.deposit ++ logOf s.id w.transfers := by
  induction h with
  | nil => cases hs
  | @cons w middle w' q params first news hfirst hrest ih =>
      have hid := hfirst.created.id
      have hcount := hfirst.created.streamCount
      have hbooked := hfirst.created.pays.bookedUnder
      rcases List.mem_cons.mp hs with rfl | hlater
      · -- the first one: the later creations book under larger ids
        have hnot : s.id ∉ news.map Stream.id := by
          rw [hrest.mem_ids]
          omega
        rw [hid, show w.streamCount + 1 - w.streamCount - 1 = 0 by omega] at hp
        cases hp
        rw [hrest.logOf_of_not_mem hnot, hfirst.created.transfers, logOf_append,
          hbooked.logOf_self]
      · have hlarger := (hrest.mem_ids s.id).mp (List.mem_map_of_mem hlater)
        rw [hcount] at hlarger
        have hplace : s.id - w.streamCount - 1 =
            (s.id - middle.streamCount - 1) + 1 := by
          omega
        rw [hplace, List.getElem?_cons_succ] at hp
        rw [ih hlater hp, hfirst.created.transfers, logOf_append,
          hbooked.logOf_of_ne (by omega), List.nil_append]

end Funding

/-- A stream that a creation call stored, with the request it was made for and
the transfers that fund it. -/
structure Birth (host : Host) (ctx : Context) (w w' : World) (call : CreateCall)
    (id : Nat) (s : Stream) (p : StreamParams) : Prop where
  fresh_id : w.streamCount < id
  request : (CreateCall.requests call)[id - w.streamCount - 1]? = some p
  deposit_pos : 0 < p.deposit
  parties : CreateCall.employer call ≠ p.employee
  record : s = requestedStream ctx (CreateCall.employer call) (creationSetup w)
    (CreateCall.cooldownPeriod call) p id
  log : logOf id w'.transfers =
    creationLog host.self (creationSetup w) s p.deposit ++ logOf id w.transfers

theorem birth_of_succeeds {host : Host} {w w' : World} {inv : Invocation}
    {value : Value} {call : CreateCall} (h : Succeeds host w inv value w')
    (hcall : inv.call = .create call) {id : Nat} {s : Stream}
    (hnone : w.streams id = none) (hs : w'.streams id = some s) :
    ∃ p, Birth host inv.toContext w w' call id s p := by
  obtain ⟨ctx, _, now_le, inRange⟩ := inv
  subst hcall
  unfold Succeeds at h
  change exec host ctx (.create call) w = .ok (value, w') at h
  obtain ⟨_, news, v, hall, rfl⟩ := execCreate_creates inRange h
  change v.streams id = some s at hs
  have hmem : id ∈ news.map Stream.id := by
    by_contra hnot
    rw [hall.stream_of_not_mem hnot, hnone] at hs
    cases hs
  have hfresh := ((hall.mem_ids id).mp hmem).1
  obtain ⟨new, hnew, rfl⟩ := List.mem_map.mp hmem
  rw [hall.stream_of_mem hnew] at hs
  cases hs
  obtain ⟨p, hp, hdeposit, hparties, hrecord⟩ := hall.requested hnew
  exact ⟨p, hfresh, hp, hdeposit, hparties, hrecord, hall.logOf_of_mem hnew hp⟩

/-- A call that returned, seen from one stream. -/
theorem streamChange_of_succeeds {host : Host} {history : History}
    {w w' : World} {inv : Invocation} {value : Value}
    (hrun : Reaches host history w) (h : Succeeds host w inv value w')
    (id : Nat) : StreamChange host inv.toContext w w' id inv.call :=
  (effect_of_succeeds h).streamChange (keyed_of_reaches hrun) id

/-- A call on a stream that cannot return idle applied its operation. -/
theorem updated_of_succeeds {host : Host} {history : History} {w w' : World}
    {inv : Invocation} {value : Value} {id : Nat} {call : StreamCall}
    (hrun : Reaches host history w) (h : Succeeds host w inv value w')
    (hcall : inv.call = .onStream id call)
    (hidle : StreamCall.mayIdle call = false) :
    ∃ s op, w.streams id = some s ∧ Issues inv.toContext w id s call op ∧
      op.Guard inv.now s ∧ w'.streams id = some (op.next inv.now s) := by
  have heffect := effect_of_succeeds h
  rw [hcall] at heffect
  cases heffect with
  | onStream _ _ heffect =>
      rcases heffect with ⟨hmay, _⟩ | ⟨s, op, log, hs, hissues, hupdate⟩
      · rw [hidle] at hmay
        cases hmay
      · obtain rfl : s.id = id := (keyed_of_reaches hrun id s hs).1
        refine ⟨s, op, hs, hissues, hupdate.guard, ?_⟩
        rw [hupdate.streams, Function.update_self]

/-- What a withdrawal that returned did, and the value it returned. -/
theorem withdraw_of_succeeds {host : Host} {w w' : World} {inv : Invocation}
    {value : Value} {id : Nat} {employee : Address}
    (h : Succeeds host w inv value w')
    (hcall : inv.call = .onStream id (.withdraw employee)) :
    ∃ s, w.streams id = some s ∧ s.employee = employee ∧
      employee ∈ inv.auth ∧
        ((claimableAmount s inv.now = .ok 0 ∧ w' = w ∧ value = .amount 0) ∨
          ∃ gross fee, withdrawalFee w.config.feeBps gross = .ok fee ∧
            value = .amount (max (saturatingSub gross fee) 0) ∧
            StreamUpdate host inv.toContext w w' s (.withdraw gross)
              (withdrawalTransfers host.self s gross fee w.feeRecipient)) := by
  unfold Succeeds at h
  rw [hcall] at h
  change (withdraw host inv.toContext employee id w).map _ = _ at h
  rw [map_eq_ok_iff] at h
  obtain ⟨⟨amount, after⟩, hwithdraw, hresult⟩ := h
  cases hresult
  obtain ⟨s, hs, hemployee, hauth, ⟨hzero, hsame, rfl⟩ | ⟨gross, fee, _, hfee, rfl,
    hguard, _, hdone⟩⟩ := withdraw_cases hwithdraw
  · exact ⟨s, hs, hemployee, hauth, Or.inl ⟨hzero, hsame, rfl⟩⟩
  · exact ⟨s, hs, hemployee, hauth, Or.inr ⟨gross, fee, hfee, rfl, hdone.update hguard hfee⟩⟩

/-- What every stream is born with and every operation keeps holds of every
stored stream. -/
theorem stored_of_reaches {host : Host} {P : Stream → Prop}
    (hborn : ∀ (inv : Invocation) w w' call id s p, inv.call = .create call →
      FreshStream inv.now s → Birth host inv.toContext w w' call id s p → P s)
    (hkept : ∀ now s (op : StreamOp), op.Guard now s → P s → P (op.next now s))
    {history : History} {w : World} (hrun : Reaches host history w) {id : Nat}
    {s : Stream} (hs : w.streams id = some s) : P s := by
  have hall : ∀ id s, w.streams id = some s → P s := by
    refine Reaches.invariant
      (P := fun _ w => ∀ id s, w.streams id = some s → P s) ?_ ?_ ?_ hrun
    · intro balances _ id s hs
      cases hs
    · intro history w inv value w' hrun _ hw hsucceeds id s hs
      cases streamChange_of_succeeds hrun hsucceeds id with
      | same hstream _ =>
          rw [hstream] at hs
          exact hw id s hs
      | born new log hcall hnone hstream _ hfresh _ _ _ =>
          obtain ⟨call, hcall⟩ := hcall
          obtain ⟨p, hbirth⟩ := birth_of_succeeds hsucceeds hcall hnone hs
          obtain rfl : s = new := Option.some.inj (hs.symm.trans hstream)
          exact hborn inv w w' call id s p hcall hfresh hbirth
      | updated old op log _ _ hold _ hupdate hstream _ =>
          rw [hstream] at hs
          cases hs
          exact hkept inv.now old op hupdate.guard (hw id old hold)
    · intro history w inv _ _ hw _ id s hs
      exact hw id s hs
  exact hall id s hs

end Semantics
end Paystream
