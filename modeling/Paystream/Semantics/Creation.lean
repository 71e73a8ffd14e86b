import Paystream.Semantics.Refinement

/-!
# Creation in detail

The single call and the loop of the batch do the same for one stream
(`createShared`): they validate, collect the deposit, give out the next id, store
the record and index it for the employee.  Around it the two differ in where
they check the stream limit, in the limiter of the batch, and in when the
employer's index is written.

`execCreate_creates` describes a creation call as a whole: the streams it stored,
one for each stream asked for and in the same order, and one write of the
employer's index with their ids.
-/

namespace Paystream
namespace Semantics

open Library
open Contract
open Contract.Storage
open Contract.StreamContract

/-! ## What is asked for -/

/-- The employer a creation call names. -/
def CreateCall.employer : CreateCall → Address
  | .createStream employer _ _ _ _ _ _ _ => employer
  | .createStreamsBatch employer _ => employer

/-- The streams a creation call asks for. -/
def CreateCall.requests : CreateCall → List StreamParams
  | .createStream _ employee tokenAddress deposit ratePerSecond stopTime _
      cliffTime =>
      [⟨employee, tokenAddress, deposit, ratePerSecond, stopTime, cliffTime⟩]
  | .createStreamsBatch _ params => params

/-- The cooldown of its streams; a batch gives none. -/
def CreateCall.cooldownPeriod : CreateCall → Nat
  | .createStream _ _ _ _ _ _ cooldownPeriod _ => cooldownPeriod
  | .createStreamsBatch _ _ => 0

/-- The settings a creation reads. -/
def creationSetup (w : World) : BatchSetup where
  minDeposit := w.config.minDeposit
  feeBps := w.config.feeBps
  feeRecipient := w.feeRecipient
  allowedTokens := w.allowedTokens

/-- The protocol fee on a deposit; without a recipient there is none. -/
def creationFee (setup : BatchSetup) (deposit : Int) : Int :=
  match setup.feeRecipient with
  | some _ => (deposit * (setup.feeBps : Int)).tdiv 10000
  | none => 0

/-- The transfers that fund the stream `s`, newest first.  A fee that rounds to
zero is sent too. -/
def creationLog (self : Address) (setup : BatchSetup) (s : Stream)
    (deposit : Int) : List TokenTransfer :=
  match setup.feeRecipient with
  | some recipient =>
      if 0 < setup.feeBps then
        [⟨.creationFee s.id, s.token, s.employer, recipient,
            creationFee setup deposit⟩,
          ⟨.deposit s.id, s.token, s.employer, self, s.deposit⟩]
      else
        [⟨.deposit s.id, s.token, s.employer, self, s.deposit⟩]
  | none => [⟨.deposit s.id, s.token, s.employer, self, s.deposit⟩]

/-- The record stored for one request. -/
def requestedStream (ctx : Context) (employer : Address) (setup : BatchSetup)
    (cooldownPeriod : Nat) (p : StreamParams) (id : Nat) : Stream :=
  newStream id employer p.employee p.token
    (p.deposit - creationFee setup p.deposit) p.ratePerSecond ctx.now p.stopTime
    cooldownPeriod p.cliffTime

/-! ## The shared part -/

/-- What the single call and one iteration of the batch have in common. -/
def createShared (host : Host) (ctx : Context) (employer : Address)
    (setup : BatchSetup) (cooldownPeriod : Nat) (p : StreamParams) (w : World) :
    Except String (Nat × World) := do
  validateCreateStream p.deposit setup.minDeposit p.ratePerSecond p.stopTime
    p.cliffTime ctx.now employer p.employee
  ensure (setup.allowedTokens.isEmpty || decide (p.token ∈ setup.allowedTokens))
    errTokenNotAllowed
  requireToken host p.token
  let ((reported, netDeposit), w) ← collectDeposit host employer p.token
    p.deposit setup.feeBps setup.feeRecipient w
  let (id, w) ← nextId w
  let w := saveStream w (newStream id employer p.employee p.token netDeposit
    p.ratePerSecond ctx.now p.stopTime cooldownPeriod p.cliffTime)
  let w := indexEmployeeStream w p.employee id
  return (id, w.emit
    (.streamCreated id employer p.employee p.ratePerSecond reported))

/-- The single call: the shared part, behind the guards of the employer, with
the employer's index written at once. -/
theorem createStream_eq_ok_iff (host : Host) (ctx : Context)
    (employer employee token : Address) (deposit rate : Int)
    (stopTime cooldownPeriod cliffTime : Nat) (w w' : World) (id : Nat) :
    createStream host ctx employer employee token deposit rate stopTime
        cooldownPeriod cliffTime w = .ok (id, w') ↔
      employer ∈ ctx.auth ∧ w.config.paused = false ∧
        (w.employerStreams employer).length < w.config.maxStreams ∧
        ∃ v, createShared host ctx employer (creationSetup w) cooldownPeriod
            ⟨employee, token, deposit, rate, stopTime, cliffTime⟩ w =
          .ok (id, v) ∧ w' = indexEmployerStream v employer id := by
  simp only [createStream, createShared, creationSetup, validateMaxStreams,
    isTokenAllowed, bind_eq_ok_iff, requireAuth_eq_ok_iff, ensure_eq_ok_iff,
    decide_eq_true_eq, Bool.not_eq_true', pure_eq_ok_iff, Prod.mk.injEq]
  constructor
  · rintro ⟨_, hauth, _, hpaused, _, hlimit, _, hvalid, _, htoken, _, hallowed,
      collected, hcollect, next, hnext, rfl, rfl⟩
    exact ⟨hauth, hpaused, hlimit, _, ⟨(), hvalid, (), hallowed, (), htoken,
      collected, hcollect, next, hnext, rfl, rfl⟩, rfl⟩
  · rintro ⟨hauth, hpaused, hlimit, _, ⟨_, hvalid, _, hallowed, _, htoken,
      collected, hcollect, next, hnext, rfl, rfl⟩, rfl⟩
    exact ⟨(), hauth, (), hpaused, (), hlimit, (), hvalid, (), htoken, (),
      hallowed, collected, hcollect, next, hnext, rfl, rfl⟩

/-- One iteration of the batch: the limiter, and the shared part without a
cooldown. -/
theorem createBatchItem_eq_ok_iff (host : Host) (ctx : Context)
    (employer : Address) (setup : BatchSetup) (p : StreamParams) (w w' : World)
    (id : Nat) :
    createBatchItem host ctx employer setup p w = .ok (id, w') ↔
      ∃ rateState, host.rateLimit ctx.now employer w.rateState = .ok rateState ∧
        createShared host ctx employer setup 0 p { w with rateState } =
          .ok (id, w') := by
  simp only [createBatchItem, createShared, checkAndBumpRate, bind_eq_ok_iff,
    pure_eq_ok_iff]
  constructor
  · rintro ⟨_, hvalid, _, hallowed, _, ⟨rateState, hrate, rfl⟩, _, htoken, h⟩
    exact ⟨rateState, hrate, (), hvalid, (), hallowed, (), htoken, h⟩
  · rintro ⟨rateState, hrate, _, hvalid, _, hallowed, _, htoken, h⟩
    exact ⟨(), hvalid, (), hallowed, _, ⟨rateState, hrate, rfl⟩, (), htoken, h⟩

/-! ## What the shared part does -/

theorem collectDeposit_exact {host : Host} {employer token : Address}
    {deposit net : Int} {reported : Nat} {setup : BatchSetup} {w w' : World}
    (h : collectDeposit host employer token deposit setup.feeBps
      setup.feeRecipient w = .ok ((reported, net), w')) :
    net = deposit - creationFee setup deposit ∧
      ∀ s : Stream, s.id = w.streamCount + 1 → s.token = token →
        s.employer = employer → s.deposit = net →
          Moved host w w' (creationLog host.self setup s deposit) := by
  unfold collectDeposit at h
  simp only at h
  split at h
  · rename_i hfee
    cases hrecipient : setup.feeRecipient with
    | some recipient =>
        simp only [hrecipient, bind_eq_ok_iff, expect_eq_ok_iff,
          checkedMul_eq_some_iff, pure_eq_ok_iff, Prod.mk.injEq] at h
        obtain ⟨_, ⟨_, rfl⟩, w₁, hfirst, w₂, hsecond, ⟨_, rfl⟩, rfl⟩ := h
        refine ⟨by simp only [creationFee, hrecipient], ?_⟩
        intro s hid htoken hemployer hdeposit
        simp only [creationLog, creationFee, hrecipient, if_pos hfee]
        rw [hid, htoken, hemployer, hdeposit]
        exact (tokenTransfer_moved hfirst).append (tokenTransfer_moved hsecond)
    | none =>
        simp only [hrecipient, bind_eq_ok_iff, pure_eq_ok_iff,
          Prod.mk.injEq] at h
        obtain ⟨w₁, hmove, ⟨_, rfl⟩, rfl⟩ := h
        refine ⟨by simp only [creationFee, hrecipient, sub_zero], ?_⟩
        intro s hid htoken hemployer hdeposit
        simp only [creationLog, hrecipient]
        rw [hid, htoken, hemployer, hdeposit]
        exact tokenTransfer_moved hmove
  · rename_i hfee
    simp only [bind_eq_ok_iff, pure_eq_ok_iff, Prod.mk.injEq] at h
    obtain ⟨w₁, hmove, ⟨_, rfl⟩, rfl⟩ := h
    -- with no fee to take, the recipient makes no difference
    have hzero : setup.feeBps = 0 := by omega
    cases hrecipient : setup.feeRecipient with
    | some recipient =>
        refine ⟨by simp [creationFee, hrecipient, hzero], ?_⟩
        intro s hid htoken hemployer hdeposit
        simp only [creationLog, hrecipient, if_neg hfee]
        rw [hid, htoken, hemployer, hdeposit]
        exact tokenTransfer_moved hmove
    | none =>
        refine ⟨by simp only [creationFee, hrecipient, sub_zero], ?_⟩
        intro s hid htoken hemployer hdeposit
        simp only [creationLog, hrecipient]
        rw [hid, htoken, hemployer, hdeposit]
        exact tokenTransfer_moved hmove

/-- `w'` is `w` with the stream `s` created for the request `p`. -/
structure CreatesOne (host : Host) (ctx : Context) (employer : Address)
    (setup : BatchSetup) (cooldownPeriod : Nat) (p : StreamParams)
    (w w' : World) (s : Stream) : Prop where
  deposit_pos : 0 < p.deposit
  parties : employer ≠ p.employee
  record : s = requestedStream ctx employer setup cooldownPeriod p
    (w.streamCount + 1)
  created : CreateOne host ctx w w' s
    (creationLog host.self setup s p.deposit)
  records : records w' = records (indexEmployeeStream w p.employee s.id)

theorem creationFee_nonneg (setup : BatchSetup) {deposit : Int}
    (h : 0 ≤ deposit) : 0 ≤ creationFee setup deposit := by
  unfold creationFee
  split
  · exact Int.tdiv_nonneg (by positivity) (by norm_num)
  · exact le_rfl

theorem creationLog_transfers (self : Address) (setup : BatchSetup) (s : Stream)
    (deposit : Int) :
    CreationTransfers self s (creationLog self setup s deposit) := by
  unfold creationLog
  split
  · split
    · exact .withFee _ _
    · exact .depositOnly
  · exact .depositOnly

theorem createShared_creates {host : Host} {ctx : Context} {employer : Address}
    {setup : BatchSetup} {cooldownPeriod id : Nat} {p : StreamParams}
    {w w' : World} (hauth : employer ∈ ctx.auth) (hrange : InI128 p.deposit)
    (h : createShared host ctx employer setup cooldownPeriod p w =
      .ok (id, w')) :
    ∃ s, id = s.id ∧
      CreatesOne host ctx employer setup cooldownPeriod p w w' s := by
  simp only [createShared, nextId, bind_eq_ok_iff, expect_eq_ok_iff,
    checkedAddU64_eq_some_iff, pure_eq_ok_iff, Prod.mk.injEq] at h
  obtain ⟨_, hvalid, _, _, _, _, ⟨⟨reported, net⟩, w₁⟩, hcollect, _,
    ⟨_, ⟨_, rfl⟩, rfl⟩, rfl, rfl⟩ := h
  obtain ⟨rfl, hmoved⟩ := collectDeposit_exact hcollect
  obtain ⟨hdeposit, hrate, hmax, hstop, hcliff⟩ := validateCreateStream_ok hvalid
  have hparties := validateCreateStream_parties hvalid
  have hfee := creationFee_nonneg setup hdeposit.le
  -- the transfers leave the counter, so the id is the one they were booked under
  obtain ⟨hperformed, hsame⟩ := hmoved
    (requestedStream ctx employer setup cooldownPeriod p (w.streamCount + 1))
    rfl rfl rfl rfl
  have hcount : w₁.streamCount = w.streamCount := by
    rw [hsame]
  rw [hcount]
  refine ⟨requestedStream ctx employer setup cooldownPeriod p
    (w.streamCount + 1), rfl, ?_⟩
  exact
    { deposit_pos := hdeposit
      parties := hparties
      record := rfl
      created :=
        { fresh :=
            { withdrawn := rfl
              deposit_le := by
                show p.deposit - creationFee setup p.deposit ≤ i128Max
                have := hrange.2
                omega
              rate_pos := hrate
              rate_le := hmax
              startTime := rfl
              lastWithdrawTime := rfl
              stop_after := hstop
              cliff_le_stop := hcliff
              status := rfl
              unlocked := rfl
              pausedAt := rfl }
          id := rfl
          signed := hauth
          pays := creationLog_transfers _ _ _ _
          performed := hperformed
          streams := by rw [hsame]; rfl
          streamCount := rfl
          feeBalance := by rw [hsame]; rfl
          transfers := by rw [hsame]; rfl
          sameSettings := by rw [hsame]; rfl }
      records := by rw [hsame]; rfl }

/-! ## Whole calls -/

/-- `w'` is `w` with the streams `news` created for the requests, in order. -/
inductive CreatesAll (host : Host) (ctx : Context) (employer : Address)
    (setup : BatchSetup) (cooldownPeriod : Nat) :
    World → List StreamParams → List Stream → World → Prop
  | nil {w : World} : CreatesAll host ctx employer setup cooldownPeriod w [] [] w
  | cons {w middle w' : World} {p : StreamParams} {params : List StreamParams}
      {s : Stream} {news : List Stream}
      (hfirst : CreatesOne host ctx employer setup cooldownPeriod p w middle s)
      (hrest : CreatesAll host ctx employer setup cooldownPeriod middle params
        news w') :
      CreatesAll host ctx employer setup cooldownPeriod w (p :: params)
        (s :: news) w'

theorem createBatchLoop_creates {host : Host} {ctx : Context}
    {employer : Address} {setup : BatchSetup} {params : List StreamParams}
    {ids : List Nat} {w w' : World} (hauth : employer ∈ ctx.auth)
    (hrange : ∀ p ∈ params, InI128 p.deposit)
    (h : createBatchLoop host ctx employer setup params w = .ok (ids, w')) :
    ∃ news, ids = news.map Stream.id ∧
      CreatesAll host ctx employer setup 0 w params news w' := by
  induction params generalizing w ids with
  | nil =>
      cases h
      exact ⟨[], rfl, .nil⟩
  | cons p rest ih =>
      simp only [createBatchLoop, bind_eq_ok_iff, pure_eq_ok_iff,
        Prod.mk.injEq] at h
      obtain ⟨⟨id, middle⟩, hitem, ⟨ids', _⟩, hloop, rfl, rfl⟩ := h
      obtain ⟨rateState, _, hitem⟩ :=
        (createBatchItem_eq_ok_iff _ _ _ _ _ _ _ _).mp hitem
      obtain ⟨hdeposit, hlater⟩ := List.forall_mem_cons.mp hrange
      obtain ⟨s, rfl, hfirst⟩ := createShared_creates hauth hdeposit hitem
      obtain ⟨news, rfl, hrest⟩ := ih hlater hloop
      -- the limiter's own state is in none of the views
      have hsame : CreatesOne host ctx employer setup 0 p w middle s :=
        { hfirst with created := { hfirst.created with } }
      exact ⟨s :: news, rfl, .cons hsame hrest⟩

/-- A creation call stores its streams and writes the employer's index once. -/
theorem execCreate_creates {host : Host} {ctx : Context} {call : CreateCall}
    {w w' : World} {value : Value} (hrange : (Call.create call).inRange = true)
    (h : execCreate host ctx call w = .ok (value, w')) :
    CreateCall.employer call ∈ ctx.auth ∧ ∃ news v,
      CreatesAll host ctx (CreateCall.employer call) (creationSetup w)
        (CreateCall.cooldownPeriod call) w (CreateCall.requests call) news v ∧
      w' = indexEmployerStreamsBatch v (CreateCall.employer call)
        (news.map Stream.id) := by
  cases call with
  | createStream employer employee token deposit rate stopTime cooldownPeriod
      cliffTime =>
      simp only [execCreate, map_eq_ok_iff] at h
      obtain ⟨⟨id, w₁⟩, hcreate, heq⟩ := h
      cases heq
      have hdeposit : InI128 deposit := by
        simp only [Call.inRange, Bool.and_eq_true, decide_eq_true_eq] at hrange
        exact hrange.1.1.1.1
      obtain ⟨hauth, _, _, v, hshared, rfl⟩ :=
        (createStream_eq_ok_iff _ _ _ _ _ _ _ _ _ _ _ _ _).mp hcreate
      obtain ⟨s, rfl, hfirst⟩ := createShared_creates hauth hdeposit hshared
      exact ⟨hauth, [s], v, .cons hfirst .nil, rfl⟩
  | createStreamsBatch employer params =>
      simp only [execCreate, createStreamsBatch, map_eq_ok_iff, bind_eq_ok_iff,
        requireAuth_eq_ok_iff, pure_eq_ok_iff] at h
      obtain ⟨_, ⟨_, hauth, _, _, _, _, _, _, _, _, ⟨ids, w₁⟩, hloop, rfl⟩,
        heq⟩ := h
      cases heq
      have hparams : ∀ p ∈ params, InI128 p.deposit := by
        intro p hp
        simp only [Call.inRange, Bool.and_eq_true, List.all_eq_true] at hrange
        have hp := hrange.2 p hp
        simp only [StreamParams.inRange, Bool.and_eq_true,
          decide_eq_true_eq] at hp
        exact hp.1.1.1
      obtain ⟨news, rfl, hall⟩ := createBatchLoop_creates hauth hparams hloop
      exact ⟨hauth, news, w₁, hall, rfl⟩

/-! ## The streams a call created -/

section CreatesAll

variable {host : Host} {ctx : Context} {employer : Address} {setup : BatchSetup}
  {cooldownPeriod : Nat} {w w' : World} {params : List StreamParams}
  {news : List Stream}

theorem CreatesAll.created
    (h : CreatesAll host ctx employer setup cooldownPeriod w params news w') :
    Created host ctx w w' := by
  induction h with
  | nil => exact .done rfl rfl
  | cons hfirst _hrest ih => exact .cons hfirst.created ih

theorem CreatesAll.streamCount
    (h : CreatesAll host ctx employer setup cooldownPeriod w params news w') :
    w'.streamCount = w.streamCount + news.length := by
  induction h with
  | nil => rfl
  | cons hfirst _hrest ih =>
      rw [ih, hfirst.created.streamCount, List.length_cons]
      omega

/-- The ids continue the count. -/
theorem CreatesAll.ids
    (h : CreatesAll host ctx employer setup cooldownPeriod w params news w') :
    news.map Stream.id = List.range' (w.streamCount + 1) news.length := by
  induction h with
  | nil => rfl
  | cons hfirst _hrest ih =>
      rw [List.map_cons, ih, hfirst.created.streamCount, hfirst.created.id,
        List.length_cons, List.range'_succ]

theorem CreatesAll.mem_ids
    (h : CreatesAll host ctx employer setup cooldownPeriod w params news w')
    (id : Nat) :
    id ∈ news.map Stream.id ↔ w.streamCount < id ∧ id ≤ w'.streamCount := by
  rw [h.ids, h.streamCount, List.mem_range'_1]
  omega

theorem CreatesAll.stream_of_not_mem
    (h : CreatesAll host ctx employer setup cooldownPeriod w params news w')
    {id : Nat} (hid : id ∉ news.map Stream.id) :
    w'.streams id = w.streams id := by
  induction h with
  | nil => rfl
  | cons hfirst _hrest ih =>
      rw [List.map_cons, List.mem_cons, not_or] at hid
      rw [ih hid.2, hfirst.created.streams, Function.update_of_ne hid.1]

theorem CreatesAll.stream_of_mem
    (h : CreatesAll host ctx employer setup cooldownPeriod w params news w')
    {s : Stream} (hs : s ∈ news) : w'.streams s.id = some s := by
  induction h with
  | nil => cases hs
  | @cons w middle w' p params first news hfirst hrest ih =>
      rcases List.mem_cons.mp hs with rfl | hlater
      · -- the later ids are larger
        have hnot : s.id ∉ news.map Stream.id := by
          rw [hrest.mem_ids, hfirst.created.streamCount, hfirst.created.id]
          omega
        rw [hrest.stream_of_not_mem hnot, hfirst.created.streams,
          Function.update_self]
      · exact ih hlater

theorem CreatesAll.length
    (h : CreatesAll host ctx employer setup cooldownPeriod w params news w') :
    news.length = params.length := by
  induction h with
  | nil => rfl
  | cons _hfirst _hrest ih => rw [List.length_cons, List.length_cons, ih]

/-- Every record is the one the request at its place asked for. -/
theorem CreatesAll.requested
    (h : CreatesAll host ctx employer setup cooldownPeriod w params news w')
    {s : Stream} (hs : s ∈ news) :
    ∃ p, params[s.id - w.streamCount - 1]? = some p ∧ 0 < p.deposit ∧
      employer ≠ p.employee ∧
      s = requestedStream ctx employer setup cooldownPeriod p s.id := by
  induction h with
  | nil => cases hs
  | @cons w middle w' p params first news hfirst hrest ih =>
      have hid := hfirst.created.id
      rcases List.mem_cons.mp hs with rfl | hlater
      · refine ⟨p, ?_, hfirst.deposit_pos, hfirst.parties, ?_⟩
        · rw [hid, show w.streamCount + 1 - w.streamCount - 1 = 0 by omega]
          rfl
        · rw [hid]
          exact hfirst.record
      · obtain ⟨q, hq, hdeposit, hparties, hrecord⟩ := ih hlater
        refine ⟨q, ?_, hdeposit, hparties, hrecord⟩
        have hlarger := (hrest.mem_ids s.id).mp (List.mem_map_of_mem hlater)
        rw [hfirst.created.streamCount] at hq hlarger
        rw [show s.id - w.streamCount - 1 =
          (s.id - (w.streamCount + 1) - 1) + 1 by omega, List.getElem?_cons_succ]
        exact hq

theorem CreatesAll.employeeStreams
    (h : CreatesAll host ctx employer setup cooldownPeriod w params news w')
    (address : Address) :
    w'.employeeStreams address = w.employeeStreams address ++
      (news.filter (fun s => decide (s.employee = address))).map Stream.id := by
  induction h with
  | nil => simp
  | @cons w middle w' p params s news hfirst _hrest ih =>
      have hmiddle : middle.employeeStreams =
          Function.update w.employeeStreams p.employee
            (w.employeeStreams p.employee ++ [s.id]) :=
        congrArg Records.employeeStreams hfirst.records
      have hemployee : s.employee = p.employee := by
        rw [hfirst.record]
        rfl
      rw [ih, hmiddle, List.filter_cons, hemployee]
      by_cases haddress : p.employee = address
      · subst haddress
        simp
      · simp [haddress, Function.update_of_ne (Ne.symm haddress)]

/-- The records a creation leaves alone until its end. -/
theorem CreatesAll.sameRecords
    (h : CreatesAll host ctx employer setup cooldownPeriod w params news w') :
    w'.employerStreams = w.employerStreams ∧
      w'.pendingEmployer = w.pendingEmployer ∧
      w'.pauseHistory = w.pauseHistory := by
  induction h with
  | nil => exact ⟨rfl, rfl, rfl⟩
  | cons hfirst _hrest ih =>
      obtain ⟨hemployer, hpending, hpauses⟩ := ih
      exact ⟨hemployer.trans (congrArg Records.employerStreams hfirst.records),
        hpending.trans (congrArg Records.pendingEmployer hfirst.records),
        hpauses.trans (congrArg Records.pauseHistory hfirst.records)⟩

end CreatesAll

/-- A creation call seen from outside: it stored the streams `news` under the
next ids, one for each request, and appended every id to the list of its employer
and to that of its employee. -/
structure CreationView (ctx : Context) (w w' : World) (call : CreateCall)
    (news : List Stream) : Prop where
  signed : CreateCall.employer call ∈ ctx.auth
  length : news.length = (CreateCall.requests call).length
  requested : ∀ s ∈ news, ∃ p,
    (CreateCall.requests call)[s.id - w.streamCount - 1]? = some p ∧
      0 < p.deposit ∧ CreateCall.employer call ≠ p.employee ∧
      s = requestedStream ctx (CreateCall.employer call) (creationSetup w)
        (CreateCall.cooldownPeriod call) p s.id
  ids : news.map Stream.id = List.range' (w.streamCount + 1) news.length
  streamCount : w'.streamCount = w.streamCount + news.length
  stored : ∀ s ∈ news, w'.streams s.id = some s
  others : ∀ id, id ∉ news.map Stream.id → w'.streams id = w.streams id
  employerStreams : ∀ address, w'.employerStreams address =
    w.employerStreams address ++
      (news.filter (fun s => decide (s.employer = address))).map Stream.id
  employeeStreams : ∀ address, w'.employeeStreams address =
    w.employeeStreams address ++
      (news.filter (fun s => decide (s.employee = address))).map Stream.id
  pendingEmployer : w'.pendingEmployer = w.pendingEmployer
  pauseHistory : w'.pauseHistory = w.pauseHistory

/-- The parties of a new stream are the ones named for it. -/
theorem CreationView.parties {ctx : Context} {w w' : World} {call : CreateCall}
    {news : List Stream} (h : CreationView ctx w w' call news) {s : Stream}
    (hs : s ∈ news) :
    s.employer = CreateCall.employer call ∧ s.employer ≠ s.employee ∧
      ∃ p, (CreateCall.requests call)[s.id - w.streamCount - 1]? = some p ∧
        s.employee = p.employee := by
  obtain ⟨p, hp, _, hparties, hrecord⟩ := h.requested s hs
  have hemployer : s.employer = CreateCall.employer call := by
    rw [hrecord]
    rfl
  have hemployee : s.employee = p.employee := by
    rw [hrecord]
    rfl
  rw [hemployer, hemployee]
  exact ⟨rfl, hparties, p, hp, rfl⟩

theorem CreationView.mem_ids {ctx : Context} {w w' : World} {call : CreateCall}
    {news : List Stream} (h : CreationView ctx w w' call news) (id : Nat) :
    id ∈ news.map Stream.id ↔ w.streamCount < id ∧ id ≤ w'.streamCount := by
  rw [h.ids, h.streamCount, List.mem_range'_1]
  omega

theorem creation_of_succeeds {host : Host} {w w' : World} {inv : Invocation}
    {value : Value} {call : CreateCall} (h : Succeeds host w inv value w')
    (hcall : inv.call = .create call) :
    ∃ news, CreationView inv.toContext w w' call news := by
  obtain ⟨ctx, _, now_le, inRange⟩ := inv
  subst hcall
  unfold Succeeds at h
  change exec host ctx (.create call) w = .ok (value, w') at h
  obtain ⟨hauth, news, v, hall, rfl⟩ := execCreate_creates inRange h
  obtain ⟨hemployer, hpending, hpauses⟩ := hall.sameRecords
  refine ⟨news, hauth, hall.length, fun s hs => hall.requested hs, hall.ids,
    hall.streamCount, fun s hs => hall.stream_of_mem hs, fun id hid => hall.stream_of_not_mem hid,
    ?_, hall.employeeStreams, hpending, hpauses⟩
  intro address
  -- all the new streams are the caller's
  have hown : ∀ s ∈ news, s.employer = CreateCall.employer call := by
    intro s hs
    obtain ⟨p, _, _, _, hrecord⟩ := hall.requested hs
    rw [hrecord]
    rfl
  show Function.update v.employerStreams (CreateCall.employer call)
    (v.employerStreams (CreateCall.employer call) ++ news.map Stream.id)
      address = _
  rw [hemployer]
  by_cases haddress : address = CreateCall.employer call
  · subst haddress
    rw [Function.update_self, List.filter_eq_self.mpr]
    intro s hs
    exact decide_eq_true (hown s hs)
  · rw [Function.update_of_ne haddress, List.filter_eq_nil_iff.mpr]
    · simp
    · intro s hs hkey
      rw [hown s hs] at hkey
      exact haddress (of_decide_eq_true hkey).symm

/-! ## What was checked -/

/-- The checks that both creation paths make of one request: the validation, and
the allowlist as it was read. -/
structure RequestChecked (setup : BatchSetup) (now : Nat) (employer : Address)
    (p : StreamParams) : Prop where
  valid : validateCreateStream p.deposit setup.minDeposit p.ratePerSecond
    p.stopTime p.cliffTime now employer p.employee = .ok ()
  allowed : setup.allowedTokens = [] ∨ p.token ∈ setup.allowedTokens

theorem createShared_checked {host : Host} {ctx : Context} {employer : Address}
    {setup : BatchSetup} {cooldownPeriod id : Nat} {p : StreamParams}
    {w w' : World}
    (h : createShared host ctx employer setup cooldownPeriod p w =
      .ok (id, w')) : RequestChecked setup ctx.now employer p := by
  simp only [createShared, bind_eq_ok_iff, ensure_eq_ok_iff, Bool.or_eq_true,
    List.isEmpty_iff, decide_eq_true_eq] at h
  obtain ⟨_, hvalid, _, hallowed, _⟩ := h
  exact ⟨hvalid, hallowed⟩

theorem createBatchLoop_checked {host : Host} {ctx : Context}
    {employer : Address} {setup : BatchSetup} {params : List StreamParams}
    {ids : List Nat} {w w' : World}
    (h : createBatchLoop host ctx employer setup params w = .ok (ids, w')) :
    ∀ p ∈ params, RequestChecked setup ctx.now employer p := by
  induction params generalizing w ids with
  | nil =>
      intro p hp
      cases hp
  | cons first rest ih =>
      simp only [createBatchLoop, bind_eq_ok_iff, pure_eq_ok_iff,
        Prod.mk.injEq] at h
      obtain ⟨⟨id, middle⟩, hitem, ⟨ids', _⟩, hloop, rfl, rfl⟩ := h
      obtain ⟨_, _, hitem⟩ :=
        (createBatchItem_eq_ok_iff _ _ _ _ _ _ _ _).mp hitem
      exact List.forall_mem_cons.mpr ⟨createShared_checked hitem, ih hloop⟩

/-- A creation call that returned was asked for some stream, and checked each
against the settings it found. -/
theorem requests_checked {host : Host} {w w' : World} {inv : Invocation}
    {value : Value} {call : CreateCall} (h : Succeeds host w inv value w')
    (hcall : inv.call = .create call) :
    CreateCall.requests call ≠ [] ∧ ∀ p ∈ CreateCall.requests call,
      RequestChecked (creationSetup w) inv.now (CreateCall.employer call) p := by
  obtain ⟨ctx, _, now_le, inRange⟩ := inv
  subst hcall
  unfold Succeeds at h
  change execCreate host ctx call w = .ok (value, w') at h
  cases call with
  | createStream employer employee token deposit rate stopTime cooldownPeriod
      cliffTime =>
      simp only [execCreate, map_eq_ok_iff] at h
      obtain ⟨⟨id, w₁⟩, hcreate, _⟩ := h
      obtain ⟨_, _, _, v, hshared, _⟩ :=
        (createStream_eq_ok_iff _ _ _ _ _ _ _ _ _ _ _ _ _).mp hcreate
      refine ⟨List.cons_ne_nil _ _, ?_⟩
      intro p hp
      obtain rfl := List.mem_singleton.mp hp
      exact createShared_checked hshared
  | createStreamsBatch employer params =>
      simp only [execCreate, createStreamsBatch, map_eq_ok_iff, bind_eq_ok_iff,
        ensure_eq_ok_iff, Bool.not_eq_true', List.isEmpty_eq_false_iff] at h
      obtain ⟨_, ⟨_, _, _, _, _, hsome, _, _, _, _, ⟨ids, w₁⟩, hloop, _⟩, _⟩ := h
      exact ⟨hsome, createBatchLoop_checked hloop⟩

/-- In particular it validated each of them. -/
theorem requests_validated {host : Host} {w w' : World} {inv : Invocation}
    {value : Value} {call : CreateCall} (h : Succeeds host w inv value w')
    (hcall : inv.call = .create call) :
    ∀ p ∈ CreateCall.requests call,
      validateCreateStream p.deposit w.config.minDeposit p.ratePerSecond
        p.stopTime p.cliffTime inv.now (CreateCall.employer call) p.employee =
          .ok () :=
  fun p hp => ((requests_checked h hcall).2 p hp).valid

end Semantics
end Paystream
