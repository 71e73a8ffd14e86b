import Paystream.Semantics.Steps

/-!
# A batch is a sequence of single creations

`create_streams_batch` reads the settings once, checks the stream limit once for
all its streams, and writes the employer's index once at the end.  Calling
`create_stream` for each of them in order (`createEach`) reads, checks and writes
every time.  Both return on the same inputs, with the same ids and the same
world: streams, counter, indexes, balances, transfers and events
(`batch_eq_single_creations`).

The employer's index is the only part of the world in which the two differ on
the way.  The loop invariant is that the single calls run ahead of the batch by
exactly the ids created so far.
-/

namespace Paystream
namespace Properties

open Library
open Contract
open Contract.Storage
open Contract.StreamContract
open Semantics

/-- `create_stream` for each of the parameters in order, without a cooldown and
at the same ledger time; the first panic ends it. -/
def createEach (host : Host) (ctx : Context) (employer : Address) :
    List StreamParams → World → Except String (List Nat × World)
  | [], w => .ok ([], w)
  | p :: rest, w => do
      let (id, w) ← createStream host ctx employer p.employee p.token p.deposit
        p.ratePerSecond p.stopTime 0 p.cliffTime w
      let (ids, w) ← createEach host ctx employer rest w
      return (id :: ids, w)

/-- The rate limiter lets every call pass and remembers nothing. -/
def LimiterIdle (host : Host) : Prop :=
  ∀ now employer state, host.rateLimit now employer state = .ok state

/-! ## The employer's index on the way -/

theorem indexEmployerStreamsBatch_nil (w : World) (employer : Address) :
    indexEmployerStreamsBatch w employer [] = w := by
  unfold indexEmployerStreamsBatch
  rw [List.append_nil, Function.update_eq_self]

theorem indexEmployerStreamsBatch_append (w : World) (employer : Address)
    (earlier later : List Nat) :
    indexEmployerStreamsBatch (indexEmployerStreamsBatch w employer earlier)
        employer later =
      indexEmployerStreamsBatch w employer (earlier ++ later) := by
  unfold indexEmployerStreamsBatch
  simp only [Function.update_self, Function.update_idem, List.append_assoc]

section Ahead

variable (host : Host) (ctx : Context) (employer : Address) (ids : List Nat)

theorem tokenTransfer_ahead (transfer : TokenTransfer) (w : World) :
    tokenTransfer host transfer (indexEmployerStreamsBatch w employer ids) =
      (tokenTransfer host transfer w).map
        fun v => indexEmployerStreamsBatch v employer ids := by
  have hbalances : (indexEmployerStreamsBatch w employer ids).balances =
      w.balances := rfl
  unfold tokenTransfer
  rw [hbalances]
  cases perform host.tokens transfer w.balances with
  | none => rfl
  | some balances => rfl

theorem collectDeposit_ahead (token : Address) (deposit : Int) (feeBps : Nat)
    (feeRecipient : Option Address) (w : World) :
    collectDeposit host employer token deposit feeBps feeRecipient
        (indexEmployerStreamsBatch w employer ids) =
      (collectDeposit host employer token deposit feeBps feeRecipient w).map
        fun (collected, v) =>
          (collected, indexEmployerStreamsBatch v employer ids) := by
  -- the counter under which the transfers are booked is the same
  have hcount : (indexEmployerStreamsBatch w employer ids).streamCount =
      w.streamCount := rfl
  unfold collectDeposit
  simp only [hcount, tokenTransfer_ahead]
  split
  · split
    · rename_i recipient
      cases expect (checkedMul deposit (feeBps : Int)) errOverflow with
      | error message => rfl
      | ok product =>
          simp only [bind, Except.bind]
          cases tokenTransfer host ⟨.deposit (w.streamCount + 1), token, employer,
            host.self, deposit - product.tdiv 10000⟩ w with
          | error message => rfl
          | ok w₁ =>
              simp only [Except.map, tokenTransfer_ahead]
              cases tokenTransfer host ⟨.creationFee (w.streamCount + 1), token,
                employer, recipient, product.tdiv 10000⟩ w₁ with
              | error message => rfl
              | ok w₂ => rfl
    · cases tokenTransfer host ⟨.deposit (w.streamCount + 1), token, employer,
        host.self, deposit⟩ w with
      | error message => rfl
      | ok w₁ => rfl
  · cases tokenTransfer host ⟨.deposit (w.streamCount + 1), token, employer,
      host.self, deposit⟩ w with
    | error message => rfl
    | ok w₁ => rfl

/-- The shared part of a creation neither reads nor writes the employer's
index. -/
theorem createShared_ahead (setup : BatchSetup) (cooldownPeriod : Nat)
    (p : StreamParams) (w : World) (id : Nat) (v' : World) :
    createShared host ctx employer setup cooldownPeriod p
        (indexEmployerStreamsBatch w employer ids) = .ok (id, v') ↔
      ∃ v, createShared host ctx employer setup cooldownPeriod p w =
          .ok (id, v) ∧ v' = indexEmployerStreamsBatch v employer ids := by
  simp only [createShared, collectDeposit_ahead, nextId, bind_eq_ok_iff,
    map_eq_ok_iff, expect_eq_ok_iff, checkedAddU64_eq_some_iff, pure_eq_ok_iff,
    Prod.mk.injEq]
  constructor
  · rintro ⟨_, hvalid, _, hallowed, _, htoken, _, ⟨collected, hcollect, rfl⟩, _,
      ⟨_, ⟨hfits, rfl⟩, rfl⟩, rfl, rfl⟩
    exact ⟨_, ⟨(), hvalid, (), hallowed, (), htoken, collected, hcollect, _,
      ⟨_, ⟨hfits, rfl⟩, rfl⟩, rfl, rfl⟩, rfl⟩
  · rintro ⟨_, ⟨_, hvalid, _, hallowed, _, htoken, collected, hcollect, _,
      ⟨_, ⟨hfits, rfl⟩, rfl⟩, rfl, rfl⟩, rfl⟩
    exact ⟨(), hvalid, (), hallowed, (), htoken, _, ⟨collected, hcollect, rfl⟩, _,
      ⟨_, ⟨hfits, rfl⟩, rfl⟩, rfl, rfl⟩

end Ahead

/-- The shared part of a creation leaves what the next one reads of settings and
of the employer's index. -/
theorem createShared_frame {host : Host} {ctx : Context} {employer : Address}
    {setup : BatchSetup} {cooldownPeriod id : Nat} {p : StreamParams}
    {w v : World}
    (h : createShared host ctx employer setup cooldownPeriod p w =
      .ok (id, v)) :
    creationSetup v = creationSetup w ∧ v.config = w.config ∧
      v.employerStreams = w.employerStreams := by
  simp only [createShared, nextId, bind_eq_ok_iff, expect_eq_ok_iff,
    checkedAddU64_eq_some_iff, pure_eq_ok_iff, Prod.mk.injEq] at h
  obtain ⟨_, _, _, _, _, _, ⟨⟨reported, net⟩, w₁⟩, hcollect, _,
    ⟨_, ⟨_, rfl⟩, rfl⟩, rfl, rfl⟩ := h
  obtain ⟨rfl, hmoved⟩ := collectDeposit_exact hcollect
  obtain ⟨_, hsame⟩ := hmoved
    (requestedStream ctx employer setup cooldownPeriod p (w.streamCount + 1))
    rfl rfl rfl rfl
  rw [hsame]
  exact ⟨rfl, rfl, rfl⟩

theorem createBatchItem_of_idle {host : Host} (hidle : LimiterIdle host)
    (ctx : Context) (employer : Address) (setup : BatchSetup) (p : StreamParams)
    (w : World) (id : Nat) (v : World) :
    createBatchItem host ctx employer setup p w = .ok (id, v) ↔
      createShared host ctx employer setup 0 p w = .ok (id, v) := by
  rw [createBatchItem_eq_ok_iff, hidle]
  simp only [Except.ok.injEq, exists_eq_left']

/-! ## The loop -/

/-- One single call from a world that runs ahead of `w` by the ids `ids₀`, in
terms of one iteration of the batch from `w`. -/
theorem createStream_ahead (host : Host) (ctx : Context) (employer : Address)
    (p : StreamParams) (ids₀ : List Nat) (w : World) (id : Nat) (w' : World) :
    createStream host ctx employer p.employee p.token p.deposit p.ratePerSecond
        p.stopTime 0 p.cliffTime (indexEmployerStreamsBatch w employer ids₀) =
          .ok (id, w') ↔
      (employer ∈ ctx.auth ∧ w.config.paused = false ∧
        (w.employerStreams employer).length + ids₀.length <
          w.config.maxStreams) ∧
      ∃ v, createShared host ctx employer (creationSetup w) 0 p w = .ok (id, v) ∧
        w' = indexEmployerStreamsBatch v employer (ids₀ ++ [id]) := by
  -- the limit is checked against what the single calls have indexed so far
  have hcount : ((indexEmployerStreamsBatch w employer ids₀).employerStreams
      employer).length =
        (w.employerStreams employer).length + ids₀.length := by
    simp [indexEmployerStreamsBatch]
  rw [createStream_eq_ok_iff, hcount]
  show (employer ∈ ctx.auth ∧ w.config.paused = false ∧ _ ∧
    ∃ v, createShared host ctx employer (creationSetup w) 0 p
      (indexEmployerStreamsBatch w employer ids₀) = .ok (id, v) ∧ _) ↔ _
  simp only [createShared_ahead]
  constructor
  · rintro ⟨hauth, hpaused, hlimit, _, ⟨v, hshared, rfl⟩, rfl⟩
    exact ⟨⟨hauth, hpaused, hlimit⟩, v, hshared,
      indexEmployerStreamsBatch_append v employer ids₀ [id]⟩
  · rintro ⟨⟨hauth, hpaused, hlimit⟩, v, hshared, rfl⟩
    exact ⟨hauth, hpaused, hlimit, _, ⟨v, hshared, rfl⟩,
      (indexEmployerStreamsBatch_append v employer ids₀ [id]).symm⟩

/-- The employer may open `count` more streams after the first `opened`. -/
def MayOpen (ctx : Context) (employer : Address) (w : World)
    (opened count : Nat) : Prop :=
  employer ∈ ctx.auth ∧ w.config.paused = false ∧
    (w.employerStreams employer).length + opened + count ≤ w.config.maxStreams

/-- The single calls return exactly when the employer may open all the streams
and the loop of the batch returns, and they stay ahead of it by the new ids. -/
theorem createEach_ahead {host : Host} (hidle : LimiterIdle host)
    (ctx : Context) (employer : Address) (params : List StreamParams)
    (ids₀ : List Nat) (w : World) (ids : List Nat) (w' : World) :
    createEach host ctx employer params
        (indexEmployerStreamsBatch w employer ids₀) = .ok (ids, w') ↔
      (params ≠ [] → MayOpen ctx employer w ids₀.length params.length) ∧
      ∃ v, createBatchLoop host ctx employer (creationSetup w) params w =
          .ok (ids, v) ∧
        w' = indexEmployerStreamsBatch v employer (ids₀ ++ ids) := by
  induction params generalizing w ids₀ ids with
  | nil =>
      simp only [createEach, createBatchLoop, Except.ok.injEq, Prod.mk.injEq,
        ne_eq, not_true_eq_false, false_imp_iff, true_and]
      constructor
      · rintro ⟨rfl, rfl⟩
        exact ⟨w, ⟨rfl, rfl⟩, by rw [List.append_nil]⟩
      · rintro ⟨_, ⟨rfl, rfl⟩, rfl⟩
        exact ⟨rfl, by rw [List.append_nil]⟩
  | cons p rest ih =>
      simp only [createEach, createBatchLoop, bind_eq_ok_iff, pure_eq_ok_iff,
        Prod.mk.injEq, ne_eq, reduceCtorEq, not_false_eq_true, true_imp_iff]
      constructor
      · rintro ⟨⟨id, v₁⟩, hcreate, ⟨ids', w''⟩, hrest, rfl, rfl⟩
        obtain ⟨⟨hauth, hpaused, hlimit⟩, v, hshared, rfl⟩ :=
          (createStream_ahead _ _ _ _ _ _ _ _).mp hcreate
        obtain ⟨hsetup, hconfig, hindex⟩ := createShared_frame hshared
        obtain ⟨hmay, v', hloop, rfl⟩ := (ih _ _ _).mp hrest
        refine ⟨⟨hauth, hpaused, ?_⟩, v', ⟨(id, v), ?_, (ids', v'), ?_, rfl, rfl⟩,
          by rw [List.append_assoc]; rfl⟩
        -- the limit is what the later calls check, or this one if it is the last
        · cases rest with
          | nil =>
              simp only [List.length_cons, List.length_nil]
              omega
          | cons q rest =>
              have hall := (hmay (by simp)).2.2
              rw [hconfig, hindex] at hall
              simp only [List.length_append, List.length_cons,
                List.length_nil] at hall ⊢
              omega
        · exact (createBatchItem_of_idle hidle _ _ _ _ _ _ _).mpr hshared
        · rw [← hsetup]
          exact hloop
      · rintro ⟨⟨hauth, hpaused, hall⟩, v', ⟨⟨id, v⟩, hitem, ⟨ids', w''⟩, hloop,
          rfl, rfl⟩, rfl⟩
        have hshared := (createBatchItem_of_idle hidle _ _ _ _ _ _ _).mp hitem
        obtain ⟨hsetup, hconfig, hindex⟩ := createShared_frame hshared
        simp only [List.length_cons] at hall
        refine ⟨(id, indexEmployerStreamsBatch v employer (ids₀ ++ [id])), ?_,
          (ids', indexEmployerStreamsBatch w'' employer (ids₀ ++ id :: ids')), ?_,
          rfl, rfl⟩
        · exact (createStream_ahead _ _ _ _ _ _ _ _).mpr
            ⟨⟨hauth, hpaused, by omega⟩, v, hshared, rfl⟩
        · refine (ih _ _ _).mpr ⟨fun _ => ⟨hauth, ?_, ?_⟩, w'', ?_, ?_⟩
          · rw [hconfig]
            exact hpaused
          · rw [hconfig, hindex, List.length_append, List.length_singleton]
            omega
          · rw [hsetup]
            exact hloop
          · rw [List.append_assoc]
            rfl

/-! ## The batch -/

/-- Without a limiter, a batch of at least one stream returns exactly when the
single creations return in order, with the same ids and the same world, and a
batch that does not leaves the world as it was. -/
theorem batch_eq_single_creations {host : Host} (hidle : LimiterIdle host)
    (ctx : Context) (employer : Address) (params : List StreamParams)
    (hparams : params ≠ []) (w : World) (hmax : w.config.maxStreams ≤ u32Max) :
    (∀ ids w', createStreamsBatch host ctx employer params w = .ok (ids, w') ↔
      createEach host ctx employer params w = .ok (ids, w')) ∧
    ∀ inv : Invocation, inv.toContext = ctx →
      inv.call = .create (.createStreamsBatch employer params) →
      ((∀ result, createStreamsBatch host ctx employer params w ≠ .ok result) ∨
        ∀ result, createEach host ctx employer params w ≠ .ok result) →
      step host w inv = w := by
  have hiff : ∀ ids w',
      createStreamsBatch host ctx employer params w = .ok (ids, w') ↔
        createEach host ctx employer params w = .ok (ids, w') := by
    intro ids w'
    have hahead := createEach_ahead hidle ctx employer params [] w ids w'
    rw [indexEmployerStreamsBatch_nil] at hahead
    rw [hahead]
    -- the sum is a `u32`, and overflows only beyond any limit
    have htotal : (∃ total,
        checkedAddU32 (w.employerStreams employer).length params.length =
          some total ∧ total ≤ w.config.maxStreams) ↔
        (w.employerStreams employer).length + params.length ≤
          w.config.maxStreams := by
      unfold checkedAddU32
      split
      · simp
      · simp only [reduceCtorEq, false_and, exists_false, false_iff]
        omega
    simp only [createStreamsBatch, bind_eq_ok_iff, requireAuth_eq_ok_iff,
      ensure_eq_ok_iff, expect_eq_ok_iff, Bool.not_eq_true', decide_eq_true_eq,
      pure_eq_ok_iff, Prod.mk.injEq, MayOpen, List.length_nil, Nat.add_zero,
      ← htotal]
    constructor
    · rintro ⟨_, hauth, _, hpaused, _, _, total, hsum, _, hlimit, ⟨ids', v⟩, hloop,
        rfl, rfl⟩
      exact ⟨fun _ => ⟨hauth, hpaused, total, hsum, hlimit⟩, v, hloop, rfl⟩
    · rintro ⟨hmay, v, hloop, rfl⟩
      obtain ⟨hauth, hpaused, total, hsum, hlimit⟩ := hmay hparams
      refine ⟨(), hauth, (), hpaused, (), ?_, total, hsum, (), hlimit, (ids, v),
        hloop, rfl, rfl⟩
      simpa using hparams
  refine ⟨hiff, ?_⟩
  rintro inv rfl hcall hpanics
  rcases step_cases host w inv with ⟨value, hsucceeds⟩ | ⟨_, hsame⟩
  · exfalso
    unfold Succeeds at hsucceeds
    rw [hcall] at hsucceeds
    simp only [exec, execCreate, map_eq_ok_iff] at hsucceeds
    obtain ⟨⟨ids, w'⟩, hbatch, _⟩ := hsucceeds
    rcases hpanics with hpanics | hpanics
    · exact hpanics _ hbatch
    · exact hpanics _ ((hiff ids w').mp hbatch)
  · exact hsame

/-- Two streams in one batch. -/
theorem batch_eq_single_creations_of_two :
    ∃ params ids w', params.length = 2 ∧
      createStreamsBatch Sample.host ⟨10, [Sample.employer]⟩ Sample.employer
        params Sample.start = .ok (ids, w') ∧
      createEach Sample.host ⟨10, [Sample.employer]⟩ Sample.employer params
        Sample.start = .ok (ids, w') ∧
      w'.employerStreams Sample.employer = [1, 2] := by
  have hidle : LimiterIdle Sample.host := fun _ _ _ => rfl
  have hrefines := batch_eq_single_creations hidle ⟨10, [Sample.employer]⟩
    Sample.employer
    [⟨Sample.employee, Sample.token, 10000, 100, 0, 0⟩,
      ⟨Sample.treasury, Sample.token, 6000, 10, 0, 20⟩] (by simp) Sample.start
    (by decide)
  exact ⟨_, _, _, rfl, rfl, (hrefines.1 _ _).mp rfl, by decide⟩

end Properties
end Paystream
