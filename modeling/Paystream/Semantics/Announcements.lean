import Paystream.Semantics.EventLog

/-!
# The announcements of new streams

Every creation publishes one `streamCreated` event for each stream it stores, and
no other call publishes one.  `announced` reads the ids of these events off the
log, and `Announces` says that they are the ids the contract has given out, each
announced once: it is kept by every call that returns.
-/

namespace Paystream
namespace Semantics

open Library
open Contract
open Contract.Storage
open Contract.StreamContract

/-- The stream whose creation an event announces, if it does that. -/
def createdStream? : Event → Option Nat
  | .streamCreated id _ _ _ _ => some id
  | _ => none

/-- The announced streams, the latest first. -/
def announced (w : World) : List Nat :=
  w.events.filterMap createdStream?

theorem Logged.announced {w w' : World} {events : List Event} {log : List TokenTransfer}
    (h : Logged w w' events log) (hnone : ∀ event ∈ events, createdStream? event = none) :
    announced w' = announced w := by
  unfold Semantics.announced
  rw [h.events, List.filterMap_append, List.filterMap_eq_nil_iff.mpr hnone,
    List.nil_append]

theorem createdStream?_of_subject {event : Event} (h : Event.subject event = none) :
    createdStream? event = none := by
  cases event <;> first | rfl | cases h

/-- No call on a stream announces one. -/
theorem OnStreamEmits.createdStream? {self : Address} {now id : Nat} {w : World}
    {s : Stream} {call : StreamCall} {events : List Event} {log : List TokenTransfer}
    (h : OnStreamEmits self now w id s call events log) :
    ∀ event ∈ events, createdStream? event = none := by
  cases h with
  | withdrew gross fee warning _ hwarning =>
      intro event hevent
      rcases List.mem_append.mp hevent with hwarned | hpaid
      · obtain ⟨days, rfl⟩ := hwarning event hwarned
        rfl
      rcases List.mem_cons.mp hpaid with rfl | hfee
      · rfl
      unfold feeEvents at hfee
      split at hfee
      · split at hfee
        · rw [List.mem_singleton.mp hfee]
          rfl
        · cases hfee
      · cases hfee
  | _ => simp [Semantics.createdStream?]

/-- A call that is no creation announces no stream. -/
theorem announced_of_succeeds {host : Host} {w w' : World} {inv : Invocation}
    {value : Value} (h : Succeeds host w inv value w')
    (hcall : ∀ call, inv.call ≠ .create call) :
    announced w' = announced w := by
  by_cases hstream : ∃ id call, inv.call = .onStream id call
  · obtain ⟨id, call, hstream⟩ := hstream
    unfold Succeeds at h
    rw [hstream] at h
    obtain ⟨s, events, log, _, hemits, hlogged⟩ := (execOnStream_spec h).emits
    exact hlogged.announced hemits.createdStream?
  · push Not at hstream
    obtain ⟨events, log, hquiet, hlogged⟩ := quiet_of_succeeds h hcall hstream
    exact hlogged.announced fun event hevent =>
      createdStream?_of_subject (hquiet.1 event hevent)

/-- The announced streams are the ones given out, each announced once. -/
def Announces (w : World) : Prop :=
  announced w = (List.range' 1 w.streamCount).reverse

theorem Announces.of_views {w w' : World} (h : Announces w)
    (hannounced : announced w' = announced w)
    (hcount : w'.streamCount = w.streamCount) : Announces w' := by
  unfold Announces
  rw [hannounced, hcount]
  exact h

theorem Announces.createShared {host : Host} {ctx : Context} {employer : Address}
    {setup : BatchSetup} {cooldownPeriod : Nat} {p : StreamParams} {w w' : World}
    {id : Nat} (hw : Announces w)
    (h : createShared host ctx employer setup cooldownPeriod p w = .ok (id, w')) :
    Announces w' := by
  simp only [Semantics.createShared, nextId, bind_eq_ok_iff, expect_eq_ok_iff,
    checkedAddU64_eq_some_iff, pure_eq_ok_iff, Prod.mk.injEq] at h
  obtain ⟨_, _, _, _, _, _, ⟨⟨reported, net⟩, w₁⟩, hcollect, _,
    ⟨_, ⟨_, rfl⟩, rfl⟩, rfl, rfl⟩ := h
  obtain ⟨rfl, hmoved⟩ := collectDeposit_exact hcollect
  have hpaid := hmoved
    (requestedStream ctx employer setup cooldownPeriod p (w.streamCount + 1))
    rfl rfl rfl rfl
  have hcount : w₁.streamCount = w.streamCount := by
    rw [hpaid.same]
  have hannounced : announced w₁ = announced w :=
    hpaid.logged.announced (List.forall_mem_nil _)
  unfold Announces at hw ⊢
  show (w₁.streamCount + 1) :: announced w₁ =
    (List.range' 1 (w₁.streamCount + 1)).reverse
  rw [hannounced, hw, hcount, List.range'_1_concat, List.reverse_append,
    List.reverse_singleton, List.singleton_append, Nat.add_comm 1]

theorem Announces.createBatchLoop {host : Host} {ctx : Context}
    {employer : Address} {setup : BatchSetup} {params : List StreamParams}
    {ids : List Nat} {w w' : World} (hw : Announces w)
    (h : createBatchLoop host ctx employer setup params w = .ok (ids, w')) :
    Announces w' := by
  induction params generalizing w ids with
  | nil =>
      cases h
      exact hw
  | cons p rest ih =>
      simp only [StreamContract.createBatchLoop, bind_eq_ok_iff, pure_eq_ok_iff,
        Prod.mk.injEq] at h
      obtain ⟨⟨id, middle⟩, hitem, ⟨ids', _⟩, hloop, rfl, rfl⟩ := h
      obtain ⟨rateState, _, hitem⟩ :=
        (createBatchItem_eq_ok_iff _ _ _ _ _ _ _ _).mp hitem
      have hstart : Announces { w with rateState } := hw.of_views rfl rfl
      exact ih (hstart.createShared hitem) hloop

theorem Announces.execCreate {host : Host} {ctx : Context} {call : CreateCall}
    {w w' : World} {value : Value} (hw : Announces w)
    (h : execCreate host ctx call w = .ok (value, w')) : Announces w' := by
  cases call with
  | createStream employer employee token deposit rate stopTime cooldownPeriod
      cliffTime =>
      simp only [Contract.execCreate, map_eq_ok_iff] at h
      obtain ⟨⟨id, w₁⟩, hcreate, heq⟩ := h
      cases heq
      obtain ⟨_, _, _, v, hshared, rfl⟩ :=
        (createStream_eq_ok_iff _ _ _ _ _ _ _ _ _ _ _ _ _).mp hcreate
      exact (hw.createShared hshared).of_views rfl rfl
  | createStreamsBatch employer params =>
      simp only [Contract.execCreate, createStreamsBatch, map_eq_ok_iff,
        bind_eq_ok_iff, pure_eq_ok_iff] at h
      obtain ⟨_, ⟨_, _, _, _, _, _, _, _, _, _, ⟨ids, w₁⟩, hloop, rfl⟩,
        heq⟩ := h
      cases heq
      exact (hw.createBatchLoop hloop).of_views rfl rfl

end Semantics
end Paystream
