import Paystream.Library.Timeline
import Paystream.Properties.Snapshots

/-!
# The history of a stream in the snapshot store

Any sequence of `checkpoint`, `forceCheckpoint` and `cleanup` calls, none of which
starts before the one before it has returned.  `load_run` reduces each of them to
what it does to the list of one stream: nothing, a recording, or a cleaning.

* `queryAt_finds_latest_iff`: `queryAt` takes the last snapshot that is not too
  late, and so finds the greatest timestamp in every state of a run exactly if every
  snapshot was recorded at or after the ones that stayed beside it.  The interval of
  `checkpoint` sees to that, `forceCheckpoint` does not.
* `retention_iff`: the store keeps what it should after each call, unless its limit
  is zero: then `slice(-0)` keeps everything.
-/

namespace Paystream
namespace Properties

open Library
open Library.Timeline
open Services.Snapshots

section History

variable {Value : Type} {options : Options}

/-! ## One call -/

/-- A `checkpoint` that comes too soon after the last snapshot. -/
def skips (options : Options) (call : Call Value)
    (snapshots : List (Snapshot Value)) : Bool :=
  decide (call.method = .checkpoint) && tooSoon options call.now snapshots

theorem body_eq (call : Call Value) (snapshots : List (Snapshot Value)) :
    call.body options snapshots =
      if skips options call snapshots then none
      else some (record options call.stream call.now snapshots) := by
  unfold Call.body skips
  cases call.method with
  | checkpoint => rfl
  | forceCheckpoint => rfl

/-- What a call does to the list under a key. -/
def eventOf (options : Options) (key : Text) (storage : Storage Value) :
    Operation Value → Option (Event (Snapshot Value) ℚ)
  | .take call =>
      if call.stream.key = key ∧ skips options call (storage.load key) = false then
        some (.recorded (compact call.stream call.now))
      else none
  | .cleanup streamId olderThanTs =>
      if streamId.key = key then some (.cleaned olderThanTs) else none

theorem eventOf_take (options : Options) (key : Text) (storage : Storage Value)
    (call : Call Value) :
    eventOf options key storage (.take call) =
      if call.stream.key = key ∧ skips options call (storage.load key) = false then
        some (.recorded (compact call.stream call.now))
      else none := rfl

theorem eventOf_cleanup (options : Options) (key : Text) (storage : Storage Value)
    (streamId : StreamId) (olderThanTs : ℚ) :
    eventOf options key storage (.cleanup streamId olderThanTs) =
      if streamId.key = key then some (.cleaned olderThanTs) else none := rfl

/-- The list after an event. -/
def afterEvent (limit : Nat) (snapshots : List (Snapshot Value)) :
    Event (Snapshot Value) ℚ → List (Snapshot Value)
  | .recorded snapshot => sliceLast limit (snapshots ++ [snapshot])
  | .cleaned threshold => cleaned Snapshot.ts threshold snapshots

theorem load_save (storage : Storage Value) (saved key : Text)
    (snapshots : List (Snapshot Value)) :
    (storage.save saved snapshots).load key =
      if saved = key then snapshots else storage.load key := by
  unfold Storage.save Storage.load
  split
  · next h => rw [h, Function.update_self, Option.getD_some]
  · next h => rw [Function.update_of_ne (Ne.symm h)]

/-- Each call does to the list of a stream what its event says. -/
theorem load_run (key : Text) (storage : Storage Value)
    (operation : Operation Value) :
    (operation.run options storage).2.load key =
      (eventOf options key storage operation).elim (storage.load key)
        (afterEvent options.retentionLimit (storage.load key)) := by
  cases operation with
  | take call =>
      by_cases hkey : call.stream.key = key
      · subst hkey
        simp only [Operation.run, eventOf, body_eq, true_and]
        cases hskips : skips options call (storage.load call.stream.key) with
        | true => rfl
        | false =>
            simp only [Bool.false_eq_true, if_false, if_true]
            exact (load_save _ _ _ _).trans (if_pos rfl)
      · simp only [Operation.run, eventOf, body_eq, hkey, false_and, if_false]
        cases hskips : skips options call (storage.load call.stream.key) with
        | true => rfl
        | false => exact (load_save _ _ _ _).trans (if_neg hkey)
  | cleanup streamId olderThanTs =>
      show (storage.save streamId.key _).load key = _
      rw [load_save, eventOf_cleanup]
      split
      · next hkey =>
          rw [hkey]
          rfl
      · rfl

/-! ## Looking up -/

/-- The snapshots that stay when a new one is recorded. -/
def stayBeside {α : Type} (limit : Nat) (items : List α) : List α :=
  if limit = 0 then items else newest (limit - 1) items

theorem sliceLast_append_singleton {α : Type} (limit : Nat) (items : List α) (x : α) :
    sliceLast limit (items ++ [x]) = stayBeside limit items ++ [x] := by
  unfold sliceLast stayBeside newest
  split
  · rfl
  · have hcount : (items ++ [x]).length - limit = items.length - (limit - 1) := by
      rw [List.length_append, List.length_singleton]
      omega
    rw [hcount, List.drop_append_of_le_length (Nat.sub_le _ _)]

theorem stayBeside_suffix {α : Type} (limit : Nat) (items : List α) :
    stayBeside limit items <:+ items := by
  unfold stayBeside
  split
  · exact List.suffix_rfl
  · exact newest_suffix _ _

theorem queryAt_eq (storage : Storage Value) (id : StreamId) (atTs : ℚ) :
    queryAt storage id atTs = latestAt Snapshot.ts (storage.load id.key) atTs := by
  unfold queryAt query latestAt
  congr 1
  apply List.filter_congr
  intro snapshot _
  simp [← not_le]

/-- Every lookup finds a stored snapshot with the greatest timestamp that is not
after the given one, and nothing exactly when there is none. -/
def LookupsRight (id : StreamId) (storage : Storage Value) : Prop :=
  ∀ atTs, FindsLatest Snapshot.ts (storage.load id.key) atTs (queryAt storage id atTs)

theorem lookupsRight_iff {id : StreamId} {storage : Storage Value} :
    LookupsRight id storage ↔ LooksUp Snapshot.ts (storage.load id.key) := by
  unfold LookupsRight LooksUp
  simp only [queryAt_eq]

/-- A call that records a snapshot of the stream gives it a timestamp that is not
before those of the snapshots that stay beside it. -/
def RecordsInOrder (options : Options) (key : Text) (storage : Storage Value) :
    Operation Value → Prop
  | .take call =>
      call.stream.key = key → skips options call (storage.load key) = false →
        ∀ other ∈ stayBeside options.retentionLimit (storage.load key),
          other.ts ≤ call.now
  | .cleanup _ _ => True

instance (options : Options) (key : Text) (storage : Storage Value) :
    DecidablePred (RecordsInOrder options key storage)
  | .take call => inferInstanceAs (Decidable (call.stream.key = key →
      skips options call (storage.load key) = false →
        ∀ other ∈ stayBeside options.retentionLimit (storage.load key),
          other.ts ≤ call.now))
  | .cleanup _ _ => inferInstanceAs (Decidable True)

/-- A call from a state with right lookups leads to one exactly under this
condition. -/
theorem lookupsRight_run_iff {id : StreamId} {storage : Storage Value}
    (h : LookupsRight id storage) (operation : Operation Value) :
    LookupsRight id (operation.run options storage).2 ↔
      RecordsInOrder options id.key storage operation := by
  rw [lookupsRight_iff] at h ⊢
  rw [load_run]
  cases operation with
  | take call =>
      rw [eventOf_take]
      split
      · next hrecords =>
          show LooksUp _ (sliceLast _ _) ↔ (_ → _ → _)
          rw [forall_prop_of_true hrecords.1, forall_prop_of_true hrecords.2,
            sliceLast_append_singleton]
          exact looksUp_append_iff (h.of_suffix (stayBeside_suffix _ _)) _
      · next hrecords =>
          refine iff_of_true h ?_
          intro hkey hskips
          exact absurd ⟨hkey, hskips⟩ hrecords
  | cleanup streamId olderThanTs =>
      refine iff_of_true ?_ trivial
      rw [eventOf_cleanup]
      split
      · exact h.cleaned olderThanTs
      · exact h

/-- In every run of one store, for every stream: all lookups are right in every
state of the run exactly if every snapshot of the stream was recorded in order. -/
theorem queryAt_finds_latest_iff
    {history : List (Entry (Storage Value) (Operation Value))}
    {storage : Storage Value} (hrun : (store options).Run history storage)
    (id : StreamId) :
    System.Throughout (LookupsRight id) history storage ↔
      ∀ entry ∈ history,
        RecordsInOrder options id.key entry.before entry.input := by
  refine hrun.throughout_iff (RecordsInOrder options id.key) ?_ ?_
  · intro storage hinitial
    rw [lookupsRight_iff]
    unfold Storage.load
    rw [hinitial id.key]
    exact looksUp_nil
  · intro history storage operation _ _ hright
    exact lookupsRight_run_iff hright operation

end History

namespace SnapshotSample

/-- A forced snapshot with an explicit timestamp. -/
def forced (ts : ℚ) : Operation Nat := .take ⟨.forceCheckpoint, stream, some ts, 0⟩

/-- The calls one after the other, from an empty backend. -/
def playOut (options : Options) (operations : List (Operation Nat)) :
    List (Entry (Storage Nat) (Operation Nat)) × Storage Nat :=
  (store options).replay [] (fun _ => none) operations

theorem playOut_run (options : Options) (operations : List (Operation Nat))
    (horder : (store options).InOrder 0 operations = true) :
    (store options).Run (playOut options operations).1
      (playOut options operations).2 :=
  ⟨_, fun _ => rfl, System.Path.stay.replay horder⟩

end SnapshotSample

open SnapshotSample

/-- Two snapshots in order and a cleanup. -/
theorem queryAt_finds_latest_of_order :
    ∃ history storage, (store {}).Run history storage ∧
      System.Throughout (LookupsRight stream.id) history storage ∧
      queryAt storage stream.id 1020 = some (compact stream 1010) := by
  have hrun := playOut_run {}
    [forced 1000, forced 1010, .cleanup stream.id 1005] rfl
  exact ⟨_, _, hrun, (queryAt_finds_latest_iff hrun stream.id).mpr (by decide +kernel),
    by decide +kernel⟩

/-- A snapshot forced with an earlier timestamp hides the later one. -/
theorem queryAt_misses_latest :
    ∃ history storage, (store {}).Run history storage ∧
      storage.load stream.id.key = [compact stream 1010, compact stream 1000] ∧
      queryAt storage stream.id 1020 = some (compact stream 1000) ∧
      ¬ LookupsRight stream.id storage := by
  have hrun := playOut_run {} [forced 1010, forced 1000] rfl
  have hstored : (playOut {} [forced 1010, forced 1000]).2.load stream.id.key =
      [compact stream 1010, compact stream 1000] := by decide +kernel
  have hfound : queryAt (playOut {} [forced 1010, forced 1000]).2 stream.id 1020 =
      some (compact stream 1000) := by decide +kernel
  refine ⟨_, _, hrun, hstored, hfound, ?_⟩
  intro hright
  have hgreatest := ((hright 1020).2 _ hfound).2.2 (compact stream 1010)
  rw [hstored] at hgreatest
  exact absurd (hgreatest List.mem_cons_self (by decide +kernel)) (by decide +kernel)

section Retention

variable {Value : Type} {options : Options}

/-! ## Retention -/

/-- What has happened to the list under a key, oldest first. -/
def eventsOf (options : Options) (key : Text) :
    List (Entry (Storage Value) (Operation Value)) → List (Event (Snapshot Value) ℚ)
  | [] => []
  | entry :: earlier =>
      eventsOf options key earlier ++
        (eventOf options key entry.before entry.input).toList

/-- A `checkpoint` or `forceCheckpoint` of the stream. -/
def TakesOf (key : Text) (operation : Operation Value) : Prop :=
  ∃ call, operation = .take call ∧ call.stream.key = key

theorem takesOf_of_recorded {key : Text} {storage : Storage Value}
    {operation : Operation Value} {snapshot : Snapshot Value}
    (h : eventOf options key storage operation = some (.recorded snapshot)) :
    TakesOf key operation := by
  cases operation with
  | take call =>
      rw [eventOf_take] at h
      split at h
      · next hrecords => exact ⟨call, rfl, hrecords.1⟩
      · cases h
  | cleanup streamId olderThanTs =>
      rw [eventOf_cleanup] at h
      split at h
      · cases h
      · cases h

theorem sliceLast_eq_newest {α : Type} {limit : Nat} (h : limit ≠ 0)
    (items : List α) : sliceLast limit items = newest limit items :=
  if_neg h

/-- With a limit, or without a recording, each call keeps what it should. -/
theorem retains_run {key : Text}
    {history : List (Entry (Storage Value) (Operation Value))}
    {storage : Storage Value} {operation : Operation Value}
    (hallowed : options.retentionLimit ≠ 0 ∨ ¬ TakesOf key operation)
    (h : Retains Snapshot.ts options.retentionLimit (eventsOf options key history)
      (storage.load key)) :
    Retains Snapshot.ts options.retentionLimit
      (eventsOf options key ((store options).entryOf storage operation :: history))
      ((operation.run options storage).2.load key) := by
  rw [load_run]
  show Retains _ _ (_ ++ (eventOf options key storage operation).toList) _
  cases hevent : eventOf options key storage operation with
  | none =>
      rw [Option.toList_none, List.append_nil]
      exact h
  | some event =>
      cases event with
      | recorded snapshot =>
          have hlimit : options.retentionLimit ≠ 0 :=
            hallowed.resolve_right (not_not_intro (takesOf_of_recorded hevent))
          show Retains _ _ _ (sliceLast _ _)
          rw [sliceLast_eq_newest hlimit]
          exact h.record snapshot
      | cleaned threshold => exact h.clean threshold

theorem retains_of_run {history : List (Entry (Storage Value) (Operation Value))}
    {storage : Storage Value} (hrun : (store options).Run history storage)
    {key : Text}
    (hallowed : ∀ entry ∈ history,
      options.retentionLimit ≠ 0 ∨ ¬ TakesOf key entry.input) :
    Retains Snapshot.ts options.retentionLimit (eventsOf options key history)
      (storage.load key) := by
  induction hrun using System.Run.induction with
  | start storage hinitial =>
      unfold Storage.load
      rw [hinitial key]
      exact retains_nil _
  | next history storage operation _ _ ih =>
      obtain ⟨hnow, hbefore⟩ := List.forall_mem_cons.mp hallowed
      exact retains_run hnow (ih hbefore)

/-- After a `checkpoint` or `forceCheckpoint` the list is not empty: either it has
the new snapshot, or the last one is still too recent. -/
theorem load_ne_nil_of_takesOf {key : Text} {storage : Storage Value}
    {operation : Operation Value} (h : TakesOf key operation) :
    (operation.run options storage).2.load key ≠ [] := by
  obtain ⟨call, rfl, hkey⟩ := h
  rw [load_run, eventOf_take]
  split
  · show sliceLast _ _ ≠ []
    rw [sliceLast_append_singleton]
    exact List.append_ne_nil_of_right_ne_nil _ (List.cons_ne_nil _ _)
  · next hrecords =>
      show storage.load key ≠ []
      intro hnil
      refine hrecords ⟨hkey, ?_⟩
      rw [hnil]
      exact Bool.and_false _

/-- In every run of one store, for every stream: after each call the list of the
stream holds what it should, exactly if there is a limit to retain, or no call has
recorded a snapshot of the stream. -/
theorem retention_iff {history : List (Entry (Storage Value) (Operation Value))}
    {storage : Storage Value} (hrun : (store options).Run history storage)
    (id : StreamId) :
    (∀ later entry earlier, history = later ++ entry :: earlier →
        Retains Snapshot.ts options.retentionLimit
          (eventsOf options id.key (entry :: earlier)) (entry.after.load id.key)) ↔
      options.retentionLimit ≠ 0 ∨
        ∀ entry ∈ history, ¬ TakesOf id.key entry.input := by
  constructor
  · intro hall
    by_cases hlimit : options.retentionLimit = 0
    · refine Or.inr ?_
      intro entry hentry htakes
      obtain ⟨later, earlier, rfl⟩ := List.append_of_mem hentry
      have hbounded := (hall later entry earlier rfl).bounded
      rw [hlimit, Nat.le_zero, List.length_eq_zero_iff, (hrun.of_split).2.1]
        at hbounded
      exact load_ne_nil_of_takesOf htakes hbounded
    · exact Or.inl hlimit
  · intro hallowed later entry earlier hsplit
    subst hsplit
    refine retains_of_run hrun.upTo ?_
    intro other hother
    refine hallowed.imp_right ?_
    intro hnone
    exact hnone other (List.mem_append_right _ hother)

end Retention

/-- With a limit of two, the last two of three snapshots are kept. -/
theorem retention_of_two :
    ∃ history storage, (store ⟨3600, 2⟩).Run history storage ∧
      storage.load stream.id.key = [compact stream 1010, compact stream 1020] ∧
      ∀ later entry earlier, history = later ++ entry :: earlier →
        Retains Snapshot.ts 2 (eventsOf ⟨3600, 2⟩ stream.id.key (entry :: earlier))
          (entry.after.load stream.id.key) := by
  have hrun := playOut_run ⟨3600, 2⟩ [forced 1000, forced 1010, forced 1020] rfl
  exact ⟨_, _, hrun, by decide +kernel,
    (retention_iff hrun stream.id).mpr (Or.inl (Nat.succ_ne_zero 1))⟩

/-- With a limit of zero the snapshot is kept. -/
theorem retention_of_zero :
    ∃ history storage, (store ⟨3600, 0⟩).Run history storage ∧
      storage.load stream.id.key = [compact stream 1000] ∧
      ¬ Retains Snapshot.ts 0 (eventsOf ⟨3600, 0⟩ stream.id.key history)
        (storage.load stream.id.key) := by
  have hrun := playOut_run ⟨3600, 0⟩ [forced 1000] rfl
  have hstored : (playOut ⟨3600, 0⟩ [forced 1000]).2.load stream.id.key =
      [compact stream 1000] := by decide +kernel
  refine ⟨_, _, hrun, hstored, ?_⟩
  intro hretains
  have hbounded := hretains.bounded
  rw [hstored] at hbounded
  cases hbounded

end Properties
end Paystream
