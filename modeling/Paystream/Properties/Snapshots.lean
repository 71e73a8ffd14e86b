import Paystream.Services.Snapshots

/-!
# Snapshots taken at the same time

Any number of `checkpoint` and `forceCheckpoint` calls on one stream, no more than
the store retains, interleaved at their loads and saves.

`snapshots_kept_iff`: every snapshot that was returned is stored if every save
found the list its call had loaded, and, when no snapshot was returned twice, only
then.  Nothing in the store makes a save find it: two calls that both load before
either saves return two snapshots and store one.
-/

namespace Paystream
namespace Properties

open Library
open Services.Snapshots

/-! ## The calls append -/

section Lists

variable {α : Type}

theorem sliceLast_of_le {limit : Nat} {items : List α}
    (h : items.length ≤ limit) : sliceLast limit items = items := by
  unfold sliceLast
  split
  · rfl
  · rw [Nat.sub_eq_zero_of_le h]
    rfl

theorem length_sliceLast_le (limit : Nat) (items : List α) :
    (sliceLast limit items).length ≤ items.length := by
  unfold sliceLast
  split
  · exact le_rfl
  · rw [List.length_drop]
    exact Nat.sub_le _ _

end Lists

section Calls

variable {Value : Type} {options : Options}

/-- A call that records saves what it loaded with its snapshot at the end, cut to
the limit. -/
theorem body_eq_some {call : Call Value}
    {snapshots list : List (Snapshot Value)} {snapshot : Snapshot Value}
    (h : call.body options snapshots = some (snapshot, list)) :
    list = sliceLast options.retentionLimit (snapshots ++ [snapshot]) := by
  have hrecord : record options call.stream call.now snapshots =
      (snapshot, list) := by
    unfold Call.body at h
    split at h
    · unfold checkpoint at h
      split at h
      · cases h
      · exact Option.some.inj h
    · exact Option.some.inj h
  obtain ⟨rfl, rfl⟩ := Prod.mk.inj hrecord
  rfl

/-- Calls on one stream, no more than the store retains, append. -/
theorem loadSave_appends {calls : List (Call Value)} {key : Text}
    (hcount : calls.length ≤ options.retentionLimit)
    (hkey : ∀ call ∈ calls, call.stream.key = key) :
    LoadSave.Appends (loadSave options calls) key where
  key_eq i hi := by
    have hget : calls[i]? = some calls[i] := List.getElem?_eq_getElem hi
    show ((calls[i]?).map fun call => call.stream.key).getD [] = key
    rw [hget]
    exact hkey _ (List.getElem_mem hi)
  grows i snapshots snapshot list hbody := by
    obtain ⟨call, _, hcall⟩ := Option.bind_eq_some_iff.mp hbody
    rw [body_eq_some hcall]
    refine (length_sliceLast_le _ _).trans_eq ?_
    rw [List.length_append, List.length_singleton]
  appends i snapshots snapshot list hroom hbody := by
    obtain ⟨call, _, hcall⟩ := Option.bind_eq_some_iff.mp hbody
    rw [body_eq_some hcall]
    apply sliceLast_of_le
    have hshort : snapshots.length < calls.length := hroom
    rw [List.length_append, List.length_singleton]
    omega

/-! ## All calls have returned -/

/-- Once all calls have returned: if every save found the list its call had
loaded, every snapshot that was returned is stored; and if no snapshot was
returned twice, that is the only way. -/
theorem snapshots_kept_iff {calls : List (Call Value)} {key : Text}
    {history : List (Entry (LoadSave.State Text (Snapshot Value)) LoadSave.Action)}
    {s : LoadSave.State Text (Snapshot Value)}
    (hcount : calls.length ≤ options.retentionLimit)
    (hkey : ∀ call ∈ calls, call.stream.key = key)
    (hrun : (system options calls).Run history s)
    (hall : LoadSave.AllReturned (loadSave options calls) s) :
    ((∀ entry ∈ history, LoadSave.FindsLoaded (loadSave options calls) entry) →
        ∀ snapshot ∈ s.returned (loadSave options calls), snapshot ∈ s.stored key) ∧
      ((s.returned (loadSave options calls)).Nodup →
        (∀ snapshot ∈ s.returned (loadSave options calls), snapshot ∈ s.stored key) →
        ∀ entry ∈ history,
          LoadSave.FindsLoaded (loadSave options calls) entry) := by
  have hinvariant := LoadSave.invariant (loadSave_appends hcount hkey) hrun
  rw [LoadSave.returned_eq_items hall]
  rcases hinvariant with ⟨hfinds, hclean⟩ | ⟨⟨entry, hentry, hnot⟩, hshort⟩
  · exact ⟨fun _ => hclean.kept, fun _ _ => hfinds⟩
  · constructor
    · intro hfinds
      exact absurd (hfinds entry hentry) hnot
    · -- too few are stored for all the different ones that were returned
      intro hnodup hkept
      have hle := (List.subperm_of_subset hnodup hkept).length_le
      exact absurd hshort.length (Nat.not_lt.mpr hle)

end Calls

/-! ## Two calls on one stream -/

namespace SnapshotSample

theorem digits_42 : ∀ c ∈ ['4', '2'], isNumberChar c = true :=
  List.forall_mem_cons.mpr ⟨rfl, List.forall_mem_cons.mpr ⟨rfl, List.forall_mem_nil _⟩⟩

/-- A stream, in the test's words. -/
def stream : StreamState Nat :=
  { id := .num ⟨['4', '2'], List.cons_ne_nil _ _, digits_42⟩
    status := 0
    deposit := 10000
    withdrawn := 0
    ratePerSecond := 1
    lastWithdrawTime := 1000 }

/-- Two forced snapshots, five seconds apart. -/
def calls : List (Call Nat) :=
  [⟨.forceCheckpoint, stream, none, 1000000⟩,
    ⟨.forceCheckpoint, stream, none, 1005000⟩]

def start : LoadSave.State Text (Snapshot Nat) := ⟨fun _ => none, fun _ => .called⟩

/-- Both calls with the default options, step by step. -/
def play (actions : List LoadSave.Action) :
    List (Entry (LoadSave.State Text (Snapshot Nat)) LoadSave.Action) ×
      LoadSave.State Text (Snapshot Nat) :=
  (system {} calls).replay [] start actions

theorem play_run (actions : List LoadSave.Action)
    (horder : (system {} calls).InOrder 0 actions = true) :
    (system {} calls).Run (play actions).1 (play actions).2 :=
  ⟨start, ⟨fun _ => rfl, fun _ => rfl⟩, System.Path.stay.replay horder⟩

/-- One call after the other. -/
def inTurn : List LoadSave.Action :=
  [.load 0, .save 0, .finish 0, .load 1, .save 1, .finish 1]

/-- Both calls load before either saves. -/
def together : List LoadSave.Action :=
  [.load 0, .load 1, .save 0, .save 1, .finish 0, .finish 1]

theorem calls_key : ∀ call ∈ calls, call.stream.key = stream.key := by decide

/-- Both calls have returned. -/
theorem allReturned_of {s : LoadSave.State Text (Snapshot Nat)}
    (hfirst : ∃ result, s.phase 0 = .returned result)
    (hsecond : ∃ result, s.phase 1 = .returned result) :
    LoadSave.AllReturned (loadSave {} calls) s := by
  intro i hi
  have hi : i < 2 := hi
  interval_cases i
  · exact hfirst
  · exact hsecond

end SnapshotSample

open SnapshotSample

/-- Two calls in turn return two snapshots, both are stored, and so each save
found what its call had loaded. -/
theorem snapshots_kept_of_inTurn :
    ∃ history s, (system {} calls).Run history s ∧
      LoadSave.AllReturned (loadSave {} calls) s ∧
      (s.returned (loadSave {} calls)).length = 2 ∧
      (∀ snapshot ∈ s.returned (loadSave {} calls),
        snapshot ∈ s.stored stream.key) ∧
      ∀ entry ∈ history, LoadSave.FindsLoaded (loadSave {} calls) entry := by
  have hrun := play_run inTurn (by decide)
  have hall : LoadSave.AllReturned (loadSave {} calls) (play inTurn).2 :=
    allReturned_of ⟨_, rfl⟩ ⟨_, rfl⟩
  obtain ⟨_, honly⟩ := snapshots_kept_iff (by decide) calls_key hrun hall
  have hkept : ∀ snapshot ∈ (play inTurn).2.returned (loadSave {} calls),
      snapshot ∈ (play inTurn).2.stored stream.key := by decide +kernel
  exact ⟨_, _, hrun, hall, by decide, hkept,
    honly (by decide +kernel) hkept⟩

/-- Two calls that both load before either saves both return a snapshot, and the
first one is not stored. -/
theorem snapshot_lost_of_together :
    ∃ history s, calls.length ≤ ({} : Options).retentionLimit ∧
      (∀ call ∈ calls, call.stream.key = stream.key) ∧
      (system {} calls).Run history s ∧
      LoadSave.AllReturned (loadSave {} calls) s ∧
      ∃ snapshot ∈ s.returned (loadSave {} calls),
        snapshot ∉ s.stored stream.key :=
  ⟨_, _, by decide, calls_key, play_run together (by decide),
    allReturned_of ⟨_, rfl⟩ ⟨_, rfl⟩, compact stream 1000, by decide +kernel,
    by decide +kernel⟩

end Properties
end Paystream
