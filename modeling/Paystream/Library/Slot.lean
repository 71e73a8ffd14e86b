import Paystream.Library.History

/-!
# The newest write

A part of the state that some steps overwrite and the others leave alone holds
what the newest of these steps wrote (`System.Run.slot_eq`).  Read backwards, a
value other than the first one is there exactly when a step wrote it and no step
has written since (`newestWrite_eq_iff`).
-/

namespace Paystream
namespace Library

variable {State Input Value : Type}

section NewestWrite

variable (writes : Entry State Input → Option Value) (start : Value)

/-- What the newest writing entry wrote. -/
def newestWrite : List (Entry State Input) → Value
  | [] => start
  | entry :: earlier =>
      match writes entry with
      | some value => value
      | none => newestWrite earlier

variable {writes start}

theorem newestWrite_cons_of_some {entry : Entry State Input}
    {earlier : List (Entry State Input)} {value : Value}
    (h : writes entry = some value) :
    newestWrite writes start (entry :: earlier) = value := by
  simp only [newestWrite, h]

theorem newestWrite_cons_of_none {entry : Entry State Input}
    {earlier : List (Entry State Input)} (h : writes entry = none) :
    newestWrite writes start (entry :: earlier) =
      newestWrite writes start earlier := by
  simp only [newestWrite, h]

/-- Entries that write nothing do not matter. -/
theorem newestWrite_append_of_none {later earlier : List (Entry State Input)}
    (h : ∀ entry ∈ later, writes entry = none) :
    newestWrite writes start (later ++ earlier) =
      newestWrite writes start earlier := by
  induction later with
  | nil => rfl
  | cons entry later ih =>
      obtain ⟨hentry, hlater⟩ := List.forall_mem_cons.mp h
      rw [List.cons_append, newestWrite_cons_of_none hentry, ih hlater]

/-- A value other than the first one was written, and nothing since. -/
theorem newestWrite_eq_iff {history : List (Entry State Input)} {value : Value}
    (hvalue : value ≠ start) :
    newestWrite writes start history = value ↔
      ∃ later entry earlier, history = later ++ entry :: earlier ∧
        writes entry = some value ∧ ∀ newer ∈ later, writes newer = none := by
  constructor
  · intro h
    induction history with
    | nil => exact absurd h.symm hvalue
    | cons entry earlier ih =>
        cases hwrites : writes entry with
        | some written =>
            rw [newestWrite_cons_of_some hwrites] at h
            subst h
            exact ⟨[], entry, earlier, rfl, hwrites, by simp⟩
        | none =>
            rw [newestWrite_cons_of_none hwrites] at h
            obtain ⟨later, writer, before, rfl, hwriter, hlater⟩ := ih h
            exact ⟨entry :: later, writer, before, rfl, hwriter,
              List.forall_mem_cons.mpr ⟨hwrites, hlater⟩⟩
  · rintro ⟨later, entry, earlier, rfl, hwrites, hlater⟩
    rw [newestWrite_append_of_none hlater, newestWrite_cons_of_some hwrites]

end NewestWrite

/-- The rule for a part of the state that every step either overwrites or leaves
alone. -/
theorem System.Run.slot_eq {system : System State Input} (slot : State → Value)
    {writes : Entry State Input → Option Value} {start : Value}
    (hstart : ∀ state, system.initial state → slot state = start)
    (hstep : ∀ history state input, system.Run history state →
      slot (system.step state input) =
        (writes (system.entryOf state input)).getD (slot state))
    {history : List (Entry State Input)} {state : State}
    (hrun : system.Run history state) :
    slot state = newestWrite writes start history := by
  induction hrun using System.Run.induction with
  | start state h => exact hstart state h
  | next history state input hrun _ ih =>
      rw [hstep history state input hrun]
      cases hwrites : writes (system.entryOf state input) with
      | none => rw [newestWrite_cons_of_none hwrites, ← ih]; rfl
      | some value => rw [newestWrite_cons_of_some hwrites]; rfl

end Library
end Paystream
