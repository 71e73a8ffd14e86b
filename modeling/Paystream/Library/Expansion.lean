import Paystream.Library.History

/-!
# Steps that are several steps of another system

An outer system each of whose inputs is served by a list of inputs of an inner one.
`expand` is the history of the inner system behind a history of the outer one, and
a run of the outer system is then a run of the inner one (`System.Run.expand`).
-/

namespace Paystream
namespace Library

variable {State Input Action : Type}

namespace System

theorem suffix_replay (system : System State Input) (history : List (Entry State Input))
    (state : State) (inputs : List Input) :
    history <:+ (system.replay history state inputs).1 := by
  induction inputs generalizing history state with
  | nil => exact List.suffix_refl history
  | cons input later ih =>
      exact (List.suffix_cons _ history).trans (ih _ _)

/-- The state that a replay ends in does not depend on the past. -/
theorem replay_state (system : System State Input)
    (history history' : List (Entry State Input)) (state : State)
    (inputs : List Input) :
    (system.replay history state inputs).2 =
      (system.replay history' state inputs).2 := by
  induction inputs generalizing history history' state with
  | nil => rfl
  | cons input later ih => exact ih _ _ _

/-- A system that takes no note of the time takes its inputs in any order. -/
theorem inOrder_of_timeless {system : System State Input}
    (htimeless : ∀ input, system.time input = 0) (history : List (Entry State Input))
    (inputs : List Input) :
    system.InOrder (system.lastTime history) inputs = true := by
  have hlast : system.lastTime history = 0 := by
    cases history with
    | nil => rfl
    | cons entry earlier => exact htimeless entry.input
  rw [hlast]
  induction inputs with
  | nil => rfl
  | cons input later ih =>
      rw [InOrder, htimeless input, ih]
      rfl

section Expand

variable (inner : System State Action) (calls : State → Input → List Action)

/-- The inner history behind an outer one. -/
def expand : List (Entry State Input) → List (Entry State Action)
  | [] => []
  | entry :: earlier =>
      (inner.replay (expand earlier) entry.before (calls entry.before entry.input)).1

variable {inner calls}

theorem expand_suffix (entry : Entry State Input) (earlier : List (Entry State Input)) :
    inner.expand calls earlier <:+ inner.expand calls (entry :: earlier) :=
  suffix_replay inner _ _ _

variable (outer : System State Input) (inner calls)

theorem Run.expand
    (hinitial : ∀ state, outer.initial state → inner.initial state)
    (hstep : ∀ state input, outer.step state input =
      (inner.replay [] state (calls state input)).2)
    (htimeless : ∀ action, inner.time action = 0)
    {history : List (Entry State Input)} {state : State}
    (hrun : outer.Run history state) :
    inner.Run (inner.expand calls history) state := by
  induction hrun using System.Run.induction with
  | start state h => exact .start (hinitial state h)
  | next history state input _ _ ih =>
      have hpath := (System.Path.stay : inner.Path _ state _ state).replay
        (inOrder_of_timeless htimeless (inner.expand calls history) (calls state input))
      rw [inner.replay_state _ [] state (calls state input), ← hstep] at hpath
      exact ih.of_path hpath

end Expand

end System
end Library
end Paystream
