import Mathlib.Tactic

/-!
# Inputs that cannot be noticed

A machine answers every input it takes.  Some of its inputs are hidden from an
observer, who sees the answers to some of the others.  If a hidden input leaves the
states similar, any other one keeps them similar, and similar states give the
observer the same answers (`Unwinding`), then the observer's answers are those of
the machine that never got the hidden inputs (`Unwinding.answers_eq`).

Similarity may depend on the inputs still to come, so that it can say that they
bring something new.
-/

namespace Paystream
namespace Library

variable {State Input Output : Type} (step : State → Input → State × Output)

/-- The answers to the watched inputs, oldest first. -/
def answers (watched : Input → Bool) (state : State) : List Input → List Output
  | [] => []
  | input :: later =>
      if watched input then
        (step state input).2 :: answers watched (step state input).1 later
      else answers watched (step state input).1 later

structure Unwinding (hidden watched : Input → Bool)
    (similar : List Input → State → State → Prop) : Prop where
  unwatched : ∀ {input}, hidden input = true → watched input = false
  silent : ∀ {input later state state'}, hidden input = true →
    similar (input :: later) state state' → similar later (step state input).1 state'
  same : ∀ {input later state state'}, hidden input = false →
    similar (input :: later) state state' →
      similar later (step state input).1 (step state' input).1
  answer : ∀ {input later state state'}, watched input = true →
    similar (input :: later) state state' → (step state input).2 = (step state' input).2

variable {step}

/-- The hidden inputs can be left out. -/
theorem Unwinding.answers_eq {hidden watched : Input → Bool}
    {similar : List Input → State → State → Prop}
    (h : Unwinding step hidden watched similar) {inputs : List Input}
    {state state' : State} (hsimilar : similar inputs state state') :
    answers step watched state inputs =
      answers step watched state' (inputs.filter fun input => !hidden input) := by
  induction inputs generalizing state state' with
  | nil => rfl
  | cons input later ih =>
      cases hhidden : hidden input with
      | true =>
          rw [List.filter_cons_of_neg (by simp [hhidden]), answers,
            if_neg (by simp [h.unwatched hhidden])]
          exact ih (h.silent hhidden hsimilar)
      | false =>
          have hnext := ih (h.same hhidden hsimilar)
          rw [List.filter_cons_of_pos (by simp [hhidden]), answers, answers]
          split
          · rename_i hwatched
            rw [h.answer hwatched hsimilar, hnext]
          · exact hnext

end Library
end Paystream
