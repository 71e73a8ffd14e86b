import Mathlib.Tactic
import Mathlib.Order.Interval.Finset.Nat

/-!
# Runs of a clocked system, with their history

A deterministic system takes one input at a time; every input carries the
clock time at which it arrives, and the clock never goes back.  A run is kept
together with its history, newest entry first, because the properties of
interest speak about what happened earlier: which input caused a change, and
for how long a condition held.

* `System.Path` extends a history by further inputs, `System.Run` starts one at
  an initial state;
* `System.Run.invariant` is the invariant rule, and `System.Run.throughout_iff`
  its form for a property that only some steps keep
  (`System.Run.throughout_iff_of` where the steps of the run are restricted);
* `System.replay` computes the run of a list of inputs;
* `secondsWhile` counts the seconds of an interval during which a condition on
  the state held, reading the state between two entries as the one the
  earlier entry left.
-/

namespace Paystream
namespace Library

/-- One step of a history. -/
structure Entry (State Input : Type) where
  before : State
  input : Input
  after : State

/-- A deterministic system whose inputs carry the time they arrive at. -/
structure System (State Input : Type) where
  initial : State → Prop
  time : Input → Nat
  step : State → Input → State

namespace System

variable {State Input : Type} (system : System State Input)

/-- The time of the newest entry. -/
def lastTime : List (Entry State Input) → Nat
  | [] => 0
  | entry :: _ => system.time entry.input

/-- The history entry made by one input. -/
def entryOf (state : State) (input : Input) : Entry State Input :=
  ⟨state, input, system.step state input⟩

/-- `Path history₀ state₀ history state`: feeding further inputs at
non-decreasing times leads from `state₀` to `state`. -/
inductive Path (history₀ : List (Entry State Input)) (state₀ : State) :
    List (Entry State Input) → State → Prop
  | stay : Path history₀ state₀ history₀ state₀
  | next {history : List (Entry State Input)} {state : State} (input : Input)
      (hpath : Path history₀ state₀ history state)
      (htime : system.lastTime history ≤ system.time input) :
      Path history₀ state₀ (system.entryOf state input :: history)
        (system.step state input)

/-- A run from an initial state. -/
def Run (history : List (Entry State Input)) (state : State) : Prop :=
  ∃ state₀, system.initial state₀ ∧ system.Path [] state₀ history state

variable {system}

theorem Run.start {state : State} (h : system.initial state) :
    system.Run [] state :=
  ⟨state, h, .stay⟩

theorem Run.next {history : List (Entry State Input)} {state : State}
    (hrun : system.Run history state) (input : Input)
    (htime : system.lastTime history ≤ system.time input) :
    system.Run (system.entryOf state input :: history)
      (system.step state input) := by
  obtain ⟨state₀, hinitial, hpath⟩ := hrun
  exact ⟨state₀, hinitial, .next input hpath htime⟩

/-- Induction over a run: the start, and one more input. -/
@[elab_as_elim]
theorem Run.induction
    {motive : ∀ (history : List (Entry State Input)) (state : State),
      system.Run history state → Prop}
    (start : ∀ (state : State) (h : system.initial state),
      motive [] state (Run.start h))
    (next : ∀ (history : List (Entry State Input)) (state : State)
      (input : Input) (hrun : system.Run history state)
      (htime : system.lastTime history ≤ system.time input),
      motive history state hrun →
        motive (system.entryOf state input :: history)
          (system.step state input) (hrun.next input htime))
    {history : List (Entry State Input)} {state : State}
    (hrun : system.Run history state) : motive history state hrun := by
  obtain ⟨state₀, hinitial, hpath⟩ := hrun
  induction hpath with
  | stay => exact start state₀ hinitial
  | next input hpath htime ih =>
      exact next _ _ input ⟨state₀, hinitial, hpath⟩ htime ih

/-- The invariant rule: what holds initially and is kept by every step of a
run holds at every state the run reaches. -/
theorem Run.invariant {P : List (Entry State Input) → State → Prop}
    (hstart : ∀ state, system.initial state → P [] state)
    (hstep : ∀ history state input, system.Run history state →
      system.lastTime history ≤ system.time input → P history state →
        P (system.entryOf state input :: history) (system.step state input))
    {history : List (Entry State Input)} {state : State}
    (hrun : system.Run history state) : P history state := by
  induction hrun using Run.induction with
  | start state h => exact hstart state h
  | next history state input hrun htime ih =>
      exact hstep history state input hrun htime ih

/-- The property holds in every state a history went through on its way to
`state`. -/
def Throughout (P : State → Prop) (history : List (Entry State Input))
    (state : State) : Prop :=
  P state ∧ ∀ entry ∈ history, P entry.before

/-- When each allowed step from a good state leads to a good one exactly under a
condition on that step, all states of a run of allowed steps are good exactly
when all its steps met the condition. -/
theorem Run.throughout_iff_of {P : State → Prop}
    (Allowed Keeps : State → Input → Prop)
    (hstart : ∀ state, system.initial state → P state)
    (hstep : ∀ history state input, system.Run history state →
      system.lastTime history ≤ system.time input → Allowed state input →
        P state → (P (system.step state input) ↔ Keeps state input))
    {history : List (Entry State Input)} {state : State}
    (hrun : system.Run history state)
    (hallowed : ∀ entry ∈ history, Allowed entry.before entry.input) :
    Throughout P history state ↔
      ∀ entry ∈ history, Keeps entry.before entry.input := by
  induction hrun using Run.induction with
  | start state h =>
      simp only [Throughout, List.not_mem_nil, false_imp_iff, implies_true,
        and_true, iff_true]
      exact hstart state h
  | next history state input hrun htime ih =>
      obtain ⟨hnow, hbefore⟩ := List.forall_mem_cons.mp hallowed
      have hlast := hstep history state input hrun htime hnow
      have ih := ih hbefore
      simp only [Throughout, List.forall_mem_cons] at ih ⊢
      show (P (system.step state input) ∧ P state ∧ _) ↔
        (Keeps state input ∧ _)
      constructor
      · rintro ⟨hafter, hbefore, hearlier⟩
        exact ⟨(hlast hbefore).mp hafter, ih.mp ⟨hbefore, hearlier⟩⟩
      · rintro ⟨hkeeps, hkept⟩
        obtain ⟨hbefore, hearlier⟩ := ih.mpr hkept
        exact ⟨(hlast hbefore).mpr hkeeps, hbefore, hearlier⟩

/-- The same where every step is allowed. -/
theorem Run.throughout_iff {P : State → Prop} (Keeps : State → Input → Prop)
    (hstart : ∀ state, system.initial state → P state)
    (hstep : ∀ history state input, system.Run history state →
      system.lastTime history ≤ system.time input → P state →
        (P (system.step state input) ↔ Keeps state input))
    {history : List (Entry State Input)} {state : State}
    (hrun : system.Run history state) :
    Throughout P history state ↔
      ∀ entry ∈ history, Keeps entry.before entry.input := by
  refine hrun.throughout_iff_of (fun _ _ => True) Keeps hstart ?_ ?_
  · intro history state input hrun htime _
    exact hstep history state input hrun htime
  · intro entry _
    trivial

theorem Run.of_path {history₀ history : List (Entry State Input)}
    {state₀ state : State} (hrun : system.Run history₀ state₀)
    (hpath : system.Path history₀ state₀ history state) :
    system.Run history state := by
  induction hpath with
  | stay => exact hrun
  | next input _hpath htime ih => exact ih.next input htime

/-- Every entry of a run is a step from a state the run reached, no earlier
than the entries before it. -/
theorem Run.of_split {later earlier : List (Entry State Input)}
    {entry : Entry State Input} {state : State}
    (hrun : system.Run (later ++ entry :: earlier) state) :
    system.Run earlier entry.before ∧
      entry.after = system.step entry.before entry.input ∧
      system.lastTime earlier ≤ system.time entry.input := by
  obtain ⟨state₀, hinitial, hpath⟩ := hrun
  generalize hhistory : later ++ entry :: earlier = history at hpath
  induction hpath generalizing later with
  | stay => simp at hhistory
  | next input hpath htime ih =>
      cases later with
      | nil =>
          simp only [List.nil_append, List.cons.injEq] at hhistory
          obtain ⟨rfl, rfl⟩ := hhistory
          exact ⟨⟨state₀, hinitial, hpath⟩, rfl, htime⟩
      | cons newest later =>
          simp only [List.cons_append, List.cons.injEq] at hhistory
          exact ih hhistory.2

/-- The run up to and including one of its entries. -/
theorem Run.upTo {later earlier : List (Entry State Input)}
    {entry : Entry State Input} {state : State}
    (hrun : system.Run (later ++ entry :: earlier) state) :
    system.Run (entry :: earlier) entry.after := by
  obtain ⟨hbefore, hstep, htime⟩ := hrun.of_split
  have hnext := hbefore.next entry.input htime
  have hentry : system.entryOf entry.before entry.input = entry := by
    unfold entryOf
    rw [← hstep]
  rw [hentry, ← hstep] at hnext
  exact hnext

theorem Run.of_nil {state : State} (hrun : system.Run [] state) :
    system.initial state := by
  obtain ⟨state₀, hinitial, hpath⟩ := hrun
  cases hpath with
  | stay => exact hinitial

/-- The newest entry of a run was made from the state before it. -/
theorem Run.of_cons {history : List (Entry State Input)}
    {entry : Entry State Input} {state : State}
    (hrun : system.Run (entry :: history) state) :
    system.Run history entry.before ∧
      entry.after = system.step entry.before entry.input ∧
      state = entry.after := by
  obtain ⟨state₀, hinitial, hpath⟩ := hrun
  cases hpath with
  | next input hpath _ => exact ⟨⟨state₀, hinitial, hpath⟩, rfl, rfl⟩

/-- What the steps after an entry keep, each under a condition it meets, holds
from that entry on. -/
theorem Run.persists {P : State → Prop} {Q : State → Input → Prop}
    (hstep : ∀ history state input, system.Run history state →
      system.lastTime history ≤ system.time input → Q state input → P state →
        P (system.step state input))
    {later earlier : List (Entry State Input)} {entry : Entry State Input}
    {state : State} (hrun : system.Run (later ++ entry :: earlier) state)
    (hlater : ∀ newer ∈ later, Q newer.before newer.input)
    (hentry : P entry.after) : P state := by
  induction later generalizing state with
  | nil =>
      obtain ⟨_, _, rfl⟩ := hrun.of_cons
      exact hentry
  | cons newest later ih =>
      have hnewest : system.Run ([] ++ newest :: (later ++ entry :: earlier))
          state := hrun
      obtain ⟨hbefore, hafter, htime⟩ := hnewest.of_split
      rw [List.forall_mem_cons] at hlater
      rw [hrun.of_cons.2.2, hafter]
      exact hstep _ _ _ hbefore htime hlater.1 (ih hbefore hlater.2)

/-! ## Replaying a list of inputs -/

variable (system)

/-- Feed a list of inputs to a state, keeping the history. -/
def replay (history : List (Entry State Input)) (state : State) :
    List Input → List (Entry State Input) × State
  | [] => (history, state)
  | input :: later =>
      replay (system.entryOf state input :: history) (system.step state input)
        later

/-- The inputs arrive in the order of their times, none before `start`. -/
def InOrder (start : Nat) : List Input → Bool
  | [] => true
  | input :: later =>
      decide (start ≤ system.time input) && InOrder (system.time input) later

variable {system}

theorem Path.replay {history₀ history : List (Entry State Input)}
    {state₀ state : State} (hpath : system.Path history₀ state₀ history state)
    {inputs : List Input}
    (horder : system.InOrder (system.lastTime history) inputs = true) :
    system.Path history₀ state₀ (system.replay history state inputs).1
      (system.replay history state inputs).2 := by
  induction inputs generalizing history state with
  | nil => exact hpath
  | cons input later ih =>
      simp only [InOrder, Bool.and_eq_true, decide_eq_true_eq] at horder
      exact ih (.next input hpath horder.1) horder.2

/-- The inputs of a replayed history are the ones fed in. -/
theorem input_mem_of_replay {history : List (Entry State Input)} {state : State}
    {inputs : List Input} {entry : Entry State Input}
    (h : entry ∈ (system.replay history state inputs).1) :
    entry ∈ history ∨ entry.input ∈ inputs := by
  induction inputs generalizing history state with
  | nil => exact Or.inl h
  | cons input later ih =>
      rcases ih h with hmem | hmem
      · rcases List.mem_cons.mp hmem with rfl | hold
        · exact Or.inr List.mem_cons_self
        · exact Or.inl hold
      · exact Or.inr (List.mem_cons_of_mem input hmem)

theorem input_mem_of_replay_nil {state : State} {inputs : List Input}
    {entry : Entry State Input} (h : entry ∈ (system.replay [] state inputs).1) :
    entry.input ∈ inputs := by
  rcases input_mem_of_replay h with hnil | hmem
  · cases hnil
  · exact hmem

end System

/-! ## How long a condition held -/

section Seconds

variable {State Input : Type} (system : System State Input)

/-- Whether the condition held during second `second`: the newest entry made
by then decides. -/
def heldDuring (condition : State → Bool)
    (history : List (Entry State Input)) (second : Nat) : Bool :=
  match history.find? (fun entry => decide (system.time entry.input ≤ second)) with
  | some entry => condition entry.after
  | none => false

/-- The number of seconds of `[start, stop)` during which the condition
held. -/
def secondsWhile (condition : State → Bool)
    (history : List (Entry State Input)) (start stop : Nat) : Nat :=
  ((Finset.Ico start stop).filter
    (fun second => heldDuring system condition history second = true)).card

variable {system}

theorem heldDuring_cons (condition : State → Bool) (entry : Entry State Input)
    (history : List (Entry State Input)) (second : Nat) :
    heldDuring system condition (entry :: history) second =
      if system.time entry.input ≤ second then condition entry.after
      else heldDuring system condition history second := by
  unfold heldDuring
  by_cases h : system.time entry.input ≤ second
  · simp [h]
  · simp [h]

/-- Seconds before the newest entry are decided by the earlier ones. -/
theorem secondsWhile_cons_of_le (condition : State → Bool)
    (entry : Entry State Input) (history : List (Entry State Input))
    {start stop : Nat} (hstop : stop ≤ system.time entry.input) :
    secondsWhile system condition (entry :: history) start stop =
      secondsWhile system condition history start stop := by
  unfold secondsWhile
  congr 1
  apply Finset.filter_congr
  intro second hsecond
  have hbefore : ¬ system.time entry.input ≤ second := by
    have := (Finset.mem_Ico.mp hsecond).2
    omega
  rw [heldDuring_cons, if_neg hbefore]

/-- Past the newest entry the condition is whatever it was left at. -/
theorem secondsWhile_cons (condition : State → Bool)
    (entry : Entry State Input) (history : List (Entry State Input))
    {start stop : Nat} (hstart : start ≤ system.time entry.input)
    (hstop : system.time entry.input ≤ stop) :
    secondsWhile system condition (entry :: history) start stop =
      secondsWhile system condition history start (system.time entry.input) +
        if condition entry.after then stop - system.time entry.input else 0 := by
  have hsplit : Finset.Ico start stop =
      Finset.Ico start (system.time entry.input) ∪
        Finset.Ico (system.time entry.input) stop :=
    (Finset.Ico_union_Ico_eq_Ico hstart hstop).symm
  have hdisjoint : Disjoint (Finset.Ico start (system.time entry.input))
      (Finset.Ico (system.time entry.input) stop) :=
    Finset.Ico_disjoint_Ico_consecutive _ _ _
  have hearlier :
      secondsWhile system condition (entry :: history) start
          (system.time entry.input) =
        secondsWhile system condition history start (system.time entry.input) :=
    secondsWhile_cons_of_le condition entry history le_rfl
  have hlater : ((Finset.Ico (system.time entry.input) stop).filter
      (fun second =>
        heldDuring system condition (entry :: history) second = true)).card =
      if condition entry.after then stop - system.time entry.input else 0 := by
    have hsame : (Finset.Ico (system.time entry.input) stop).filter
        (fun second =>
          heldDuring system condition (entry :: history) second = true) =
        (Finset.Ico (system.time entry.input) stop).filter
          (fun _ => condition entry.after = true) := by
      apply Finset.filter_congr
      intro second hsecond
      rw [heldDuring_cons, if_pos (Finset.mem_Ico.mp hsecond).1]
    rw [hsame]
    cases hcondition : condition entry.after with
    | false => simp
    | true => simp
  unfold secondsWhile at hearlier ⊢
  rw [hsplit, Finset.filter_union,
    Finset.card_union_of_disjoint (Finset.disjoint_filter_filter hdisjoint),
    hearlier, hlater]

@[simp] theorem secondsWhile_self (condition : State → Bool)
    (history : List (Entry State Input)) (start : Nat) :
    secondsWhile system condition history start start = 0 := by
  simp [secondsWhile]

end Seconds

end Library
end Paystream
