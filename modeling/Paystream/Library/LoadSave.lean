import Mathlib.Data.List.Perm.Subperm
import Paystream.Library.History

/-!
# Calls that load a list and save it back

Several calls share a store of lists.  Each loads the list under its key, makes of
it what it wants to save and an item to return, saves, and returns; or it gives up
after the load.  Load and save are atomic, and the calls interleave in between.

A call that appends its item to what it loaded drops whatever was saved in the
meantime.  `LoadSave.invariant` follows the length of the stored list against the
number of items saved: as long as every save finds the list its call has loaded
they are equal and no item is missing, and after the first save that does not the
list stays shorter for good.
-/

namespace Paystream
namespace Library

/-! ## Collecting optional values -/

/-- The values of a partial function on the first `n` numbers. -/
def collect {α : Type} (f : Nat → Option α) (n : Nat) : List α :=
  (List.range n).filterMap f

section Collect

variable {α : Type} {f g : Nat → Option α} {n i : Nat}

theorem mem_collect {x : α} : x ∈ collect f n ↔ ∃ i < n, f i = some x := by
  simp [collect]

theorem collect_congr (h : ∀ i < n, f i = g i) : collect f n = collect g n := by
  unfold collect
  apply List.filterMap_congr
  intro i hi
  exact h i (List.mem_range.mp hi)

theorem collect_succ (f : Nat → Option α) (n : Nat) :
    collect f (n + 1) = collect f n ++ (f n).toList := by
  unfold collect
  rw [List.range_succ, List.filterMap_append]
  cases hlast : f n with
  | none => simp [hlast]
  | some x => simp [hlast]

theorem length_collect_le (f : Nat → Option α) (n : Nat) :
    (collect f n).length ≤ n := by
  have hle := List.length_filterMap_le f (List.range n)
  rw [List.length_range] at hle
  exact hle

/-- Giving a value where there was none adds it to the list. -/
theorem collect_update_perm (hi : i < n) (hnone : f i = none) (x : α) :
    (collect (Function.update f i (some x)) n).Perm (x :: collect f n) := by
  induction n with
  | zero => omega
  | succ n ih =>
      rw [collect_succ, collect_succ]
      by_cases hlast : i = n
      · subst hlast
        have hearlier : collect (Function.update f i (some x)) i = collect f i := by
          apply collect_congr
          intro j hj
          rw [Function.update_of_ne (Nat.ne_of_lt hj)]
        rw [hearlier, Function.update_self, hnone]
        simp only [Option.toList_some, Option.toList_none, List.append_nil]
        exact List.perm_append_singleton x (collect f i)
      · rw [Function.update_of_ne (Ne.symm hlast), ← List.cons_append]
        exact (ih (by omega)).append_right _

end Collect

/-! ## The calls -/

namespace LoadSave

/-- The calls: how many there are, the key of each, and what it makes of the list
it loaded: nothing, or an item to return and a list to save. -/
structure Calls (Key Item : Type) where
  count : Nat
  key : Nat → Key
  body : Nat → List Item → Option (Item × List Item)

/-- How far a call is. -/
inductive Phase (Item : Type)
  | called
  | loaded (items : List Item)
  | saved (item : Item)
  | returned (result : Option Item)

/-- The item of a call that has saved. -/
def Phase.item {Item : Type} : Phase Item → Option Item
  | .saved item => some item
  | .returned result => result
  | _ => none

/-- What a call has returned, if it was an item. -/
def Phase.result {Item : Type} : Phase Item → Option Item
  | .returned result => result
  | _ => none

structure State (Key Item : Type) where
  store : Key → Option (List Item)
  phase : Nat → Phase Item

inductive Action
  | load (i : Nat)
  | save (i : Nat)
  | finish (i : Nat)
  deriving DecidableEq

section System

variable {Key Item : Type} [DecidableEq Key]

/-- What is stored under a key; nothing counts as the empty list. -/
def State.stored (s : State Key Item) (key : Key) : List Item :=
  (s.store key).getD []

def State.setPhase (s : State Key Item) (i : Nat) (phase : Phase Item) :
    State Key Item :=
  { s with phase := Function.update s.phase i phase }

variable (calls : Calls Key Item)

/-- The step of one call; a step that is not due does nothing. -/
def due (s : State Key Item) : Action → State Key Item
  | .load i =>
      match s.phase i with
      | .called => s.setPhase i (.loaded (s.stored (calls.key i)))
      | _ => s
  | .save i =>
      match s.phase i with
      | .loaded items =>
          match calls.body i items with
          | none => s.setPhase i (.returned none)
          | some (item, list) =>
              { (s.setPhase i (.saved item)) with
                store := Function.update s.store (calls.key i) (some list) }
      | _ => s
  | .finish i =>
      match s.phase i with
      | .saved item => s.setPhase i (.returned (some item))
      | _ => s

/-- The call a step belongs to. -/
def Action.call : Action → Nat
  | .load i => i
  | .save i => i
  | .finish i => i

def step (s : State Key Item) (action : Action) : State Key Item :=
  if action.call < calls.count then due calls s action else s

/-- All interleavings of the calls, from an empty store. -/
def system : System (State Key Item) Action where
  initial s := (∀ key, s.store key = none) ∧ ∀ i, s.phase i = .called
  time := fun _ => 0
  step := step calls

/-- The items saved so far, by the number of their call. -/
def State.items (s : State Key Item) : List Item :=
  collect (fun i => (s.phase i).item) calls.count

/-- The items that were returned, by the number of their call. -/
def State.returned (s : State Key Item) : List Item :=
  collect (fun i => (s.phase i).result) calls.count

/-- Every call has returned. -/
def AllReturned (s : State Key Item) : Prop :=
  ∀ i < calls.count, ∃ result, s.phase i = .returned result

/-- A save of the entry finds the list its call has loaded. -/
def FindsLoaded (entry : Entry (State Key Item) Action) : Prop :=
  ∀ i items, entry.input = .save i → i < calls.count →
    entry.before.phase i = .loaded items → (calls.body i items).isSome = true →
      entry.before.stored (calls.key i) = items

variable {calls} {s : State Key Item} {i : Nat}

/-! ## One step -/

/-- What a step can do. -/
inductive Effect (calls : Calls Key Item) (s : State Key Item) :
    Action → State Key Item → Prop
  | idle (action : Action) (hsaves : ∀ i items, action = .save i →
      i < calls.count → s.phase i = .loaded items → calls.body i items = none) :
      Effect calls s action s
  | load (i : Nat) (hi : i < calls.count) (hphase : s.phase i = .called) :
      Effect calls s (.load i)
        (s.setPhase i (.loaded (s.stored (calls.key i))))
  | giveUp (i : Nat) (hi : i < calls.count) (items : List Item)
      (hphase : s.phase i = .loaded items) (hbody : calls.body i items = none) :
      Effect calls s (.save i) (s.setPhase i (.returned none))
  | save (i : Nat) (hi : i < calls.count) (items : List Item) (item : Item)
      (list : List Item) (hphase : s.phase i = .loaded items)
      (hbody : calls.body i items = some (item, list)) :
      Effect calls s (.save i)
        { (s.setPhase i (.saved item)) with
          store := Function.update s.store (calls.key i) (some list) }
  | finish (i : Nat) (hi : i < calls.count) (item : Item)
      (hphase : s.phase i = .saved item) :
      Effect calls s (.finish i) (s.setPhase i (.returned (some item)))

theorem step_effect (calls : Calls Key Item) (s : State Key Item)
    (action : Action) : Effect calls s action (step calls s action) := by
  unfold step
  split
  · rename_i hi
    cases action with
    | load i =>
        cases hphase : s.phase i with
        | called =>
            simp only [due, hphase]
            exact .load i hi hphase
        | _ =>
            simp only [due, hphase]
            exact .idle _ (fun _ _ h => by cases h)
    | save i =>
        cases hphase : s.phase i with
        | loaded items =>
            cases hbody : calls.body i items with
            | none =>
                simp only [due, hphase, hbody]
                exact .giveUp i hi items hphase hbody
            | some result =>
                simp only [due, hphase, hbody]
                exact .save i hi items result.1 result.2 hphase hbody
        | _ =>
            simp only [due, hphase]
            refine .idle _ (fun j items hj _ hloaded => ?_)
            cases hj
            rw [hphase] at hloaded
            cases hloaded
    | finish i =>
        cases hphase : s.phase i with
        | saved item =>
            simp only [due, hphase]
            exact .finish i hi item hphase
        | _ =>
            simp only [due, hphase]
            exact .idle _ (fun _ _ h => by cases h)
  · rename_i hout
    refine .idle _ (fun i items hsave hi _ => ?_)
    subst hsave
    exact absurd hi hout

omit [DecidableEq Key] in
/-- A phase with the same item changes none of the items. -/
theorem items_setPhase (calls : Calls Key Item) {phase : Phase Item}
    (h : phase.item = (s.phase i).item) :
    (s.setPhase i phase).items calls = s.items calls := by
  unfold State.items
  apply collect_congr
  intro j _
  show (Function.update s.phase i phase j).item = (s.phase j).item
  by_cases hj : j = i
  · subst hj
    rw [Function.update_self, h]
  · rw [Function.update_of_ne hj]

omit [DecidableEq Key] in
/-- A call that saves adds its item. -/
theorem items_saved {item : Item} (hi : i < calls.count)
    (hnone : (s.phase i).item = none) :
    ((s.setPhase i (.saved item)).items calls).Perm (item :: s.items calls) := by
  have hupdate : (fun j => ((s.setPhase i (.saved item)).phase j).item) =
      Function.update (fun j => (s.phase j).item) i (some item) := by
    funext j
    show (Function.update s.phase i (.saved item) j).item = _
    by_cases hj : j = i
    · subst hj
      rw [Function.update_self, Function.update_self]
      rfl
    · rw [Function.update_of_ne hj, Function.update_of_ne hj]
  unfold State.items
  rw [hupdate]
  exact collect_update_perm hi hnone item

omit [DecidableEq Key] in
/-- In the end every item that was saved has been returned. -/
theorem returned_eq_items (h : AllReturned calls s) :
    s.returned calls = s.items calls := by
  apply collect_congr
  intro i hi
  obtain ⟨result, hresult⟩ := h i hi
  rw [hresult]
  rfl

/-! ## Calls that append -/

/-- All calls work under one key and append their item to what they loaded, as
long as that is shorter than the number of calls; longer lists may be cut. -/
structure Appends (calls : Calls Key Item) (key : Key) : Prop where
  key_eq : ∀ i < calls.count, calls.key i = key
  grows : ∀ i items item list, calls.body i items = some (item, list) →
    list.length ≤ items.length + 1
  appends : ∀ i items item list, items.length < calls.count →
    calls.body i items = some (item, list) → list = items ++ [item]

variable (calls)

/-- Every item saved is stored, and what a call has loaded is still there. -/
structure Clean (key : Key) (s : State Key Item) : Prop where
  length : (s.stored key).length = (s.items calls).length
  pending : ∀ i < calls.count, ∀ items, s.phase i = .loaded items →
    items <+: s.stored key
  kept : ∀ item ∈ s.items calls, item ∈ s.stored key

/-- Fewer items are stored than were saved, and what a call has loaded is too
short to make up for it. -/
structure Short (key : Key) (s : State Key Item) : Prop where
  length : (s.stored key).length < (s.items calls).length
  pending : ∀ i < calls.count, ∀ items, s.phase i = .loaded items →
    items.length < (s.items calls).length

variable {calls} {key : Key}

omit [DecidableEq Key] in
/-- The phases after one of them was set. -/
theorem phase_setPhase_cases {phase : Phase Item} {j : Nat} {items : List Item}
    (h : (s.setPhase i phase).phase j = .loaded items) :
    (j = i ∧ phase = .loaded items) ∨ s.phase j = .loaded items := by
  change Function.update s.phase i phase j = .loaded items at h
  by_cases hj : j = i
  · subst hj
    rw [Function.update_self] at h
    exact Or.inl ⟨rfl, h⟩
  · rw [Function.update_of_ne hj] at h
    exact Or.inr h

omit [DecidableEq Key] in
/-- A step that only moves a call on, without a list it did not find, keeps both
invariants. -/
theorem Clean.setPhase {phase : Phase Item} (h : Clean calls key s)
    (hitem : phase.item = (s.phase i).item)
    (hloaded : ∀ items, phase = .loaded items → items <+: s.stored key) :
    Clean calls key (s.setPhase i phase) := by
  have hitems := items_setPhase calls hitem
  refine ⟨?_, ?_, ?_⟩
  · rw [hitems]
    exact h.length
  · intro j hj items hphase
    rcases phase_setPhase_cases hphase with ⟨_, hnew⟩ | hold
    · exact hloaded items hnew
    · exact h.pending j hj items hold
  · rw [hitems]
    exact h.kept

omit [DecidableEq Key] in
theorem Short.setPhase {phase : Phase Item} (h : Short calls key s)
    (hitem : phase.item = (s.phase i).item)
    (hloaded : ∀ items, phase = .loaded items →
      items.length < (s.items calls).length) :
    Short calls key (s.setPhase i phase) := by
  have hitems := items_setPhase calls hitem
  refine ⟨?_, ?_⟩
  · rw [hitems]
    exact h.length
  · rw [hitems]
    intro j hj items hphase
    rcases phase_setPhase_cases hphase with ⟨_, hnew⟩ | hold
    · exact hloaded items hnew
    · exact h.pending j hj items hold

/-- The state after a save. -/
def State.saved (s : State Key Item) (i : Nat) (key : Key) (item : Item)
    (list : List Item) : State Key Item :=
  { (s.setPhase i (.saved item)) with
    store := Function.update s.store key (some list) }

@[simp] theorem stored_saved (s : State Key Item) (i : Nat) (key : Key)
    (item : Item) (list : List Item) : (s.saved i key item list).stored key = list := by
  simp [State.stored, State.saved]

/-- A save leaves what the other calls have loaded. -/
theorem loaded_of_saved {item : Item} {list items : List Item} {j : Nat}
    (h : (s.saved i key item list).phase j = .loaded items) :
    s.phase j = .loaded items := by
  have hphase : (s.setPhase i (.saved item)).phase j = .loaded items := h
  rcases phase_setPhase_cases hphase with ⟨_, hnew⟩ | hold
  · cases hnew
  · exact hold

section Save

variable {items list : List Item} {item : Item}

theorem items_of_save (key : Key) (item : Item) (list : List Item)
    (hi : i < calls.count) (hphase : s.phase i = .loaded items) :
    ((s.saved i key item list).items calls).Perm (item :: s.items calls) ∧
      ((s.saved i key item list).items calls).length =
        (s.items calls).length + 1 ∧
      (s.items calls).length < calls.count := by
  have hperm : ((s.saved i key item list).items calls).Perm
      (item :: s.items calls) :=
    items_saved hi (by rw [hphase]; rfl)
  have hlength := hperm.length_eq
  rw [List.length_cons] at hlength
  have hle : ((s.saved i key item list).items calls).length ≤ calls.count :=
    length_collect_le _ _
  exact ⟨hperm, hlength, by omega⟩

/-- A save that finds what its call has loaded appends the item. -/
theorem Clean.save_found (h : Clean calls key s) (happends : Appends calls key)
    (hi : i < calls.count) (hphase : s.phase i = .loaded items)
    (hbody : calls.body i items = some (item, list))
    (hfound : s.stored key = items) :
    Clean calls key (s.saved i key item list) := by
  obtain ⟨hperm, hlength, hroom⟩ :=
    items_of_save key item list hi hphase
  have hlist : list = s.stored key ++ [item] := by
    rw [hfound]
    refine happends.appends i items item list ?_ hbody
    rw [← hfound, h.length]
    exact hroom
  refine ⟨?_, ?_, ?_⟩
  · rw [stored_saved, hlength, hlist, List.length_append, h.length]
    rfl
  · intro j hj loaded hloaded
    rw [stored_saved, hlist]
    exact (h.pending j hj loaded (loaded_of_saved hloaded)).trans
      (List.prefix_append _ _)
  · intro saved hsaved
    rw [stored_saved, hlist, List.mem_append, List.mem_singleton]
    rcases List.mem_cons.mp (hperm.mem_iff.mp hsaved) with rfl | hold
    · exact Or.inr rfl
    · exact Or.inl (h.kept saved hold)

/-- A save that does not find it drops what was saved since. -/
theorem Clean.save_other (h : Clean calls key s) (happends : Appends calls key)
    (hi : i < calls.count) (hphase : s.phase i = .loaded items)
    (hbody : calls.body i items = some (item, list))
    (hother : s.stored key ≠ items) :
    Short calls key (s.saved i key item list) := by
  obtain ⟨_, hlength, _⟩ :=
    items_of_save key item list hi hphase
  have hloadedPart := h.pending i hi items hphase
  have hshorter : items.length < (s.stored key).length :=
    lt_of_le_of_ne hloadedPart.length_le fun heq =>
      hother (hloadedPart.eq_of_length heq).symm
  have hgrows := happends.grows i items item list hbody
  have hstored := h.length
  refine ⟨?_, ?_⟩
  · rw [stored_saved]
    omega
  · intro j hj loaded hloaded
    have := (h.pending j hj loaded (loaded_of_saved hloaded)).length_le
    omega

theorem Short.save (h : Short calls key s) (happends : Appends calls key)
    (hi : i < calls.count) (hphase : s.phase i = .loaded items)
    (hbody : calls.body i items = some (item, list)) :
    Short calls key (s.saved i key item list) := by
  obtain ⟨_, hlength, _⟩ :=
    items_of_save key item list hi hphase
  have hloaded := h.pending i hi items hphase
  have hgrows := happends.grows i items item list hbody
  refine ⟨?_, ?_⟩
  · rw [stored_saved]
    omega
  · intro j hj loaded hpending
    have := h.pending j hj loaded (loaded_of_saved hpending)
    omega

end Save

/-! ## Every run -/

theorem Clean.step (h : Clean calls key s) (happends : Appends calls key)
    (action : Action) :
    (FindsLoaded calls ((system calls).entryOf s action) →
        Clean calls key (step calls s action)) ∧
      (¬ FindsLoaded calls ((system calls).entryOf s action) →
        Short calls key (step calls s action)) := by
  have heffect := step_effect calls s action
  generalize hnext : LoadSave.step calls s action = s' at heffect
  -- only a save can miss what its call has loaded
  have hfinds : (∀ i items, action = .save i → i < calls.count →
      s.phase i = .loaded items → (calls.body i items).isSome = true →
        s.stored (calls.key i) = items) ↔
      FindsLoaded calls ((system calls).entryOf s action) := Iff.rfl
  rw [← hfinds]
  cases heffect with
  | idle _ hsaves =>
      refine ⟨fun _ => h, fun hnot => absurd ?_ hnot⟩
      intro i items hsave hi hphase hsome
      rw [hsaves i items hsave hi hphase] at hsome
      cases hsome
  | load i hi hphase =>
      refine ⟨fun _ => h.setPhase (by rw [hphase]; rfl) ?_,
        fun hnot => absurd (fun _ _ hsave => by cases hsave) hnot⟩
      intro items hloaded
      cases hloaded
      rw [happends.key_eq i hi]
  | giveUp i hi items hphase hbody =>
      refine ⟨fun _ => h.setPhase (by rw [hphase]; rfl)
        (fun _ hloaded => by cases hloaded), fun hnot => absurd ?_ hnot⟩
      intro j found hsave _ hfound hsome
      cases hsave
      rw [hphase] at hfound
      cases hfound
      rw [hbody] at hsome
      cases hsome
  | save i hi items item list hphase hbody =>
      have hkey := happends.key_eq i hi
      rw [hkey]
      constructor
      · intro hfound
        have hsame := hfound i items rfl hi hphase (by rw [hbody]; rfl)
        rw [hkey] at hsame
        exact h.save_found happends hi hphase hbody hsame
      · intro hnot
        refine h.save_other happends hi hphase hbody fun hsame => hnot ?_
        intro j found hsave _ hfound _
        cases hsave
        rw [hphase] at hfound
        cases hfound
        rw [hkey]
        exact hsame
  | finish i hi item hphase =>
      exact ⟨fun _ => h.setPhase (by rw [hphase]; rfl)
        (fun _ hloaded => by cases hloaded),
        fun hnot => absurd (fun _ _ hsave => by cases hsave) hnot⟩

theorem Short.step (h : Short calls key s) (happends : Appends calls key)
    (action : Action) : Short calls key (step calls s action) := by
  have heffect := step_effect calls s action
  generalize LoadSave.step calls s action = s' at heffect
  cases heffect with
  | idle _ _ => exact h
  | load i hi hphase =>
      refine h.setPhase (by rw [hphase]; rfl) ?_
      intro items hloaded
      cases hloaded
      rw [happends.key_eq i hi]
      exact h.length
  | giveUp i hi items hphase hbody =>
      exact h.setPhase (by rw [hphase]; rfl) (fun _ hloaded => by cases hloaded)
  | save i hi items item list hphase hbody =>
      rw [happends.key_eq i hi]
      exact h.save happends hi hphase hbody
  | finish i hi item hphase =>
      exact h.setPhase (by rw [hphase]; rfl) (fun _ hloaded => by cases hloaded)

/-- Along every run the list is complete while all saves found what their calls
had loaded, and too short from the first one on that did not. -/
theorem invariant (happends : Appends calls key)
    {history : List (Entry (State Key Item) Action)}
    (hrun : (system calls).Run history s) :
    ((∀ entry ∈ history, FindsLoaded calls entry) ∧ Clean calls key s) ∨
      ((∃ entry ∈ history, ¬ FindsLoaded calls entry) ∧ Short calls key s) := by
  refine System.Run.invariant (P := fun history s =>
    ((∀ entry ∈ history, FindsLoaded calls entry) ∧ Clean calls key s) ∨
      ((∃ entry ∈ history, ¬ FindsLoaded calls entry) ∧ Short calls key s))
    ?_ ?_ hrun
  · rintro s ⟨hempty, hcalled⟩
    have hnone : s.items calls = [] := by
      rw [List.eq_nil_iff_forall_not_mem]
      intro item hitem
      obtain ⟨i, _, hi⟩ := mem_collect.mp hitem
      rw [hcalled i] at hi
      cases hi
    refine Or.inl ⟨List.forall_mem_nil _, ?_, ?_, ?_⟩
    · simp [State.stored, hempty, hnone]
    · intro i _ items hloaded
      rw [hcalled i] at hloaded
      cases hloaded
    · simp [hnone]
  · intro history s action _ _ ih
    rcases ih with ⟨hall, hclean⟩ | ⟨⟨entry, hentry, hnot⟩, hshort⟩
    · obtain ⟨hkept, hlost⟩ := hclean.step happends action
      by_cases hfinds : FindsLoaded calls ((system calls).entryOf s action)
      · exact Or.inl ⟨List.forall_mem_cons.mpr ⟨hfinds, hall⟩, hkept hfinds⟩
      · exact Or.inr ⟨⟨_, List.mem_cons_self, hfinds⟩, hlost hfinds⟩
    · exact Or.inr ⟨⟨entry, List.mem_cons_of_mem _ hentry, hnot⟩,
        hshort.step happends action⟩

end System

end LoadSave

end Library
end Paystream
