import Paystream.Library.Registry
import Paystream.Properties.Parties

/-!
# Stream ids and the two indexes

Ids are given out from one counter by two creation calls, and three helpers write
the two families of index lists.  In every reachable state the counter, the
streams and the lists agree (`registry_law`): the stored ids are `1` to
`stream_count`, each list is strictly increasing, and every id is in the list of
exactly the employer who created it and the employee named then.

The indexes are written at creation only.  `transfer_stream` moves a stream to
another employee and leaves them, so the lookup by employee stays exact in a run
exactly when no stream was moved (`employee_lookup_iff`).
-/

namespace Paystream
namespace Properties

open Library
open Contract
open Contract.Storage
open Semantics

/-! ## Creations and other calls -/

/-- The entry is the creation of the stream `id` by `employer` for `employee`. -/
structure CreatedFor (entry : Entry World Invocation) (id : Nat)
    (employer employee : Address) : Prop where
  call : ∃ call p, entry.input.call = .create call ∧
    CreateCall.employer call = employer ∧ p.employee = employee ∧
    (CreateCall.requests call)[id - entry.before.streamCount - 1]? = some p
  absent : entry.before.streams id = none
  stored : ∃ s, entry.after.streams id = some s ∧ s.employer = employer ∧
    s.employee = employee

/-- A call that is no creation leaves the counter and both indexes. -/
theorem indexes_of_succeeds {host : Host} {w w' : World} {inv : Invocation}
    {value : Value} (h : Succeeds host w inv value w')
    (hcall : ∀ call, inv.call ≠ .create call) :
    w'.streamCount = w.streamCount ∧ w'.employerStreams = w.employerStreams ∧
      w'.employeeStreams = w.employeeStreams := by
  have hrecords := records_of_succeeds h hcall
  have hcount : w'.streamCount = w.streamCount := by
    have heffect := effect_of_succeeds h
    generalize inv.call = call at heffect hcall
    cases heffect with
    | admin call _ hnext =>
        rw [hnext]
        exact congrArg Books.streamCount (books_adminNext w call)
    | governance call hframe => exact congrArg Books.streamCount hframe.books
    | create call => exact absurd rfl (hcall call)
    | onStream streamId call heffect =>
        rcases heffect with ⟨_, hbooks, _⟩ | ⟨_, _, _, _, _, hupdate⟩
        · exact congrArg Books.streamCount hbooks
        · exact hupdate.streamCount
    | feePayout admin token amount _ _ hpayout => exact hpayout.streamCount
    | query query hsame => rw [hsame]
    | directTransfer token source target amount hdirect =>
        exact hdirect.streamCount
  have hindexes : (recordsNext inv.now w inv.call).employerStreams =
        w.employerStreams ∧
      (recordsNext inv.now w inv.call).employeeStreams = w.employeeStreams := by
    unfold recordsNext
    split <;> exact ⟨rfl, rfl⟩
  rw [← hrecords] at hindexes
  exact ⟨hcount, hindexes.1, hindexes.2⟩

/-- The entry of a creation call created its new streams, and no others. -/
theorem createdFor_iff {ctx : Context} {w w' : World} {inv : Invocation}
    {call : CreateCall} {news : List Stream} (hkeyed : Keyed w)
    (hcall : inv.call = .create call) (h : CreationView ctx w w' call news)
    (id : Nat) (employer employee : Address) :
    CreatedFor ⟨w, inv, w'⟩ id employer employee ↔
      ∃ s ∈ news, s.id = id ∧ s.employer = employer ∧ s.employee = employee := by
  constructor
  · rintro ⟨_, habsent, s, hstored, hemployer, hemployee⟩
    have hmem : id ∈ news.map Stream.id := by
      by_contra hnot
      have hsame := h.others id hnot
      change w'.streams id = some s at hstored
      change w.streams id = none at habsent
      rw [hsame, habsent] at hstored
      cases hstored
    obtain ⟨new, hnew, rfl⟩ := List.mem_map.mp hmem
    have hfound := h.stored new hnew
    rw [hfound] at hstored
    cases hstored
    exact ⟨s, hnew, rfl, hemployer, hemployee⟩
  · rintro ⟨s, hs, rfl, rfl, rfl⟩
    obtain ⟨hemployer, _, p, hp, hemployee⟩ := h.parties hs
    have hlarger := ((h.mem_ids s.id).mp (List.mem_map_of_mem hs)).1
    exact
      { call := ⟨call, p, hcall, hemployer.symm, hemployee.symm, hp⟩
        absent := hkeyed.not_stored hlarger
        stored := ⟨s, h.stored s hs, rfl, rfl⟩ }

/-! ## The law -/

/-- What the counter, the streams and the indexes have to do with each other. -/
structure RegistryLaw (history : History) (w : World) : Prop where
  stored_iff : ∀ id, (∃ s, w.streams id = some s) ↔
    1 ≤ id ∧ id ≤ w.streamCount
  own_id : ∀ id s, w.streams id = some s → s.id = id
  kept : ∀ entry ∈ history, ∀ id s, entry.before.streams id = some s →
    ∃ s', entry.after.streams id = some s' ∧ SameTerms s s'
  employers : Indexed w.employerStreams w.streamCount
  employees : Indexed w.employeeStreams w.streamCount
  employer_origin : ∀ address id, id ∈ w.employerStreams address ↔
    ∃ entry ∈ history, ∃ employee, CreatedFor entry id address employee
  employee_origin : ∀ address id, id ∈ w.employeeStreams address ↔
    ∃ entry ∈ history, ∃ employer, CreatedFor entry id employer address

theorem RegistryLaw.create {host : Host} {history : History} {w w' : World}
    {inv : Invocation} {value : Value} {call : CreateCall}
    (hrun : Reaches host history w) (h : RegistryLaw history w)
    (hsucceeds : Succeeds host w inv value w')
    (hcall : inv.call = .create call) :
    RegistryLaw (⟨w, inv, w'⟩ :: history) w' := by
  obtain ⟨news, hview⟩ := creation_of_succeeds hsucceeds hcall
  have hcreated := createdFor_iff (keyed_of_reaches hrun) hcall hview
  have hkeyed := (effect_of_succeeds hsucceeds).keyed (keyed_of_reaches hrun)
  refine ⟨?_, fun id s hs => (hkeyed id s hs).1, ?_, ?_, ?_, ?_, ?_⟩
  · intro id
    constructor
    · rintro ⟨s, hs⟩
      exact (hkeyed id s hs).2
    · intro hid
      -- an id up to the count is one of the new ones or was given before
      by_cases hmem : id ∈ news.map Stream.id
      · obtain ⟨s, hs, rfl⟩ := List.mem_map.mp hmem
        exact ⟨s, hview.stored s hs⟩
      · rw [hview.others id hmem]
        rw [hview.mem_ids] at hmem
        exact (h.stored_iff id).mpr ⟨hid.1, by omega⟩
  · rw [List.forall_mem_cons]
    refine ⟨?_, h.kept⟩
    intro id s hs
    exact StreamChange.kept (streamChange_of_succeeds hrun hsucceeds id) hs
  · have hindex := h.employers.extend news Stream.id Stream.employer hview.ids
    rw [← hview.streamCount] at hindex
    rw [show w'.employerStreams = _ from funext hview.employerStreams]
    exact hindex
  · have hindex := h.employees.extend news Stream.id Stream.employee hview.ids
    rw [← hview.streamCount] at hindex
    rw [show w'.employeeStreams = _ from funext hview.employeeStreams]
    exact hindex
  · intro address id
    simp only [hview.employerStreams address, List.mem_append, List.mem_map,
      List.mem_filter, decide_eq_true_eq, List.exists_mem_cons_iff, hcreated,
      h.employer_origin address id]
    constructor
    · rintro (hearlier | ⟨s, ⟨hs, hemployer⟩, hid⟩)
      · exact Or.inr hearlier
      · exact Or.inl ⟨s.employee, s, hs, hid, hemployer, rfl⟩
    · rintro (⟨_, s, hs, hid, hemployer, _⟩ | hearlier)
      · exact Or.inr ⟨s, ⟨hs, hemployer⟩, hid⟩
      · exact Or.inl hearlier
  · intro address id
    simp only [hview.employeeStreams address, List.mem_append, List.mem_map,
      List.mem_filter, decide_eq_true_eq, List.exists_mem_cons_iff, hcreated,
      h.employee_origin address id]
    constructor
    · rintro (hearlier | ⟨s, ⟨hs, hemployee⟩, hid⟩)
      · exact Or.inr hearlier
      · exact Or.inl ⟨s.employer, s, hs, hid, rfl, hemployee⟩
    · rintro (⟨_, s, hs, hid, _, hemployee⟩ | hearlier)
      · exact Or.inr ⟨s, ⟨hs, hemployee⟩, hid⟩
      · exact Or.inl hearlier

/-- An entry that is no creation changes none of it. -/
theorem RegistryLaw.other {history : History} {w w' : World}
    {inv : Invocation} (h : RegistryLaw history w)
    (hcall : ∀ id employer employee,
      ¬ CreatedFor ⟨w, inv, w'⟩ id employer employee)
    (hcount : w'.streamCount = w.streamCount)
    (hemployers : w'.employerStreams = w.employerStreams)
    (hemployees : w'.employeeStreams = w.employeeStreams)
    (hkeyed : Keyed w')
    (hkept : ∀ id s, w.streams id = some s →
      ∃ s', w'.streams id = some s' ∧ SameTerms s s') :
    RegistryLaw (⟨w, inv, w'⟩ :: history) w' := by
  refine ⟨?_, fun id s hs => (hkeyed id s hs).1,
    List.forall_mem_cons.mpr ⟨hkept, h.kept⟩, ?_, ?_, ?_, ?_⟩
  · intro id
    constructor
    · rintro ⟨s, hs⟩
      exact (hkeyed id s hs).2
    · intro hid
      rw [hcount] at hid
      obtain ⟨s, hs⟩ := (h.stored_iff id).mpr hid
      obtain ⟨s', hs', _⟩ := hkept id s hs
      exact ⟨s', hs'⟩
  · rw [hemployers, hcount]
    exact h.employers
  · rw [hemployees, hcount]
    exact h.employees
  · intro address id
    rw [hemployers, h.employer_origin]
    simp only [List.exists_mem_cons_iff, hcall, exists_false, false_or]
  · intro address id
    rw [hemployees, h.employee_origin]
    simp only [List.exists_mem_cons_iff, hcall, exists_false, false_or]

theorem registryLaw_of_reaches {host : Host} {history : History} {w : World}
    (hrun : Reaches host history w) : RegistryLaw history w := by
  refine Reaches.invariant (P := fun history w => RegistryLaw history w)
    ?_ ?_ ?_ hrun
  · intro balances _
    refine ⟨?_, ?_, ?_, Indexed.empty, Indexed.empty, ?_, ?_⟩
    · intro id
      simp only [World.deployed, reduceCtorEq, exists_false, false_iff]
      omega
    · intro id s hs
      cases hs
    · simp
    · simp [World.deployed]
    · simp [World.deployed]
  · intro history w inv value w' hrun _ ih hsucceeds
    by_cases hcreate : ∃ call, inv.call = .create call
    · obtain ⟨call, hcall⟩ := hcreate
      exact ih.create hrun hsucceeds hcall
    · have hcall : ∀ call, inv.call ≠ .create call := not_exists.mp hcreate
      obtain ⟨hcount, hemployers, hemployees⟩ :=
        indexes_of_succeeds hsucceeds hcall
      refine ih.other ?_ hcount hemployers hemployees
        ((effect_of_succeeds hsucceeds).keyed (keyed_of_reaches hrun)) ?_
      · rintro id employer employee ⟨⟨call, p, hcreated, _⟩, _⟩
        exact hcall call hcreated
      · intro id s hs
        exact StreamChange.kept (streamChange_of_succeeds hrun hsucceeds id) hs
  · intro history w inv hrun _ ih _
    refine ih.other ?_ rfl rfl rfl (keyed_of_reaches hrun) ?_
    · rintro id employer employee ⟨_, habsent, s, hstored, _⟩
      change w.streams id = none at habsent
      change w.streams id = some s at hstored
      rw [habsent] at hstored
      cases hstored
    · intro id s hs
      exact ⟨s, hs, .refl s⟩

/-- In every reachable state the stored ids are `1` to `stream_count`, and both
indexes hold each of them once, under the parties of its creation. -/
theorem registry_law {host : Host} {history : History} {w : World}
    (hrun : Reaches host history w) : RegistryLaw history w := by
  exact registryLaw_of_reaches hrun

/-- A batch of two and a single creation. -/
theorem registry_law_of_batch :
    ∃ history w, Reaches Sample.host history w ∧ w.streamCount = 3 ∧
      w.employerStreams Sample.employer = [1, 2, 3] ∧
      w.employeeStreams Sample.employee = [1, 3] ∧ RegistryLaw history w := by
  have hrun := Sample.play_reaches [
    Sample.invoke 10 Sample.employer
      (.create (.createStreamsBatch Sample.employer
        [⟨Sample.employee, Sample.token, 10000, 100, 0, 0⟩,
          ⟨Sample.treasury, Sample.token, 6000, 10, 0, 20⟩])),
    Sample.openStream 20 1000 10 0] (by decide)
  exact ⟨_, _, hrun, by decide, by decide, by decide, registry_law hrun⟩

/-! ## The lookup by employee -/

/-- `streams_by_employee` lists exactly the streams that pay an address, each of
them once. -/
def LookupExact (w : World) : Prop :=
  ∀ address, (w.employeeStreams address).Nodup ∧
    ∀ id, id ∈ w.employeeStreams address ↔
      ∃ s, w.streams id = some s ∧ s.employee = address

/-- The call moves no stream: a `transfer_stream` names the employee again. -/
def MovesNoStream (call : Call) : Prop :=
  ∀ id employee newEmployee,
    call = .onStream id (.transferStream employee newEmployee) →
      newEmployee = employee

/-- Where the index stays and no employee changes, the lookup stays exact. -/
theorem LookupExact.of_same {w w' : World} (h : LookupExact w)
    (hindex : w'.employeeStreams = w.employeeStreams)
    (hemployee : ∀ id, (w'.streams id).map Stream.employee =
      (w.streams id).map Stream.employee) : LookupExact w' := by
  intro address
  refine ⟨by rw [hindex]; exact (h address).1, ?_⟩
  intro id
  rw [hindex, (h address).2 id]
  have hsame := hemployee id
  constructor
  · rintro ⟨s, hs, rfl⟩
    rw [hs] at hsame
    exact Option.map_eq_some_iff.mp hsame
  · rintro ⟨s, hs, rfl⟩
    rw [hs] at hsame
    exact Option.map_eq_some_iff.mp hsame.symm

theorem LookupExact.create {ctx : Context} {w w' : World} {call : CreateCall}
    {news : List Stream} (h : LookupExact w) (hkeyed : Keyed w)
    (hview : CreationView ctx w w' call news)
    (hnodup : ∀ address, (w'.employeeStreams address).Nodup) :
    LookupExact w' := by
  intro address
  refine ⟨hnodup address, ?_⟩
  intro id
  rw [hview.employeeStreams, List.mem_append, (h address).2 id]
  simp only [List.mem_map, List.mem_filter, decide_eq_true_eq]
  by_cases hmem : id ∈ news.map Stream.id
  · -- a new id, which was not stored before
    have hnone := hkeyed.not_stored ((hview.mem_ids id).mp hmem).1
    obtain ⟨new, hnew, rfl⟩ := List.mem_map.mp hmem
    have hstored := hview.stored new hnew
    constructor
    · rintro (⟨s, hs, _⟩ | ⟨s, ⟨hs, hemployee⟩, hid⟩)
      · rw [hnone] at hs
        cases hs
      · rw [← hid]
        exact ⟨s, hview.stored s hs, hemployee⟩
    · rintro ⟨s, hs, hemployee⟩
      rw [hstored] at hs
      cases hs
      exact Or.inr ⟨_, ⟨hnew, hemployee⟩, rfl⟩
  · rw [hview.others id hmem]
    constructor
    · rintro (hold | ⟨s, ⟨hs, _⟩, hid⟩)
      · exact hold
      · exact absurd (hid ▸ List.mem_map_of_mem hs) hmem
    · intro hold
      exact Or.inl hold

/-- A `transfer_stream` to somebody else leaves the id in the list of the old
employee. -/
theorem MovesNoStream.of_lookupExact {host : Host} {history : History}
    {w w' : World} {inv : Invocation} {value : Value}
    (hrun : Reaches host history w) (hsucceeds : Succeeds host w inv value w')
    (hindex : w'.employeeStreams = w.employeeStreams) (hbefore : LookupExact w)
    (hafter : LookupExact w') : MovesNoStream inv.call := by
  intro id employee newEmployee hcall
  obtain ⟨s, op, hs, hissues, _, hnext⟩ :=
    updated_of_succeeds hrun hsucceeds hcall rfl
  cases hissues with
  | changeEmployee newEmployee hauth =>
      have hlisted : id ∈ w'.employeeStreams s.employee := by
        rw [hindex]
        exact ((hbefore s.employee).2 id).mpr ⟨s, hs, rfl⟩
      obtain ⟨s', hs', hemployee⟩ := ((hafter s.employee).2 id).mp hlisted
      rw [hnext] at hs'
      cases hs'
      exact hemployee

/-- A call that moves no stream changes no employee. -/
theorem employee_of_movesNoStream {host : Host} {history : History}
    {w w' : World} {inv : Invocation} {value : Value}
    (hrun : Reaches host history w) (hsucceeds : Succeeds host w inv value w')
    (hcall : ∀ call, inv.call ≠ .create call) (hmoves : MovesNoStream inv.call)
    (id : Nat) :
    (w'.streams id).map Stream.employee = (w.streams id).map Stream.employee := by
  cases streamChange_of_succeeds hrun hsucceeds id with
  | same hstream _ => rw [hstream]
  | born new log hcreate =>
      obtain ⟨call, hcreate⟩ := hcreate
      exact absurd hcreate (hcall call)
  | updated s op log streamCall hupdated hs hissues _ hstream _ =>
      rw [hs, hstream, Option.map_some, Option.map_some, Option.some.injEq]
      by_contra hne
      have htransfer := (employee_change hissues hne).1
      rw [htransfer] at hupdated
      exact hne (hmoves id _ _ hupdated)

/-- From a state in which the lookup is exact, a call that returned keeps it so
exactly when it moves no stream. -/
theorem lookup_step_iff {host : Host} {history : History} {w w' : World}
    {inv : Invocation} {value : Value} (hrun : Reaches host history w)
    (htime : ledgerTime host history ≤ inv.now)
    (hsucceeds : Succeeds host w inv value w') (h : LookupExact w) :
    LookupExact w' ↔ MovesNoStream inv.call := by
  by_cases hcreate : ∃ call, inv.call = .create call
  · obtain ⟨call, hcall⟩ := hcreate
    obtain ⟨news, hview⟩ := creation_of_succeeds hsucceeds hcall
    have hlaw := registryLaw_of_reaches (hrun.extend htime hsucceeds)
    refine iff_of_true (h.create (keyed_of_reaches hrun) hview ?_) ?_
    · intro address
      exact (hlaw.employees.increasing address).imp ne_of_lt
    · intro id employee newEmployee htransfer
      rw [hcall] at htransfer
      cases htransfer
  · have hcall : ∀ call, inv.call ≠ .create call := not_exists.mp hcreate
    have hindex := (indexes_of_succeeds hsucceeds hcall).2.2
    constructor
    · intro hafter
      exact .of_lookupExact hrun hsucceeds hindex h hafter
    · intro hmoves
      exact h.of_same hindex
        (employee_of_movesNoStream hrun hsucceeds hcall hmoves)

/-- In every run, the lookup by employee is exact in all states exactly when
every `transfer_stream` that returned named the present employee again. -/
theorem employee_lookup_iff {host : Host} {history : History} {w : World}
    (hrun : Reaches host history w) :
    System.Throughout LookupExact history w ↔
      ∀ entry ∈ history, MovesNoStream entry.input.call ∨
        Fails host entry.before entry.input := by
  refine Reaches.throughout_iff (fun _ inv => MovesNoStream inv.call) ?_ ?_ hrun
  · intro balances address
    simp [World.deployed]
  · intro history w inv value w' hrun htime hexact hsucceeds
    exact lookup_step_iff hrun htime hsucceeds hexact

/-- Two creations for two employees, and no transfer. -/
theorem employee_lookup_of_creations :
    ∃ history w, Reaches Sample.host history w ∧
      w.employeeStreams Sample.employee = [1] ∧
      w.employeeStreams Sample.treasury = [2] ∧
      System.Throughout LookupExact history w := by
  have hrun := Sample.play_reaches [
    Sample.invoke 10 Sample.employer
      (.create (.createStreamsBatch Sample.employer
        [⟨Sample.employee, Sample.token, 10000, 100, 0, 0⟩,
          ⟨Sample.treasury, Sample.token, 6000, 10, 0, 20⟩]))] (by decide)
  refine ⟨_, _, hrun, by decide, by decide, (employee_lookup_iff hrun).mpr ?_⟩
  intro entry hentry
  left
  intro id employee newEmployee hcall
  have hinput := Sample.input_mem_of_play hentry
  rw [List.mem_singleton] at hinput
  rw [hinput] at hcall
  cases hcall

/-- The employee hands its stream to the treasury: the lookup still lists it
under the employee it no longer pays. -/
theorem transfer_leaves_lookup :
    ∃ history w, Reaches Sample.host history w ∧
      (w.streams 1).map Stream.employee = some Sample.treasury ∧
      w.employeeStreams Sample.employee = [1] ∧
      w.employeeStreams Sample.treasury = [] ∧
      ¬ System.Throughout LookupExact history w := by
  have hrun := Sample.play_reaches [Sample.openStream 10 1000 10 0,
    Sample.invoke 20 Sample.employee
      (.onStream 1 (.transferStream Sample.employee Sample.treasury))] (by decide)
  refine ⟨_, _, hrun, by decide, by decide, by decide, ?_⟩
  rintro ⟨hlast, _⟩
  have hlisted := ((hlast Sample.treasury).2 1).mpr ⟨_, rfl, rfl⟩
  cases hlisted

end Properties
end Paystream
