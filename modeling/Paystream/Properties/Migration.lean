import Mathlib.Data.String.Basic
import Paystream.Services.Migration

/-!
# Migration bookkeeping

The runner keeps no state of its own between two calls: what is applied is read
off `migration_history`.  Two questions about this table:

* `bookkeeping_iff`: a rollback records `rolled_back`, and the query looks for
  rows of direction `down` with the status `success`, of which there is none.  So
  a version stays applied once it is, and the bookkeeping is right exactly as
  long as nothing is rolled back.
* `restart_iff`: a call that fails has recorded the versions before the one that
  failed, but the streams they made are lost.  Called again with the original
  streams, the runner goes on with the rest of the versions; the result is the
  one of an undisturbed call exactly when these make of the original streams
  what they make of the transformed ones.
-/

namespace Paystream
namespace Properties

open Library
open Services.Migration

/-! ## The table -/

section Table

variable {Version : Type}

/-- The table, if there is one, records the steps that completed: `up` steps as
successes, and no `down` step so. -/
inductive Recorded : Bool → Runner Version → Prop
  | absent {s : Runner Version} (hdb : s.db = none) : Recorded false s
  | present {s : Runner Version} (rows : List (Row Version))
      (hdb : s.db = some rows) (hdown : succeeded .down rows = [])
      (hup : ∀ version, version ∈ succeeded .up rows ↔
        (version, Direction.up) ∈ s.completed) : Recorded true s

theorem Recorded.fresh (database : Bool) :
    Recorded database (Runner.fresh database : Runner Version) := by
  cases database with
  | false => exact .absent rfl
  | true =>
      refine .present [] rfl rfl ?_
      intro version
      simp [succeeded, Runner.fresh]

theorem succeeded_append (direction : Direction) (rows : List (Row Version))
    (row : Row Version) :
    succeeded direction (rows ++ [row]) = succeeded direction rows ++
      if row.direction = direction ∧ row.status = .success then [row.version]
      else [] := by
  unfold succeeded
  rw [List.filter_append, List.map_append]
  congr 1
  by_cases hrow : row.direction = direction ∧ row.status = .success
  · simp [hrow]
  · simp [hrow]

theorem Recorded.complete_down {database : Bool} {s : Runner Version}
    (h : Recorded database s) (version : Version) :
    Recorded database (s.complete version .down) := by
  cases h with
  | absent hdb => exact .absent hdb
  | present rows hdb hdown hup =>
      refine .present rows hdb hdown ?_
      intro other
      simp [Runner.complete, hup other]

/-- A row that is no success changes nothing. -/
theorem Recorded.audit {database : Bool} {s : Runner Version}
    (h : Recorded database s) (version : Version) (description : Option String)
    (direction : Direction) {status : Status} (hstatus : status ≠ .success)
    (error : Option String) :
    Recorded database (s.audit version description direction status error) := by
  cases h with
  | absent hdb =>
      apply Recorded.absent
      simp only [Runner.audit, hdb, Option.map_none]
  | present rows hdb hdown hup =>
      -- the table's CHECK refuses the direction `validation`, with no effect
      by_cases hadmitted : direction = .validation
      · refine .present rows ?_ hdown hup
        simp [Runner.audit, hdb, Row.admitted, hadmitted]
      · refine .present (rows ++ [⟨version, orNull description, direction, status,
          orNull error⟩]) ?_ ?_ ?_
        · simp [Runner.audit, hdb, Row.admitted, hadmitted]
        · simp [succeeded_append, hdown, hstatus]
        · intro other
          simp only [succeeded_append, hstatus, and_false, if_false, List.append_nil]
          exact hup other

theorem Recorded.success {database : Bool} {s : Runner Version}
    (h : Recorded database s) (version : Version) (description : Option String) :
    Recorded database
      ((s.audit version description .up .success none).complete version .up) := by
  cases h with
  | absent hdb =>
      apply Recorded.absent
      simp only [Runner.complete, Runner.audit, hdb, Option.map_none]
  | present rows hdb hdown hup =>
      refine .present (rows ++ [⟨version, orNull description, .up, .success,
        none⟩]) ?_ ?_ ?_
      · simp [Runner.complete, Runner.audit, hdb, Row.admitted, orNull]
      · simp [succeeded_append, hdown]
      · intro other
        simp only [succeeded_append, and_self, if_true, List.mem_append,
          Runner.complete, Runner.audit, List.mem_cons, List.not_mem_nil, or_false,
          Prod.mk.injEq, and_true, hup other]
        exact or_comm

variable [DecidableEq Version]

/-- The applied versions are all those that ever went up. -/
theorem Recorded.mem_applied {s : Runner Version} (h : Recorded true s)
    (version : Version) :
    version ∈ s.appliedVersions ↔ (version, Direction.up) ∈ s.completed := by
  cases h with
  | present rows hdb hdown hup =>
      rw [← hup version]
      simp [Runner.appliedVersions, hdb, hdown]

theorem Recorded.applied_of_absent {s : Runner Version} (h : Recorded false s) :
    s.appliedVersions = [] := by
  cases h with
  | absent hdb => simp only [Runner.appliedVersions, hdb]

end Table

/-! ## The loop -/

section Loop

variable {Version Data : Type} {body : Step Version Data → Data → Runner Version →
  Except String Data × Runner Version} {m : Step Version Data}
  {rest : List (Step Version Data)} {current next : Data} {s s' : Runner Version}

theorem runAll_cons_ok (h : body m current s = (.ok next, s')) :
    runAll body (m :: rest) current s = runAll body rest next s' := by
  rw [runAll, h]

theorem runAll_cons_error {error : String}
    (h : body m current s = (.error error, s')) :
    runAll body (m :: rest) current s = (.error error, s') := by
  rw [runAll, h]

/-- What every step keeps, the loop keeps. -/
theorem runAll_keeps {P : Runner Version → Prop}
    (hbody : ∀ m current s, P s → P (body m current s).2)
    (steps : List (Step Version Data)) (current : Data) (hs : P s) :
    P (runAll body steps current s).2 := by
  induction steps generalizing current s with
  | nil => exact hs
  | cons m rest ih =>
      have hnext := hbody m current s hs
      rcases hresult : body m current s with ⟨error | next, s'⟩
      · rw [runAll_cons_error hresult]
        rw [hresult] at hnext
        exact hnext
      · rw [runAll_cons_ok hresult]
        rw [hresult] at hnext
        exact ih next hnext

theorem runAll_append {steps : List (Step Version Data)}
    (h : runAll body steps current s = (.ok next, s'))
    (later : List (Step Version Data)) :
    runAll body (steps ++ later) current s = runAll body later next s' := by
  induction steps generalizing current s with
  | nil =>
      cases h
      rfl
  | cons m rest ih =>
      rw [List.cons_append]
      rcases hresult : body m current s with ⟨error | middle, s₁⟩
      · rw [runAll_cons_error hresult] at h
        cases h
      · rw [runAll_cons_ok hresult] at h ⊢
        exact ih h

end Loop

/-! ## One step -/

/-- Nothing completed, and the table still says so. -/
structure Quiet {Version : Type} (s s' : Runner Version) : Prop where
  completed : s'.completed = s.completed
  recorded : ∀ database, Recorded database s → Recorded database s'

/-- One step completed, and the table still records what did. -/
structure Completes {Version : Type} (version : Version) (direction : Direction)
    (s s' : Runner Version) : Prop where
  completed : s'.completed = (version, direction) :: s.completed
  recorded : ∀ database, Recorded database s → Recorded database s'

section Quiet

variable {Version : Type} {s s' s'' : Runner Version} {version : Version}
  {direction : Direction}

theorem Quiet.refl (s : Runner Version) : Quiet s s :=
  ⟨rfl, fun _ h => h⟩

theorem Quiet.trans (h : Quiet s s') (h' : Quiet s' s'') : Quiet s s'' :=
  ⟨h'.completed.trans h.completed, fun _ hs => h'.recorded _ (h.recorded _ hs)⟩

theorem Quiet.audit (s : Runner Version) (version : Version)
    (description : Option String) (direction : Direction) {status : Status}
    (hstatus : status ≠ .success) (error : Option String) :
    Quiet s (s.audit version description direction status error) :=
  ⟨rfl, fun _ h => h.audit version description direction hstatus error⟩

theorem Quiet.completes (h : Quiet s s') (h' : Completes version direction s' s'') :
    Completes version direction s s'' := by
  refine ⟨?_, fun _ hs => h'.recorded _ (h.recorded _ hs)⟩
  rw [h'.completed, h.completed]

end Quiet

/-- What running one step in a direction leads to. -/
def Ran {Version Data : Type} (direction : Direction) (version : Version)
    (outcome : Except String Data)
    (s : Runner Version) (result : Except String Data × Runner Version) : Prop :=
  (∃ streams s', result = (.ok streams, s') ∧ outcome = .ok streams ∧
      Completes version direction s s') ∨
    ∃ error s', result = (.error error, s') ∧ outcome = .error error ∧ Quiet s s'

theorem Ran.recorded {Version Data : Type} {direction : Direction}
    {version : Version} {outcome : Except String Data} {s : Runner Version}
    {result : Except String Data × Runner Version}
    (h : Ran direction version outcome s result) {database : Bool}
    (hs : Recorded database s) : Recorded database result.2 := by
  rcases h with ⟨streams, s', rfl, _, hcompletes⟩ | ⟨error, s', rfl, _, hquiet⟩
  · exact hcompletes.recorded database hs
  · exact hquiet.recorded database hs

section Steps

variable {Version Data : Type} [ToString Version]

/-- What a validation says. -/
def checkOf (m : Step Version Data) (label : Label) (streams : Data) :
    Except String Unit :=
  match m.validate with
  | none => .ok ()
  | some validate =>
      match validate label streams with
      | .error error => .error error
      | .ok none => .ok ()
      | .ok (some reason) => .error (validationFailed m label reason)

/-- What a version makes of the streams, its validations included. -/
def outcomeOf (m : Step Version Data) (streams : Data) : Except String Data := do
  checkOf m .before streams
  let migrated ← m.up streams
  checkOf m .after migrated
  return migrated

theorem runValidate_check (m : Step Version Data) (streams : Data) (label : Label)
    (s : Runner Version) :
    ∃ s', runValidate m streams label s = (checkOf m label streams, s') ∧
      Quiet s s' := by
  unfold runValidate checkOf
  cases hvalidate : m.validate with
  | none => exact ⟨s, rfl, .refl s⟩
  | some validate =>
      simp only
      cases hresult : validate label streams with
      | error error => exact ⟨s, rfl, .refl s⟩
      | ok verdict =>
          cases verdict with
          | none => exact ⟨s, rfl, .refl s⟩
          | some reason => exact ⟨_, rfl, .audit s _ _ _ (by decide) _⟩

theorem runUp_ran (m : Step Version Data) (current : Data) (s : Runner Version) :
    Ran .up m.version (outcomeOf m current) s (runUp m current s) := by
  -- one case for each place at which the body of the loop can leave it
  obtain ⟨s₁, hbefore, hquiet₁⟩ := runValidate_check m current .before s
  unfold runUp outcomeOf
  rw [hbefore]
  cases hcheck : checkOf m .before current with
  | error error => exact Or.inr ⟨_, _, rfl, rfl, hquiet₁⟩
  | ok _ =>
      have hquiet₂ : Quiet s (s₁.audit m.version m.description .up .started none) :=
        hquiet₁.trans (.audit s₁ _ _ _ (by decide) _)
      simp only
      cases hup : m.up current with
      | error error =>
          exact Or.inr ⟨_, _, rfl, rfl, hquiet₂.trans (.audit _ _ _ _ (by decide) _)⟩
      | ok migrated =>
          obtain ⟨s₂, hafter, hquiet₃⟩ := runValidate_check m migrated .after
            (s₁.audit m.version m.description .up .started none)
          have hquiet := hquiet₂.trans hquiet₃
          have houtcome : (do
              checkOf m .before current
              let migrated ← m.up current
              checkOf m .after migrated
              return migrated) = (checkOf m .after migrated).map fun _ => migrated := by
            rw [hcheck, hup]
            rfl
          simp only
          rw [hcheck, hup] at houtcome
          rw [houtcome, hafter]
          cases hchecked : checkOf m .after migrated with
          | error error => exact Or.inr ⟨_, _, rfl, rfl, hquiet⟩
          | ok _ =>
              exact Or.inl ⟨_, _, rfl, rfl, hquiet.completes
                ⟨rfl, fun _ h => h.success m.version m.description⟩⟩

theorem runDown_ran {m : Step Version Data} {down : Data → Except String Data}
    (hdown : m.down = some down) (current : Data) (s : Runner Version) :
    Ran .down m.version (down current) s (runDown m current s) := by
  have hstarted : Quiet s (s.audit m.version m.description .down .started none) :=
    .audit s _ _ _ (by decide) _
  unfold runDown
  rw [hdown]
  simp only
  cases hresult : down current with
  | error error =>
      exact Or.inr ⟨_, _, rfl, rfl, hstarted.trans (.audit _ _ _ _ (by decide) _)⟩
  | ok streams =>
      have hrolled : Quiet s ((s.audit m.version m.description .down .started
          none).audit m.version m.description .down .rolledBack none) :=
        hstarted.trans (.audit _ _ _ _ (by decide) _)
      exact Or.inl ⟨_, _, rfl, rfl, hrolled.completes
        ⟨rfl, fun _ h => h.complete_down m.version⟩⟩

/-! ## Several steps -/

/-- What some versions, one after the other, make of the streams. -/
def outcomeAll (steps : List (Step Version Data)) (streams : Data) :
    Except String Data :=
  steps.foldlM (fun current m => outcomeOf m current) streams

theorem outcomeAll_cons (m : Step Version Data) (rest : List (Step Version Data))
    (streams : Data) :
    outcomeAll (m :: rest) streams = outcomeOf m streams >>= outcomeAll rest := by
  exact List.foldlM_cons

theorem outcomeAll_append (earlier later : List (Step Version Data))
    (streams : Data) :
    outcomeAll (earlier ++ later) streams =
      outcomeAll earlier streams >>= outcomeAll later := by
  exact List.foldlM_append

/-- `migrate` does to the streams what its versions do. -/
theorem runAll_up_fst (steps : List (Step Version Data)) (current : Data)
    (s : Runner Version) :
    (runAll runUp steps current s).1 = outcomeAll steps current := by
  induction steps generalizing current s with
  | nil => rfl
  | cons m rest ih =>
      rw [outcomeAll_cons]
      rcases runUp_ran m current s with ⟨next, s', hbody, houtcome, _⟩ |
        ⟨error, s', hbody, houtcome, _⟩
      · rw [runAll_cons_ok hbody, houtcome]
        exact ih next s'
      · rw [runAll_cons_error hbody, houtcome]
        rfl

/-- Where all of its versions return, they are all completed. -/
theorem runAll_up_completed {steps : List (Step Version Data)} {current next : Data}
    (h : outcomeAll steps current = .ok next) (s : Runner Version) :
    ∃ s', runAll runUp steps current s = (.ok next, s') ∧
      s'.completed =
        (steps.map fun m => (m.version, Direction.up)).reverse ++ s.completed := by
  induction steps generalizing current s with
  | nil =>
      cases h
      exact ⟨s, rfl, rfl⟩
  | cons m rest ih =>
      rw [outcomeAll_cons] at h
      rcases runUp_ran m current s with ⟨middle, s₁, hbody, houtcome, hcompletes⟩ |
        ⟨error, s₁, hbody, houtcome, _⟩
      · rw [houtcome] at h
        obtain ⟨s', hrest, hcompleted⟩ := ih h s₁
        refine ⟨s', (runAll_cons_ok hbody).trans hrest, ?_⟩
        rw [hcompleted, hcompletes.completed, List.map_cons, List.reverse_cons,
          List.append_assoc, List.singleton_append]
      · rw [houtcome] at h
        cases h

/-- Where no `down` fails, all versions of a rollback are completed. -/
theorem runAll_down_completed {steps : List (Step Version Data)}
    (hdown : ∀ m ∈ steps, ∃ down, m.down = some down ∧
      ∀ streams, ∃ result, down streams = .ok result)
    (current : Data) (s : Runner Version) :
    (runAll runDown steps current s).2.completed =
      (steps.map fun m => (m.version, Direction.down)).reverse ++ s.completed := by
  induction steps generalizing current s with
  | nil => rfl
  | cons m rest ih =>
      obtain ⟨⟨down, hm, htotal⟩, hlater⟩ := List.forall_mem_cons.mp hdown
      obtain ⟨result, hresult⟩ := htotal current
      rcases runDown_ran hm current s with ⟨next, s₁, hbody, _, hcompletes⟩ |
        ⟨error, s₁, _, houtcome, _⟩
      · rw [runAll_cons_ok hbody, ih hlater, hcompletes.completed, List.map_cons,
          List.reverse_cons, List.append_assoc, List.singleton_append]
      · rw [hresult] at houtcome
        cases houtcome

end Steps

/-! ## Bookkeeping -/

section Bookkeeping

variable {Version Data : Type} [LinearOrder Version]

/-- The direction of the most recent completed step of a version. -/
def lastStep (completed : List (Version × Direction)) (version : Version) :
    Option Direction :=
  (completed.find? fun entry => decide (entry.1 = version)).map Prod.snd

/-- The applied versions are those whose most recent completed step was an
`up`. -/
def Bookkept (s : Runner Version) : Prop :=
  ∀ version, version ∈ s.appliedVersions ↔ lastStep s.completed version = some .up

/-- The call rolls no version back: none that is registered and applied is above
the target. -/
def RollsNothingBack (s : Runner Version) : Call Version Data → Prop
  | .migrate _ _ => True
  | .rollback registry _ targetVersion => ∀ m ∈ registry.steps,
      m.version ∈ s.appliedVersions → m.version ≤ targetVersion

theorem mem_completed_of_lastStep {completed : List (Version × Direction)}
    {version : Version} {direction : Direction}
    (h : lastStep completed version = some direction) :
    (version, direction) ∈ completed := by
  unfold lastStep at h
  obtain ⟨entry, hfound, rfl⟩ := Option.map_eq_some_iff.mp h
  have hversion : entry.1 = version := by
    simpa using List.find?_some hfound
  rw [← hversion]
  exact List.mem_of_find?_eq_some hfound

/-- Every version that ever went up is still up. -/
def StillUp (completed : List (Version × Direction)) : Prop :=
  ∀ version, (version, Direction.up) ∈ completed →
    lastStep completed version = some .up

theorem Recorded.bookkept_iff {s : Runner Version} (h : Recorded true s) :
    Bookkept s ↔ StillUp s.completed := by
  constructor
  · intro hkept version hmem
    exact (hkept version).mp ((h.mem_applied version).mpr hmem)
  · intro hup version
    rw [h.mem_applied version]
    exact ⟨hup version, mem_completed_of_lastStep⟩

theorem StillUp.up {completed : List (Version × Direction)} (h : StillUp completed)
    (version : Version) : StillUp ((version, .up) :: completed) := by
  intro other hmem
  by_cases hother : version = other
  · simp [lastStep, hother]
  · have hearlier : (other, Direction.up) ∈ completed := by
      rcases List.mem_cons.mp hmem with heq | hmem
      · cases heq
        exact absurd rfl hother
      · exact hmem
    have hstep := h other hearlier
    unfold lastStep at hstep ⊢
    rw [List.find?_cons_of_neg (by simpa using hother)]
    exact hstep

/-- A version that went down is not up any more. -/
theorem not_stillUp_of_down {downs completed : List (Version × Direction)}
    {version : Version} (hdowns : ∀ entry ∈ downs, entry.2 = .down)
    (hmem : (version, Direction.down) ∈ downs)
    (hup : (version, Direction.up) ∈ completed) : ¬ StillUp (downs ++ completed) := by
  intro h
  have hstep := h version (List.mem_append_right downs hup)
  unfold lastStep at hstep
  rw [List.find?_append] at hstep
  obtain ⟨entry, hfound⟩ : ∃ entry,
      downs.find? (fun entry => decide (entry.1 = version)) = some entry := by
    rw [← Option.isSome_iff_exists, List.find?_isSome]
    exact ⟨_, hmem, decide_eq_true rfl⟩
  rw [hfound, Option.some_or, Option.map_some,
    hdowns entry (List.mem_of_find?_eq_some hfound)] at hstep
  cases hstep

theorem mem_toRollback {registry : Registry Version Data} {targetVersion : Version}
    {s : Runner Version} {m : Step Version Data} :
    m ∈ registry.toRollback targetVersion s ↔
      m ∈ registry.steps ∧ m.version ∈ s.appliedVersions ∧
        targetVersion < m.version := by
  simp only [Registry.toRollback, Registry.sorted, List.mem_reverse, List.mem_filter,
    List.mem_insertionSort, decide_eq_true_eq]

/-! ### The calls -/

variable [ToString Version]

theorem Recorded.migrate {database : Bool} {s : Runner Version}
    (h : Recorded database s) (registry : Registry Version Data) (streams : Data) :
    Recorded database (registry.migrate streams s).2 := by
  apply runAll_keeps (P := Recorded database) _ _ _ h
  intro m current s hs
  exact (runUp_ran m current s).recorded hs

theorem Recorded.rollback {database : Bool} {s : Runner Version}
    (h : Recorded database s) (registry : Registry Version Data) (streams : Data)
    (targetVersion : Version) :
    Recorded database (registry.rollback streams targetVersion s).2 := by
  apply runAll_keeps (P := Recorded database) _ _ _ h
  intro m current s hs
  cases hdown : m.down with
  | none =>
      simp only [runDown, hdown]
      exact hs
  | some down => exact (runDown_ran hdown current s).recorded hs

theorem recorded_of_run {database : Bool}
    {history : List (Entry (Runner Version) (Call Version Data))}
    {s : Runner Version} (hrun : (system Version Data database).Run history s) :
    Recorded database s := by
  refine hrun.invariant (P := fun _ s => Recorded database s) ?_ ?_
  · rintro s rfl
    exact .fresh database
  · intro history s call _ _ ih
    cases call with
    | migrate registry streams => exact ih.migrate registry streams
    | rollback registry streams targetVersion =>
        exact ih.rollback registry streams targetVersion

/-- `migrate` keeps the books. -/
theorem StillUp.migrate {s : Runner Version} (h : StillUp s.completed)
    (registry : Registry Version Data) (streams : Data) :
    StillUp (registry.migrate streams s).2.completed := by
  apply runAll_keeps (P := fun s => StillUp s.completed) _ _ _ h
  intro m current s hs
  rcases runUp_ran m current s with ⟨next, s', hbody, _, hcompletes⟩ |
    ⟨error, s', hbody, _, hquiet⟩
  · rw [hbody, hcompletes.completed]
    exact hs.up m.version
  · rw [hbody, hquiet.completed]
    exact hs

/-- No `down` of the registered migrations is missing or fails. -/
def DownsReturn (registry : Registry Version Data) : Prop :=
  ∀ m ∈ registry.steps, ∃ down, m.down = some down ∧
    ∀ streams, ∃ result, down streams = .ok result

/-- A rollback keeps the books exactly when it rolls nothing back. -/
theorem rollback_bookkept_iff {s : Runner Version} (hs : Recorded true s)
    (hkept : Bookkept s) {registry : Registry Version Data}
    (hdown : DownsReturn registry) (streams : Data) (targetVersion : Version) :
    Bookkept (registry.rollback streams targetVersion s).2 ↔
      RollsNothingBack s (Call.rollback registry streams targetVersion) := by
  rw [(hs.rollback registry streams targetVersion).bookkept_iff]
  have hdowns : ∀ m ∈ registry.toRollback targetVersion s, ∃ down,
      m.down = some down ∧ ∀ streams, ∃ result, down streams = .ok result := by
    intro m hm
    exact hdown m (mem_toRollback.mp hm).1
  have hcompleted := runAll_down_completed hdowns streams s
  constructor
  · intro hup m hm happlied
    -- an applied version went up once; rolled back, its last step is a `down`
    by_contra habove
    have hrolled : m ∈ registry.toRollback targetVersion s :=
      mem_toRollback.mpr ⟨hm, happlied, not_le.mp habove⟩
    change StillUp (runAll runDown (registry.toRollback targetVersion s) streams
      s).2.completed at hup
    rw [hcompleted] at hup
    refine not_stillUp_of_down ?_ ?_ ((hs.mem_applied m.version).mp happlied) hup
    · intro entry hentry
      obtain ⟨_, _, rfl⟩ := List.mem_map.mp (List.mem_reverse.mp hentry)
      rfl
    · rw [List.mem_reverse]
      exact List.mem_map.mpr ⟨m, hrolled, rfl⟩
  · intro hnone
    have hempty : registry.toRollback targetVersion s = [] := by
      rw [List.eq_nil_iff_forall_not_mem]
      intro m hm
      obtain ⟨hregistered, happlied, habove⟩ := mem_toRollback.mp hm
      exact absurd (hnone m hregistered happlied) (not_le.mpr habove)
    unfold Registry.rollback
    rw [hempty]
    exact hs.bookkept_iff.mp hkept

/-- The `down` functions a rollback may call return. -/
def CallReturns : Call Version Data → Prop
  | .migrate _ _ => True
  | .rollback registry _ _ => DownsReturn registry

/-- In a run with a database in which no `down` fails, the applied versions are
the ones whose last completed step was an `up` after every call exactly when no
call rolls a version back. -/
theorem bookkeeping_iff
    {history : List (Entry (Runner Version) (Call Version Data))}
    {s : Runner Version} (hrun : (system Version Data true).Run history s)
    (hreturns : ∀ entry ∈ history, CallReturns entry.input) :
    System.Throughout Bookkept history s ↔
      ∀ entry ∈ history, RollsNothingBack entry.before entry.input := by
  refine hrun.throughout_iff_of (fun _ call => CallReturns call) RollsNothingBack
    ?_ ?_ hreturns
  · rintro s rfl
    rw [(Recorded.fresh true).bookkept_iff]
    intro version hmem
    cases hmem
  · intro history s call hrun _ hreturns hkept
    have hs := recorded_of_run hrun
    cases call with
    | migrate registry streams =>
        refine iff_of_true ?_ trivial
        apply (hs.migrate registry streams).bookkept_iff.mpr
        exact (hs.bookkept_iff.mp hkept).migrate registry streams
    | rollback registry streams targetVersion =>
        exact rollback_bookkept_iff hs hkept hreturns streams targetVersion

end Bookkeeping

/-- A step that changes every stream by `f` and is undone by `g`. -/
def mapStep (version : String) (f g : Nat → Nat) : Step String (List Nat) where
  version := version
  description := some "sample"
  up := fun streams => .ok (streams.map f)
  down := some fun streams => .ok (streams.map g)
  validate := none

def twoVersions : Registry String (List Nat) where
  steps := [mapStep "0002" (· + 1) (· - 1), mapStep "0001" (10 * ·) (· / 10)]
  nodup := by decide

/-- The run of some calls on a new runner with a database. -/
def played (calls : List (Call String (List Nat))) :
    List (Entry (Runner String) (Call String (List Nat))) × Runner String :=
  (system String (List Nat) true).replay [] (Runner.fresh true) calls

theorem played_run (calls : List (Call String (List Nat)))
    (horder : (system String (List Nat) true).InOrder 0 calls = true) :
    (system String (List Nat) true).Run (played calls).1 (played calls).2 :=
  ⟨_, rfl, System.Path.stay.replay horder⟩

theorem downsReturn_twoVersions : DownsReturn twoVersions := by
  intro m hm
  rcases List.mem_pair.mp hm with rfl | rfl
  · exact ⟨_, rfl, fun streams => ⟨_, rfl⟩⟩
  · exact ⟨_, rfl, fun streams => ⟨_, rfl⟩⟩

/-- Two calls of `migrate`, and a rollback to the newest version. -/
theorem bookkeeping_of_migrations :
    ∃ history s, (system String (List Nat) true).Run history s ∧
      s.appliedVersions = ["0001", "0002"] ∧
      System.Throughout Bookkept history s := by
  have hrun := played_run [.migrate twoVersions [1], .migrate twoVersions [11],
    .rollback twoVersions [11] "0002"] (by decide)
  refine ⟨_, _, hrun, by decide, (bookkeeping_iff hrun ?_).mpr ?_⟩
  · exact List.forall_mem_cons.mpr ⟨downsReturn_twoVersions,
      List.forall_mem_cons.mpr ⟨trivial, List.forall_mem_singleton.mpr trivial⟩⟩
  · refine List.forall_mem_cons.mpr ⟨?_, ?_⟩
    · intro m hm _
      rcases List.mem_pair.mp hm with rfl | rfl
      · exact le_rfl
      · exact (by decide : "0001" ≤ "0002")
    · exact List.forall_mem_cons.mpr
        ⟨trivial, List.forall_mem_singleton.mpr trivial⟩

/-- Rolled back to `0000`, both versions are still applied. -/
theorem rollback_stays_applied :
    ∃ history s, (system String (List Nat) true).Run history s ∧
      s.completed = [("0001", .down), ("0002", .down), ("0002", .up),
        ("0001", .up)] ∧
      s.appliedVersions = ["0001", "0002"] ∧
      ¬ System.Throughout Bookkept history s := by
  have hrun := played_run [.migrate twoVersions [1],
    .rollback twoVersions [11] "0000"] (by decide)
  refine ⟨_, _, hrun, by decide, by decide, ?_⟩
  rintro ⟨hkept, _⟩
  have hstep := (hkept "0001").mp (by decide)
  revert hstep
  decide

/-! ## Restarting -/

section Restart

variable {Version Data : Type}

/-- Of distinct versions, those before the rest are no versions of the rest. -/
theorem version_not_mem {earlier later : List (Step Version Data)}
    (hnodup : ((earlier ++ later).map Step.version).Nodup) {m : Step Version Data}
    (hm : m ∈ later) : m.version ∉ earlier.map Step.version := by
  rw [List.map_append] at hnodup
  intro hmem
  exact (List.nodup_append.mp hnodup).2.2 _ hmem _ (List.mem_map_of_mem hm) rfl

variable [LinearOrder Version]

/-- The step, or the faulty one in its place. -/
def swap (faulty m : Step Version Data) : Step Version Data :=
  if m.version = faulty.version then faulty else m

@[simp] theorem version_swap (faulty m : Step Version Data) :
    (swap faulty m).version = m.version := by
  unfold swap
  split
  · rename_i hversion
    exact hversion.symm
  · rfl

/-- What is registered, with one version replaced by a faulty one. -/
def withFault (registry : Registry Version Data) (faulty : Step Version Data) :
    Registry Version Data where
  steps := registry.steps.map (swap faulty)
  nodup := by
    rw [List.map_map, show Step.version ∘ swap faulty = Step.version from
      funext (version_swap faulty)]
    exact registry.nodup

/-- A fault does not change which versions are pending. -/
theorem pending_withFault (registry : Registry Version Data)
    (faulty : Step Version Data) (s : Runner Version) :
    (withFault registry faulty).pending s =
      (registry.pending s).map (swap faulty) := by
  have hsorted : (withFault registry faulty).sorted =
      registry.sorted.map (swap faulty) := by
    unfold Registry.sorted
    symm
    apply List.map_insertionSort
    intro a _ b _
    rw [version_swap, version_swap]
  unfold Registry.pending
  rw [hsorted, List.filter_map]
  congr 2
  funext m
  rw [Function.comp_apply, version_swap]

theorem pending_nodup (registry : Registry Version Data) (s : Runner Version) :
    ((registry.pending s).map Step.version).Nodup := by
  have hsorted : (registry.sorted.map Step.version).Nodup :=
    ((List.perm_insertionSort _ registry.steps).map Step.version).nodup_iff.mpr
      registry.nodup
  exact hsorted.sublist (List.filter_sublist.map Step.version)

theorem filter_not_earlier {earlier later : List (Step Version Data)}
    (hnodup : ((earlier ++ later).map Step.version).Nodup) :
    (earlier ++ later).filter
        (fun m => decide (m.version ∉ earlier.map Step.version)) = later := by
  have hearlier : earlier.filter
      (fun m => decide (m.version ∉ earlier.map Step.version)) = [] := by
    rw [List.filter_eq_nil_iff]
    intro m hm
    simpa using ⟨m, hm, rfl⟩
  have hlater : later.filter
      (fun m => decide (m.version ∉ earlier.map Step.version)) = later := by
    rw [List.filter_eq_self]
    intro m hm
    exact decide_eq_true (version_not_mem hnodup hm)
  rw [List.filter_append, hearlier, hlater, List.nil_append]

/-- Before the faulty version, nothing is swapped. -/
theorem map_swap_split {earlier later : List (Step Version Data)}
    {faulty m : Step Version Data}
    (hnodup : ((earlier ++ m :: later).map Step.version).Nodup)
    (hversion : faulty.version = m.version) :
    (earlier ++ m :: later).map (swap faulty) =
      earlier ++ faulty :: later.map (swap faulty) := by
  have hearlier : earlier.map (swap faulty) = earlier := by
    conv_rhs => rw [← List.map_id earlier]
    apply List.map_congr_left
    intro n hn
    apply if_neg
    intro hsame
    apply version_not_mem hnodup List.mem_cons_self
    rw [← hversion, ← hsame]
    exact List.mem_map_of_mem hn
  have hfaulty : swap faulty m = faulty := if_pos hversion.symm
  rw [List.map_append, List.map_cons, hearlier, hfaulty]

/-- With a database, what is pending once some of it went up is the rest. -/
theorem pending_after_failure {registry : Registry Version Data}
    {s s' : Runner Version} {earlier later : List (Step Version Data)}
    (hpending : registry.pending s = earlier ++ later) (hs : Recorded true s)
    (hs' : Recorded true s')
    (hcompleted : s'.completed =
      (earlier.map fun m => (m.version, Direction.up)).reverse ++ s.completed) :
    registry.pending s' = later := by
  have hnodup := pending_nodup registry s
  rw [hpending] at hnodup
  have happlied : ∀ version, version ∈ s'.appliedVersions ↔
      version ∈ earlier.map Step.version ∨ version ∈ s.appliedVersions := by
    intro version
    rw [hs'.mem_applied, hs.mem_applied, hcompleted]
    simp
  rw [← filter_not_earlier hnodup, ← hpending]
  unfold Registry.pending
  rw [List.filter_filter]
  congr 1
  funext m
  simp only [happlied, not_or, Bool.decide_and]

variable [ToString Version]

/-- What a call leaves that failed at a version: the versions before it went up,
and nothing else happened. -/
theorem migrate_fails {registry : Registry Version Data} {s : Runner Version}
    {streams current : Data} {earlier later : List (Step Version Data)}
    {faulty m : Step Version Data} {error : String}
    (hpending : registry.pending s = earlier ++ m :: later)
    (hversion : faulty.version = m.version)
    (hbefore : outcomeAll earlier streams = .ok current)
    (hfails : outcomeOf faulty current = .error error) :
    ∃ s', (withFault registry faulty).migrate streams s = (.error error, s') ∧
      s'.completed =
        (earlier.map fun m => (m.version, Direction.up)).reverse ++ s.completed := by
  have hnodup := pending_nodup registry s
  rw [hpending] at hnodup
  obtain ⟨s₁, hearlier, hcompleted⟩ := runAll_up_completed hbefore s
  have hrun : (withFault registry faulty).migrate streams s =
      runAll runUp (faulty :: later.map (swap faulty)) current s₁ := by
    unfold Registry.migrate
    rw [pending_withFault, hpending, map_swap_split hnodup hversion,
      runAll_append hearlier]
  -- what the faulty version did leaves no trace but rows that are no success
  rcases runUp_ran faulty current s₁ with ⟨next, s', _, houtcome, _⟩ |
    ⟨error', s', hbody, houtcome, hquiet⟩
  · rw [hfails] at houtcome
    cases houtcome
  · rw [hfails] at houtcome
    cases houtcome
    refine ⟨s', hrun.trans (runAll_cons_error hbody), ?_⟩
    rw [hquiet.completed, hcompleted]

/-- A call that failed at the `k`-th pending version is made again, with the same
streams and the failure gone.  It returns what an undisturbed call would have
returned exactly when there is no database, or the versions from the `k`-th on
make the same of the original streams as of those the versions before it made. -/
theorem restart_iff {database : Bool}
    {history : List (Entry (Runner Version) (Call Version Data))}
    {s : Runner Version} (hrun : (system Version Data database).Run history s)
    {registry : Registry Version Data} {streams current result : Data} {k : Nat}
    {faulty m : Step Version Data} {error : String}
    (hk : (registry.pending s)[k]? = some m)
    (hversion : faulty.version = m.version)
    (hbefore : outcomeAll ((registry.pending s).take k) streams = .ok current)
    (hfails : outcomeOf faulty current = .error error)
    (hundisturbed : (registry.migrate streams s).1 = .ok result) :
    ((withFault registry faulty).migrate streams s).1 = .error error ∧
      ((registry.migrate streams
          ((withFault registry faulty).migrate streams s).2).1 = .ok result ↔
        database = false ∨
          outcomeAll ((registry.pending s).drop k) streams =
            outcomeAll ((registry.pending s).drop k) current) := by
  have hlength := (List.getElem?_eq_some_iff.mp hk).1
  have hdrop : (registry.pending s).drop k =
      m :: (registry.pending s).drop (k + 1) := by
    rw [List.drop_eq_getElem_cons hlength, (List.getElem?_eq_some_iff.mp hk).2]
  have hsplit : registry.pending s =
      (registry.pending s).take k ++ (registry.pending s).drop k :=
    (List.take_append_drop k _).symm
  obtain ⟨s', hfirst, hcompleted⟩ :=
    migrate_fails (hdrop ▸ hsplit) hversion hbefore hfails
  have hs := recorded_of_run hrun
  have hs' : Recorded database s' := by
    have hkept := hs.migrate (withFault registry faulty) streams
    rw [hfirst] at hkept
    exact hkept
  rw [hfirst]
  refine ⟨rfl, ?_⟩
  unfold Registry.migrate at hundisturbed ⊢
  rw [runAll_up_fst] at hundisturbed ⊢
  have hafter : outcomeAll ((registry.pending s).drop k) current = .ok result := by
    rw [hsplit, outcomeAll_append, hbefore] at hundisturbed
    exact hundisturbed
  cases database with
  | false =>
      -- without a table nothing counts as applied: the second call starts over
      have hsame : registry.pending s' = registry.pending s := by
        unfold Registry.pending
        rw [hs.applied_of_absent, hs'.applied_of_absent]
      rw [hsame]
      exact iff_of_true hundisturbed (Or.inl rfl)
  | true =>
      rw [pending_after_failure hsplit hs hs' hcompleted, hafter]
      simp

end Restart

/-- The second version fails for a while. -/
def faultyStep : Step String (List Nat) :=
  { mapStep "0002" (· + 1) (· - 1) with up := fun _ => .error "timeout" }

/-- The second version overwrites what the first one did. -/
def overwriting : Registry String (List Nat) where
  steps := [mapStep "0001" (10 * ·) (· / 10), mapStep "0002" (fun _ => 7) (fun _ => 0)]
  nodup := by decide

theorem restart_of_overwriting :
    ((withFault overwriting faultyStep).migrate [1] (.fresh true)).1 =
        .error "timeout" ∧
      (overwriting.migrate [1]
        ((withFault overwriting faultyStep).migrate [1] (.fresh true)).2).1 =
          .ok [7] := by
  have hrun : (system String (List Nat) true).Run [] (.fresh true) :=
    System.Run.start rfl
  have hpending : (overwriting.pending (.fresh true))[1]? =
      some (mapStep "0002" (fun _ => 7) (fun _ => 0)) := by
    rfl
  have hversion : faultyStep.version =
      (mapStep "0002" (fun _ => 7) (fun _ => 0)).version := by
    rfl
  have hbefore : outcomeAll ((overwriting.pending (.fresh true)).take 1) [1] =
      .ok [10] := by
    rfl
  have hfails : outcomeOf faultyStep [10] = .error "timeout" := by
    rfl
  have hundisturbed : (overwriting.migrate [1] (.fresh true)).1 = .ok [7] := by
    rfl
  obtain ⟨hthrows, hretry⟩ :=
    restart_iff hrun hpending hversion hbefore hfails hundisturbed
  exact ⟨hthrows, hretry.mpr (Or.inr rfl)⟩

/-- The first version is taken to be applied, but its streams are gone. -/
theorem restart_skips_version :
    (twoVersions.migrate [1] (.fresh true)).1 = .ok [11] ∧
      ((withFault twoVersions faultyStep).migrate [1] (.fresh true)).1 =
        .error "timeout" ∧
      (twoVersions.migrate [1]
        ((withFault twoVersions faultyStep).migrate [1] (.fresh true)).2).1 =
          .ok [2] := by
  decide

end Properties
end Paystream
