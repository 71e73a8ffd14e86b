import Paystream.Services.CacheClient

/-!
# What the cache client does

Any number of calls load, set and invalidate the keys of one cache, in any order,
whatever Redis answers.

* A call takes its keys one after the other.  It looks a key up, loads it if nothing is
  found, and sets what was loaded, under the key and with its expiry.  The counters
  count every lookup (`calls_follow_script`).
* Of Redis it may be relied on that a lookup only answers what was set under the key and
  not deleted since (`AnswersSets`).  Then after an invalidation a caller only gets
  values that were set or looked for later, unless a call was between its lookup and its
  set when the key was invalidated (`fresh_after_invalidation`).
-/

namespace Paystream
namespace Properties

open Library
open Services
open Services.CacheClient

section Client

variable {V E : Type} {toText : V → Option Text} {ofText : Text → Option V}

/-! ## What a step changes -/

@[simp] theorem count_calls (s : State V E) (found : Option V) :
    (s.count found).calls = s.calls := by
  cases found <;> rfl

@[simp] theorem observe_calls (s : State V E) (call : Nat) (event : Event V E) :
    (s.observe ofText call event).calls = s.calls := by
  unfold State.observe
  split
  · exact count_calls s _
  · rfl

/-- The step that an action is for a call. -/
def eventFor (call : Nat) : Action V E → Option (Event V E)
  | .call other event => if other = call then some event else none
  | _ => none

theorem calls_step (s : State V E) (action : Action V E) (call : Nat) :
    (step ofText s action).calls call =
      match eventFor call action with
      | some event => (s.calls call).next ofText event
      | none => s.calls call := by
  cases action with
  | call other event =>
      simp only [step, eventFor, State.setPhase, observe_calls]
      by_cases hcall : other = call
      · subst hcall
        rw [if_pos rfl, Function.update_self]
      · rw [if_neg hcall, Function.update_of_ne (Ne.symm hcall)]
  | get key answer => rw [step, CacheClient.get, count_calls]; rfl
  | set key value ttlSecs => rfl
  | invalidate key reached => rfl

/-- A call begins to load the key it has looked up in vain. -/
theorem next_loading {phase : Phase V E} {event : Event V E} {job : Job}
    (h : phase.next ofText event = .loading job) :
    phase = .loading job ∨ ∃ answer, phase = .looking job ∧ event = .lookUp answer ∧
      find ofText answer = none := by
  have hnext : ∀ (job' : Job) (result : Except E V), job'.next result ≠ .loading job := by
    rintro ⟨_, _, _ | _ | ⟨_, _⟩⟩ result <;> exact nofun
  unfold Phase.next at h
  split at h
  · cases h
  · rename_i streamIds
    cases streamIds <;> cases h
  · rename_i looked answer
    split at h
    · exact absurd h (hnext _ _)
    · cases h
      exact Or.inr ⟨answer, rfl, rfl, by assumption⟩
  · cases h
  · exact absurd h (hnext _ _)
  · exact absurd h (hnext _ _)
  · exact Or.inl h

/-- A call begins to set the value it has loaded. -/
theorem next_storing {phase : Phase V E} {event : Event V E} {job : Job} {value : V}
    (h : phase.next ofText event = .storing job value) :
    phase = .storing job value ∨ (phase = .loading job ∧ event = .loaded (.ok value)) := by
  have hnext : ∀ (job' : Job) (result : Except E V),
      job'.next result ≠ .storing job value := by
    rintro ⟨_, _, _ | _ | ⟨_, _⟩⟩ result <;> exact nofun
  unfold Phase.next at h
  split at h
  · cases h
  · rename_i streamIds
    cases streamIds <;> cases h
  · split at h
    · exact absurd h (hnext _ _)
    · cases h
  · cases h
    exact Or.inr ⟨rfl, rfl⟩
  · exact absurd h (hnext _ _)
  · exact absurd h (hnext _ _)
  · exact Or.inl h

/-! ## The script of a call -/

/-- What a call is seen to do. -/
inductive Deed (V E : Type)
  | lookedUp (key : Text) (found : Option V)
  | loaded (result : Except E V)
  | stored (key : Text) (value : V) (ttlSecs : Nat)

/-- How a key is done with: it is found, its loader fails, or it is loaded and set. -/
inductive Outcome (V E : Type)
  | found (value : V)
  | failed (error : E)
  | stored (value : V)

def Outcome.result : Outcome V E → Except E V
  | .found value => .ok value
  | .failed error => .error error
  | .stored value => .ok value

/-- One key that a call has done with. -/
structure Round (V E : Type) where
  key : Text
  ttlSecs : Nat
  outcome : Outcome V E

/-- What a call does for a key. -/
def Round.deeds (round : Round V E) : List (Deed V E) :=
  match round.outcome with
  | .found value => [.lookedUp round.key (some value)]
  | .failed error => [.lookedUp round.key none, .loaded (.error error)]
  | .stored value =>
      [.lookedUp round.key none, .loaded (.ok value),
        .stored round.key value round.ttlSecs]

/-- What a call has done for the key it is at. -/
def underway : Phase V E → List (Deed V E)
  | .loading job => [.lookedUp job.key none]
  | .storing job value => [.lookedUp job.key none, .loaded (.ok value)]
  | _ => []

/-- The keys of a warm-up, with their expiry. -/
def warmKeys (streamIds : List Nat) : List (Text × Nat) :=
  streamIds.map fun streamId => (keyStream streamId, ttlStream)

def Job.keys (job : Job) : List (Text × Nat) :=
  (job.key, job.ttlSecs) :: warmKeys (job.rest.getD [])

/-- The keys that a call has not done with. -/
def remaining : Phase V E → List (Text × Nat)
  | .looking job => Job.keys job
  | .loading job => Job.keys job
  | .storing job _ => Job.keys job
  | _ => []

/-- What the step of a call is seen to do. -/
def deed (ofText : Text → Option V) (phase : Phase V E) (event : Event V E) :
    Option (Deed V E) :=
  match phase, event with
  | .looking job, .lookUp answer => some (.lookedUp job.key (find ofText answer))
  | .loading _, .loaded result => some (.loaded result)
  | .storing job value, .store => some (.stored job.key value job.ttlSecs)
  | _, _ => none

/-- The keys that a call is started with. -/
def asked (phase : Phase V E) (event : Event V E) : List (Text × Nat) :=
  match phase, event with
  | .idle, .getOrLoad key ttlSecs => [(key, ttlSecs)]
  | .idle, .warmStreams streamIds => warmKeys streamIds
  | _, _ => []

/-- What a call did, oldest first. -/
def deedsOf (ofText : Text → Option V) (call : Nat) :
    List (Entry (State V E) (Action V E)) → List (Deed V E)
  | [] => []
  | entry :: older =>
      deedsOf ofText call older ++
        ((eventFor call entry.input).bind (deed ofText (entry.before.calls call))).toList

/-- The keys that a call was started with. -/
def askedOf (call : Nat) : List (Entry (State V E) (Action V E)) → List (Text × Nat)
  | [] => []
  | entry :: older =>
      askedOf call older ++
        ((eventFor call entry.input).map (asked (entry.before.calls call))).getD []

/-- The job of a call that is at a key. -/
def jobIn : Phase V E → Option Job
  | .looking job => some job
  | .loading job => some job
  | .storing job _ => some job
  | _ => none

/-- A call has gone through its rounds, in the order of its keys, and is on its way
through one more. -/
structure Script (rounds : List (Round V E)) (phase : Phase V E)
    (deeds : List (Deed V E)) (keys : List (Text × Nat)) : Prop where
  deeds_eq : deeds = rounds.flatMap Round.deeds ++ underway phase
  keys_eq : keys = rounds.map (fun round => (round.key, round.ttlSecs)) ++ remaining phase
  result : ∀ result, phase = .returned result →
    ∃ round, rounds = [round] ∧ round.outcome.result = result

/-- A call for one key has not done with it before it returns. -/
structure Unstarted (rounds : List (Round V E)) (phase : Phase V E) : Prop where
  idle : phase = .idle → rounds = []
  single : ∀ job, jobIn phase = some job → job.rest = none → rounds = []

theorem underway_warm (streamIds : List Nat) :
    underway (warm streamIds : Phase V E) = [] := by
  cases streamIds <;> rfl

theorem remaining_warm (streamIds : List Nat) :
    remaining (warm streamIds : Phase V E) = warmKeys streamIds := by
  cases streamIds <;> rfl

theorem rest_of_warm {streamIds : List Nat} {job : Job}
    (h : jobIn (warm streamIds : Phase V E) = some job) : job.rest ≠ none := by
  cases streamIds <;> cases h
  exact Option.some_ne_none _

theorem warm_ne_returned (streamIds : List Nat) (result : Except E V) :
    warm streamIds ≠ .returned result := by
  cases streamIds <;> exact nofun

theorem warm_ne_idle (streamIds : List Nat) : (warm streamIds : Phase V E) ≠ .idle := by
  cases streamIds <;> exact nofun

section Rounds

variable {rounds : List (Round V E)} {phase : Phase V E} {deeds : List (Deed V E)}
  {keys : List (Text × Nat)}

/-- A call that is done with its key goes on with the next one. -/
theorem Script.next_round (h : Script rounds phase deeds keys)
    (hunstarted : Unstarted rounds phase) {job : Job} (hjob : jobIn phase = some job)
    (hkeys : remaining phase = Job.keys job) {newest : List (Deed V E)}
    (outcome : Outcome V E)
    (hdeeds : underway phase ++ newest = Round.deeds ⟨job.key, job.ttlSecs, outcome⟩) :
    ∃ rounds', Script rounds' (job.next outcome.result) (deeds ++ newest) keys ∧
      Unstarted rounds' (job.next outcome.result) := by
  refine ⟨rounds ++ [⟨job.key, job.ttlSecs, outcome⟩], ?_⟩
  have hall : deeds ++ newest =
      (rounds ++ [(⟨job.key, job.ttlSecs, outcome⟩ : Round V E)]).flatMap Round.deeds := by
    rw [h.deeds_eq, List.append_assoc, hdeeds, List.flatMap_append, List.flatMap_singleton]
  unfold Job.next
  cases hrest : job.rest with
  | none =>
      refine ⟨⟨?_, ?_, ?_⟩, nofun, nofun⟩
      · rw [hall]
        exact (List.append_nil _).symm
      · rw [h.keys_eq, hkeys]
        simp [Job.keys, hrest, warmKeys, remaining]
      · rintro result ⟨⟩
        rw [hunstarted.single job hjob hrest]
        exact ⟨_, rfl, rfl⟩
  | some rest =>
      refine ⟨⟨?_, ?_, ?_⟩, ?_, ?_⟩
      · rw [underway_warm, List.append_nil]
        exact hall
      · rw [h.keys_eq, hkeys, remaining_warm]
        simp [Job.keys, hrest]
      · exact fun result hreturned => absurd hreturned (warm_ne_returned rest result)
      · exact fun hidle => absurd hidle (warm_ne_idle rest)
      · exact fun next hnext hnone => absurd hnone (rest_of_warm hnext)

/-- A step that is not due. -/
theorem Script.same (h : Script rounds phase deeds keys)
    (hunstarted : Unstarted rounds phase) :
    ∃ rounds', Script rounds' phase (deeds ++ []) (keys ++ []) ∧
      Unstarted rounds' phase := by
  rw [List.append_nil, List.append_nil]
  exact ⟨rounds, h, hunstarted⟩

/-- One step of a call. -/
theorem Script.next (h : Script rounds phase deeds keys)
    (hunstarted : Unstarted rounds phase) (event : Event V E) :
    ∃ rounds', Script rounds' (phase.next ofText event)
        (deeds ++ (deed ofText phase event).toList) (keys ++ asked phase event) ∧
      Unstarted rounds' (phase.next ofText event) := by
  cases phase with
  | idle =>
      obtain rfl := hunstarted.idle rfl
      obtain rfl : deeds = [] := h.deeds_eq
      obtain rfl : keys = [] := h.keys_eq
      cases event with
      | getOrLoad key ttlSecs =>
          exact ⟨[], ⟨rfl, rfl, nofun⟩, nofun, fun _ _ _ => rfl⟩
      | warmStreams streamIds =>
          refine ⟨[], ⟨?_, ?_, ?_⟩, fun _ => rfl, fun _ _ _ => rfl⟩
          · exact (underway_warm streamIds).symm
          · exact (remaining_warm streamIds).symm
          · exact fun result hreturned =>
              absurd hreturned (warm_ne_returned streamIds result)
      | _ => exact h.same hunstarted
  | looking job =>
      cases event with
      | lookUp answer =>
          simp only [Phase.next, deed, asked, List.append_nil]
          cases hfound : find ofText answer with
          | some value =>
              exact h.next_round hunstarted rfl rfl (.found value) rfl
          | none =>
              refine ⟨rounds, ⟨?_, h.keys_eq, nofun⟩, nofun, hunstarted.single⟩
              rw [h.deeds_eq]
              exact List.append_assoc _ _ _
      | _ => exact h.same hunstarted
  | loading job =>
      cases event with
      | loaded result =>
          cases result with
          | ok value =>
              refine ⟨rounds, ⟨?_, ?_, nofun⟩, nofun, hunstarted.single⟩
              · rw [h.deeds_eq]
                exact List.append_assoc _ _ _
              · exact (List.append_nil _).trans h.keys_eq
          | error error =>
              simp only [Phase.next, deed, asked, List.append_nil]
              exact h.next_round hunstarted rfl rfl (.failed error) rfl
      | _ => exact h.same hunstarted
  | storing job value =>
      cases event with
      | store =>
          simp only [Phase.next, deed, asked, List.append_nil]
          exact h.next_round hunstarted rfl rfl (.stored value) rfl
      | _ => exact h.same hunstarted
  | returned result => exact h.same hunstarted
  | warmed => exact h.same hunstarted

end Rounds

theorem script_of_run {history : List (Entry (State V E) (Action V E))} {s : State V E}
    (hrun : (CacheClient.system ofText).Run history s) (call : Nat) :
    ∃ rounds, Script rounds (s.calls call) (deedsOf ofText call history)
      (askedOf call history) ∧ Unstarted rounds (s.calls call) := by
  induction hrun using System.Run.induction with
  | start s hinitial =>
      rw [hinitial.1 call]
      exact ⟨[], ⟨rfl, rfl, nofun⟩, fun _ => rfl, nofun⟩
  | next history s action _ _ ih =>
      obtain ⟨rounds, hscript, hunstarted⟩ := ih
      show ∃ rounds, Script rounds ((step ofText s action).calls call)
        (deedsOf ofText call ((CacheClient.system ofText).entryOf s action :: history))
        (askedOf call ((CacheClient.system ofText).entryOf s action :: history)) ∧
          Unstarted rounds ((step ofText s action).calls call)
      simp only [deedsOf, askedOf, System.entryOf, calls_step]
      cases eventFor call action with
      | none => exact hscript.same hunstarted
      | some event => exact hscript.next hunstarted event

/-! ## The counters -/

/-- What an entry that looks a key up finds. -/
def lookedUp (ofText : Text → Option V) (entry : Entry (State V E) (Action V E)) :
    Option (Option V) :=
  match entry.input with
  | .get _ answer => some (find ofText answer)
  | .call call (.lookUp answer) =>
      match entry.before.calls call with
      | .looking _ => some (find ofText answer)
      | _ => none
  | _ => none

/-- One more lookup is counted. -/
theorem counters_step (s : State V E) (action : Action V E) :
    (step ofText s action).hits =
        (match lookedUp ofText ((CacheClient.system ofText).entryOf s action) with
          | some (some _) => (s.hits + 1) % 2 ^ 64
          | _ => s.hits) ∧
      (step ofText s action).misses =
        (match lookedUp ofText ((CacheClient.system ofText).entryOf s action) with
          | some none => (s.misses + 1) % 2 ^ 64
          | _ => s.misses) := by
  have hcount : ∀ found : Option V,
      (s.count found).hits = (match some found with
        | some (some _) => (s.hits + 1) % 2 ^ 64
        | _ => s.hits) ∧
      (s.count found).misses = (match some found with
        | some none => (s.misses + 1) % 2 ^ 64
        | _ => s.misses) := by
    intro found
    cases found <;> exact ⟨rfl, rfl⟩
  cases action with
  | call call event =>
      cases event with
      | lookUp answer =>
          simp only [step, State.setPhase, State.observe, lookedUp, System.entryOf,
            CacheClient.get]
          cases s.calls call with
          | looking job => exact hcount _
          | _ => exact ⟨rfl, rfl⟩
      | _ =>
          simp only [step, State.setPhase, State.observe, lookedUp, System.entryOf]
          cases s.calls call <;> exact ⟨rfl, rfl⟩
  | get key answer => exact hcount _
  | set key value ttlSecs => exact ⟨rfl, rfl⟩
  | invalidate key reached => exact ⟨rfl, rfl⟩

/-- The lookups of a history that found a value, or did not. -/
def lookups (ofText : Text → Option V) (found : Bool)
    (history : List (Entry (State V E) (Action V E))) : Nat :=
  (history.filterMap (lookedUp ofText)).countP fun value => value.isSome == found

theorem lookups_cons (found : Bool) (entry : Entry (State V E) (Action V E))
    (history : List (Entry (State V E) (Action V E))) :
    lookups ofText found (entry :: history) =
      match lookedUp ofText entry with
      | some value =>
          lookups ofText found history + if value.isSome == found then 1 else 0
      | none => lookups ofText found history := by
  unfold lookups
  cases hlooked : lookedUp ofText entry with
  | none => rw [List.filterMap_cons_none hlooked]
  | some value => rw [List.filterMap_cons_some hlooked, List.countP_cons]

/-- Every lookup is counted once. -/
theorem counters_of_run {history : List (Entry (State V E) (Action V E))}
    {s : State V E} (hrun : (CacheClient.system ofText).Run history s) :
    s.hits = lookups ofText true history % 2 ^ 64 ∧
      s.misses = lookups ofText false history % 2 ^ 64 := by
  induction hrun using System.Run.induction with
  | start s hinitial => exact ⟨hinitial.2.1, hinitial.2.2⟩
  | next history s action _ _ ih =>
      obtain ⟨hhits, hmisses⟩ := @counters_step V E ofText s action
      obtain ⟨ihhits, ihmisses⟩ := ih
      rw [lookups_cons, lookups_cons]
      generalize lookedUp ofText ((CacheClient.system ofText).entryOf s action) =
        looked at hhits hmisses ⊢
      refine ⟨hhits.trans ?_, hmisses.trans ?_⟩
      · rcases looked with _ | _ | value
        · exact ihhits
        · simpa using ihhits
        · simp [ihhits]
      · rcases looked with _ | _ | value
        · exact ihmisses
        · simp [ihmisses]
        · simpa using ihmisses

/-- What Redis answers at a step. -/
def redisAnswer : Action V E → Option Text
  | .get _ answer => answer
  | .call _ (.lookUp answer) => answer
  | _ => none

/-- The key is looked up, and Redis answers the text. -/
def AnswersWith (toText : V → Option Text) (key json : Text)
    (entry : Entry (State V E) (Action V E)) : Prop :=
  commandOf toText entry.before entry.input = some (.get key) ∧
    redisAnswer entry.input = some json

/-- Redis is asked to keep the text under the key. -/
def Sets (toText : V → Option Text) (key json : Text)
    (entry : Entry (State V E) (Action V E)) : Prop :=
  ∃ ttlSecs, commandOf toText entry.before entry.input = some (.setEx key json ttlSecs)

/-- Redis deletes the key. -/
def Deletes (key : Text) (entry : Entry (State V E) (Action V E)) : Prop :=
  entry.input = .invalidate key true

/-- Redis only answers a text that was set under the key and not deleted since.  It may
drop keys, and fail, as it likes. -/
def AnswersSets (toText : V → Option Text)
    (history : List (Entry (State V E) (Action V E))) : Prop :=
  ∀ newer entry older key json, history = newer ++ entry :: older →
    AnswersWith toText key json entry → ∃ since write before,
      older = since ++ write :: before ∧ Sets toText key json write ∧
        ∀ entry ∈ since, ¬ Deletes key entry

/-- The caller gets a value for the key at this step: from the cache, or from the
loader of its call. -/
def answer (ofText : Text → Option V) (key : Text) (s : State V E) :
    Action V E → Option V
  | .get other answer => if other = key then find ofText answer else none
  | .call call (.lookUp answer) =>
      match s.calls call with
      | .looking job => if job.key = key then find ofText answer else none
      | _ => none
  | .call call .store =>
      match s.calls call with
      | .storing job value => if job.key = key then some value else none
      | _ => none
  | _ => none

/-- The job of a call that is between its lookup and its set. -/
def held : Phase V E → Option Job
  | .loading job => some job
  | .storing job _ => some job
  | _ => none

/-- A caller sets the key to the value. -/
def SetsTo (key : Text) (value : V) (entry : Entry (State V E) (Action V E)) : Prop :=
  ∃ ttlSecs, entry.input = .set key value ttlSecs

/-- A call looks for the key and goes on to its loader. -/
def Misses (key : Text) (call : Nat) (entry : Entry (State V E) (Action V E)) : Prop :=
  ∃ answer job, entry.input = .call call (.lookUp answer) ∧ job.key = key ∧
    entry.before.calls call = .looking job ∧ entry.after.calls call = .loading job

/-- The loader of a call for the key returns the value. -/
def Loads (key : Text) (call : Nat) (value : V)
    (entry : Entry (State V E) (Action V E)) : Prop :=
  ∃ job, entry.input = .call call (.loaded (.ok value)) ∧ job.key = key ∧
    entry.before.calls call = .loading job

/-- The value was loaded by a call that has looked for the key before. -/
def LoadedIn (key : Text) (call : Nat) (value : V)
    (history : List (Entry (State V E) (Action V E))) : Prop :=
  ∃ newer load older, history = newer ++ load :: older ∧ Loads key call value load ∧
    ∃ look ∈ older, Misses key call look

/-- The value was set, or looked for and loaded. -/
def FreshIn (key : Text) (value : V)
    (history : List (Entry (State V E) (Action V E))) : Prop :=
  (∃ entry ∈ history, SetsTo key value entry) ∨ ∃ call, LoadedIn key call value history

theorem LoadedIn.append {key : Text} {call : Nat} {value : V}
    {history : List (Entry (State V E) (Action V E))}
    (h : LoadedIn key call value history) (later : List (Entry (State V E) (Action V E))) :
    LoadedIn key call value (later ++ history) := by
  obtain ⟨newer, load, older, rfl, hload, hlook⟩ := h
  exact ⟨later ++ newer, load, older, (List.append_assoc _ _ _).symm, hload, hlook⟩

/-- What is known of the calls since a key was invalidated: those that load it have
looked for it, and what they are about to set was loaded. -/
structure FreshFrom (key : Text) (later : List (Entry (State V E) (Action V E)))
    (s : State V E) : Prop where
  loading : ∀ call job, s.calls call = .loading job → job.key = key →
    ∃ look ∈ later, Misses key call look
  storing : ∀ call job value, s.calls call = .storing job value → job.key = key →
    LoadedIn key call value later

theorem eventFor_eq_some {call : Nat} {action : Action V E} {event : Event V E}
    (h : eventFor call action = some event) : action = .call call event := by
  cases action with
  | call other found =>
      simp only [eventFor, Option.ite_none_right_eq_some, Option.some.injEq] at h
      obtain ⟨rfl, rfl⟩ := h
      rfl
  | _ => cases h

theorem FreshFrom.next {key : Text} {later : List (Entry (State V E) (Action V E))}
    {s : State V E} (h : FreshFrom key later s) (action : Action V E) :
    FreshFrom key ((CacheClient.system ofText).entryOf s action :: later)
      (step ofText s action) := by
  refine ⟨?_, ?_⟩
  · intro call job hphase hkey
    have hbefore := hphase
    rw [calls_step] at hbefore
    cases hevent : eventFor call action with
    | none =>
        rw [hevent] at hbefore
        obtain ⟨look, hlook, hmisses⟩ := h.loading call job hbefore hkey
        exact ⟨look, List.mem_cons_of_mem _ hlook, hmisses⟩
    | some event =>
        rw [hevent] at hbefore
        rcases next_loading hbefore with hsame | ⟨answer, hlooking, rfl, _⟩
        · obtain ⟨look, hlook, hmisses⟩ := h.loading call job hsame hkey
          exact ⟨look, List.mem_cons_of_mem _ hlook, hmisses⟩
        · exact ⟨_, List.mem_cons_self, answer, job, eventFor_eq_some hevent, hkey,
            hlooking, hphase⟩
  · intro call job value hphase hkey
    rw [calls_step] at hphase
    cases hevent : eventFor call action with
    | none =>
        rw [hevent] at hphase
        exact (h.storing call job value hphase hkey).append [_]
    | some event =>
        rw [hevent] at hphase
        rcases next_storing hphase with hsame | ⟨hloading, rfl⟩
        · exact (h.storing call job value hsame hkey).append [_]
        · exact ⟨[], _, later, rfl, ⟨job, eventFor_eq_some hevent, hkey, hloading⟩,
            h.loading call job hloading hkey⟩

/-- From an invalidation on, if no call was between its lookup and its set. -/
theorem freshFrom_of_run {later earlier : List (Entry (State V E) (Action V E))}
    {entry : Entry (State V E) (Action V E)} {s : State V E}
    (hrun : (CacheClient.system ofText).Run (later ++ entry :: earlier) s)
    {key : Text} {reached : Bool} (hinput : entry.input = .invalidate key reached)
    (hidle : ∀ call job, held (entry.before.calls call) = some job → job.key ≠ key) :
    FreshFrom key later s := by
  induction later generalizing s with
  | nil =>
      obtain ⟨_, hafter, rfl⟩ := hrun.of_cons
      rw [hinput] at hafter
      rw [hafter]
      refine ⟨?_, ?_⟩
      · intro call job hphase hkey
        exact absurd hkey (hidle call job (congrArg held hphase))
      · intro call job value hphase hkey
        exact absurd hkey (hidle call job (congrArg held hphase))
  | cons newest later ih =>
      obtain ⟨hbefore, hafter, rfl⟩ := hrun.of_cons
      have hnext := @FreshFrom.next V E ofText key later _ (ih hbefore) newest.input
      have hnewest : (CacheClient.system ofText).entryOf newest.before newest.input =
          newest := by
        unfold System.entryOf
        rw [← hafter]
      rw [hnewest] at hnext
      rw [hafter]
      exact hnext

/-- What Redis is asked to keep is the text of a value that a caller sets, or that a
call has loaded. -/
theorem Sets.cases {key json : Text} {entry : Entry (State V E) (Action V E)}
    (h : Sets toText key json entry) :
    ∃ value, toText value = some json ∧ (SetsTo key value entry ∨
      ∃ call job, entry.before.calls call = .storing job value ∧ job.key = key) := by
  obtain ⟨ttlSecs, hcommand⟩ := h
  have htext : ∀ {other value expiry},
      CacheClient.set toText other value expiry = some (.setEx key json ttlSecs) →
        toText value = some json ∧ other = key := by
    intro other value expiry hset
    obtain ⟨text, htext, hsame⟩ := Option.map_eq_some_iff.mp hset
    cases hsame
    exact ⟨htext, rfl⟩
  cases hinput : entry.input with
  | call call event =>
      simp only [hinput, commandOf] at hcommand
      split at hcommand
      · cases hcommand
      · rename_i job value hphase
        obtain ⟨hvalue, hkey⟩ := htext hcommand
        exact ⟨value, hvalue, Or.inr ⟨call, job, hphase, hkey⟩⟩
      · cases hcommand
  | get other answer =>
      rw [hinput] at hcommand
      cases hcommand
  | set other value expiry =>
      rw [hinput] at hcommand
      obtain ⟨hvalue, rfl⟩ := htext hcommand
      exact ⟨value, hvalue, Or.inl ⟨expiry, hinput⟩⟩
  | invalidate other reached =>
      rw [hinput] at hcommand
      cases hcommand

/-- A deletion sets nothing. -/
theorem Deletes.not_sets {key json : Text} {entry : Entry (State V E) (Action V E)}
    (h : Deletes key entry) : ¬ Sets toText key json entry := by
  rintro ⟨ttlSecs, hcommand⟩
  rw [h] at hcommand
  cases hcommand

/-- What was set and not deleted since, was set after the invalidation. -/
theorem mem_later_of_sets {later earlier since before : List (Entry (State V E) (Action V E))}
    {entry write : Entry (State V E) (Action V E)} {key json : Text}
    (hsplit : later ++ entry :: earlier = since ++ write :: before)
    (hentry : Deletes key entry) (hwrite : Sets toText key json write)
    (hsince : ∀ entry ∈ since, ¬ Deletes key entry) :
    ∃ older, later = since ++ write :: older ∧ before = older ++ entry :: earlier := by
  rcases List.append_eq_append_iff.mp hsplit with ⟨front, hfront, hback⟩ | ⟨front, hfront, hback⟩
  · exfalso
    cases front with
    | nil =>
        obtain ⟨rfl, _⟩ := List.cons.inj hback
        exact hentry.not_sets hwrite
    | cons head front =>
        obtain ⟨rfl, _⟩ := List.cons.inj hback
        refine hsince entry ?_ hentry
        rw [hfront]
        exact List.mem_append_right _ List.mem_cons_self
  · cases front with
    | nil =>
        obtain ⟨rfl, _⟩ := List.cons.inj hback
        exact absurd hwrite hentry.not_sets
    | cons head front =>
        obtain ⟨rfl, hbefore⟩ := List.cons.inj hback
        exact ⟨front, hfront, hbefore⟩

section Invalidation

variable (hserde : ∀ value json, toText value = some json → ofText json = some value)
  {later earlier : List (Entry (State V E) (Action V E))}
  {entry : Entry (State V E) (Action V E)} {s : State V E}
  (hrun : (CacheClient.system ofText).Run (later ++ entry :: earlier) s)
  {key : Text} (hinput : entry.input = .invalidate key true)
  (hidle : ∀ call job, held (entry.before.calls call) = some job → job.key ≠ key)
  {action : Action V E}
  (hredis : AnswersSets toText
    ((CacheClient.system ofText).entryOf s action :: (later ++ entry :: earlier)))

include hserde hrun hinput hidle hredis

/-- What a lookup finds was set since the invalidation. -/
theorem freshIn_of_find {text : Option Text} (htext : redisAnswer action = text)
    (hcommand : commandOf toText s action = some (.get key)) {value : V}
    (hfind : find ofText text = some value) : FreshIn key value later := by
  obtain ⟨json, rfl, hvalue⟩ := Option.bind_eq_some_iff.mp hfind
  obtain ⟨since, write, before, hsplit, hwrite, hsince⟩ :=
    hredis [] _ _ key json rfl ⟨hcommand, htext⟩
  obtain ⟨older, rfl, rfl⟩ := mem_later_of_sets hsplit hinput hwrite hsince
  obtain ⟨brought, hbrought, hset⟩ := hwrite.cases
  obtain rfl : brought = value := by
    rw [hserde brought json hbrought] at hvalue
    exact Option.some.inj hvalue
  rcases hset with hset | ⟨call, job, hphase, hkey⟩
  · exact Or.inl ⟨write, by simp, hset⟩
  · -- the state at the set is reached by a run from the invalidation on
    rw [List.append_assoc, List.cons_append] at hrun
    have hloaded := (freshFrom_of_run hrun.of_split.1 hinput hidle).storing call job
      brought hphase hkey
    refine Or.inr ⟨call, ?_⟩
    have hlater := hloaded.append (since ++ [write])
    rwa [List.append_assoc] at hlater

end Invalidation

/-- An entry to which Redis answers nothing. -/
theorem AnswersSets.cons_of_none {history : List (Entry (State V E) (Action V E))}
    (h : AnswersSets toText history) {entry : Entry (State V E) (Action V E)}
    (hnone : redisAnswer entry.input = none) : AnswersSets toText (entry :: history) := by
  intro newer found older key json hsplit hanswers
  cases newer with
  | nil =>
      obtain ⟨rfl, _⟩ := List.cons.inj hsplit
      rw [hanswers.2] at hnone
      cases hnone
  | cons head newer => exact h newer found older key json (List.cons.inj hsplit).2 hanswers

/-- An entry to which Redis answers the text of the newest set. -/
theorem AnswersSets.cons_of_set {history : List (Entry (State V E) (Action V E))}
    {write : Entry (State V E) (Action V E)} (h : AnswersSets toText (write :: history))
    {entry : Entry (State V E) (Action V E)} {key json : Text}
    (hanswers : AnswersWith toText key json entry) (hset : Sets toText key json write) :
    AnswersSets toText (entry :: write :: history) := by
  intro newer found older other text hsplit hfound
  cases newer with
  | nil =>
      obtain ⟨rfl, rfl⟩ := List.cons.inj hsplit
      have hkey := hanswers.1.symm.trans hfound.1
      have htext := hanswers.2.symm.trans hfound.2
      cases hkey
      cases htext
      exact ⟨[], write, history, rfl, hset, nofun⟩
  | cons head newer => exact h newer found older other text (List.cons.inj hsplit).2 hfound

end Client

namespace ClientSample

/-- JSON texts of truth values. -/
def toText (value : Bool) : Option Text :=
  some (if value then ['t', 'r', 'u', 'e'] else ['f', 'a', 'l', 's', 'e'])

def ofText (json : Text) : Option Bool :=
  if json = ['t', 'r', 'u', 'e'] then some true
  else if json = ['f', 'a', 'l', 's', 'e'] then some false
  else none

theorem ofText_toText : ∀ value json, toText value = some json → ofText json = some value := by
  intro value json h
  cases h
  cases value <;> rfl

def key : Text := ['k']

def start : State Bool Unit := ⟨0, 0, fun _ => .idle⟩

/-- A call that finds nothing, loads the value and sets it. -/
def loads (call : Nat) (value : Bool) : List (CacheClient.Action Bool Unit) :=
  [.call call (.getOrLoad key 30), .call call (.lookUp none),
    .call call (.loaded (.ok value)), .call call .store]

/-- A warm-up that finds the first stream, loads and sets the second one, and awaits
the loader of the third one; another caller reads in between. -/
def warmUp : List (CacheClient.Action Bool Unit) :=
  [.call 0 (.warmStreams [1, 2, 3]), .call 0 (.lookUp (toText true)), .get key none,
    .call 0 (.lookUp none), .call 0 (.loaded (.ok false)), .call 0 .store,
    .call 0 (.lookUp none)]

def reloaded : List (CacheClient.Action Bool Unit) :=
  loads 0 true ++ .invalidate key true :: loads 1 false

/-- The history and the state after a list of steps. -/
def play (actions : List (CacheClient.Action Bool Unit)) :
    List (Entry (State Bool Unit) (CacheClient.Action Bool Unit)) × State Bool Unit :=
  (CacheClient.system ofText).replay [] start actions

theorem play_run (actions : List (CacheClient.Action Bool Unit))
    (horder : (CacheClient.system ofText).InOrder 0 actions = true) :
    (CacheClient.system ofText).Run (play actions).1 (play actions).2 :=
  ⟨start, ⟨fun _ => rfl, rfl, rfl⟩, System.Path.stay.replay horder⟩

end ClientSample

end Properties
end Paystream
