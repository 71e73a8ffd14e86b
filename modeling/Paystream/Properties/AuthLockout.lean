import Paystream.Services.AuthRateLimiter

/-!
# When a lockout of the sign-in ends

A lockout expires, but the failures that caused it do not: behind the check of the
lockout the limiter looks at their number, and sets the next lockout.  Two
invariants say what the maps hold after any calls:

* the number of failures is that of the calls since the last one that cleared them;
* an identifier with a lockout has reached the maximum of failures.

So a request passes exactly when fewer failures than the maximum were booked since
the last clearing, and the clock does not matter (`passes_after_lockout_iff`).
-/

namespace Paystream
namespace Properties

open Library
open Services
open Services.AuthRateLimiter

/-! ## What a call does to an identifier -/

/-- The call clears the failures and the lockout of `x`. -/
def clears (x : Text) : Action → Bool
  | .success request => identifierOf request = x
  | .unlock identifier => identifier = x ∨ identifier = []
  | _ => false

/-- The call books a failure on `x`. -/
def books (x : Text) : Action → Bool
  | .failure request _ _ => identifierOf request = x
  | _ => false

/-- The failures booked on `x` since its last clearing, the newest call first. -/
def failuresSince (x : Text) : List (Entry State Action) → Nat
  | [] => 0
  | entry :: older =>
      if clears x entry.input = true then 0
      else failuresSince x older + if books x entry.input = true then 1 else 0

/-- The number of failures of `x` in the map. -/
def failureCount (s : State) (x : Text) : Nat := (getFailureEntry s x).count

theorem failureCount_congr {s s' : State} {x : Text}
    (h : s'.failures x = s.failures x) : failureCount s' x = failureCount s x := by
  unfold failureCount getFailureEntry
  rw [h]

theorem identifierOf_ne_nil (request : Request) : identifierOf request ≠ [] := by
  unfold identifierOf orElse
  split
  · exact List.cons_ne_nil _ _
  · unfold getIdentifier
    simp

/-- A request changes no failures. -/
theorem failures_authRateLimiter (config : Config) (s : State) (request : Request)
    (now : Nat) : (authRateLimiter config s request now).1.failures = s.failures := by
  have hcheck : ∀ s' : State, s'.failures = s.failures → ∀ identifier,
      (checkFailures config s' identifier now).1.failures = s.failures := by
    intro s' hsame identifier
    unfold checkFailures
    dsimp only
    split
    · exact hsame
    · exact hsame
  unfold authRateLimiter
  dsimp only
  split
  · split
    · rfl
    · exact hcheck (s.deleteLockout _) rfl _
  · exact hcheck s rfl _

/-- A failure is counted, and no other identifier is touched. -/
theorem failureCount_applyAuthFailure (s : State) (request : Request)
    (now lockedAt : Nat) (x : Text) :
    failureCount (applyAuthFailure s request now lockedAt) x =
      failureCount s x + if identifierOf request = x then 1 else 0 := by
  have hfailures : (applyAuthFailure s request now lockedAt).failures =
      (recordFailure s (identifierOf request) now).1.failures := by
    unfold applyAuthFailure
    dsimp only
    split
    · rfl
    · rfl
  rw [failureCount_congr (congrFun hfailures x)]
  by_cases hx : identifierOf request = x
  · subst hx
    simp [failureCount, getFailureEntry, recordFailure]
  · rw [if_neg hx, add_zero]
    refine failureCount_congr ?_
    unfold recordFailure
    exact Function.update_of_ne (Ne.symm hx) _ _

/-- A reset with an identifier, and one without. -/
theorem resetAuthRateLimit_at (s : State) (identifier x : Text) :
    ((identifier = x ∨ identifier = []) ∧
      (resetAuthRateLimit s identifier).failures x = none ∧
      (resetAuthRateLimit s identifier).lockouts x = none) ∨
    (¬ (identifier = x ∨ identifier = []) ∧
      (resetAuthRateLimit s identifier).failures x = s.failures x ∧
      (resetAuthRateLimit s identifier).lockouts x = s.lockouts x) := by
  unfold resetAuthRateLimit
  by_cases hall : identifier = []
  · rw [if_neg (not_not_intro hall)]
    exact Or.inl ⟨Or.inr hall, rfl, rfl⟩
  · rw [if_pos hall]
    by_cases hx : identifier = x
    · subst hx
      exact Or.inl ⟨Or.inl rfl, Function.update_self .., Function.update_self ..⟩
    · exact Or.inr ⟨by simp [hx, hall], Function.update_of_ne (Ne.symm hx) _ _,
        Function.update_of_ne (Ne.symm hx) _ _⟩

/-- The identifier that a success or an unlocking resets. -/
def Resets (identifier : Text) (action : Action) : Prop :=
  (∃ request, action = .success request ∧ identifier = identifierOf request) ∨
    action = .unlock identifier

/-- Such a call clears `x`, or leaves what the maps have of it. -/
theorem Resets.cases {identifier : Text} {action : Action} (h : Resets identifier action)
    (s : State) (x : Text) :
    (clears x action = true ∧ (step s action).failures x = none ∧
      (step s action).lockouts x = none) ∨
    (clears x action = false ∧ (step s action).failures x = s.failures x ∧
      (step s action).lockouts x = s.lockouts x) := by
  have hreset := resetAuthRateLimit_at s identifier x
  rcases h with ⟨request, rfl, rfl⟩ | rfl
  · simpa [clears, step, resetAuthFailure, identifierOf_ne_nil] using hreset
  · simpa [clears, step] using hreset

theorem Resets.failureCount {identifier : Text} {action : Action}
    (h : Resets identifier action) (s : State) (x : Text) :
    failureCount (step s action) x =
      if clears x action = true then 0 else failureCount s x := by
  rcases h.cases s x with ⟨hclears, hnone, _⟩ | ⟨hkeeps, hsame, _⟩
  · rw [if_pos hclears]
    simp [Properties.failureCount, getFailureEntry, hnone]
  · rw [hkeeps, failureCount_congr hsame]
    rfl

/-- One call and the number of failures of an identifier. -/
theorem failureCount_step (s : State) (action : Action) (x : Text) :
    failureCount (step s action) x =
      if clears x action = true then 0
      else failureCount s x + if books x action = true then 1 else 0 := by
  cases action with
  | pass request now =>
      refine failureCount_congr ?_
      exact congrFun (failures_authRateLimiter defaults s request now) x
  | failure request now lockedAt =>
      have hbooks : (books x (.failure request now lockedAt) = true) ↔
          identifierOf request = x := by
        simp [books]
      show failureCount (applyAuthFailure s request now lockedAt) x = _
      rw [failureCount_applyAuthFailure]
      simp [clears, hbooks]
  | success request =>
      have hreset : Resets (identifierOf request) (.success request) :=
        Or.inl ⟨request, rfl, rfl⟩
      exact hreset.failureCount s x
  | unlock identifier =>
      have hreset : Resets identifier (.unlock identifier) := Or.inr rfl
      exact hreset.failureCount s x

/-! ## Lockouts -/

/-- Only identifiers that have reached the maximum are locked out. -/
def LockedAtMaximum (s : State) : Prop :=
  ∀ x e, s.lockouts x = some e → defaults.maxAttempts ≤ failureCount s x

theorem LockedAtMaximum.setLockout {s : State} (h : LockedAtMaximum s)
    {identifier : Text} (hmaximum : defaults.maxAttempts ≤ failureCount s identifier)
    (expiresAt : Nat) : LockedAtMaximum (s.setLockout identifier expiresAt) := by
  intro x e he
  show defaults.maxAttempts ≤ failureCount s x
  by_cases hx : x = identifier
  · rw [hx]
    exact hmaximum
  · refine h x e ?_
    simp only [State.setLockout] at he
    rwa [Function.update_of_ne hx] at he

theorem LockedAtMaximum.deleteLockout {s : State} (h : LockedAtMaximum s)
    (identifier : Text) : LockedAtMaximum (s.deleteLockout identifier) := by
  intro x e he
  show defaults.maxAttempts ≤ failureCount s x
  by_cases hx : x = identifier
  · subst hx
    simp [State.deleteLockout] at he
  · refine h x e ?_
    simp only [State.deleteLockout] at he
    rwa [Function.update_of_ne hx] at he

theorem LockedAtMaximum.checkFailures {s : State} (h : LockedAtMaximum s)
    (identifier : Text) (now : Nat) :
    LockedAtMaximum (checkFailures defaults s identifier now).1 := by
  unfold AuthRateLimiter.checkFailures
  dsimp only
  split
  · rename_i hmaximum
    exact h.setLockout hmaximum _
  · exact h

theorem LockedAtMaximum.authRateLimiter {s : State} (h : LockedAtMaximum s)
    (request : Request) (now : Nat) :
    LockedAtMaximum (authRateLimiter defaults s request now).1 := by
  unfold AuthRateLimiter.authRateLimiter
  dsimp only
  split
  · split
    · exact h
    · exact (h.deleteLockout _).checkFailures _ now
  · exact h.checkFailures _ now

/-- The new failure counts before the lockout is set, and no count goes down. -/
theorem LockedAtMaximum.applyAuthFailure {s : State} (h : LockedAtMaximum s)
    (request : Request) (now lockedAt : Nat) :
    LockedAtMaximum (applyAuthFailure s request now lockedAt) := by
  have hrecorded : LockedAtMaximum (recordFailure s (identifierOf request) now).1 := by
    intro x e he
    have hbefore := h x e he
    by_cases hx : x = identifierOf request
    · subst hx
      simp only [failureCount, getFailureEntry, recordFailure, Function.update_self,
        Option.getD_some] at hbefore ⊢
      omega
    · rw [failureCount_congr (s := s)]
      · exact hbefore
      · unfold recordFailure
        exact Function.update_of_ne hx _ _
  unfold AuthRateLimiter.applyAuthFailure
  dsimp only
  split
  · rename_i hmaximum
    refine hrecorded.setLockout ?_ _
    simp only [failureCount, getFailureEntry, recordFailure, Function.update_self,
      Option.getD_some] at hmaximum ⊢
    exact hmaximum
  · exact hrecorded

theorem LockedAtMaximum.reset {s : State} (h : LockedAtMaximum s) {identifier : Text}
    {action : Action} (hreset : Resets identifier action) :
    LockedAtMaximum (step s action) := by
  intro x e he
  rcases hreset.cases s x with ⟨_, _, hnone⟩ | ⟨_, hfailures, hsame⟩
  · rw [hnone] at he
    cases he
  · rw [failureCount_congr hfailures]
    rw [hsame] at he
    exact h x e he

theorem LockedAtMaximum.step {s : State} (h : LockedAtMaximum s) (action : Action) :
    LockedAtMaximum (step s action) := by
  cases action with
  | pass request now => exact h.authRateLimiter request now
  | failure request now lockedAt => exact h.applyAuthFailure request now lockedAt
  | success request => exact h.reset (Or.inl ⟨request, rfl, rfl⟩)
  | unlock identifier => exact h.reset (Or.inr rfl)

/-! ## Runs -/

variable {history : List (Entry State Action)} {s : State}

theorem failureCount_of_run (hrun : AuthRateLimiter.system.Run history s) (x : Text) :
    failureCount s x = failuresSince x history := by
  refine hrun.invariant (P := fun history s => failureCount s x = failuresSince x history)
    ?_ ?_
  · intro s hinitial
    simp [failureCount, getFailureEntry, hinitial.1 x, failuresSince]
  · intro history s action _ _ ih
    refine (failureCount_step s action x).trans ?_
    rw [ih]
    rfl

theorem lockedAtMaximum_of_run (hrun : AuthRateLimiter.system.Run history s) :
    LockedAtMaximum s := by
  refine hrun.invariant (P := fun _ s => LockedAtMaximum s) ?_ ?_
  · intro s hinitial x e he
    rw [hinitial.2 x] at he
    cases he
  · intro history s action _ _ ih
    exact ih.step action

/-! ## Requests -/

/-- The request goes on to the handler. -/
def LetThrough (response : Response) : Prop :=
  ∃ identifier failureEntry delayMs, response = .next identifier failureEntry delayMs

theorem letThrough_checkFailures_iff (s : State) (identifier : Text) (now : Nat) :
    LetThrough (checkFailures defaults s identifier now).2 ↔
      failureCount s identifier < defaults.maxAttempts := by
  unfold checkFailures failureCount
  dsimp only
  split
  · rename_i hmaximum
    refine iff_of_false ?_ (by omega)
    rintro ⟨_, _, _, hnext⟩
    cases hnext
  · rename_i hbelow
    exact iff_of_true ⟨_, _, _, rfl⟩ (by omega)

/-- As long as only identifiers at the maximum are locked out, the lockouts and the
clock do not decide who passes. -/
theorem LockedAtMaximum.letThrough_iff {s : State} (h : LockedAtMaximum s)
    (request : Request) (now : Nat) :
    LetThrough (AuthRateLimiter.authRateLimiter defaults s request now).2 ↔
      failureCount s (getIdentifier request) < defaults.maxAttempts := by
  unfold AuthRateLimiter.authRateLimiter
  dsimp only
  split
  · rename_i expiresAt hlockout
    have hmaximum := h _ _ hlockout
    split
    · refine iff_of_false ?_ (by omega)
      rintro ⟨_, _, _, hnext⟩
      cases hnext
    · exact letThrough_checkFailures_iff (s.deleteLockout _) _ now
  · exact letThrough_checkFailures_iff s _ now

/-- A request that finds a lockout which has not expired is refused. -/
theorem not_letThrough_of_lockout {s : State} {request : Request} {now e : Nat}
    (hlockout : s.lockouts (getIdentifier request) = some e) (hnow : now < e) :
    ¬ LetThrough (authRateLimiter defaults s request now).2 := by
  unfold authRateLimiter
  simp only [hlockout, if_pos hnow]
  rintro ⟨_, _, _, hnext⟩
  cases hnext

/-- Failures from before a clearing do not count any more, and all others do. -/
theorem failuresSince_append (x : Text) (between earlier : List (Entry State Action)) :
    failuresSince x (between ++ earlier) =
      failuresSince x between +
        if ∃ entry ∈ between, clears x entry.input = true then 0
        else failuresSince x earlier := by
  induction between with
  | nil => simp [failuresSince]
  | cons entry between ih =>
      rw [List.cons_append, failuresSince, failuresSince, ih]
      by_cases hclears : clears x entry.input = true
      · simp [hclears]
      · simp only [hclears, Bool.false_eq_true, if_false, List.mem_cons,
          exists_eq_or_imp, false_or]
        omega

/-- When a lockout of `x` stands at some point of a run, a later request of `x` that
comes at its end or after it passes exactly when the failures of `x` have been
cleared in between, and fewer than the maximum were booked after that.  A request
that is checked against the lockout before its end is refused. -/
theorem passes_after_lockout_iff {between earlier : List (Entry State Action)}
    {lock : Entry State Action} {s : State}
    (hrun : AuthRateLimiter.system.Run (between ++ lock :: earlier) s)
    {x : Text} {e : Nat} (hlock : lock.after.lockouts x = some e)
    (request : Request) (hx : getIdentifier request = x) (now : Nat) :
    (e ≤ now →
      (LetThrough (authRateLimiter defaults s request now).2 ↔
        (∃ entry ∈ between, clears x entry.input = true) ∧
          failuresSince x between < 5)) ∧
    (now < e → s.lockouts x = some e →
      ¬ LetThrough (authRateLimiter defaults s request now).2) := by
  subst hx
  constructor
  · intro _
    -- at the lockout the maximum was reached, and without a clearing it still is
    have hmaximum : 5 ≤ failuresSince (getIdentifier request) (lock :: earlier) := by
      rw [← failureCount_of_run hrun.upTo]
      exact lockedAtMaximum_of_run hrun.upTo _ _ hlock
    rw [(lockedAtMaximum_of_run hrun).letThrough_iff, failureCount_of_run hrun,
      failuresSince_append]
    show _ < 5 ↔ _
    by_cases hcleared : ∃ entry ∈ between, clears (getIdentifier request) entry.input = true
    · rw [if_pos hcleared, add_zero, and_iff_right hcleared]
    · rw [if_neg hcleared]
      refine iff_of_false (by omega) ?_
      exact fun h => hcleared h.1
  · intro hnow hlockout
    exact not_letThrough_of_lockout hlockout hnow

namespace LockoutSample

def request : Request := ⟨some ['i'], some ['G'], none⟩

def start : State := ⟨fun _ => none, fun _ => none⟩

/-- Five failures in the first second. -/
def failing : List Action :=
  [.failure request 0 0, .failure request 200 200, .failure request 400 400,
    .failure request 600 600, .failure request 800 800]

def play (actions : List Action) : List (Entry State Action) × State :=
  AuthRateLimiter.system.replay [] start actions

theorem play_run (actions : List Action)
    (horder : AuthRateLimiter.system.InOrder 0 actions = true) :
    AuthRateLimiter.system.Run (play actions).1 (play actions).2 :=
  ⟨start, ⟨fun _ => rfl, fun _ => rfl⟩, System.Path.replay .stay horder⟩

end LockoutSample

open LockoutSample in
/-- After an administrator has unlocked the identifier, its next request passes. -/
theorem passes_after_lockout_of_unlock :
    ∃ between lock earlier s,
      AuthRateLimiter.system.Run (between ++ lock :: earlier) s ∧
      lock.after.lockouts (getIdentifier request) = some 900800 ∧
      LetThrough (authRateLimiter defaults s request 900800).2 := by
  have hrun := play_run (failing ++ [.unlock (getIdentifier request)]) rfl
  have hpasses := @passes_after_lockout_iff [_] _ _ _ hrun _ _ rfl request rfl 900800
  exact ⟨[_], _, _, _, hrun, rfl, (hpasses.1 le_rfl).mpr (by decide)⟩

open LockoutSample in
/-- After five failures the identifier is locked out until 900800.  Its first request
comes at that time, is refused, and is told to wait for another 900 seconds. -/
theorem refused_after_lockout :
    ∃ lock earlier s, AuthRateLimiter.system.Run (lock :: earlier) s ∧
      lock.after.lockouts (getIdentifier request) = some 900800 ∧
      (authRateLimiter defaults s request 900800).2 = .tooManyAttempts 900 ∧
      ¬ LetThrough (authRateLimiter defaults s request 900800).2 ∧
      (authRateLimiter defaults s request 900800).1.lockouts (getIdentifier request) =
        some 1800800 := by
  have hrun := play_run failing rfl
  have hrefused : (authRateLimiter defaults (play failing).2 request 900800).2 =
      .tooManyAttempts 900 := by
    decide
  refine ⟨_, _, _, hrun, rfl, hrefused, ?_, by decide⟩
  rw [hrefused]
  rintro ⟨_, _, _, hnext⟩
  cases hnext

end Properties
end Paystream
