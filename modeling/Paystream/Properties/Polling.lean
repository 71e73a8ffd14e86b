import Paystream.Services.Polling

/-!
# How the SDK polls

Whatever is answered when, whatever the code of the caller does, and whenever it
unsubscribes (`polling_protocol`): there is never more than one request or timer
pending; as long as the caller has neither unsubscribed nor let its error handler
throw there is one; two requests are at least the interval apart, and never less
than a second; and once the polling was stopped nothing is asked of the contract or
told to the caller any more.
-/

namespace Paystream
namespace Properties

open Library
open Services.Polling

/-! ## One step -/

/-- What an entry of a run let the caller, or the contract, see. -/
def effectsOf (intervalMs : Int) (entry : Entry State Action) : List Effect :=
  (react intervalMs entry.before entry.input).2

/-- The error handler threw at this entry. -/
def HandlerThrew (entry : Entry State Action) : Prop :=
  ∃ request amount callback onError now,
    entry.input = .settle request amount callback onError now ∧
      request ∈ entry.before.inFlight ∧
        (handleAnswer { entry.before with
          inFlight := entry.before.inFlight.erase request } amount callback onError).2.2 =
            true

def pending (s : State) : Nat := s.inFlight.length + s.timers.length

theorem catchError_cases (s : State) (onError : Reaction) :
    (catchError s onError).1.inFlight = s.inFlight ∧
      (catchError s onError).1.timers = s.timers ∧
      ((catchError s onError).1.active = true → s.active = true) ∧
      Effect.request ∉ (catchError s onError).2.1 ∧
      (s.active = false → (catchError s onError).2.1 = []) := by
  unfold catchError State.ran
  cases hactive : s.active with
  | false => simp [hactive]
  | true => simp

/-- The code of the caller touches neither requests nor timers, and runs only while
the polling is active. -/
theorem handleAnswer_cases (s : State) (amount : Option Int)
    (callback onError : Reaction) :
    (handleAnswer s amount callback onError).1.inFlight = s.inFlight ∧
      (handleAnswer s amount callback onError).1.timers = s.timers ∧
      ((handleAnswer s amount callback onError).1.active = true → s.active = true) ∧
      Effect.request ∉ (handleAnswer s amount callback onError).2.1 ∧
      (s.active = false → (handleAnswer s amount callback onError).2.1 = []) := by
  cases amount with
  | none => exact catchError_cases s onError
  | some amount =>
      cases hactive : s.active with
      | false => simp [handleAnswer, hactive]
      | true =>
          cases hthrows : callback.throws with
          | false => simp [handleAnswer, hactive, hthrows, State.ran]
          | true =>
              have hcatch := catchError_cases (s.ran callback) onError
              simp only [handleAnswer, hactive, hthrows, if_true]
              refine ⟨hcatch.1, hcatch.2.1, fun _ => trivial, ?_, nofun⟩
              simpa using hcatch.2.2.2.1

/-- What a step finds and does.  An answer arms a timer, unless the polling was
stopped or the error handler threw. -/
inductive PollStep (intervalMs : Int) (s : State) : Action → State → List Effect → Prop
  | idle (action : Action) (hstill : ∀ now, action ≠ .unsubscribe now) :
      PollStep intervalMs s action s []
  | stopped (now : Nat) :
      PollStep intervalMs s (.unsubscribe now) { s with active := false } []
  | asked (timer now : Nat) (htimer : timer ∈ s.timers)
      (hdue : timer + setTimeoutDelay (safeInterval intervalMs) ≤ now)
      (hactive : s.active = true) :
      PollStep intervalMs s (.fire timer now)
        ⟨true, now :: s.inFlight, s.timers.erase timer⟩ [.request]
  | lapsed (timer now : Nat) (htimer : timer ∈ s.timers) (hactive : s.active = false) :
      PollStep intervalMs s (.fire timer now)
        ⟨false, s.inFlight, s.timers.erase timer⟩ []
  | armed (request : Nat) (amount : Option Int) (callback onError : Reaction)
      (now : Nat) (effects : List Effect) (hrequest : request ∈ s.inFlight)
      (hactive : s.active = true) (hquiet : Effect.request ∉ effects) :
      PollStep intervalMs s (.settle request amount callback onError now)
        ⟨true, s.inFlight.erase request, now :: s.timers⟩ effects
  | ended (request : Nat) (amount : Option Int) (callback onError : Reaction)
      (now : Nat) (active : Bool) (effects : List Effect)
      (hrequest : request ∈ s.inFlight) (hbefore : active = true → s.active = true)
      (hquiet : Effect.request ∉ effects) (hsilent : s.active = false → effects = [])
      (hthrew : active = true → (handleAnswer
        { s with inFlight := s.inFlight.erase request } amount callback onError).2.2 =
          true) :
      PollStep intervalMs s (.settle request amount callback onError now)
        ⟨active, s.inFlight.erase request, s.timers⟩ effects

theorem settle_step (intervalMs : Int) {s : State} {request : Nat}
    (hrequest : request ∈ s.inFlight) (amount : Option Int)
    (callback onError : Reaction) (now : Nat) :
    PollStep intervalMs s (.settle request amount callback onError now)
      (settle { s with inFlight := s.inFlight.erase request } amount callback onError
        now).1
      (settle { s with inFlight := s.inFlight.erase request } amount callback onError
        now).2 := by
  have hcases := handleAnswer_cases { s with inFlight := s.inFlight.erase request }
    amount callback onError
  unfold settle
  rcases hanswer : handleAnswer { s with inFlight := s.inFlight.erase request } amount
    callback onError with ⟨⟨active, inFlight, timers⟩, effects, threw⟩
  rw [hanswer] at hcases
  obtain ⟨rfl, rfl, hbefore, hquiet, hsilent⟩ := hcases
  cases threw with
  | true =>
      exact .ended request amount callback onError now active effects hrequest hbefore
        hquiet hsilent fun _ => by rw [hanswer]
  | false =>
      cases active with
      | true =>
          exact .armed request amount callback onError now effects hrequest
            (hbefore rfl) hquiet
      | false =>
          exact .ended request amount callback onError now false effects hrequest
            hbefore hquiet hsilent nofun

theorem pollStep (intervalMs : Int) (s : State) (action : Action) :
    PollStep intervalMs s action (react intervalMs s action).1
      (react intervalMs s action).2 := by
  cases action with
  | unsubscribe now => exact .stopped now
  | settle request amount callback onError now =>
      simp only [react]
      by_cases hrequest : request ∈ s.inFlight
      · rw [if_pos hrequest]
        exact settle_step intervalMs hrequest amount callback onError now
      · rw [if_neg hrequest]
        exact .idle _ nofun
  | fire timer now =>
      simp only [react]
      by_cases hfires :
        timer ∈ s.timers ∧ timer + setTimeoutDelay (safeInterval intervalMs) ≤ now
      · rw [if_pos hfires, tick]
        cases hactive : s.active with
        | true => exact .asked timer now hfires.1 hfires.2 hactive
        | false => exact .lapsed timer now hfires.1 hactive
      · rw [if_neg hfires]
        exact .idle _ nofun

/-! ## Whole runs -/

/-- The times of the requests, newest first; the call itself makes the first one. -/
def requestTimes (intervalMs : Int) : List (Entry State Action) → List Nat
  | [] => [0]
  | entry :: earlier =>
      if Effect.request ∈ effectsOf intervalMs entry then
        entry.input.now :: requestTimes intervalMs earlier
      else requestTimes intervalMs earlier

/-- Two requests are at least the delay apart. -/
def Spaced (delay : Nat) (times : List Nat) : Prop :=
  times.Pairwise fun later earlier => earlier + delay ≤ later

structure Paced (intervalMs : Int) (history : List (Entry State Action))
    (s : State) : Prop where
  one : pending s ≤ 1
  alive : s.active = true → (∀ entry ∈ history, ¬ HandlerThrew entry) → pending s = 1
  past : ∀ time ∈ requestTimes intervalMs history,
    time ≤ (system intervalMs).lastTime history
  behind : ∀ timer ∈ s.timers, ∀ time ∈ requestTimes intervalMs history, time ≤ timer
  spaced : Spaced (setTimeoutDelay (safeInterval intervalMs))
    (requestTimes intervalMs history)

theorem requestTimes_of_quiet {intervalMs : Int} {entry : Entry State Action}
    (h : Effect.request ∉ effectsOf intervalMs entry)
    (earlier : List (Entry State Action)) :
    requestTimes intervalMs (entry :: earlier) = requestTimes intervalMs earlier :=
  if_neg h

/-- If a request is pending, it is alone. -/
theorem alone_of_inFlight {s : State} (hone : pending s ≤ 1) {request : Nat}
    (h : request ∈ s.inFlight) : s.inFlight = [request] ∧ s.timers = [] := by
  unfold pending at hone
  have hpos := List.length_pos_of_mem h
  have htimers : s.timers = [] := List.length_eq_zero_iff.mp (by omega)
  obtain ⟨only, honly⟩ := List.length_eq_one_iff.mp (show s.inFlight.length = 1 by omega)
  rw [honly, List.mem_singleton] at h
  exact ⟨by rw [honly, h], htimers⟩

theorem alone_of_timer {s : State} (hone : pending s ≤ 1) {timer : Nat}
    (h : timer ∈ s.timers) : s.timers = [timer] ∧ s.inFlight = [] := by
  unfold pending at hone
  have hpos := List.length_pos_of_mem h
  have hinFlight : s.inFlight = [] := List.length_eq_zero_iff.mp (by omega)
  obtain ⟨only, honly⟩ := List.length_eq_one_iff.mp (show s.timers.length = 1 by omega)
  rw [honly, List.mem_singleton] at h
  exact ⟨by rw [honly, h], hinFlight⟩

/-- A step that asks nothing and arms no timer. -/
theorem Paced.of_quiet {intervalMs : Int} {history : List (Entry State Action)}
    {s : State} (h : Paced intervalMs history s) {action : Action} {s' : State}
    (hquiet : Effect.request ∉ (react intervalMs s action).2)
    (htime : (system intervalMs).lastTime history ≤ action.now)
    (hone : pending s' ≤ 1)
    (halive : s'.active = true → (∀ entry ∈ history, ¬ HandlerThrew entry) →
      ¬ HandlerThrew ((system intervalMs).entryOf s action) → pending s' = 1)
    (hbehind : ∀ timer ∈ s'.timers, timer ∈ s.timers ∨ timer = action.now) :
    Paced intervalMs ((system intervalMs).entryOf s action :: history) s' := by
  have hsilent : Effect.request ∉
      effectsOf intervalMs ((system intervalMs).entryOf s action) := hquiet
  have htimes : requestTimes intervalMs
      ((system intervalMs).entryOf s action :: history) =
        requestTimes intervalMs history :=
    requestTimes_of_quiet hsilent history
  have hpast : ∀ time ∈ requestTimes intervalMs history, time ≤ action.now :=
    fun time hmem => le_trans (h.past time hmem) htime
  refine ⟨hone, ?_, ?_, ?_, ?_⟩
  · intro hactive hnone
    exact halive hactive
      (fun entry hentry => hnone entry (List.mem_cons_of_mem _ hentry))
      (hnone _ List.mem_cons_self)
  · rw [htimes]
    exact hpast
  · rw [htimes]
    intro timer htimer time hmem
    rcases hbehind timer htimer with hold | rfl
    · exact h.behind timer hold time hmem
    · exact hpast time hmem
  · rw [htimes]
    exact h.spaced

theorem Paced.next {intervalMs : Int} {history : List (Entry State Action)} {s : State}
    (h : Paced intervalMs history s) (action : Action)
    (htime : (system intervalMs).lastTime history ≤ action.now) :
    Paced intervalMs ((system intervalMs).entryOf s action :: history)
      ((system intervalMs).step s action) := by
  have hstep := pollStep intervalMs s action
  show Paced intervalMs _ (react intervalMs s action).1
  generalize hs' : (react intervalMs s action).1 = s' at hstep
  generalize heffects : (react intervalMs s action).2 = effects at hstep
  cases hstep with
  | idle action _ =>
      exact h.of_quiet (by simp [heffects]) htime h.one
        (fun hactive hnone _ => h.alive hactive hnone) fun _ htimer => Or.inl htimer
  | stopped now =>
      exact h.of_quiet (by simp [heffects]) htime h.one nofun fun _ htimer => Or.inl htimer
  | lapsed timer now htimer _ =>
      refine h.of_quiet (by simp [heffects]) htime ?_ nofun
        fun _ hleft => Or.inl (List.mem_of_mem_erase hleft)
      have hone := h.one
      have hless := List.length_erase_le (a := timer) (l := s.timers)
      unfold pending at hone ⊢
      simp only
      omega
  | armed request amount callback onError now effects hrequest hactive hquiet =>
      obtain ⟨hinFlight, htimers⟩ := alone_of_inFlight h.one hrequest
      refine h.of_quiet (by rw [heffects]; exact hquiet) htime ?_ ?_ ?_
      · simp [pending, hinFlight, htimers]
      · intro _ _ _
        simp [pending, hinFlight, htimers]
      · intro timer htimer
        rw [htimers, List.mem_singleton] at htimer
        exact Or.inr htimer
  | ended request amount callback onError now active effects hrequest _ hquiet _ hthrew =>
      obtain ⟨hinFlight, htimers⟩ := alone_of_inFlight h.one hrequest
      refine h.of_quiet (by rw [heffects]; exact hquiet) htime ?_ ?_ ?_
      · simp [pending, hinFlight, htimers]
      · intro hactive _ hnot
        exact absurd ⟨request, amount, callback, onError, now, rfl, hrequest,
          hthrew hactive⟩ hnot
      · exact fun _ htimer => Or.inl htimer
  | asked timer now htimer hdue hactive =>
      obtain ⟨htimers, hinFlight⟩ := alone_of_timer h.one htimer
      have hnewest : requestTimes intervalMs
          ((system intervalMs).entryOf s (.fire timer now) :: history) =
            now :: requestTimes intervalMs history :=
        if_pos (by simp [effectsOf, System.entryOf, heffects])
      -- the timer was set behind every request before it
      have hdelayed : ∀ time ∈ requestTimes intervalMs history,
          time + setTimeoutDelay (safeInterval intervalMs) ≤ now := by
        intro time hmem
        have hbehind := h.behind timer htimer time hmem
        omega
      refine ⟨?_, ?_, ?_, ?_, ?_⟩
      · simp [pending, hinFlight, htimers]
      · intro _ _
        simp [pending, hinFlight, htimers]
      · rw [hnewest]
        intro time hmem
        rcases List.mem_cons.mp hmem with rfl | hearlier
        · exact le_rfl
        · exact le_trans (Nat.le_add_right time _) (hdelayed time hearlier)
      · simp [htimers]
      · rw [hnewest]
        exact List.pairwise_cons.mpr ⟨hdelayed, h.spaced⟩

theorem paced_of_run {intervalMs : Int} {history : List (Entry State Action)} {s : State}
    (hrun : (system intervalMs).Run history s) : Paced intervalMs history s := by
  induction hrun using System.Run.induction with
  | start s h =>
      obtain rfl : s = started := h
      exact ⟨by decide, fun _ _ => rfl, by simp [requestTimes], by simp [started],
        List.pairwise_singleton _ 0⟩
  | next history s action _hrun htime ih => exact ih.next action htime

/-! ## After the end -/

/-- A stopped polling stays stopped, and nothing is seen of it. -/
theorem silent_of_inactive (intervalMs : Int) {s : State} (h : s.active = false)
    (action : Action) :
    (react intervalMs s action).1.active = false ∧ (react intervalMs s action).2 = [] := by
  have hstep := pollStep intervalMs s action
  generalize (react intervalMs s action).1 = s' at hstep ⊢
  generalize (react intervalMs s action).2 = effects at hstep ⊢
  cases hstep with
  | idle action _ => exact ⟨h, rfl⟩
  | stopped now => exact ⟨rfl, rfl⟩
  | asked timer now _ _ hactive => rw [h] at hactive; cases hactive
  | lapsed timer now _ _ => exact ⟨rfl, rfl⟩
  | armed request amount callback onError now effects _ hactive _ =>
      rw [h] at hactive; cases hactive
  | ended request amount callback onError now active effects _ hbefore _ hsilent _ =>
      refine ⟨?_, hsilent h⟩
      cases active with
      | false => rfl
      | true => rw [h] at hbefore; cases hbefore rfl

theorem silent_of_stopped {intervalMs : Int} {later earlier : List (Entry State Action)}
    {entry : Entry State Action} {s : State}
    (hrun : (system intervalMs).Run (later ++ entry :: earlier) s)
    (hstopped : entry.after.active = false) :
    s.active = false ∧ ∀ newer ∈ later, effectsOf intervalMs newer = [] := by
  induction later generalizing s with
  | nil =>
      obtain ⟨_, _, rfl⟩ := hrun.of_cons
      exact ⟨hstopped, by simp⟩
  | cons newest later ih =>
      obtain ⟨hbefore, hafter, rfl⟩ := hrun.of_cons
      obtain ⟨hinactive, hsilent⟩ := ih hbefore
      have hnewest := silent_of_inactive intervalMs hinactive newest.input
      refine ⟨by rw [hafter]; exact hnewest.1, ?_⟩
      rintro newer (_ | ⟨_, hmem⟩)
      · exact hnewest.2
      · exact hsilent newer hmem

/-! ## The protocol -/

theorem polling_protocol {intervalMs : Int} {history : List (Entry State Action)}
    {s : State} (hrun : (system intervalMs).Run history s) :
    pending s ≤ 1 ∧
      (s.active = true → (∀ entry ∈ history, ¬ HandlerThrew entry) → pending s = 1) ∧
      (intervalMs ≤ 2147483647 →
        (requestTimes intervalMs history).Pairwise fun (later earlier : Nat) =>
          (earlier : Int) + max intervalMs 1000 ≤ later) ∧
      ∀ later entry earlier, history = later ++ entry :: earlier →
        entry.after.active = false → ∀ newer ∈ later, effectsOf intervalMs newer = [] := by
  have hpaced := paced_of_run hrun
  refine ⟨hpaced.one, hpaced.alive, ?_, ?_⟩
  · intro hfits
    refine hpaced.spaced.imp ?_
    intro later earlier hdelayed
    unfold setTimeoutDelay safeInterval at hdelayed
    rw [if_pos (by omega)] at hdelayed
    omega
  · rintro later entry earlier rfl hstopped
    exact (silent_of_stopped hrun hstopped).2

/-- An answer, a failure, and an unsubscription while a request is in flight. -/
theorem polling_protocol_of_unsubscribed :
    (requestTimes 0 ((system 0).replay [] started
      [.settle 0 (some 5) ⟨false, false⟩ ⟨false, false⟩ 40, .fire 40 1050,
        .settle 1050 none ⟨false, false⟩ ⟨false, false⟩ 1200, .fire 1200 2200,
        .unsubscribe 2210, .settle 2200 (some 9) ⟨false, false⟩ ⟨false, false⟩ 2300]).1 =
          [2200, 1050, 0]) ∧
      (requestTimes 0 ((system 0).replay [] started
        [.settle 0 (some 5) ⟨false, false⟩ ⟨false, false⟩ 40, .fire 40 1050,
          .settle 1050 none ⟨false, false⟩ ⟨false, false⟩ 1200, .fire 1200 2200,
          .unsubscribe 2210,
          .settle 2200 (some 9) ⟨false, false⟩ ⟨false, false⟩ 2300]).1).Pairwise
        fun (later earlier : Nat) => (earlier : Int) + max 0 1000 ≤ later :=
  ⟨by decide,
    (polling_protocol ⟨started, rfl, System.Path.stay.replay (by decide)⟩).2.2.1
      (by decide)⟩

end Properties
end Paystream
