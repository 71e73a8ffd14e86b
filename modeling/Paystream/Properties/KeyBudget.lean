import Paystream.Library.Expansion
import Paystream.Library.FixedWindow
import Paystream.Properties.ApiKeys
import Paystream.Services.AuthMiddleware

/-!
# The budget of an API key

Every key has a limit: so many requests in so many milliseconds.  Whatever else
happens to the keys, an interval of that length sees at most twice the limit of
the requests that present one key let through, and a key that stays below the
limit is never turned away for its rate (`key_budget`).

The counter of a key is a fixed window (`Library.FixedWindow`) over the times at
which it was checked; that it is always the same window rests on a key keeping its
limit for as long as it is stored.
-/

namespace Paystream
namespace Properties

open Library
open Services.ApiKeys
open Services.AuthMiddleware

section Budget

variable {Hash : Type} [DecidableEq Hash] {hashKey : Text → Hash}

/-! ## Keys keep their limit -/

/-- A stored key stays, with its limit, if the call draws no key with its hash. -/
theorem KeyEffect.keeps_limit {s : State Hash} {action : Action Hash}
    {draw : Option (Text × Text)} {table : Hash → Option (Meta Hash)}
    (h : KeyEffect hashKey s action draw table)
    (hfree : ∀ raw id, draw = some (raw, id) → s.keys.get (hashKey raw) = none)
    {hash : Hash} {key : Meta Hash} (hkey : s.keys.get hash = some key) :
    ∃ after, table hash = some after ∧ after.rateLimit = key.rateLimit := by
  have hupdate : ∀ {hash' found new}, s.keys.get hash' = some found →
      new.rateLimit = found.rateLimit → ∃ after,
        Function.update s.keys.get hash' (some new) hash = some after ∧
          after.rateLimit = key.rateLimit := by
    intro hash' found new hfound hnew
    rw [Function.update_apply]
    split
    · rename_i hhash
      subst hhash
      rw [hkey] at hfound
      cases hfound
      exact ⟨new, rfl, hnew⟩
    · exact ⟨key, hkey, rfl⟩
  have hne : ∀ {raw id}, draw = some (raw, id) → hash ≠ hashKey raw := by
    rintro raw id hdraw rfl
    rw [hfree raw id hdraw] at hkey
    cases hkey
  cases h with
  | same _ _ _ => exact ⟨key, hkey, rfl⟩
  | used raw now found hfound => exact hupdate hfound rfl
  | created _ _ _ secret id _ new _ _ =>
      rw [Function.update_of_ne (hne rfl)]
      exact ⟨key, hkey, rfl⟩
  | rotated raw secret id now old hold _ =>
      rw [Function.update_of_ne (hne rfl)]
      exact hupdate hold rfl
  | revoked id now hash' found hfound _ => exact hupdate hfound rfl

/-! ## The checks of a key -/

/-- The time of an entry that checks a stored key. -/
def checkedAt (hash : Hash) (entry : Entry (State Hash) (Action Hash)) : Option ℚ :=
  match entry.input with
  | .checkRateLimit checked now =>
      if checked = hash ∧ (entry.before.keys.get hash).isSome then some (now : ℚ)
      else none
  | _ => none

/-- The times at which a key was checked, newest first. -/
def checkTimes (hash : Hash) (history : List (Entry (State Hash) (Action Hash))) :
    List ℚ :=
  history.filterMap (checkedAt hash)

/-- The time of an entry that checks a stored key and finds it within its limit. -/
def allowedAt (hash : Hash) (entry : Entry (State Hash) (Action Hash)) : Option ℚ :=
  match entry.input with
  | .checkRateLimit _ now =>
      if (checkRateLimit entry.before hash now).2 then checkedAt hash entry else none
  | _ => none

def allowedTimes (hash : Hash) (history : List (Entry (State Hash) (Action Hash))) :
    List ℚ :=
  history.filterMap (allowedAt hash)

/-- The counter of a key as a window. -/
def usageWindow (s : State Hash) (hash : Hash) : Option (Window ℚ) :=
  (s.usage.get hash).map fun usage => ⟨usage.count, (usage.windowStart : ℚ)⟩

/-- What one check of a stored key does. -/
theorem checkRateLimit_stored {s : State Hash} {hash : Hash} {key : Meta Hash}
    (hkey : s.keys.get hash = some key) {length : ℚ}
    (hlength : key.rateLimit.windowMs = some length) (now : Nat) :
    usageWindow (checkRateLimit s hash now).1 hash =
        some (Window.next length (usageWindow s hash) now) ∧
      (checkRateLimit s hash now).2 =
        within (Window.next length (usageWindow s hash) now).count
          key.rateLimit.max := by
  unfold checkRateLimit usageWindow
  simp only [hkey, hlength, OrderedMap.get_set, Function.update_self,
    Option.map_some]
  cases husage : s.usage.get hash with
  | none => exact ⟨rfl, rfl⟩
  | some usage =>
      simp only [exceeds, Option.any_some, Option.map_some, Window.next,
        decide_eq_true_eq]
      split
      · exact ⟨rfl, rfl⟩
      · exact ⟨rfl, rfl⟩

theorem usageWindow_checkRateLimit_of_ne {s : State Hash} {checked hash : Hash}
    (hne : checked ≠ hash) (now : Nat) :
    usageWindow (checkRateLimit s checked now).1 hash = usageWindow s hash := by
  unfold checkRateLimit usageWindow
  cases s.keys.get checked with
  | none => rfl
  | some key =>
      simp only [OrderedMap.get_set, Function.update_of_ne hne.symm]

theorem checkRateLimit_of_unknown {s : State Hash} {hash : Hash}
    (hkey : s.keys.get hash = none) (now : Nat) :
    checkRateLimit s hash now = (s, false) := by
  unfold checkRateLimit
  rw [hkey]

/-! ## The window of a run -/

/-- The counter of a key and the times at which it was allowed, as its limit makes
them of the times at which it was checked. -/
structure Counted (hash : Hash) (history : List (Entry (State Hash) (Action Hash)))
    (s : State Hash) : Prop where
  unknown : s.keys.get hash = none → usageWindow s hash = none ∧
    checkTimes hash history = [] ∧ allowedTimes hash history = []
  known : ∀ key length max, s.keys.get hash = some key →
    key.rateLimit = ⟨some length, some max⟩ →
      usageWindow s hash = Window.after length (checkTimes hash history) ∧
        allowedTimes hash history =
          Window.admitted length ⌊max⌋₊ (checkTimes hash history)

/-- An entry that does not check the key. -/
theorem Counted.of_silent {hash : Hash}
    {history : List (Entry (State Hash) (Action Hash))} {s s' : State Hash}
    {entry : Entry (State Hash) (Action Hash)} (h : Counted hash history s)
    (hchecked : checkedAt hash entry = none) (hallowed : allowedAt hash entry = none)
    (husage : usageWindow s' hash = usageWindow s hash)
    (hkept : ∀ key, s.keys.get hash = some key →
      ∃ after, s'.keys.get hash = some after ∧ after.rateLimit = key.rateLimit) :
    Counted hash (entry :: history) s' := by
  have htimes : checkTimes hash (entry :: history) = checkTimes hash history :=
    List.filterMap_cons_none hchecked
  have hpassed : allowedTimes hash (entry :: history) = allowedTimes hash history :=
    List.filterMap_cons_none hallowed
  constructor
  · intro hunknown
    rw [husage, htimes, hpassed]
    cases hkey : s.keys.get hash with
    | none => exact h.unknown hkey
    | some key =>
        obtain ⟨after, hafter, _⟩ := hkept key hkey
        rw [hunknown] at hafter
        cases hafter
  · intro key length max hafter hlimit
    rw [husage, htimes, hpassed]
    cases hkey : s.keys.get hash with
    | none =>
        -- the key has just been stored
        obtain ⟨hnone, hno, hnever⟩ := h.unknown hkey
        rw [hnone, hno, hnever]
        exact ⟨rfl, rfl⟩
    | some old =>
        obtain ⟨_, hstored, hsame⟩ := hkept old hkey
        obtain rfl := Option.some.inj (hafter.symm.trans hstored)
        exact h.known old length max hkey (hsame.symm.trans hlimit)

/-- A count of at least one is within the limit exactly when it is within its whole
part. -/
theorem within_next_iff (length max : ℚ) (current : Option (Window ℚ)) (now : ℚ) :
    within (Window.next length current now).count (some max) =
      decide ((Window.next length current now).count ≤ ⌊max⌋₊) := by
  have hpos : (Window.next length current now).count ≠ 0 := by
    rcases @Window.next_cases ℚ _ _ length current now with
      ⟨w, _, _, hnext⟩ | ⟨_, hnext⟩ <;> simp [hnext]
  rw [within, Option.any_some]
  exact decide_eq_decide.mpr (Nat.le_floor_iff' hpos).symm

/-- An entry that checks the key while it is stored. -/
theorem Counted.of_check {hash : Hash}
    {history : List (Entry (State Hash) (Action Hash))} {s : State Hash}
    (h : Counted hash history s) {key : Meta Hash} (hkey : s.keys.get hash = some key)
    (now : Nat) (after : State Hash) :
    Counted hash (⟨s, .checkRateLimit hash now, after⟩ :: history)
      (checkRateLimit s hash now).1 := by
  have hchecked : checkedAt hash ⟨s, .checkRateLimit hash now, after⟩ =
      some (now : ℚ) := by
    simp [checkedAt, hkey]
  have hallowed : allowedAt hash ⟨s, .checkRateLimit hash now, after⟩ =
      if (checkRateLimit s hash now).2 then some (now : ℚ) else none := by
    simp only [allowedAt, hchecked]
  constructor
  · intro hunknown
    rw [checkRateLimit_keys, hkey] at hunknown
    cases hunknown
  · intro found length max hfound hlimit
    rw [checkRateLimit_keys, hkey] at hfound
    obtain rfl := Option.some.inj hfound
    obtain ⟨hwindow, hpassed⟩ := h.known key length max hkey hlimit
    obtain ⟨hnext, hallows⟩ := checkRateLimit_stored hkey
      (congrArg RateLimit.windowMs hlimit) now
    rw [congrArg RateLimit.max hlimit, within_next_iff, hwindow] at hallows
    rw [hwindow] at hnext
    have htimes : checkTimes hash (⟨s, .checkRateLimit hash now, after⟩ :: history) =
        (now : ℚ) :: checkTimes hash history :=
      List.filterMap_cons_some hchecked
    rw [htimes]
    refine ⟨hnext, ?_⟩
    rw [Window.admitted, Window.admits, ← hallows, ← hpassed]
    cases hpass : (checkRateLimit s hash now).2 with
    | false => exact List.filterMap_cons_none (hallowed.trans (by rw [hpass]; rfl))
    | true => exact List.filterMap_cons_some (hallowed.trans (by rw [hpass]; rfl))

theorem handle_usage_of_other (s : State Hash) {action : Action Hash}
    (hother : ∀ hash now, action ≠ .checkRateLimit hash now) :
    (handle hashKey s action).1.usage = s.usage := by
  cases action with
  | createKey name ownerId rateLimit secret id now => rfl
  | validateKey raw now =>
      simp only [handle, validateKey]
      split
      · rfl
      · split
        · rfl
        · split
          · rfl
          · rfl
  | checkRateLimit hash now => exact absurd rfl (hother hash now)
  | rotateKey raw secret id now =>
      simp only [handle, rotateKey]
      split
      · rfl
      · split
        · rfl
        · rfl
  | revokeById id now =>
      simp only [handle, revokeById]
      split
      · rfl
      · rfl

/-- One call. -/
theorem Counted.next {hash : Hash}
    {history : List (Entry (State Hash) (Action Hash))} {s : State Hash}
    (h : Counted hash history s) {action : Action Hash}
    (hnew : DrawsNew hashKey s action) :
    Counted hash ((system hashKey).entryOf s action :: history)
      ((system hashKey).step s action) := by
  have hkept : ∀ key, s.keys.get hash = some key → ∃ after,
      (handle hashKey s action).1.keys.get hash = some after ∧
        after.rateLimit = key.rateLimit :=
    fun key hkey => (keyEffect hashKey s action).keeps_limit
      (fun raw id hdraw => (hnew raw id hdraw).1) hkey
  -- only a check of this key counts
  by_cases hother : ∀ checked now, action ≠ .checkRateLimit checked now
  · have husage := @handle_usage_of_other _ _ hashKey s action hother
    have hsilent : ∀ entry : Entry (State Hash) (Action Hash), entry.input = action →
        checkedAt hash entry = none ∧ allowedAt hash entry = none := by
      rintro ⟨before, input, after⟩ rfl
      cases input with
      | checkRateLimit checked now => exact absurd rfl (hother checked now)
      | _ => exact ⟨rfl, rfl⟩
    obtain ⟨hchecked, hallowed⟩ := hsilent ((system hashKey).entryOf s action) rfl
    refine h.of_silent hchecked hallowed ?_ hkept
    show ((handle hashKey s action).1.usage.get hash).map _ = _
    rw [husage]
    rfl
  · simp only [not_forall, not_not] at hother
    obtain ⟨checked, now, rfl⟩ := hother
    by_cases hsame : checked = hash
    · subst hsame
      cases hkey : s.keys.get checked with
      | none =>
          have hchecked : checkedAt checked ((system hashKey).entryOf s
              (.checkRateLimit checked now)) = none := by
            simp [checkedAt, System.entryOf, hkey]
          refine h.of_silent hchecked ?_ ?_ hkept
          · simp [allowedAt, System.entryOf, checkRateLimit_of_unknown hkey]
          · show usageWindow (checkRateLimit s checked now).1 checked = _
            rw [checkRateLimit_of_unknown hkey]
      | some key => exact h.of_check hkey now _
    · have hchecked : checkedAt hash ((system hashKey).entryOf s
          (.checkRateLimit checked now)) = none := by
        simp [checkedAt, System.entryOf, hsame]
      refine h.of_silent hchecked ?_ (usageWindow_checkRateLimit_of_ne hsame now) hkept
      unfold allowedAt
      rw [hchecked]
      exact ite_self none

theorem counted_of_run (hinjective : Function.Injective hashKey)
    {history : List (Entry (State Hash) (Action Hash))} {s : State Hash}
    (hrun : (system hashKey).Run history s) (honce : DrawnOnce hashKey history)
    (hash : Hash) : Counted hash history s := by
  induction hrun using System.Run.induction with
  | start s hinitial =>
      cases hinitial
      refine ⟨fun _ => ⟨rfl, rfl, rfl⟩, ?_⟩
      rintro key length max ⟨⟩
  | next history s action hrun _ ih =>
      exact (ih honce.of_cons).next (drawsNew_of_cons hinjective hrun honce)

/-! ## Requests -/

variable {verify : Text → Nat → Option (Option Text)}

/-- The calls of the service that a request makes. -/
def requestCalls (hashKey : Text → Hash) (req : Request) (s : State Hash) :
    List (Action Hash) :=
  match req.bearer, req.rawKey with
  | none, some raw =>
      if (validateKey hashKey s raw req.validatedAt).2.isSome then
        [.validateKey raw req.validatedAt, .checkRateLimit (hashKey raw) req.checkedAt]
      else [.validateKey raw req.validatedAt]
  | _, _ => []

def serviceCalls (hashKey : Text → Hash) (s : State Hash) :
    Input Hash → List (Action Hash)
  | .manage action => [action]
  | .request req => requestCalls hashKey req s

/-- The calls of the service behind a history of calls and requests. -/
def serviceHistory (hashKey : Text → Hash)
    (history : List (Entry (State Hash) (Input Hash))) :
    List (Entry (State Hash) (Action Hash)) :=
  (system hashKey).expand (serviceCalls hashKey) history

theorem step_eq_replay (s : State Hash) (input : Input Hash) :
    step verify hashKey s input =
      ((system hashKey).replay [] s (serviceCalls hashKey s input)).2 := by
  cases input with
  | manage action => rfl
  | request req =>
      simp only [step, serviceCalls, authMiddleware, requestCalls]
      cases req.bearer with
      | some token =>
          dsimp only
          cases verify token req.verifiedAt with
          | none => rfl
          | some sub => rfl
      | none =>
          cases req.rawKey with
          | none => rfl
          | some raw =>
              dsimp only
              rcases hvalid : validateKey hashKey s raw req.validatedAt with
                ⟨s', found⟩
              cases found with
              | none => simp [System.replay, system, handle, hvalid]
              | some key =>
                  rcases hcheck : checkRateLimit s' (hashKey raw) req.checkedAt with
                    ⟨s'', passes⟩
                  cases passes <;>
                    simp [System.replay, system, handle, hvalid, hcheck]

theorem serviceRun {history : List (Entry (State Hash) (Input Hash))} {s : State Hash}
    (hrun : (gateway verify hashKey).Run history s) :
    (system hashKey).Run (serviceHistory hashKey history) s :=
  System.Run.expand (system hashKey) (serviceCalls hashKey) (gateway verify hashKey)
    (fun _ h => h) step_eq_replay (fun _ => rfl) hrun

/-- The time of an entry that lets a request with the key through. -/
def passedAt (verify : Text → Nat → Option (Option Text)) (hashKey : Text → Hash)
    (raw : Text) (entry : Entry (State Hash) (Input Hash)) : Option ℚ :=
  match entry.input with
  | .request req =>
      if (authMiddleware verify hashKey req entry.before).2 = .key raw then
        some (req.checkedAt : ℚ)
      else none
  | .manage _ => none

def passedTimes (verify : Text → Nat → Option (Option Text)) (hashKey : Text → Hash)
    (raw : Text) (history : List (Entry (State Hash) (Input Hash))) : List ℚ :=
  history.filterMap (passedAt verify hashKey raw)

/-- A request with a key was let through after the key validated and its check was
allowed. -/
theorem passed_of_key {req : Request} {s : State Hash} {raw : Text}
    (h : (authMiddleware verify hashKey req s).2 = .key raw) :
    ∃ key, (validateKey hashKey s raw req.validatedAt).2 = some key ∧
      (checkRateLimit (validateKey hashKey s raw req.validatedAt).1 (hashKey raw)
        req.checkedAt).2 = true ∧
      requestCalls hashKey req s =
        [.validateKey raw req.validatedAt, .checkRateLimit (hashKey raw) req.checkedAt] := by
  unfold authMiddleware at h
  unfold requestCalls
  cases hbearer : req.bearer with
  | some token =>
      rw [hbearer] at h
      dsimp only at h
      split at h <;> cases h
  | none =>
      rw [hbearer] at h
      cases hraw : req.rawKey with
      | none =>
          rw [hraw] at h
          cases h
      | some presented =>
          rw [hraw] at h
          dsimp only at h
          rcases hvalid : validateKey hashKey s presented req.validatedAt with
            ⟨s', found⟩
          rw [hvalid] at h
          cases found with
          | none => cases h
          | some key =>
              rcases hcheck : checkRateLimit s' (hashKey presented) req.checkedAt with
                ⟨s'', passes⟩
              dsimp only at h
              rw [hcheck] at h
              cases passes with
              | false => cases h
              | true =>
                  cases h
                  refine ⟨key, by rw [hvalid], by rw [hvalid, hcheck], ?_⟩
                  simp [hvalid]

theorem stored_of_validates {s : State Hash} {raw : Text} {now : Nat} {key : Meta Hash}
    (h : (validateKey hashKey s raw now).2 = some key) :
    ∃ found, s.keys.get (hashKey raw) = some found ∧ found.revoked = false := by
  unfold validateKey at h
  split at h
  · cases h
  · cases hkey : s.keys.get (hashKey raw) with
    | none =>
        simp only [hkey] at h
        cases h
    | some found =>
        simp only [hkey] at h
        split at h
        · cases h
        · rename_i hlive
          exact ⟨found, rfl, by simpa using hlive⟩

/-- A validation keeps the stored keys and their limits. -/
theorem validateKey_keeps (s : State Hash) (raw : Text) (now : Nat) {hash : Hash}
    {key : Meta Hash} (hkey : s.keys.get hash = some key) :
    ∃ after, (validateKey hashKey s raw now).1.keys.get hash = some after ∧
      after.rateLimit = key.rateLimit :=
  (validateKey_effect s raw now).keeps_limit (by simp) hkey

/-- The two entries of a request that was let through. -/
theorem allowedTimes_of_passed {req : Request} {s : State Hash} {raw : Text}
    (h : (authMiddleware verify hashKey req s).2 = .key raw)
    (earlier : List (Entry (State Hash) (Action Hash))) :
    allowedTimes (hashKey raw)
        ((system hashKey).replay earlier s (requestCalls hashKey req s)).1 =
      (req.checkedAt : ℚ) :: allowedTimes (hashKey raw) earlier := by
  obtain ⟨key, hvalid, hpass, hcalls⟩ := passed_of_key h
  obtain ⟨found, hfound, _⟩ := stored_of_validates hvalid
  obtain ⟨after, hafter, _⟩ := validateKey_keeps s raw req.validatedAt hfound
  rw [hcalls]
  unfold allowedTimes
  have hcheck : allowedAt (hashKey raw) ((system hashKey).entryOf
      ((system hashKey).step s (.validateKey raw req.validatedAt))
      (.checkRateLimit (hashKey raw) req.checkedAt)) = some (req.checkedAt : ℚ) := by
    have hstored : (((system hashKey).step s (.validateKey raw req.validatedAt)).keys.get
        (hashKey raw)).isSome = true := by
      show ((validateKey hashKey s raw req.validatedAt).1.keys.get _).isSome = true
      rw [hafter]
      rfl
    have hallows : (checkRateLimit ((system hashKey).step s
        (.validateKey raw req.validatedAt)) (hashKey raw) req.checkedAt).2 = true := hpass
    simp [allowedAt, checkedAt, System.entryOf, hallows, hstored]
  have hsilent : allowedAt (hashKey raw) ((system hashKey).entryOf s
      (.validateKey raw req.validatedAt)) = none := rfl
  simp only [System.replay]
  rw [List.filterMap_cons_some hcheck, List.filterMap_cons_none hsilent]

/-- Every request with the key that is let through is an allowed check. -/
theorem passedTimes_sublist (raw : Text)
    (history : List (Entry (State Hash) (Input Hash))) :
    (passedTimes verify hashKey raw history).Sublist
      (allowedTimes (hashKey raw) (serviceHistory hashKey history)) := by
  induction history with
  | nil => exact List.Sublist.refl _
  | cons entry earlier ih =>
      cases hpassed : passedAt verify hashKey raw entry with
      | none =>
          rw [passedTimes, List.filterMap_cons_none hpassed]
          exact ih.trans ((System.expand_suffix entry earlier).sublist.filterMap _)
      | some time =>
          rw [passedTimes, List.filterMap_cons_some hpassed]
          obtain ⟨before, input, after⟩ := entry
          cases input with
          | manage action => cases hpassed
          | request req =>
              simp only [passedAt, Option.ite_none_right_eq_some,
                Option.some.injEq] at hpassed
              obtain ⟨hkey, rfl⟩ := hpassed
              have hentries := allowedTimes_of_passed hkey
                (serviceHistory hashKey earlier)
              show List.Sublist _ (allowedTimes (hashKey raw)
                ((system hashKey).replay (serviceHistory hashKey earlier) before
                  (requestCalls hashKey req before)).1)
              rw [hentries]
              exact ih.cons_cons _

/-! ## The budget -/

/-- The request has no bearer token and comes with the key. -/
def Presents (req : Request) (raw : Text) : Prop :=
  req.bearer = none ∧ req.rawKey = some raw

theorem validateKey_of_live {s : State Hash} {raw : Text} (now : Nat)
    (hbegins : keyPrefix.isPrefixOf raw = true) {key : Meta Hash}
    (hkey : s.keys.get (hashKey raw) = some key) (hlive : key.revoked = false) :
    (validateKey hashKey s raw now).2 = some { key with lastUsedAt := some now } := by
  unfold validateKey
  rw [if_neg (by simp [hbegins])]
  simp only [hkey, hlive, Bool.false_eq_true, if_false]

/-- A request with a live key is let through if its check is allowed. -/
theorem authMiddleware_of_key {req : Request} {s : State Hash} {raw : Text}
    (hpresents : Presents req raw) {key : Meta Hash}
    (hvalid : (validateKey hashKey s raw req.validatedAt).2 = some key)
    (hpass : (checkRateLimit (validateKey hashKey s raw req.validatedAt).1 (hashKey raw)
      req.checkedAt).2 = true) :
    (authMiddleware verify hashKey req s).2 = .key raw := by
  obtain ⟨hbearer, hraw⟩ := hpresents
  unfold authMiddleware
  rcases hvalidate : validateKey hashKey s raw req.validatedAt with ⟨s', found⟩
  rw [hvalidate] at hvalid hpass
  rcases hcheck : checkRateLimit s' (hashKey raw) req.checkedAt with ⟨s'', passes⟩
  rw [hcheck] at hpass
  obtain rfl : found = some key := hvalid
  obtain rfl : passes = true := hpass
  simp only [hbearer, hraw, hvalidate, hcheck]

/-- Over every sequence of calls of the service and requests, with raw keys and ids
drawn once, an injective hash and a clock that does not run back: an interval of the
length of the window sees at most twice the limit of the requests with a key let
through, and a request that presents the live key after fewer checks than the limit
allows in the last window length is let through. -/
theorem key_budget (hinjective : Function.Injective hashKey)
    {history : List (Entry (State Hash) (Input Hash))} {s : State Hash}
    (hrun : (gateway verify hashKey).Run history s)
    (honce : DrawnOnce hashKey (serviceHistory hashKey history)) {raw : Text}
    (hclock : Window.Ordered
      (checkTimes (hashKey raw) (serviceHistory hashKey history)))
    {key : Meta Hash} (hkey : s.keys.get (hashKey raw) = some key) {length max : ℚ}
    (hlimit : key.rateLimit = ⟨some length, some max⟩) :
    (∀ start : ℚ, (passedTimes verify hashKey raw history).countP
        (fun time => decide (start ≤ time ∧ time ≤ start + length)) ≤ 2 * ⌊max⌋₊) ∧
      ∀ req : Request, Presents req raw → keyPrefix.isPrefixOf raw = true →
        key.revoked = false →
        (∀ time ∈ checkTimes (hashKey raw) (serviceHistory hashKey history),
          time ≤ req.checkedAt) →
        (checkTimes (hashKey raw) (serviceHistory hashKey history)).countP
          (fun time => decide (req.checkedAt - length ≤ time)) < ⌊max⌋₊ →
        (authMiddleware verify hashKey req s).2 = .key raw := by
  obtain ⟨hwindow, hallowed⟩ := (counted_of_run hinjective (serviceRun hrun) honce
    (hashKey raw)).known key length max hkey hlimit
  constructor
  · intro start
    have hinside := @Window.admitted_le_twice ℚ _ _ length ⌊max⌋₊ _ start _ hclock
    rw [Window.admittedFrom, ← hallowed] at hinside
    exact le_trans ((passedTimes_sublist raw history).countP_le) hinside
  · intro req hpresents hbegins hlive hlatest hfew
    obtain ⟨after, hafter, hsame⟩ := validateKey_keeps s raw req.validatedAt hkey
    refine authMiddleware_of_key hpresents
      (validateKey_of_live req.validatedAt hbegins hkey hlive) ?_
    have hafterLimit := hsame.trans hlimit
    rw [(checkRateLimit_stored hafter (congrArg RateLimit.windowMs hafterLimit)
        req.checkedAt).2, congrArg RateLimit.max hafterLimit, within_next_iff]
    have husage : usageWindow (validateKey hashKey s raw req.validatedAt).1
        (hashKey raw) = usageWindow s (hashKey raw) := by
      have hsameUsage := @handle_usage_of_other _ _ hashKey s
        (.validateKey raw req.validatedAt) nofun
      unfold usageWindow
      exact congrArg (fun usage => Option.map _ (OrderedMap.get usage _)) hsameUsage
    rw [husage, hwindow]
    exact Window.admits_of_few (List.pairwise_cons.mpr ⟨hlatest, hclock⟩) hfew

end Budget

/-! ## Two requests in a second -/

namespace BudgetSample

def noToken (_ : Text) (_ : Nat) : Option (Option Text) := none

/-- A request with the one key. -/
def request (now : Nat) : Request where
  authorization := none
  apiKey := some (rawKey ['a'])
  verifiedAt := now
  validatedAt := now
  checkedAt := now

/-- A key for two requests in a second is created, and three requests come in. -/
def inputs : List (Input Text) :=
  [.manage (.createKey ['n'] ['o'] (some ⟨some 1000, some 2⟩) ['a'] ['1'] 0),
    .request (request 100), .request (request 200), .request (request 300)]

def played : List (Entry (State Text) (Input Text)) × State Text :=
  (gateway noToken fun raw => raw).replay [] ⟨.empty, .empty⟩ inputs

theorem played_run : (gateway noToken fun raw : Text => raw).Run played.1 played.2 :=
  ⟨_, rfl, System.Path.stay.replay (by decide)⟩

theorem played_drawnOnce :
    DrawnOnce (fun raw => raw) (serviceHistory (fun raw => raw) played.1) := by
  unfold DrawnOnce
  decide +kernel

theorem played_checks : checkTimes (rawKey ['a'])
    (serviceHistory (fun raw => raw) played.1) = [300, 200, 100] := by
  decide +kernel

/-- The key after these requests. -/
def usedKey : Meta Text where
  id := ['1']
  name := ['n']
  ownerId := ['o']
  hash := rawKey ['a']
  rateLimit := ⟨some 1000, some 2⟩
  revoked := false
  createdAt := 0
  lastUsedAt := some 300
  rotatedFrom := none
  revokedAt := none

theorem played_key : played.2.keys.get (rawKey ['a']) = some usedKey := by
  decide +kernel

end BudgetSample

open BudgetSample

/-- The third request was too much, and a fourth one a second after it is let
through. -/
theorem key_budget_of_two :
    passedTimes noToken (fun raw => raw) (rawKey ['a']) played.1 = [200, 100] ∧
      (authMiddleware noToken (fun raw => raw) (request 1300) played.2).2 =
        .key (rawKey ['a']) := by
  have hfloor : ⌊(2 : ℚ)⌋₊ = 2 := Nat.floor_ofNat 2
  have hclock : Window.Ordered (checkTimes (rawKey ['a'])
      (serviceHistory (fun raw => raw) played.1)) := by
    rw [played_checks]
    unfold Window.Ordered
    decide
  obtain ⟨_, hfew⟩ := @key_budget Text _ (fun raw => raw) noToken Function.injective_id
    _ _ played_run played_drawnOnce (rawKey ['a']) hclock usedKey played_key 1000 2 rfl
  rw [played_checks, hfloor] at hfew
  refine ⟨by decide +kernel, ?_⟩
  exact hfew (request 1300) ⟨rfl, rfl⟩ (by decide) rfl (by decide +kernel)
    (by decide +kernel)

end Properties
end Paystream
