import Paystream.Services.Auth

/-!
# Sign-in nonces

Over every sequence of challenges and verifications by any clients at any times:
a JWT is issued for an address only to whoever signed the nonce of the latest
challenge for that address before it expired, and no nonce is redeemed twice
(`nonces_single_use`).

What carries it is where an entry of the store comes from (`Unspent`): from a
challenge for its address since which there was neither another challenge nor a
JWT for the address.
-/

namespace Paystream
namespace Properties

open Library
open Services
open Services.Auth

/-! ## Two splits of a list -/

section Splits

variable {α β : Type}

/-- Two elements that split a list: the first stands before the second, after it,
or they are one. -/
theorem split_cases {newer older middle earlier : List α} {x y : α}
    (h : newer ++ x :: older = middle ++ y :: earlier) :
    x ∈ middle ∨ (y ∈ newer ∧ x ∈ earlier) ∨ x = y := by
  rcases List.append_eq_append_iff.mp h with ⟨rest, hmiddle, hrest⟩ | ⟨rest, hnewer, hrest⟩
  · cases rest with
    | nil => exact Or.inr (Or.inr (List.cons.inj hrest).1)
    | cons z rest =>
        obtain ⟨rfl, _⟩ := List.cons.inj hrest
        exact Or.inl (by rw [hmiddle]; simp)
  · cases rest with
    | nil => exact Or.inr (Or.inr (List.cons.inj hrest).1.symm)
    | cons z rest =>
        obtain ⟨rfl, hearlier⟩ := List.cons.inj hrest
        exact Or.inr (Or.inl ⟨by rw [hnewer]; simp, by rw [hearlier]; simp⟩)

/-- Two elements with the same value, when no value occurs twice. -/
theorem eq_of_nodup_filterMap {f : α → Option β} {l : List α}
    (h : (l.filterMap f).Nodup) {x y : α} {value : β} (hx : x ∈ l) (hy : y ∈ l)
    (hfx : f x = some value) (hfy : f y = some value) : x = y := by
  induction l with
  | nil => cases hx
  | cons z l ih =>
      have hnot : ∀ w ∈ l, f w = some value → f z ≠ some value := by
        intro w hw hfw hfz
        rw [List.filterMap_cons_some hfz] at h
        exact (List.nodup_cons.mp h).1 (List.mem_filterMap.mpr ⟨w, hw, hfw⟩)
      rcases List.mem_cons.mp hx with rfl | hxl
      · rcases List.mem_cons.mp hy with rfl | hyl
        · rfl
        · exact absurd hfx (hnot y hyl hfy)
      · rcases List.mem_cons.mp hy with rfl | hyl
        · exact absurd hfy (hnot x hxl hfx)
        · refine ih (h.sublist ?_) hxl hyl
          exact (List.sublist_cons_self z l).filterMap f

end Splits

section Routes

variable {Signature : Type} {isHexadecimal : Signature → Bool}
  {verifies : Text → Text → Signature → Bool}

/-! ## What a history says -/

/-- The nonce a challenge has issued to the address. -/
def issuedTo (address : Text) (entry : Entry State (Action Signature)) :
    Option NonceEntry :=
  match entry.input with
  | .challenge (.text chars) now nonce =>
      if matchesAddress chars = true ∧ chars = address then
        some ⟨nonce, now + nonceTtlMs⟩
      else none
  | _ => none

/-- The nonce in a response. -/
def Response.nonce : Response → Option Text
  | .challenge nonce _ => some nonce
  | _ => none

/-- The nonce an entry has issued to anybody. -/
def issued (isHexadecimal : Signature → Bool)
    (verifies : Text → Text → Signature → Bool)
    (entry : Entry State (Action Signature)) : Option Text :=
  Response.nonce (responseOf isHexadecimal verifies entry)

/-- The request of the entry presents, before it expires, a valid signature of the
address over the nonce that was issued to the address last. -/
def Redeems (verifies : Text → Text → Signature → Bool)
    (earlier : List (Entry State (Action Signature)))
    (entry : Entry State (Action Signature)) (address nonce : Text) : Prop :=
  ∃ signature now expiresAt, entry.input = .verify (.text address) signature now ∧
    earlier.findSome? (issuedTo address) = some ⟨nonce, expiresAt⟩ ∧
    now ≤ expiresAt ∧ verifies address nonce signature = true

theorem input_of_issuedTo {address : Text} {entry : Entry State (Action Signature)}
    {nonceEntry : NonceEntry} (h : issuedTo address entry = some nonceEntry) :
    ∃ now nonce, entry.input = .challenge (.text address) now nonce ∧
      matchesAddress address = true ∧ nonceEntry = ⟨nonce, now + nonceTtlMs⟩ := by
  unfold issuedTo at h
  split at h
  · rename_i chars now nonce hinput
    split at h
    · rename_i hvalid
      obtain ⟨hmatches, rfl⟩ := hvalid
      cases h
      exact ⟨now, nonce, hinput, hmatches, rfl⟩
    · cases h
  · cases h

/-- Nobody is issued the nonce of another address. -/
theorem address_of_issuedTo {address address' : Text}
    {entry : Entry State (Action Signature)} {nonceEntry nonceEntry' : NonceEntry}
    (h : issuedTo address entry = some nonceEntry)
    (h' : issuedTo address' entry = some nonceEntry') : address = address' := by
  obtain ⟨now, nonce, hinput, _, _⟩ := input_of_issuedTo h
  obtain ⟨now', nonce', hinput', _, _⟩ := input_of_issuedTo h'
  rw [hinput] at hinput'
  cases hinput'
  rfl

theorem issued_of_issuedTo {address : Text} {entry : Entry State (Action Signature)}
    {nonceEntry : NonceEntry} (h : issuedTo address entry = some nonceEntry) :
    issued isHexadecimal verifies entry = some nonceEntry.nonce := by
  obtain ⟨now, nonce, hinput, hmatches, rfl⟩ := input_of_issuedTo h
  unfold issued responseOf
  rw [hinput]
  simp [handle, challenge, Address.valid, hmatches, Response.nonce]

/-! ## One step -/

/-- A JWT is issued for the entry of the store it redeems. -/
theorem token_cases {s : State} {action : Action Signature} {address : Text}
    {expiresIn : String}
    (h : (handle isHexadecimal verifies s action).2 = .token address expiresIn) :
    ∃ signature now nonceEntry, action = .verify (.text address) signature now ∧
      s.nonceStore address = some nonceEntry ∧ now ≤ nonceEntry.expiresAt ∧
      verifies address nonceEntry.nonce signature = true ∧
      (handle isHexadecimal verifies s action).1 = s.delete address := by
  cases action with
  | challenge whom now nonce =>
      simp only [handle, challenge] at h
      split at h
      · cases h
      · split at h
        · cases h
        · cases h
  | purge now => cases h
  | verify whom signature now =>
      simp only [handle, verify] at h ⊢
      split at h
      · cases h
      · rename_i hvalid
        rw [if_neg hvalid]
        cases whom with
        | other _ => cases h
        | text chars =>
            simp only [verifyText] at h ⊢
            cases hentry : s.nonceStore chars with
            | none =>
                rw [hentry] at h
                cases h
            | some nonceEntry =>
                simp only [hentry] at h ⊢
                split at h
                · cases h
                · rename_i htime
                  split at h
                  · cases h
                  · rename_i hverifies
                    cases h
                    rw [if_neg htime, if_neg hverifies]
                    exact ⟨signature, now, nonceEntry, rfl, hentry,
                      Nat.not_lt.mp htime, by simpa using hverifies, rfl⟩

theorem of_delete {s : State} {chars address : Text} {nonceEntry : NonceEntry}
    (h : (s.delete chars).nonceStore address = some nonceEntry) :
    s.nonceStore address = some nonceEntry := by
  change Function.update s.nonceStore chars none address = some nonceEntry at h
  rw [Function.update_apply] at h
  split at h
  · cases h
  · exact h

/-- A verification and the timer only take entries out of the store. -/
theorem verify_stored {s : State} {whom : Address} {signature : Signature}
    {now : Nat} {address : Text} {nonceEntry : NonceEntry}
    (h : (verify isHexadecimal verifies s whom signature now).1.nonceStore address =
      some nonceEntry) : s.nonceStore address = some nonceEntry := by
  unfold verify at h
  split at h
  · exact h
  · cases whom with
    | other _ => exact h
    | text chars =>
        simp only [verifyText] at h
        split at h
        · exact of_delete h
        · split at h
          · exact of_delete h
          · split at h
            · exact h
            · exact of_delete h

theorem purge_stored {s : State} {now : Nat} {address : Text}
    {nonceEntry : NonceEntry}
    (h : (purge s now).nonceStore address = some nonceEntry) :
    s.nonceStore address = some nonceEntry :=
  (Option.filter_eq_some_iff.mp h).1

/-- A challenge stores the nonce it issues and leaves the other addresses. -/
theorem challenge_stored {s : State} {whom : Address} {now : Nat}
    {nonce address : Text} {nonceEntry : NonceEntry}
    (h : (challenge s whom now nonce).1.nonceStore address = some nonceEntry)
    (after : State) :
    issuedTo address (⟨s, .challenge whom now nonce, after⟩ :
        Entry State (Action Signature)) = some nonceEntry ∨
      (s.nonceStore address = some nonceEntry ∧
        issuedTo address (⟨s, .challenge whom now nonce, after⟩ :
          Entry State (Action Signature)) = none) := by
  cases whom with
  | other accepted =>
      refine Or.inr ⟨?_, rfl⟩
      unfold challenge at h
      split at h
      · exact h
      · exact h
  | text chars =>
      cases hmatches : matchesAddress chars with
      | false =>
          refine Or.inr ⟨?_, by simp [issuedTo, hmatches]⟩
          simpa [challenge, Address.valid, hmatches] using h
      | true =>
          simp only [challenge, Address.valid, hmatches] at h
          change Function.update s.nonceStore chars _ address = _ at h
          rw [Function.update_apply] at h
          split at h
          · rename_i haddress
            refine Or.inl ?_
            simp only [issuedTo, hmatches, haddress, and_self, if_true]
            exact h
          · rename_i haddress
            exact Or.inr ⟨h, by simp [issuedTo, Ne.symm haddress]⟩

/-- An entry of the store after a step was issued by it, or was there before and
the step neither issued nor redeemed a nonce of its address. -/
theorem stored_step {s : State} {action : Action Signature} {address : Text}
    {nonceEntry : NonceEntry}
    (h : (handle isHexadecimal verifies s action).1.nonceStore address =
      some nonceEntry) :
    issuedTo address ((Auth.system isHexadecimal verifies).entryOf s action) =
        some nonceEntry ∨
      (s.nonceStore address = some nonceEntry ∧
        issuedTo address ((Auth.system isHexadecimal verifies).entryOf s action) =
          none ∧
        ∀ expiresIn, (handle isHexadecimal verifies s action).2 ≠
          .token address expiresIn) := by
  have htoken : ∀ expiresIn, (handle isHexadecimal verifies s action).2 ≠
      .token address expiresIn := by
    intro expiresIn hissued
    obtain ⟨_, _, _, _, _, _, _, hdeleted⟩ := token_cases hissued
    rw [hdeleted] at h
    change Function.update s.nonceStore address none address = _ at h
    rw [Function.update_self] at h
    cases h
  cases action with
  | challenge whom now nonce =>
      rcases challenge_stored h _ with hnew | ⟨hold, hnone⟩
      · exact Or.inl hnew
      · exact Or.inr ⟨hold, hnone, htoken⟩
  | verify whom signature now =>
      exact Or.inr ⟨verify_stored h, rfl, htoken⟩
  | purge now => exact Or.inr ⟨purge_stored h, rfl, htoken⟩

/-! ## Every run -/

/-- The entry was issued to the address, and since then nothing was issued to the
address and no JWT for it. -/
def Unspent (isHexadecimal : Signature → Bool)
    (verifies : Text → Text → Signature → Bool) (address : Text)
    (nonceEntry : NonceEntry) (history : List (Entry State (Action Signature))) :
    Prop :=
  ∃ newer source older, history = newer ++ source :: older ∧
    issuedTo address source = some nonceEntry ∧
    ∀ entry ∈ newer, issuedTo address entry = none ∧
      ∀ expiresIn, responseOf isHexadecimal verifies entry ≠
        .token address expiresIn

theorem unspent_of_run {history : List (Entry State (Action Signature))}
    {s : State} (hrun : (Auth.system isHexadecimal verifies).Run history s)
    {address : Text} {nonceEntry : NonceEntry}
    (hstored : s.nonceStore address = some nonceEntry) :
    Unspent isHexadecimal verifies address nonceEntry history := by
  induction hrun using System.Run.induction with
  | start s hinitial =>
      rw [hinitial address] at hstored
      cases hstored
  | next history s action hrun htime ih =>
      rcases stored_step hstored with hnew | ⟨hold, hnone, htoken⟩
      · exact ⟨[], _, history, rfl, hnew, List.forall_mem_nil _⟩
      · obtain ⟨newer, source, older, rfl, hsource, hnewer⟩ := ih hold
        exact ⟨_ :: newer, source, older, rfl, hsource,
          List.forall_mem_cons.mpr ⟨⟨hnone, htoken⟩, hnewer⟩⟩

/-- An unspent entry is the one issued last. -/
theorem Unspent.latest {address : Text} {nonceEntry : NonceEntry}
    {history : List (Entry State (Action Signature))}
    (h : Unspent isHexadecimal verifies address nonceEntry history) :
    history.findSome? (issuedTo address) = some nonceEntry := by
  obtain ⟨newer, source, older, rfl, hsource, hnewer⟩ := h
  rw [List.findSome?_append, List.findSome?_eq_none_iff.mpr
    (fun entry hentry => (hnewer entry hentry).1), List.findSome?_cons, hsource]
  rfl

/-- A JWT redeems an unspent entry. -/
theorem redeems_of_token {later earlier : List (Entry State (Action Signature))}
    {entry : Entry State (Action Signature)} {s : State}
    (hrun : (Auth.system isHexadecimal verifies).Run (later ++ entry :: earlier) s)
    {address : Text} {expiresIn : String}
    (htoken : responseOf isHexadecimal verifies entry = .token address expiresIn) :
    ∃ nonceEntry, Unspent isHexadecimal verifies address nonceEntry earlier ∧
      Redeems verifies earlier entry address nonceEntry.nonce := by
  obtain ⟨hbefore, _, _⟩ := hrun.of_split
  obtain ⟨signature, now, nonceEntry, hinput, hstored, htime, hverifies, _⟩ :=
    token_cases htoken
  have hunspent := unspent_of_run hbefore hstored
  exact ⟨nonceEntry, hunspent, signature, now, nonceEntry.expiresAt, hinput,
    hunspent.latest, htime, hverifies⟩

/-- A nonce is not issued before and after an entry. -/
theorem not_issued_twice {later middle earlier : List (Entry State (Action Signature))}
    {second first newest oldest : Entry State (Action Signature)}
    (hfresh : ((later ++ second :: (middle ++ first :: earlier)).filterMap
      (issued isHexadecimal verifies)).Nodup)
    (hnewest : newest ∈ middle) (holdest : oldest ∈ earlier) {nonce : Text}
    (hnonce : issued isHexadecimal verifies newest = some nonce) :
    issued isHexadecimal verifies oldest ≠ some nonce := by
  intro hnonce'
  have hsuffix : (middle ++ first :: earlier).Sublist
      (later ++ second :: (middle ++ first :: earlier)) :=
    (List.sublist_cons_self _ _).trans (List.sublist_append_right _ _)
  have hnodup := hfresh.sublist (hsuffix.filterMap _)
  rw [List.filterMap_append] at hnodup
  exact (List.nodup_append.mp hnodup).2.2 nonce
    (List.mem_filterMap.mpr ⟨newest, hnewest, hnonce⟩) nonce
    (List.mem_filterMap.mpr ⟨oldest, List.mem_cons_of_mem _ holdest, hnonce'⟩) rfl

/-- Two JWTs redeem different nonces, if no nonce was issued twice. -/
theorem redeems_ne {later middle earlier : List (Entry State (Action Signature))}
    {second first : Entry State (Action Signature)} {s : State}
    (hrun : (Auth.system isHexadecimal verifies).Run
      (later ++ second :: (middle ++ first :: earlier)) s)
    (hfresh : ((later ++ second :: (middle ++ first :: earlier)).filterMap
      (issued isHexadecimal verifies)).Nodup) {address address' : Text}
    {expiresIn expiresIn' : String}
    (hsecond : responseOf isHexadecimal verifies second = .token address expiresIn)
    (hfirst : responseOf isHexadecimal verifies first = .token address' expiresIn')
    {nonce : Text}
    (hredeems : Redeems verifies (middle ++ first :: earlier) second address nonce) :
    ¬ Redeems verifies earlier first address' nonce := by
  rintro ⟨_, _, expiresAt, hinput, hlatest, _, _⟩
  obtain ⟨_, _, _, _, hnonce, _, _⟩ := hredeems
  obtain ⟨nonceEntry, hunspent, _⟩ := redeems_of_token hrun hsecond
  rw [hunspent.latest] at hnonce
  cases hnonce
  obtain ⟨newer, source, older, hsplit, hsource, hnewer⟩ := hunspent
  obtain ⟨oldest, holdest, hissued⟩ := List.exists_of_findSome?_eq_some hlatest
  have hnew : issued isHexadecimal verifies source = some nonce :=
    issued_of_issuedTo hsource
  have hold : issued isHexadecimal verifies oldest = some nonce :=
    issued_of_issuedTo hissued
  -- where the second nonce was issued, seen from the first JWT
  rcases split_cases hsplit.symm with hmiddle | ⟨hbetween, hearlier⟩ | hsame
  · exact not_issued_twice hfresh hmiddle holdest hnew hold
  · -- both were issued before the first JWT: by one challenge, which it has spent
    have hone : source = oldest := by
      refine eq_of_nodup_filterMap hfresh ?_ ?_ hnew hold
      · simp [hearlier]
      · simp [holdest]
    subst hone
    obtain rfl := address_of_issuedTo hsource hissued
    exact (hnewer first hbetween).2 expiresIn' hfirst
  · subst hsame
    obtain ⟨_, _, hchallenge, _, _⟩ := input_of_issuedTo hsource
    rw [hinput] at hchallenge
    cases hchallenge

/-- In every sequence of requests a JWT for an address redeems the nonce that was
issued to the address last, before it expires and with a valid signature; and if no
nonce is issued twice, no two JWTs redeem the same nonce. -/
theorem nonces_single_use {history : List (Entry State (Action Signature))}
    {s : State} (hrun : (Auth.system isHexadecimal verifies).Run history s) :
    (∀ later entry earlier address expiresIn, history = later ++ entry :: earlier →
      responseOf isHexadecimal verifies entry = .token address expiresIn →
        ∃ nonce, Redeems verifies earlier entry address nonce) ∧
    ((history.filterMap (issued isHexadecimal verifies)).Nodup →
      ∀ later second middle first earlier address address' expiresIn expiresIn' nonce,
        history = later ++ second :: (middle ++ first :: earlier) →
        responseOf isHexadecimal verifies second = .token address expiresIn →
        responseOf isHexadecimal verifies first = .token address' expiresIn' →
        Redeems verifies (middle ++ first :: earlier) second address nonce →
          ¬ Redeems verifies earlier first address' nonce) := by
  constructor
  · rintro later entry earlier address expiresIn rfl htoken
    obtain ⟨nonceEntry, _, hredeems⟩ := redeems_of_token hrun htoken
    exact ⟨nonceEntry.nonce, hredeems⟩
  · rintro hfresh later second middle first earlier address address' expiresIn
      expiresIn' nonce rfl hsecond hfirst hredeems
    exact redeems_ne hrun hfresh hsecond hfirst hredeems

end Routes

/-! ## Two sign-ins -/

namespace SignInSample

def address : Text := 'G' :: List.replicate 55 'A'

/-- A signature is the nonce it signs. -/
def verifies (_ nonce signature : Text) : Bool := decide (nonce = signature)

/-- Two challenges, each answered with a signature of its nonce. -/
def signIns : List (Action Text) :=
  [.challenge (.text address) 0 ['a'], .verify (.text address) ['a'] 1000,
    .challenge (.text address) 2000 ['b'], .verify (.text address) ['b'] 3000]

def play (actions : List (Action Text)) :
    List (Entry State (Action Text)) × State :=
  (Auth.system (fun _ => true) verifies).replay [] ⟨fun _ => none⟩ actions

theorem play_run (actions : List (Action Text))
    (horder : (Auth.system (fun _ => true) verifies).InOrder 0 actions = true) :
    (Auth.system (fun _ => true) verifies).Run (play actions).1 (play actions).2 :=
  ⟨_, fun _ => rfl, System.Path.stay.replay horder⟩

end SignInSample

open SignInSample

/-- The two sign-ins get a JWT each, for different nonces. -/
theorem nonces_single_use_of_two :
    ∃ second middle first earlier nonce,
      (play signIns).1 = [] ++ second :: (middle ++ first :: earlier) ∧
      responseOf (fun _ => true) verifies second = .token address jwtExpiry ∧
      responseOf (fun _ => true) verifies first = .token address jwtExpiry ∧
      Redeems verifies (middle ++ first :: earlier) second address nonce ∧
      ¬ Redeems verifies earlier first address nonce := by
  obtain ⟨hredeems, hsingle⟩ := nonces_single_use (play_run signIns (by decide))
  obtain ⟨nonce, hnonce⟩ := hredeems [] _ _ _ _ rfl rfl
  exact ⟨_, [_], _, _, nonce, rfl, rfl, rfl, hnonce,
    hsingle (by decide) [] _ [_] _ _ _ _ _ _ nonce rfl rfl rfl hnonce⟩

end Properties
end Paystream
