import Paystream.Semantics.Steps

/-!
# The token allowlist

The list of allowed tokens says two things at once: an empty list stands for an
allowlist that was never configured and lets every token pass, any other list is
closed.  Both creation paths read it that way, the single call through
`is_token_allowed` and the batch once before its loop.

A list that was configured and then emptied again therefore counts as one that
never was.  `allowlist_closed_iff` says that this is all that can go wrong: after
an `add_allowed_token`, the later creations use listed tokens only exactly when
each of them met a non-empty list, and that is so when no `remove_allowed_token`
took the last token off.
-/

namespace Paystream
namespace Properties

open Library
open Contract
open Contract.Storage
open Semantics

/-! ## What a call does to the list -/

/-- The list a call leaves when it returns. -/
def allowlistNext (tokens : List Address) : Call → List Address
  | .admin (.addAllowedToken _ token) =>
      if token ∈ tokens then tokens else tokens ++ [token]
  | .admin (.removeAllowedToken _ token) =>
      tokens.filter (fun t => decide (t ≠ token))
  | _ => tokens

theorem allowedTokens_adminNext (w : World) (call : AdminCall) :
    (adminNext w call).allowedTokens =
      allowlistNext w.allowedTokens (.admin call) := by
  cases call with
  | addAllowedToken admin token =>
      simp only [adminNext, addAllowedToken, allowlistNext]
      split <;> rfl
  | _ => rfl

theorem allowedTokens_of_governance {ctx : Context} {call : GovernanceCall}
    {w w' : World} {value : Value}
    (h : execGovernance ctx call w = .ok (value, w')) :
    w'.allowedTokens = w.allowedTokens := by
  rw [execGovernance_writes h]

theorem allowedTokens_of_succeeds {host : Host} {w w' : World}
    {inv : Invocation} {value : Value} (h : Succeeds host w inv value w') :
    w'.allowedTokens = allowlistNext w.allowedTokens inv.call := by
  rcases (effect_of_succeeds h).settings_cases with
    ⟨call, hcall, _, rfl⟩ | ⟨call, hcall, _⟩ | hsettings
  · rw [hcall]
    exact allowedTokens_adminNext w call
  · unfold Succeeds at h
    rw [hcall] at h ⊢
    exact allowedTokens_of_governance h
  · have hsame : w'.allowedTokens = w.allowedTokens :=
      congrArg Settings.allowedTokens hsettings
    rw [hsame]
    -- an administrator's call is one of the first kind, whatever it left
    cases hcall : inv.call with
    | admin call =>
        have heffect := effect_of_succeeds h
        rw [hcall] at heffect
        cases heffect with
        | admin call _ hnext =>
            rw [← allowedTokens_adminNext, ← hnext, hsame]
    | _ => rfl

/-- The call is a removal that leaves no token on the list. -/
def EmptiesAllowlist (tokens : List Address) (call : Call) : Prop :=
  ∃ admin token, call = .admin (.removeAllowedToken admin token) ∧
    ∀ t ∈ tokens, t = token

theorem allowlistNext_eq_nil_iff {tokens : List Address} (hsome : tokens ≠ [])
    (call : Call) :
    allowlistNext tokens call = [] ↔ EmptiesAllowlist tokens call := by
  unfold EmptiesAllowlist allowlistNext
  split
  · rename_i admin token
    have hne : (if token ∈ tokens then tokens else tokens ++ [token]) ≠ [] := by
      split
      · exact hsome
      · simp
    simp [hne]
  · rename_i admin token
    simp [List.filter_eq_nil_iff]
  · rename_i hnot
    constructor
    · intro hnil
      exact absurd hnil hsome
    · rintro ⟨admin, token, rfl, _⟩
      exact absurd rfl (hnot admin token)

/-! ## Creations -/

/-- The entry is an `add_allowed_token` that returned. -/
def AddsToken (host : Host) (entry : Entry World Invocation) : Prop :=
  returned host entry = true ∧
    ∃ admin token, entry.input.call = .admin (.addAllowedToken admin token)

/-- The entry is a `create_stream` or a `create_streams_batch` that returned. -/
def CreatesStreams (host : Host) (entry : Entry World Invocation)
    (call : CreateCall) : Prop :=
  returned host entry = true ∧ entry.input.call = .create call

/-- Every creation among these entries used only tokens that were on the list at
that moment. -/
def ListedTokensOnly (host : Host) (history : History) : Prop :=
  ∀ entry ∈ history, ∀ call, CreatesStreams host entry call →
    ∀ p ∈ CreateCall.requests call, p.token ∈ entry.before.allowedTokens

/-- No removal among these entries took the last token off the list. -/
def NeverEmptied (host : Host) (history : History) : Prop :=
  ∀ entry ∈ history, returned host entry = true →
    ¬ EmptiesAllowlist entry.before.allowedTokens entry.input.call

/-- A creation uses listed tokens only exactly when the list was not empty. -/
theorem requests_listed_iff {host : Host} {w w' : World} {inv : Invocation}
    {value : Value} {call : CreateCall} (h : Succeeds host w inv value w')
    (hcall : inv.call = .create call) :
    (∀ p ∈ CreateCall.requests call, p.token ∈ w.allowedTokens) ↔
      w.allowedTokens ≠ [] := by
  obtain ⟨hsome, hchecked⟩ := requests_checked h hcall
  constructor
  · intro hlisted
    obtain ⟨p, hp⟩ := List.exists_mem_of_ne_nil _ hsome
    exact List.ne_nil_of_mem (hlisted p hp)
  · intro hconfigured p hp
    exact (hchecked p hp).allowed.resolve_left hconfigured

/-! ## Runs after the first token -/

section Configured

variable {host : Host} {later earlier : History}
  {added : Entry World Invocation} {w : World}

theorem added_ne_nil (hrun : Reaches host (added :: earlier) added.after)
    (hadded : AddsToken host added) : added.after.allowedTokens ≠ [] := by
  obtain ⟨hreturned, admin, token, hcall⟩ := hadded
  obtain ⟨_, ⟨_, value, hsucceeds⟩ | ⟨hpanicked, _⟩⟩ := hrun.newest_cases
  · rw [allowedTokens_of_succeeds hsucceeds, hcall]
    simp only [allowlistNext]
    split
    · rename_i hmem
      exact List.ne_nil_of_mem hmem
    · simp
  · rw [hreturned] at hpanicked
    cases hpanicked

/-- Until the last token is taken off, the list is not empty. -/
theorem allowedTokens_ne_nil (hrun : Reaches host (later ++ added :: earlier) w)
    (hadded : AddsToken host added) (hnever : NeverEmptied host later) :
    w.allowedTokens ≠ [] := by
  induction later generalizing w with
  | nil =>
      obtain ⟨_, _, rfl⟩ := hrun.of_cons
      exact added_ne_nil hrun hadded
  | cons newest later ih =>
      obtain ⟨hnewest, hbefore⟩ := List.forall_mem_cons.mp hnever
      obtain ⟨_, _, rfl⟩ := hrun.of_cons
      obtain ⟨hearlier, hcases⟩ := hrun.newest_cases
      have hsome := ih hearlier hbefore
      rcases hcases with ⟨hreturned, value, hsucceeds⟩ | ⟨_, hsame⟩
      · rw [allowedTokens_of_succeeds hsucceeds, Ne,
          allowlistNext_eq_nil_iff hsome]
        exact hnewest hreturned
      · rw [hsame]
        exact hsome

/-- After an `add_allowed_token`, the creations use listed tokens only exactly
when each of them met a non-empty list, and a run in which no removal takes the
last token off is one of these. -/
theorem allowlist_closed_iff (hrun : Reaches host (later ++ added :: earlier) w)
    (hadded : AddsToken host added) :
    (ListedTokensOnly host later ↔
      ∀ entry ∈ later, ∀ call, CreatesStreams host entry call →
        entry.before.allowedTokens ≠ []) ∧
    (NeverEmptied host later → ListedTokensOnly host later) := by
  have hentry : ∀ entry ∈ later, ∀ call, CreatesStreams host entry call →
      ((∀ p ∈ CreateCall.requests call,
          p.token ∈ entry.before.allowedTokens) ↔
        entry.before.allowedTokens ≠ []) := by
    rintro entry hmem call ⟨hreturned, hcall⟩
    obtain ⟨newer, older, rfl⟩ := List.append_of_mem hmem
    rw [List.append_assoc, List.cons_append] at hrun
    obtain ⟨_, ⟨_, value, hsucceeds⟩ | ⟨hpanicked, _⟩⟩ := hrun.entry_cases
    · exact requests_listed_iff hsucceeds hcall
    · rw [hreturned] at hpanicked
      cases hpanicked
  refine ⟨⟨?_, ?_⟩, ?_⟩
  · intro hlisted entry hmem call hcreates
    exact (hentry entry hmem call hcreates).mp
      (hlisted entry hmem call hcreates)
  · intro hmet entry hmem call hcreates
    exact (hentry entry hmem call hcreates).mpr (hmet entry hmem call hcreates)
  · intro hnever entry hmem call hcreates
    refine (hentry entry hmem call hcreates).mpr ?_
    obtain ⟨newer, older, rfl⟩ := List.append_of_mem hmem
    rw [List.append_assoc, List.cons_append] at hrun
    obtain ⟨hbefore, _⟩ := hrun.of_split
    refine allowedTokens_ne_nil hbefore hadded ?_
    intro made hmade
    exact hnever made (List.mem_append_right newer (List.mem_cons_of_mem entry hmade))

end Configured

/-- Two tokens are added and one of them is removed again; the stream that is
opened then uses the other. -/
theorem allowlist_closed_of_one_left :
    ∃ later added earlier w call,
      Reaches Sample.host (later ++ added :: earlier) w ∧
      AddsToken Sample.host added ∧
      (∃ entry ∈ later, CreatesStreams Sample.host entry call) ∧
      ListedTokensOnly Sample.host later := by
  have hrun := Sample.play_reaches [
    Sample.invoke 1 Sample.admin (.admin (.initializeContract Sample.admin)),
    Sample.invoke 2 Sample.admin
      (.admin (.addAllowedToken Sample.admin Sample.token)),
    Sample.invoke 3 Sample.admin
      (.admin (.addAllowedToken Sample.admin Sample.treasury)),
    Sample.invoke 4 Sample.admin
      (.admin (.removeAllowedToken Sample.admin Sample.treasury)),
    Sample.openStream 10 1000 10 0] (by decide)
  refine ⟨[_, _, _], _, _, _, _, hrun, ⟨rfl, _, _, rfl⟩,
    ⟨_, List.mem_cons_self, rfl, rfl⟩,
    (allowlist_closed_iff hrun ⟨rfl, _, _, rfl⟩).2 ?_⟩
  intro entry hentry _
  simp only [List.mem_cons, List.not_mem_nil, or_false] at hentry
  rcases hentry with rfl | rfl | rfl
  · rintro ⟨_, _, hcall, _⟩
    cases hcall
  · rintro ⟨_, _, hcall, hlast⟩
    cases hcall
    exact absurd (hlast Sample.token (by decide)) (by decide)
  · rintro ⟨_, _, hcall, _⟩
    cases hcall

/-- One token is added and removed again; the stream opened then uses a token
that was never on the list. -/
theorem emptied_allowlist_admits_any_token :
    ∃ later added earlier w call,
      Reaches Sample.host (later ++ added :: earlier) w ∧
      AddsToken Sample.host added ∧
      (∃ entry ∈ later, CreatesStreams Sample.host entry call ∧
        ∃ p ∈ CreateCall.requests call,
          p.token ∉ added.after.allowedTokens ∧
          p.token ∉ entry.before.allowedTokens) ∧
      ¬ ListedTokensOnly Sample.host later := by
  have hrun := Sample.play_reaches [
    Sample.invoke 1 Sample.admin (.admin (.initializeContract Sample.admin)),
    Sample.invoke 2 Sample.admin
      (.admin (.addAllowedToken Sample.admin Sample.treasury)),
    Sample.invoke 3 Sample.admin
      (.admin (.removeAllowedToken Sample.admin Sample.treasury)),
    Sample.openStream 10 1000 10 0] (by decide)
  refine ⟨[_, _], _, _, _, _, hrun, ⟨rfl, _, _, rfl⟩,
    ⟨_, List.mem_cons_self, ⟨rfl, rfl⟩, _, List.mem_cons_self, by decide,
      by decide⟩, ?_⟩
  intro hlisted
  have hmem := hlisted _ List.mem_cons_self _ ⟨rfl, rfl⟩ _ List.mem_cons_self
  exact absurd hmem (by decide)

end Properties
end Paystream
