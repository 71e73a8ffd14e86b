import Paystream.Properties.TokenSupply

/-!
# Who issues the token

`initialize` names the administrator and the first supply.  From then on the
supply should follow the mints and burns, and a mint should go back to the
administrator, directly or through a minter it added.

Nothing keeps `initialize` from being called again, by anybody and for any
supply up to the cap.  `issuance_controlled_iff` shows that this is the only way
out: the issuance stays controlled exactly when every further `initialize` that
returns names the same administrator and the present supply.
-/

namespace Paystream
namespace Properties

open Library
open Contract
open Contract.TokenContract
open Semantics

/-! ## What the history says -/

def mintAmount : TokenCall → Int
  | .mint _ _ amount => amount
  | _ => 0

def burnAmount : TokenCall → Int
  | .burn _ amount => amount
  | .burnFrom _ _ amount => amount
  | _ => 0

/-- The sum of an amount over the calls that returned. -/
def returnedSum (amount : TokenCall → Int) : TokenHistory → Int
  | [] => 0
  | entry :: older =>
      (if tokenReturned entry then amount entry.input.call else 0) +
        returnedSum amount older

/-- The administrator added the minter, and no `remove_minter` took it away
since. -/
def GrantedBy (admin minter : Address) (history : TokenHistory) : Prop :=
  ∃ newer grant older, history = newer ++ grant :: older ∧
    grant.input.call = .addMinter admin minter ∧
    admin ∈ grant.input.auth ∧ tokenReturned grant = true ∧
    ∀ entry ∈ newer, tokenReturned entry = true →
      ∀ remover, entry.input.call ≠ .removeMinter remover minter

/-- One entry after the first `initialize`, with the entries from that one on
before it. -/
structure IssuanceControlled (admin : Address) (initialSupply : Int)
    (older : TokenHistory) (entry : TokenEntry) : Prop where
  admin_kept : entry.after.admin = some admin
  supply_eq : entry.after.totalSupply = initialSupply +
    returnedSum mintAmount (entry :: older) - returnedSum burnAmount (entry :: older)
  mint_authorised : ∀ caller target amount,
    entry.input.call = .mint caller target amount → tokenReturned entry = true →
      caller ∈ entry.input.auth ∧ (caller = admin ∨ GrantedBy admin caller older)

/-- The call panicked, or it is no `initialize` that changes the administrator or
the supply. -/
def KeepsIssuance (admin : Address) (t : TokenState) (inv : TokenInvocation) :
    Prop :=
  (∀ other supply, inv.call = .initializeToken other supply →
    other = admin ∧ supply = t.totalSupply) ∨ TokenFails t inv

/-! ## One step -/

theorem returnedSum_of_succeeds {amount : TokenCall → Int} {entry : TokenEntry}
    (h : TokenSucceeds entry.before entry.input entry.after) (older : TokenHistory) :
    returnedSum amount (entry :: older) =
      amount entry.input.call + returnedSum amount older := by
  have hreturned : tokenReturned entry = true := h.returned_eq
  rw [returnedSum, hreturned]
  rfl

theorem returnedSum_of_fails {amount : TokenCall → Int} {entry : TokenEntry}
    (h : TokenFails entry.before entry.input) (older : TokenHistory) :
    returnedSum amount (entry :: older) = returnedSum amount older := by
  have hreturned : tokenReturned entry = false := h.returned_eq
  rw [returnedSum, hreturned]
  exact Int.zero_add _

theorem GrantedBy.cons {admin minter : Address} {history : TokenHistory}
    (h : GrantedBy admin minter history) {entry : TokenEntry}
    (hkept : tokenReturned entry = true →
      ∀ remover, entry.input.call ≠ .removeMinter remover minter) :
    GrantedBy admin minter (entry :: history) := by
  obtain ⟨newer, grant, older, rfl, hcall, hauth, hreturned, hnewer⟩ := h
  exact ⟨entry :: newer, grant, older, rfl, hcall, hauth, hreturned,
    List.forall_mem_cons.mpr ⟨hkept, hnewer⟩⟩

/-- What the token stores, against the entries since the first `initialize`. -/
structure IssuanceRecorded (admin : Address) (initialSupply : Int)
    (history : TokenHistory) (t : TokenState) : Prop where
  admin_eq : t.admin = some admin
  supply_eq : t.totalSupply = initialSupply + returnedSum mintAmount history -
    returnedSum burnAmount history
  granted : ∀ minter, t.minters minter = true → GrantedBy admin minter history

/-- A call that keeps the administrator, and changes the supply by what it minted
or burned. -/
theorem IssuanceRecorded.of_kept {admin : Address} {initialSupply : Int}
    {older : TokenHistory} {entry : TokenEntry}
    (h : IssuanceRecorded admin initialSupply older entry.before)
    (hsucceeds : TokenSucceeds entry.before entry.input entry.after)
    (hadmin : entry.after.admin = entry.before.admin)
    (hsupply : entry.after.totalSupply = entry.before.totalSupply +
      mintAmount entry.input.call - burnAmount entry.input.call)
    (hgranted : ∀ minter, entry.after.minters minter = true →
      GrantedBy admin minter (entry :: older)) :
    IssuanceRecorded admin initialSupply (entry :: older) entry.after where
  admin_eq := hadmin.trans h.admin_eq
  supply_eq := by
    rw [returnedSum_of_succeeds hsucceeds, returnedSum_of_succeeds hsucceeds, hsupply,
      h.supply_eq]
    ring
  granted := hgranted

/-- What a call that returned does to administrator, minters and supply. -/
inductive IssuanceChange (ctx : Context) (t t' : TokenState) : TokenCall → Prop
  | initialized (admin : Address) (supply : Int) (hadmin : t'.admin = some admin)
      (hminters : t'.minters = t.minters) (hsupply : t'.totalSupply = supply) :
      IssuanceChange ctx t t' (.initializeToken admin supply)
  | added (admin minter : Address) (hauth : admin ∈ ctx.auth)
      (hadmin : t.admin = some admin) (hafter : t' = setMinter t minter true) :
      IssuanceChange ctx t t' (.addMinter admin minter)
  | removed (admin minter : Address) (hadmin : t.admin = some admin)
      (hafter : t' = setMinter t minter false) :
      IssuanceChange ctx t t' (.removeMinter admin minter)
  | kept {call : TokenCall} (hother : isInitialize call = false)
      (hremoves : ∀ remover minter, call ≠ .removeMinter remover minter)
      (hadmin : t'.admin = t.admin) (hminters : t'.minters = t.minters)
      (hsupply : t'.totalSupply = t.totalSupply + mintAmount call - burnAmount call) :
      IssuanceChange ctx t t' call

theorem issuanceChange_of_effect {ctx : Context} {t t' : TokenState}
    {call : TokenCall} (heffect : TokenEffect ctx t call t') :
    IssuanceChange ctx t t' call := by
  cases heffect with
  | initialized admin initialSupply _ _ _ =>
      exact .initialized admin initialSupply rfl rfl rfl
  | minterAdded admin minter hauth hadmin => exact .added admin minter hauth hadmin rfl
  | minterRemoved admin minter _ hadmin => exact .removed admin minter hadmin rfl
  | minted caller target amount _ _ _ _ _ =>
      refine .kept rfl (by rintro _ _ ⟨⟩) rfl rfl ?_
      show t.totalSupply + amount = t.totalSupply + amount - 0
      omega
  | burned source amount _ _ _ _ =>
      refine .kept rfl (by rintro _ _ ⟨⟩) rfl rfl ?_
      show t.totalSupply + -amount = t.totalSupply + 0 - amount
      omega
  | burnedFrom spender source amount _ _ _ _ _ =>
      refine .kept rfl (by rintro _ _ ⟨⟩) rfl rfl ?_
      show t.totalSupply + -amount = t.totalSupply + 0 - amount
      omega
  | _ =>
      refine .kept rfl (by rintro _ _ ⟨⟩) rfl rfl ?_
      show t.totalSupply = t.totalSupply + 0 - 0
      omega

/-- The minters after an `add_minter` are the one it added and those granted
before. -/
theorem granted_of_added {admin minter : Address} {older : TokenHistory}
    {entry : TokenEntry} (hcall : entry.input.call = .addMinter admin minter)
    (hauth : admin ∈ entry.input.auth) (hreturned : tokenReturned entry = true)
    (hgranted : ∀ other, entry.before.minters other = true →
      GrantedBy admin other older) {other : Address}
    (hother : (setMinter entry.before minter true).minters other = true) :
    GrantedBy admin other (entry :: older) := by
  by_cases hsame : other = minter
  · subst hsame
    exact ⟨[], entry, older, rfl, hcall, hauth, hreturned,
      fun _ hmem => absurd hmem List.not_mem_nil⟩
  · change Function.update entry.before.minters minter true other = true at hother
    rw [Function.update_of_ne hsame] at hother
    refine (hgranted other hother).cons fun _ remover => ?_
    rw [hcall]
    rintro ⟨⟩

/-- The minters after a `remove_minter` are the others granted before. -/
theorem granted_of_removed {admin caller minter : Address} {older : TokenHistory}
    {entry : TokenEntry} (hcall : entry.input.call = .removeMinter caller minter)
    (hgranted : ∀ other, entry.before.minters other = true →
      GrantedBy admin other older) {other : Address}
    (hother : (setMinter entry.before minter false).minters other = true) :
    GrantedBy admin other (entry :: older) := by
  change Function.update entry.before.minters minter false other = true at hother
  by_cases hsame : other = minter
  · subst hsame
    rw [Function.update_self] at hother
    cases hother
  · rw [Function.update_of_ne hsame] at hother
    refine (hgranted other hother).cons fun _ remover => ?_
    rw [hcall]
    rintro ⟨⟩
    exact hsame rfl

/-- A call that returned, and that keeps administrator and supply if it is an
`initialize`. -/
theorem IssuanceRecorded.next {admin : Address} {initialSupply : Int}
    {older : TokenHistory} {entry : TokenEntry}
    (h : IssuanceRecorded admin initialSupply older entry.before)
    (hsucceeds : TokenSucceeds entry.before entry.input entry.after)
    (hkeeps : ∀ other supply, entry.input.call = .initializeToken other supply →
      other = admin ∧ supply = entry.before.totalSupply) :
    IssuanceRecorded admin initialSupply (entry :: older) entry.after := by
  have hidle : entry.before.totalSupply = entry.before.totalSupply + 0 - 0 := by omega
  have hchange := issuanceChange_of_effect (tokenEffect_of_succeeds hsucceeds)
  generalize hcall : entry.input.call = call at hchange
  cases hchange with
  | initialized other supply hadmin hminters hsupply =>
      obtain ⟨rfl, rfl⟩ := hkeeps other supply hcall
      refine h.of_kept hsucceeds (hadmin.trans h.admin_eq.symm) ?_ ?_
      · rw [hcall, hsupply]
        exact hidle
      · intro minter hminter
        rw [hminters] at hminter
        refine (h.granted minter hminter).cons fun _ remover => ?_
        rw [hcall]
        rintro ⟨⟩
  | kept _ hremoves hadmin hminters hsupply =>
      subst hcall
      refine h.of_kept hsucceeds hadmin hsupply ?_
      intro minter hminter
      rw [hminters] at hminter
      exact (h.granted minter hminter).cons fun _ remover => hremoves remover minter
  | added caller minter hauth hadmin hafter =>
      obtain rfl : caller = admin := Option.some.inj (hadmin.symm.trans h.admin_eq)
      refine h.of_kept hsucceeds (by rw [hafter]; rfl) ?_ ?_
      · rw [hcall, hafter]
        exact hidle
      · intro other hother
        rw [hafter] at hother
        exact granted_of_added hcall hauth hsucceeds.returned_eq h.granted hother
  | removed caller minter hadmin hafter =>
      refine h.of_kept hsucceeds (by rw [hafter]; rfl) ?_ ?_
      · rw [hcall, hafter]
        exact hidle
      · intro other hother
        rw [hafter] at hother
        exact granted_of_removed hcall h.granted hother

/-! ## Whole runs -/

/-- A panicked call changes nothing and counts for nothing. -/
theorem IssuanceRecorded.of_fails {admin : Address} {initialSupply : Int}
    {older : TokenHistory} {entry : TokenEntry}
    (h : IssuanceRecorded admin initialSupply older entry.before)
    (hfails : TokenFails entry.before entry.input)
    (hsame : entry.after = entry.before) :
    IssuanceRecorded admin initialSupply (entry :: older) entry.after where
  admin_eq := by
    rw [hsame]
    exact h.admin_eq
  supply_eq := by
    rw [hsame, returnedSum_of_fails hfails, returnedSum_of_fails hfails]
    exact h.supply_eq
  granted := by
    intro minter hminter
    rw [hsame] at hminter
    refine (h.granted minter hminter).cons fun hreturned => ?_
    rw [show tokenReturned entry = false from hfails.returned_eq] at hreturned
    cases hreturned

/-- As long as no `initialize` returned there is no administrator, and nobody is a
minter. -/
theorem no_minters_before_first {history : TokenHistory} {t : TokenState}
    (hrun : TokenReaches history t)
    (hnone : ∀ entry ∈ history, isInitialize entry.input.call = true →
      tokenReturned entry = false) :
    t.admin = none ∧ ∀ minter, t.minters minter = false := by
  induction hrun using System.Run.induction with
  | start t hstart =>
      rw [show t = TokenState.deployed from hstart]
      exact ⟨rfl, fun _ => rfl⟩
  | next history t inv _ _ ih =>
      obtain ⟨hlast, hearlier⟩ := List.forall_mem_cons.mp hnone
      obtain ⟨hadmin, hminters⟩ := ih hearlier
      show (tokenStep t inv).admin = none ∧
        ∀ minter, (tokenStep t inv).minters minter = false
      rcases tokenStep_cases t inv with hsucceeds | ⟨_, hsame⟩
      · have hchange := issuanceChange_of_effect (tokenEffect_of_succeeds hsucceeds)
        change isInitialize inv.call = true → _ at hlast
        rw [show tokenReturned (tokenSystem.entryOf t inv) = true from
          hsucceeds.returned_eq] at hlast
        generalize inv.call = call at hchange hlast
        cases hchange with
        | initialized _ _ _ _ _ => cases hlast rfl
        | added _ _ _ hstored _ =>
            rw [hadmin] at hstored
            cases hstored
        | removed _ _ hstored _ =>
            rw [hadmin] at hstored
            cases hstored
        | kept _ _ hadminKept hmintersKept _ =>
            rw [hadminKept, hmintersKept]
            exact ⟨hadmin, hminters⟩
      · rw [hsame]
        exact ⟨hadmin, hminters⟩

/-- The first `initialize` that returns. -/
structure FirstInitialize (earlier : TokenHistory) (first : TokenEntry)
    (admin : Address) (initialSupply : Int) : Prop where
  call : first.input.call = .initializeToken admin initialSupply
  returned : tokenReturned first = true
  none_before : ∀ entry ∈ earlier, isInitialize entry.input.call = true →
    tokenReturned entry = false

theorem issuanceRecorded_of_first {later earlier : TokenHistory}
    {first : TokenEntry} {t : TokenState} {admin : Address} {initialSupply : Int}
    (hrun : TokenReaches (later ++ first :: earlier) t)
    (hfirst : FirstInitialize earlier first admin initialSupply) :
    IssuanceRecorded admin initialSupply [first] first.after := by
  obtain ⟨hbefore, hsucceeds | ⟨hfails, _⟩⟩ := hrun.entry_cases
  · obtain ⟨_, hminters⟩ := no_minters_before_first hbefore hfirst.none_before
    have hchange := issuanceChange_of_effect (tokenEffect_of_succeeds hsucceeds)
    have hsum : ∀ amount : TokenCall → Int,
        amount (.initializeToken admin initialSupply) = 0 →
          returnedSum amount [first] = 0 := by
      intro amount hzero
      rw [returnedSum_of_succeeds hsucceeds, hfirst.call, hzero]
      rfl
    rw [hfirst.call] at hchange
    cases hchange with
    | initialized _ _ hadmin hmintersKept hsupply =>
        refine ⟨hadmin, ?_, ?_⟩
        · rw [hsum mintAmount rfl, hsum burnAmount rfl, hsupply]
          omega
        · intro minter hminter
          rw [hmintersKept, hminters minter] at hminter
          cases hminter
    | kept hother _ _ _ _ => cases hother
  · have hreturned := hfirst.returned
    rw [show tokenReturned first = false from hfails.returned_eq] at hreturned
    cases hreturned

/-- The record is right after every run that keeps the issuance. -/
theorem issuanceRecorded_of_run {later earlier : TokenHistory}
    {first : TokenEntry} {t : TokenState} {admin : Address} {initialSupply : Int}
    (hrun : TokenReaches (later ++ first :: earlier) t)
    (hfirst : FirstInitialize earlier first admin initialSupply)
    (hkeeps : ∀ entry ∈ later, KeepsIssuance admin entry.before entry.input) :
    IssuanceRecorded admin initialSupply (later ++ [first]) t := by
  induction later generalizing t with
  | nil =>
      have hstored := issuanceRecorded_of_first hrun hfirst
      rw [← hrun.of_cons.2.2] at hstored
      exact hstored
  | cons entry later ih =>
      obtain ⟨hlast, hearlier⟩ := List.forall_mem_cons.mp hkeeps
      have hentry : TokenReaches ([] ++ entry :: (later ++ first :: earlier)) t := hrun
      obtain ⟨hbefore, hcases⟩ := hentry.entry_cases
      have hrecorded := ih hbefore hearlier
      rw [hrun.of_cons.2.2]
      rcases hcases with hsucceeds | ⟨hfails, hsame⟩
      · rcases hlast with hinitialize | hfails
        · exact hrecorded.next hsucceeds hinitialize
        · exact absurd hfails hsucceeds.not_fails
      · exact hrecorded.of_fails hfails hsame

/-- Every mint goes back to the administrator. -/
theorem IssuanceRecorded.mint_authorised {admin : Address} {initialSupply : Int}
    {older : TokenHistory} {entry : TokenEntry}
    (h : IssuanceRecorded admin initialSupply older entry.before)
    (hsucceeds : TokenSucceeds entry.before entry.input entry.after)
    {caller target : Address} {amount : Int}
    (hcall : entry.input.call = .mint caller target amount) :
    caller ∈ entry.input.auth ∧ (caller = admin ∨ GrantedBy admin caller older) := by
  have heffect := tokenEffect_of_succeeds hsucceeds
  generalize entry.after = after at heffect
  rw [hcall] at heffect
  cases heffect with
  | minted _ _ _ hauth hentitled _ _ _ =>
      refine ⟨hauth, ?_⟩
      rcases hentitled with hstored | hminter
      · exact Or.inl (Option.some.inj (hstored.symm.trans h.admin_eq))
      · exact Or.inr (h.granted caller hminter)

/-- The entries from the first one on: the first itself, or a later one with the
first below it. -/
theorem split_from_first {later newer older : TokenHistory}
    {first entry : TokenEntry} (h : later ++ [first] = newer ++ entry :: older) :
    (newer = later ∧ entry = first ∧ older = []) ∨
      ∃ between, older = between ++ [first] ∧ later = newer ++ entry :: between := by
  rcases List.eq_nil_or_concat' older with rfl | ⟨between, last, rfl⟩
  · obtain ⟨hlater, hlast⟩ := List.append_inj' h rfl
    exact Or.inl ⟨hlater.symm, (List.cons.inj hlast).1.symm, rfl⟩
  · have hsplit : later ++ [first] = (newer ++ entry :: between) ++ [last] := by
      rw [h, List.append_assoc]
      rfl
    obtain ⟨hlater, hlast⟩ := List.append_inj' hsplit rfl
    rw [(List.cons.inj hlast).1]
    exact Or.inr ⟨between, rfl, hlater⟩

/-- The supply before an entry is what the entries before it account for. -/
theorem supply_before_eq {later newer between earlier : TokenHistory}
    {first entry : TokenEntry} {t : TokenState} {admin : Address}
    {initialSupply : Int} (hrun : TokenReaches (later ++ first :: earlier) t)
    (hcontrolled : ∀ newer entry older, later ++ [first] = newer ++ entry :: older →
      IssuanceControlled admin initialSupply older entry)
    (hsplit : later = newer ++ entry :: between) :
    entry.before.totalSupply = initialSupply +
      returnedSum mintAmount (between ++ [first]) -
      returnedSum burnAmount (between ++ [first]) := by
  subst hsplit
  obtain ⟨previous, rest, hprevious⟩ :
      ∃ previous rest, between ++ [first] = previous :: rest := by
    cases between with
    | nil => exact ⟨first, [], rfl⟩
    | cons previous between => exact ⟨previous, between ++ [first], rfl⟩
  have hwhole : (newer ++ entry :: between) ++ first :: earlier =
      newer ++ entry :: (previous :: (rest ++ earlier)) := by
    have hconcat : between ++ first :: earlier = (between ++ [first]) ++ earlier := by
      rw [List.append_assoc]
      rfl
    rw [List.append_assoc, List.cons_append, hconcat, hprevious]
    rfl
  rw [hwhole] at hrun
  have hstate : entry.before = previous.after := hrun.entry_cases.1.of_cons.2.2
  rw [hprevious, hstate]
  refine (hcontrolled (newer ++ [entry]) previous rest ?_).supply_eq
  rw [List.append_assoc, List.append_assoc, List.cons_append, hprevious]
  rfl

/-- After the first `initialize`, whoever calls whatever: the administrator stays,
the supply is the first one and what was minted less what was burned, and every
mint goes back to the administrator, exactly when every further `initialize` that
returns names the same administrator and the present supply. -/
theorem issuance_controlled_iff {later earlier : TokenHistory}
    {first : TokenEntry} {t : TokenState} {admin : Address} {initialSupply : Int}
    (hrun : TokenReaches (later ++ first :: earlier) t)
    (hfirst : FirstInitialize earlier first admin initialSupply) :
    (∀ newer entry older, later ++ [first] = newer ++ entry :: older →
        IssuanceControlled admin initialSupply older entry) ↔
      ∀ entry ∈ later, KeepsIssuance admin entry.before entry.input := by
  constructor
  · intro hcontrolled entry hentry
    obtain ⟨newer, between, hsplit⟩ := List.append_of_mem hentry
    -- the supply before the call was what the history makes it, and so is the one after
    have hbefore := supply_before_eq hrun hcontrolled hsplit
    have hentryControlled := hcontrolled newer entry (between ++ [first]) (by
      rw [hsplit, List.append_assoc]
      rfl)
    rw [hsplit, List.append_assoc, List.cons_append] at hrun
    rcases hrun.entry_cases.2 with hsucceeds | ⟨hfails, _⟩
    · left
      intro other supply hcall
      have hchange := issuanceChange_of_effect (tokenEffect_of_succeeds hsucceeds)
      have hsupplyAfter := hentryControlled.supply_eq
      rw [returnedSum_of_succeeds hsucceeds, returnedSum_of_succeeds hsucceeds,
        hcall] at hsupplyAfter
      change _ = _ + (0 + _) - (0 + _) at hsupplyAfter
      rw [hcall] at hchange
      cases hchange with
      | initialized _ _ hadmin _ hsupply =>
          exact ⟨Option.some.inj (hadmin.symm.trans hentryControlled.admin_kept),
            by omega⟩
      | kept hother _ _ _ _ => cases hother
    · exact Or.inr hfails
  · intro hkeeps newer entry older hsplit
    rcases split_from_first hsplit with ⟨rfl, rfl, rfl⟩ | ⟨between, rfl, rfl⟩
    · have hrecorded := issuanceRecorded_of_first hrun hfirst
      refine ⟨hrecorded.admin_eq, hrecorded.supply_eq, ?_⟩
      intro caller target amount hcall
      rw [hfirst.call] at hcall
      cases hcall
    · have hmem : ∀ other ∈ entry :: between,
          KeepsIssuance admin other.before other.input := by
        intro other hother
        exact hkeeps other (List.mem_append_right newer hother)
      rw [List.append_assoc, List.cons_append] at hrun
      have hafter : TokenReaches ((entry :: between) ++ first :: earlier) entry.after :=
        hrun.upTo
      -- every call since the first one keeps the record
      have hrecorded := issuanceRecorded_of_run hafter hfirst hmem
      refine ⟨hrecorded.admin_eq, hrecorded.supply_eq, ?_⟩
      intro caller target amount hcall hreturned
      obtain ⟨hbefore, hsucceeds | ⟨hfails, _⟩⟩ := hrun.entry_cases
      · exact (issuanceRecorded_of_run hbefore hfirst
          (List.forall_mem_cons.mp hmem).2).mint_authorised hsucceeds hcall
      · rw [show tokenReturned entry = false from hfails.returned_eq] at hreturned
        cases hreturned

/-- A minter is added, mints, is removed, and the administrator repeats its
`initialize` with the present supply. -/
theorem issuance_controlled_of_minter :
    ∃ (later : TokenHistory) (first : TokenEntry) (t : TokenState),
      TokenReaches (later ++ [first]) t ∧
        FirstInitialize [] first Sample.admin 500 ∧ t.totalSupply = 530 ∧
        ∀ newer entry older, later ++ [first] = newer ++ entry :: older →
          IssuanceControlled Sample.admin 500 older entry := by
  have hrun := Sample.playToken_reaches [
    Sample.invokeToken 1 Sample.admin (.initializeToken Sample.admin 500),
    Sample.invokeToken 2 Sample.admin (.addMinter Sample.admin Sample.employer),
    Sample.invokeToken 3 Sample.employer (.mint Sample.employer Sample.employee 70),
    Sample.invokeToken 4 Sample.employee (.burn Sample.employee 40),
    Sample.invokeToken 5 Sample.admin (.removeMinter Sample.admin Sample.employer),
    Sample.invokeToken 6 Sample.admin (.initializeToken Sample.admin 530)]
    (by decide)
  have hsplit : TokenReaches ([_, _, _, _, _] ++ [_]) _ := hrun
  refine ⟨_, _, _, hsplit, ⟨rfl, by decide, by decide⟩, by decide,
    (issuance_controlled_iff hsplit ⟨rfl, by decide, by decide⟩).mpr ?_⟩
  intro entry hentry
  left
  intro other supply hcall
  simp only [List.mem_cons, List.not_mem_nil, or_false] at hentry
  rcases hentry with rfl | rfl | rfl | rfl | rfl
  · cases hcall
    exact ⟨rfl, by decide⟩
  all_goals cases hcall

/-- Somebody else initializes the token again, and mints. -/
theorem stranger_takes_issuance :
    ∃ (later : TokenHistory) (first : TokenEntry) (t : TokenState),
      TokenReaches (later ++ [first]) t ∧
        FirstInitialize [] first Sample.admin 500 ∧
        t.admin = some Sample.treasury ∧ t.totalSupply = 1000 ∧
        ¬ ∀ newer entry older, later ++ [first] = newer ++ entry :: older →
          IssuanceControlled Sample.admin 500 older entry := by
  have hrun := Sample.playToken_reaches [
    Sample.invokeToken 1 Sample.admin (.initializeToken Sample.admin 500),
    Sample.invokeToken 2 Sample.treasury (.initializeToken Sample.treasury 0),
    Sample.invokeToken 3 Sample.treasury
      (.mint Sample.treasury Sample.treasury 1000)] (by decide)
  have hsplit : TokenReaches ([_, _] ++ [_]) _ := hrun
  refine ⟨_, _, _, hsplit, ⟨rfl, by decide, by decide⟩, by decide, by decide, ?_⟩
  intro hcontrolled
  have hadmin := (hcontrolled [] _ _ rfl).admin_kept
  exact absurd hadmin (by decide)

end Properties
end Paystream
