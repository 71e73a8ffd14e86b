import Paystream.Properties.ApiKeys
import Paystream.Properties.KeyBudget
import Paystream.Properties.TemplatePrivacy
import Paystream.Services.TemplateRoutes

/-!
# Templates and the keys that own them

A template that was stored through an API key belongs to the raw key itself.  Once
the key has been rotated away or revoked, nobody owns its templates any more: they
stay in the store as they are, whatever is requested later and with whatever other
key, and are seen by everybody or by nobody, as their `shared` mark says
(`templates_outlive_key`).
-/

namespace Paystream
namespace Properties

open Library
open Services
open Services.ApiKeys
open Services.AuthMiddleware
open Services.TemplateRoutes

section Ownership

variable {Hash : Type} [DecidableEq Hash] {hashKey : Text → Hash}
  {verify : Text → Nat → Option (Option Text)}

/-! ## The stored keys -/

/-- The stored keys are linked to those they replace, and all have the prefix. -/
structure KeysSound (hashKey : Text → Hash) (s : ApiKeys.State Hash) : Prop where
  linked : (keyView Hash).Linked s.keys.get
  shaped : ∀ hash key, s.keys.get hash = some key → ∃ secret, hash = hashKey (rawKey secret)

theorem KeyEffect.draw_shaped {s : ApiKeys.State Hash} {action : ApiKeys.Action Hash}
    {raw id : Text} {table : Hash → Option (Meta Hash)}
    (h : KeyEffect hashKey s action (some (raw, id)) table) :
    ∃ secret, raw = rawKey secret := by
  cases h with
  | created _ _ _ secret _ _ _ _ _ => exact ⟨secret, rfl⟩
  | rotated _ secret _ _ _ _ _ => exact ⟨secret, rfl⟩

theorem KeysSound.next {s s' : ApiKeys.State Hash} (h : KeysSound hashKey s)
    {action : ApiKeys.Action Hash} {draw : Option (Text × Text)}
    (heffect : KeyEffect hashKey s action draw s'.keys.get)
    (hnew : ∀ raw id, draw = some (raw, id) →
      s.keys.get (hashKey raw) = none ∧
        ∀ hash key, s.keys.get hash = some key → key.id ≠ id) :
    KeysSound hashKey s' where
  linked := heffect.linked h.linked hnew
  shaped := by
    intro hash key hkey
    rcases heffect.stored hkey with ⟨old, hold, _⟩ | ⟨raw, hdraw, hhash⟩
    · exact h.shaped hash old hold
    · subst hdraw
      obtain ⟨secret, hraw⟩ := heffect.draw_shaped
      exact ⟨secret, hraw ▸ hhash⟩

/-- The middleware validates a key or leaves the keys alone. -/
theorem authMiddleware_effect (req : AuthMiddleware.Request) (s : ApiKeys.State Hash) :
    ∃ action, KeyEffect hashKey s action none
      (authMiddleware verify hashKey req s).1.keys.get := by
  have hsame : KeyEffect hashKey s (.validateKey [] 0) none s.keys.get :=
    .same _ (fun _ _ _ _ _ h => by cases h) (fun _ _ _ _ h => by cases h)
  unfold authMiddleware
  cases req.bearer with
  | some token =>
      dsimp only
      split
      · exact ⟨_, hsame⟩
      · exact ⟨_, hsame⟩
  | none =>
      cases req.rawKey with
      | none => exact ⟨_, hsame⟩
      | some raw =>
          have heffect := @validateKey_effect _ _ hashKey s raw req.validatedAt
          dsimp only
          rcases hvalid : validateKey hashKey s raw req.validatedAt with ⟨s', found⟩
          rw [hvalid] at heffect
          cases found with
          | none => exact ⟨_, heffect⟩
          | some key =>
              have hkeys := checkRateLimit_keys s' (hashKey raw) req.checkedAt
              rcases hcheck : checkRateLimit s' (hashKey raw) req.checkedAt with
                ⟨s'', passes⟩
              rw [hcheck] at hkeys
              rw [← hkeys] at heffect
              simp only [hcheck]
              cases passes <;> exact ⟨_, heffect⟩

/-! ## Who a request is -/

theorem verified_of_user {req : AuthMiddleware.Request} {s : ApiKeys.State Hash}
    {sub : Option Text} (h : (authMiddleware verify hashKey req s).2 = .user sub) :
    ∃ token, verify token req.verifiedAt = some sub := by
  unfold authMiddleware at h
  cases hbearer : req.bearer with
  | some token =>
      rw [hbearer] at h
      dsimp only at h
      split at h
      · rename_i hverify
        cases h
        exact ⟨token, hverify⟩
      · cases h
  | none =>
      rw [hbearer] at h
      cases hraw : req.rawKey with
      | none =>
          rw [hraw] at h
          cases h
      | some raw =>
          rw [hraw] at h
          dsimp only at h
          rcases hvalid : validateKey hashKey s raw req.validatedAt with ⟨s', found⟩
          rw [hvalid] at h
          cases found with
          | none => cases h
          | some key =>
              rcases hcheck : checkRateLimit s' (hashKey raw) req.checkedAt with
                ⟨s'', passes⟩
              simp only [hcheck] at h
              cases passes <;> cases h

/-- Neither an address nor the owner of nameless requests looks like a key. -/
theorem rawKey_ne_of_matchesAddress {secret sub : Text} (h : matchesAddress sub = true) :
    sub ≠ rawKey secret := by
  rintro rfl
  cases h

theorem unknownOwner_ne_rawKey (secret : Text) : unknownOwner ≠ rawKey secret := by
  intro h
  cases congrArg List.head? h

/-- No request is let through as a key that is revoked. -/
theorem owner_ne_of_revoked
    (hsubs : ∀ token time sub, verify token time = some (some sub) →
      matchesAddress sub = true)
    {s : ApiKeys.State Hash} {secret : Text} {key : Meta Hash}
    (hkey : s.keys.get (hashKey (rawKey secret)) = some key) (hrevoked : key.revoked = true)
    {req : AuthMiddleware.Request} {owner : Text}
    (howner : ownerId (authMiddleware verify hashKey req s).2 = some owner) :
    owner ≠ rawKey secret := by
  cases houtcome : (authMiddleware verify hashKey req s).2 with
  | user sub =>
      rw [houtcome] at howner
      obtain ⟨token, hverify⟩ := verified_of_user houtcome
      cases sub with
      | none =>
          cases howner
          exact unknownOwner_ne_rawKey secret
      | some sub =>
          have hsub := @rawKey_ne_of_matchesAddress secret sub
            (hsubs token _ sub hverify)
          simp only [ownerId] at howner
          split at howner
          · cases howner
            exact unknownOwner_ne_rawKey secret
          · cases howner
            exact hsub
  | key raw =>
      rw [houtcome] at howner
      cases howner
      rintro rfl
      obtain ⟨found, hvalid, _⟩ := passed_of_key houtcome
      rw [validateKey_of_revoked hkey hrevoked] at hvalid
      cases hvalid
  | denied _ _ _ =>
      rw [houtcome] at howner
      cases howner

/-! ## What becomes of the templates -/

/-- What the entry draws, a key or the id of a template, is not in use. -/
def DrawsNewIds (hashKey : Text → Hash)
    (s : TemplateRoutes.State Hash) : TemplateRoutes.Input Hash → Prop
  | .manage action => DrawsNew hashKey s.keys action
  | .request _ none => True
  | .request _ (some operation) => ∀ owner id, drawnId ⟨owner, operation⟩ = some id →
      OrderedMap.get s.templates id = none

/-- What a request leaves of the two stores. -/
theorem serve_cases (req : AuthMiddleware.Request) (operation : Option Templates.Operation)
    (s : TemplateRoutes.State Hash) :
    (serve verify hashKey req operation s).1.keys =
        (authMiddleware verify hashKey req s.keys).1 ∧
      ((serve verify hashKey req operation s).1.templates = s.templates ∨
        ∃ owner op, ownerId (authMiddleware verify hashKey req s.keys).2 = some owner ∧
          operation = some op ∧ (serve verify hashKey req operation s).1.templates =
            (Templates.handle s.templates ⟨owner, op⟩).1) := by
  unfold serve
  rcases authMiddleware verify hashKey req s.keys with ⟨keys, outcome⟩
  dsimp only
  cases howner : ownerId outcome with
  | none => exact ⟨rfl, Or.inl rfl⟩
  | some owner =>
      cases operation with
      | none => exact ⟨rfl, Or.inl rfl⟩
      | some op => exact ⟨rfl, Or.inr ⟨owner, op, rfl, rfl, rfl⟩⟩

theorem keysSound_of_run {draws : List (Text × Nat × Nat)}
    {history : List (Entry (TemplateRoutes.State Hash) (TemplateRoutes.Input Hash))}
    {s : TemplateRoutes.State Hash}
    (hrun : (TemplateRoutes.system verify hashKey draws).Run history s)
    (hnew : ∀ entry ∈ history, DrawsNewIds hashKey entry.before entry.input) :
    KeysSound hashKey s.keys := by
  induction hrun using System.Run.induction with
  | start s hinitial =>
      cases hinitial
      exact ⟨Succession.Linked.empty, fun _ _ hkey => by cases hkey⟩
  | next history s input hrun _ ih =>
      obtain ⟨hnow, hearlier⟩ := List.forall_mem_cons.mp hnew
      cases input with
      | manage action => exact (ih hearlier).next (keyEffect hashKey s.keys action) hnow
      | request req operation =>
          obtain ⟨action, heffect⟩ :=
            @authMiddleware_effect _ _ hashKey verify req s.keys
          rw [← (serve_cases req operation s).1] at heffect
          exact (ih hearlier).next heffect (by simp)

/-- A key that was rotated was stored. -/
theorem stored_of_rotated {entry : Entry (ApiKeys.State Hash) (ApiKeys.Action Hash)}
    {raw secret id newRaw newId : Text} {now : Nat}
    (hresult : (ApiKeys.handle hashKey entry.before entry.input).2 = .rotated newRaw newId)
    (hinput : entry.input = .rotateKey raw secret id now) :
    ∃ old, entry.before.keys.get (hashKey raw) = some old := by
  rw [hinput] at hresult
  have heffect := keyEffect hashKey entry.before (.rotateKey raw secret id now)
  rw [hresult] at heffect
  generalize (ApiKeys.handle hashKey entry.before _).1.keys.get = table at heffect
  cases heffect with
  | rotated _ _ _ _ old hold _ => exact ⟨old, hold⟩

/-- The request of another owner leaves a template as it is. -/
theorem kept_of_other {s : Templates.State} {id : Text} {t : Templates.Template}
    (ht : OrderedMap.get s id = some t) {req : Templates.Request}
    (hother : req.ownerId ≠ t.ownerId)
    (hfresh : ∀ id, drawnId req = some id → OrderedMap.get s id = none) :
    OrderedMap.get (Templates.handle s req).1 id = some t := by
  -- to the owner of the template the request might as well not have been made
  have hopen := @openPart_of_quiet (fun owner => decide (owner = req.ownerId)) _ _
    hfresh (decide_eq_true rfl)
  have hkept : OrderedMap.get (openPart (fun owner => decide (owner = req.ownerId)) s) id =
      some t := by
    unfold openPart
    rw [OrderedMap.get_restrict, ht, Option.filter_some,
      if_pos (by simp [inOpenPart, hother.symm])]
  rw [← hopen, openPart, OrderedMap.get_restrict] at hkept
  exact (Option.filter_eq_some_iff.mp hkept).1

/-- The key is revoked, and the template is in the store. -/
structure Orphaned (hashKey : Text → Hash) (raw id : Text) (t : Templates.Template)
    (s : TemplateRoutes.State Hash) : Prop where
  revoked : ∃ key, s.keys.keys.get (hashKey raw) = some key ∧ key.revoked = true
  stored : OrderedMap.get s.templates id = some t

theorem Orphaned.next
    (hsubs : ∀ token time sub, verify token time = some (some sub) →
      matchesAddress sub = true)
    {secret id : Text} {t : Templates.Template} (howner : t.ownerId = rawKey secret)
    {s : TemplateRoutes.State Hash} (h : Orphaned hashKey (rawKey secret) id t s)
    {input : TemplateRoutes.Input Hash} (hnew : DrawsNewIds hashKey s input) :
    Orphaned hashKey (rawKey secret) id t (TemplateRoutes.step verify hashKey s input) := by
  obtain ⟨key, hkey, hrevoked⟩ := h.revoked
  cases input with
  | manage action =>
      refine ⟨?_, h.stored⟩
      exact (keyEffect hashKey s.keys action).stays_revoked
        (fun raw id hdraw => (hnew raw id hdraw).1) hkey hrevoked
  | request req operation =>
      obtain ⟨hkeys, htemplates⟩ :=
        @serve_cases _ _ hashKey verify req operation s
      constructor
      · obtain ⟨action, heffect⟩ := @authMiddleware_effect _ _ hashKey verify req s.keys
        rw [← hkeys] at heffect
        exact heffect.stays_revoked (by simp) hkey hrevoked
      · show OrderedMap.get (serve verify hashKey req operation s).1.templates id = some t
        rcases htemplates with hsame | ⟨owner, op, hrequest, rfl, hafter⟩
        · rw [hsame]
          exact h.stored
        · rw [hafter]
          have hne := owner_ne_of_revoked hsubs hkey hrevoked hrequest
          exact kept_of_other h.stored (howner ▸ hne) (hnew owner)

theorem mem_list_iff {s : Templates.State} {id owner : Text} {t : Templates.Template}
    (ht : OrderedMap.get s id = some t) :
    t ∈ Templates.list s owner ↔ t.visibleTo owner = true := by
  unfold Templates.list
  rw [List.mem_filter, and_iff_right_iff_imp]
  intro _
  exact List.mem_map.mpr ⟨(id, t), OrderedMap.mem_of_get ht, rfl⟩

/-- Over every sequence of calls of the key service and requests to the templates, with
keys and ids that are new when they are drawn, an injective hash and tokens for
addresses only: once a key has been rotated away or revoked, the templates it owned
stay in the store as they are; no request that is let through may change one, and it
is shown one exactly if it is shared. -/
theorem templates_outlive_key (hinjective : Function.Injective hashKey)
    (hsubs : ∀ token time sub, verify token time = some (some sub) →
      matchesAddress sub = true)
    {draws : List (Text × Nat × Nat)}
    {later earlier : List (Entry (TemplateRoutes.State Hash) (TemplateRoutes.Input Hash))}
    {entry : Entry (TemplateRoutes.State Hash) (TemplateRoutes.Input Hash)}
    {s : TemplateRoutes.State Hash}
    (hrun : (TemplateRoutes.system verify hashKey draws).Run (later ++ entry :: earlier) s)
    (hnew : ∀ made ∈ later ++ entry :: earlier,
      DrawsNewIds hashKey made.before made.input)
    {action : ApiKeys.Action Hash} (hinput : entry.input = .manage action) {raw : Text}
    (hends : Ends hashKey ⟨entry.before.keys, action, entry.after.keys⟩ raw) {id : Text}
    {t : Templates.Template} (ht : OrderedMap.get entry.before.templates id = some t)
    (howner : t.ownerId = raw) :
    OrderedMap.get s.templates id = some t ∧
      ∀ (req : AuthMiddleware.Request) (owner : Text),
        ownerId (authMiddleware verify hashKey req s.keys).2 = some owner →
          Templates.editable s.templates id owner = none ∧
            Templates.get s.templates id owner =
              (if truthy t.shared = true then some t else none) ∧
            (t ∈ Templates.list s.templates owner ↔ truthy t.shared = true) := by
  obtain ⟨hbefore, hafter, _⟩ := hrun.of_split
  have hsound : KeysSound hashKey entry.before.keys :=
    keysSound_of_run hbefore fun old hold =>
      hnew old (List.mem_append_right _ (List.mem_cons_of_mem _ hold))
  have hdraws : DrawsNew hashKey entry.before.keys action := by
    have hentry := hnew entry (List.mem_append_right _ List.mem_cons_self)
    rw [hinput] at hentry
    exact hentry
  have hrevoked := revoked_of_ends hends hsound.linked hdraws
  -- the key was stored, so it has the prefix
  obtain ⟨secret, rfl⟩ : ∃ secret, raw = rawKey secret := by
    have hstored : ∃ key, entry.before.keys.keys.get (hashKey raw) = some key := by
      obtain ⟨key, hkey, _⟩ := hrevoked
      rcases hends with ⟨newSecret, newId, now, newRaw, newId', hrotate, hresult⟩ |
        ⟨_, _, key, _, hkey, _⟩
      · obtain ⟨old, hold⟩ := stored_of_rotated hresult hrotate
        exact ⟨old, hold⟩
      · exact ⟨key, hkey⟩
    obtain ⟨key, hkey⟩ := hstored
    obtain ⟨secret, hhash⟩ := hsound.shaped _ key hkey
    exact ⟨secret, hinjective hhash⟩
  have hentry : Orphaned hashKey (rawKey secret) id t entry.after := by
    rw [hafter, hinput]
    exact ⟨hrevoked, ht⟩
  have hlast : Orphaned hashKey (rawKey secret) id t s := by
    refine System.Run.persists (Q := DrawsNewIds hashKey) ?_ hrun ?_ hentry
    · intro _ s input _ _ hdraws h
      exact h.next hsubs howner hdraws
    · intro newer hnewer
      exact hnew newer (List.mem_append_left _ hnewer)
  refine ⟨hlast.stored, ?_⟩
  intro req owner hrequest
  obtain ⟨key, hkey, hrevoked⟩ := hlast.revoked
  have hne : owner ≠ rawKey secret := owner_ne_of_revoked hsubs hkey hrevoked hrequest
  have hvisible : t.visibleTo owner = truthy t.shared := by
    simp [Templates.Template.visibleTo, howner, hne.symm]
  refine ⟨?_, ?_, ?_⟩
  · unfold Templates.editable
    rw [hlast.stored, Option.filter_some, if_neg (by simp [howner, hne.symm])]
  · unfold Templates.get
    rw [hlast.stored, Option.filter_some, hvisible]
  · rw [mem_list_iff hlast.stored, hvisible]

end Ownership

/-! ## A key that is rotated -/

namespace RotationSample

/-- One token is good, for an address. -/
def verify (token : Text) (_ : Nat) : Option (Option Text) :=
  if token = ['t'] then some (some ('G' :: List.replicate 55 'A')) else none

theorem verify_address : ∀ token time sub, verify token time = some (some sub) →
    matchesAddress sub = true := by
  intro token time sub h
  unfold verify at h
  split at h
  · cases h
    decide
  · cases h

def withKey (secret : Text) : AuthMiddleware.Request :=
  ⟨none, some (rawKey secret), 10, 10, 10⟩

/-- A key is created, and a template is stored through it. -/
def before : List (TemplateRoutes.Input Text) :=
  [.manage (.createKey ['n'] ['o'] none ['a'] ['i'] 5),
    .request (withKey ['a']) (some (.create (.str ['x']) .null none ['3'] 10))]

/-- The key is rotated, and the new one asks for the templates. -/
def inputs : List (TemplateRoutes.Input Text) :=
  before ++ [.manage (.rotateKey (rawKey ['a']) ['b'] ['j'] 20),
    .request (withKey ['b']) (some .list)]

def draws : List (Text × Nat × Nat) := [(['1'], 0, 0), (['2'], 0, 0)]

def play (inputs : List (TemplateRoutes.Input Text)) :
    List (Entry (TemplateRoutes.State Text) (TemplateRoutes.Input Text)) ×
      TemplateRoutes.State Text :=
  (TemplateRoutes.system verify (fun raw => raw) draws).replay []
    ⟨⟨.empty, .empty⟩, Templates.loaded draws⟩ inputs

theorem play_run : (TemplateRoutes.system verify (fun raw => raw) draws).Run
    (play inputs).1 (play inputs).2 :=
  ⟨_, rfl, System.Path.stay.replay (by decide)⟩

def template : Templates.Template :=
  { id := ['3']
    ownerId := rawKey ['a']
    name := .str ['x']
    params := .null
    shared := .bool false
    isDefault := false
    createdAt := 10
    updatedAt := 10 }

theorem play_new : ∀ entry ∈ (play inputs).1,
    DrawsNewIds (fun raw => raw) entry.before entry.input := by
  refine List.forall_mem_cons.mpr ⟨?_, List.forall_mem_cons.mpr ⟨?_,
    List.forall_mem_cons.mpr ⟨?_, List.forall_mem_cons.mpr ⟨?_, List.forall_mem_nil _⟩⟩⟩⟩
  · intro owner id hdrawn
    cases hdrawn
  · intro raw id hdraw
    cases hdraw
    refine ⟨rfl, ?_⟩
    intro hash key hkey
    have hmem := OrderedMap.mem_of_get hkey
    obtain ⟨rfl, rfl⟩ := Prod.mk.inj (List.mem_singleton.mp hmem)
    decide
  · intro owner id hdrawn
    cases hdrawn
    rfl
  · intro raw id hdraw
    cases hdraw
    exact ⟨rfl, fun hash key hkey => by cases hkey⟩

end RotationSample

open RotationSample in
/-- A template is stored through a key and the key is rotated: the new key does not
see the template, and may not change it. -/
theorem templates_outlive_key_of_rotation :
    OrderedMap.get (play inputs).2.templates ['3'] = some template ∧
      Templates.editable (play inputs).2.templates ['3'] (rawKey ['b']) = none ∧
        Templates.get (play inputs).2.templates ['3'] (rawKey ['b']) = none := by
  have hsplit : (play inputs).1 = (play inputs).1.take 1 ++
      (TemplateRoutes.system verify (fun raw => raw) draws).entryOf (play before).2
        (.manage (.rotateKey (rawKey ['a']) ['b'] ['j'] 20)) :: (play before).1 := rfl
  have hrun := play_run
  have hnew := play_new
  rw [hsplit] at hrun hnew
  have hends : Ends (fun raw => raw) ⟨(play before).2.keys,
      .rotateKey (rawKey ['a']) ['b'] ['j'] 20,
      (ApiKeys.handle (fun raw => raw) (play before).2.keys
        (.rotateKey (rawKey ['a']) ['b'] ['j'] 20)).1⟩ (rawKey ['a']) :=
    Or.inl ⟨['b'], ['j'], 20, rawKey ['b'], ['j'], rfl, rfl⟩
  have hstored : OrderedMap.get (play before).2.templates ['3'] = some template := rfl
  have hinjective : Function.Injective fun raw : Text => raw := fun _ _ h => h
  have houtcome : (authMiddleware verify (fun raw => raw) (withKey ['b'])
      (play inputs).2.keys).2 = .key (rawKey ['b']) := by decide +kernel
  obtain ⟨hkept, hothers⟩ := templates_outlive_key hinjective verify_address hrun hnew
    rfl hends hstored rfl
  obtain ⟨heditable, hget, _⟩ := hothers (withKey ['b']) (rawKey ['b']) (by rw [houtcome]; rfl)
  exact ⟨hkept, heditable, hget⟩

end Properties
end Paystream
