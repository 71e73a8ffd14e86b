import Paystream.Library.Succession
import Paystream.Services.ApiKeys

/-!
# Rotating API keys

Over every sequence of calls of the API key service, with raw keys and ids that are
drawn only once and a hash without collisions (`key_rotation`): at most one key of
a chain of rotations is not revoked, and all of them have the same name, owner and
limit; a raw key that was rotated away or revoked never validates again; and
rotating or revoking a key changes nothing for the keys of other chains.

The keys by their hash are a table of records that replace one another
(`Library.Succession`); `keyEffect` says what a call does to it.
-/

namespace Paystream
namespace Properties

open Library
open Services.ApiKeys

section Keys

variable {Hash : Type} [DecidableEq Hash] {hashKey : Text → Hash}

/-- The keys as records that replace one another. -/
def keyView (Hash : Type) : Succession (Meta Hash) Text (Text × Text × RateLimit) where
  id key := key.id
  replaces key := key.rotatedFrom
  live key := !key.revoked
  detail key := (key.name, key.ownerId, key.rateLimit)

/-! ## One call -/

/-- The raw key and the id that a call has drawn. -/
def drawnIn : Result Hash → Option (Text × Text)
  | .created key id _ => some (key, id)
  | .rotated key id => some (key, id)
  | _ => none

/-- What a call does to the keys, and what it draws. -/
inductive KeyEffect (hashKey : Text → Hash) (s : State Hash) :
    Action Hash → Option (Text × Text) → (Hash → Option (Meta Hash)) → Prop
  | same (action : Action Hash)
      (hrotate : ∀ raw secret id now key, action = .rotateKey raw secret id now →
        s.keys.get (hashKey raw) = some key → key.revoked = true)
      (hrevoke : ∀ id now hash key, action = .revokeById id now →
        s.keys.get hash = some key → key.id ≠ id) :
      KeyEffect hashKey s action none s.keys.get
  | used (raw : Text) (now : Nat) (key : Meta Hash)
      (hkey : s.keys.get (hashKey raw) = some key) :
      KeyEffect hashKey s (.validateKey raw now) none
        (Function.update s.keys.get (hashKey raw)
          (some { key with lastUsedAt := some now }))
  | created (name ownerId : Text) (rateLimit : Option RateLimit)
      (secret id : Text) (now : Nat) (key : Meta Hash) (hid : key.id = id)
      (hfirst : key.rotatedFrom = none) :
      KeyEffect hashKey s (.createKey name ownerId rateLimit secret id now)
        (some (rawKey secret, id))
        (Function.update s.keys.get (hashKey (rawKey secret)) (some key))
  | rotated (raw secret id : Text) (now : Nat) (old : Meta Hash)
      (hold : s.keys.get (hashKey raw) = some old) (hlive : old.revoked = false) :
      KeyEffect hashKey s (.rotateKey raw secret id now) (some (rawKey secret, id))
        (Function.update
          (Function.update s.keys.get (hashKey raw) (some (old.revoke now)))
          (hashKey (rawKey secret))
          (some (old.replacement id (hashKey (rawKey secret)) now)))
  | revoked (id : Text) (now : Nat) (hash : Hash) (key : Meta Hash)
      (hkey : s.keys.get hash = some key) (hid : key.id = id) :
      KeyEffect hashKey s (.revokeById id now) none
        (Function.update s.keys.get hash (some (key.revoke now)))

theorem validateKey_effect (s : State Hash) (raw : Text) (now : Nat) :
    KeyEffect hashKey s (.validateKey raw now) none
      (validateKey hashKey s raw now).1.keys.get := by
  have hsame : KeyEffect hashKey s (.validateKey raw now) none s.keys.get :=
    .same _ (fun _ _ _ _ _ h => by cases h) (fun _ _ _ _ h => by cases h)
  unfold validateKey
  split
  · exact hsame
  · cases hkey : s.keys.get (hashKey raw) with
    | none =>
        simp only [hkey]
        exact hsame
    | some key =>
        simp only [hkey]
        split
        · exact hsame
        · rw [OrderedMap.get_modify_of_get hkey]
          exact .used raw now key hkey

theorem rotateKey_effect (s : State Hash) (raw secret id : Text) (now : Nat) :
    KeyEffect hashKey s (.rotateKey raw secret id now)
      (drawnIn (rotateKey hashKey s raw secret id now).2)
      (rotateKey hashKey s raw secret id now).1.keys.get := by
  unfold rotateKey
  cases hold : s.keys.get (hashKey raw) with
  | none =>
      simp only [hold]
      refine .same _ ?_ (fun _ _ _ _ h => by cases h)
      intro raw' _ _ _ key heq hkey
      cases heq
      rw [hold] at hkey
      cases hkey
  | some old =>
      simp only [hold]
      split
      · rename_i hrevoked
        refine .same _ ?_ (fun _ _ _ _ h => by cases h)
        intro raw' _ _ _ key heq hkey
        cases heq
        rw [hold] at hkey
        cases hkey
        exact hrevoked
      · rename_i hlive
        simp only [OrderedMap.get_set, OrderedMap.get_modify_of_get hold]
        exact .rotated raw secret id now old hold (by simpa using hlive)

theorem revokeById_effect (s : State Hash) (id : Text) (now : Nat) :
    KeyEffect hashKey s (.revokeById id now) none
      (revokeById s id now).1.keys.get := by
  unfold revokeById
  cases hfind : s.keys.find fun key => decide (key.id = id) with
  | none =>
      refine .same _ (fun _ _ _ _ _ h => by cases h) ?_
      intro id' _ hash key heq hkey
      cases heq
      simpa using OrderedMap.find_eq_none hfind hkey
  | some found =>
      obtain ⟨hkey, hid⟩ := OrderedMap.find_eq_some hfind
      dsimp only
      rw [OrderedMap.get_modify_of_get hkey]
      exact .revoked id now found.1 found.2 hkey (by simpa using hid)

theorem checkRateLimit_keys (s : State Hash) (hash : Hash) (now : Nat) :
    (checkRateLimit s hash now).1.keys = s.keys := by
  unfold checkRateLimit
  split
  · rfl
  · rfl

theorem keyEffect (hashKey : Text → Hash) (s : State Hash) (action : Action Hash) :
    KeyEffect hashKey s action (drawnIn (handle hashKey s action).2)
      (handle hashKey s action).1.keys.get := by
  cases action with
  | createKey name ownerId rateLimit secret id now =>
      simp only [handle, createKey, OrderedMap.get_set]
      exact .created name ownerId rateLimit secret id now _ rfl rfl
  | validateKey raw now => exact validateKey_effect s raw now
  | checkRateLimit hash now =>
      simp only [handle, checkRateLimit_keys]
      exact .same _ (fun _ _ _ _ _ h => by cases h) (fun _ _ _ _ h => by cases h)
  | rotateKey raw secret id now => exact rotateKey_effect s raw secret id now
  | revokeById id now => exact revokeById_effect s id now

/-- A key after a call was there before it, or the call has drawn it. -/
theorem KeyEffect.stored {s : State Hash} {action : Action Hash}
    {draw : Option (Text × Text)} {table : Hash → Option (Meta Hash)}
    (h : KeyEffect hashKey s action draw table) {hash : Hash} {key : Meta Hash}
    (hkey : table hash = some key) :
    (∃ old, s.keys.get hash = some old ∧ old.id = key.id) ∨
      ∃ raw, draw = some (raw, key.id) ∧ hash = hashKey raw := by
  cases h with
  | same _ _ _ => exact Or.inl ⟨key, hkey, rfl⟩
  | used raw now found hfound =>
      rcases Succession.update_cases hkey with ⟨rfl, rfl⟩ | hbefore
      · exact Or.inl ⟨found, hfound, rfl⟩
      · exact Or.inl ⟨key, hbefore, rfl⟩
  | created _ _ _ secret id _ found hid _ =>
      rcases Succession.update_cases hkey with ⟨rfl, rfl⟩ | hbefore
      · exact Or.inr ⟨rawKey secret, by rw [hid], rfl⟩
      · exact Or.inl ⟨key, hbefore, rfl⟩
  | rotated raw secret id now old hold _ =>
      rcases Succession.update_cases hkey with ⟨rfl, rfl⟩ | hkey
      · exact Or.inr ⟨rawKey secret, rfl, rfl⟩
      · rcases Succession.update_cases hkey with ⟨rfl, rfl⟩ | hbefore
        · exact Or.inl ⟨old, hold, rfl⟩
        · exact Or.inl ⟨key, hbefore, rfl⟩
  | revoked id now hash' found hfound _ =>
      rcases Succession.update_cases hkey with ⟨rfl, rfl⟩ | hbefore
      · exact Or.inl ⟨found, hfound, rfl⟩
      · exact Or.inl ⟨key, hbefore, rfl⟩

/-- A revoked key stays, if the call draws no key with its hash. -/
theorem KeyEffect.stays_revoked {s : State Hash} {action : Action Hash}
    {draw : Option (Text × Text)} {table : Hash → Option (Meta Hash)}
    (h : KeyEffect hashKey s action draw table)
    (hfree : ∀ raw id, draw = some (raw, id) → s.keys.get (hashKey raw) = none)
    {hash : Hash} {key : Meta Hash} (hkey : s.keys.get hash = some key)
    (hrevoked : key.revoked = true) :
    ∃ after, table hash = some after ∧ after.revoked = true := by
  have hupdate : ∀ {hash' found new}, s.keys.get hash' = some found →
      (found.revoked = true → new.revoked = true) → ∃ after,
        Function.update s.keys.get hash' (some new) hash = some after ∧
          after.revoked = true := by
    intro hash' found new hfound hnew
    rw [Function.update_apply]
    split
    · rename_i hhash
      subst hhash
      rw [hkey] at hfound
      cases hfound
      exact ⟨new, rfl, hnew hrevoked⟩
    · exact ⟨key, hkey, hrevoked⟩
  have hne : ∀ {raw id}, draw = some (raw, id) → hash ≠ hashKey raw := by
    rintro raw id hdraw rfl
    rw [hfree raw id hdraw] at hkey
    cases hkey
  cases h with
  | same _ _ _ => exact ⟨key, hkey, hrevoked⟩
  | used raw now found hfound => exact hupdate hfound (fun hold => hold)
  | created _ _ _ secret id _ new _ _ =>
      rw [Function.update_of_ne (hne rfl)]
      exact ⟨key, hkey, hrevoked⟩
  | rotated raw secret id now old hold _ =>
      rw [Function.update_of_ne (hne rfl)]
      exact hupdate hold (fun _ => rfl)
  | revoked id now hash' found hfound _ => exact hupdate hfound (fun _ => rfl)

/-! ## Drawn only once -/

/-- What an entry of a history has drawn. -/
def drawn (hashKey : Text → Hash) (entry : Entry (State Hash) (Action Hash)) :
    Option (Text × Text) :=
  drawnIn (handle hashKey entry.before entry.input).2

/-- No raw key and no id was drawn twice. -/
def DrawnOnce (hashKey : Text → Hash)
    (history : List (Entry (State Hash) (Action Hash))) : Prop :=
  ((history.filterMap (drawn hashKey)).map Prod.fst).Nodup ∧
    ((history.filterMap (drawn hashKey)).map Prod.snd).Nodup

/-- A stored key was drawn. -/
theorem drawn_of_stored {history : List (Entry (State Hash) (Action Hash))}
    {s : State Hash} (hrun : (system hashKey).Run history s) {hash : Hash}
    {key : Meta Hash} (hkey : s.keys.get hash = some key) :
    ∃ raw, hash = hashKey raw ∧
      (raw, key.id) ∈ history.filterMap (drawn hashKey) := by
  induction hrun using System.Run.induction generalizing hash key with
  | start s hinitial =>
      cases hinitial
      cases hkey
  | next history s action hrun htime ih =>
      rcases (keyEffect hashKey s action).stored hkey with
        ⟨old, hold, hid⟩ | ⟨raw, hdraw, hhash⟩
      · obtain ⟨raw, hhash, hmem⟩ := ih hold
        rw [hid] at hmem
        exact ⟨raw, hhash,
          ((List.sublist_cons_self _ history).filterMap _).subset hmem⟩
      · exact ⟨raw, hhash,
          List.mem_filterMap.mpr ⟨_, List.mem_cons_self, hdraw⟩⟩

/-- What the call draws is not in the store. -/
def DrawsNew (hashKey : Text → Hash) (s : State Hash) (action : Action Hash) : Prop :=
  ∀ raw id, drawnIn (handle hashKey s action).2 = some (raw, id) →
    s.keys.get (hashKey raw) = none ∧
      ∀ hash key, s.keys.get hash = some key → key.id ≠ id

theorem drawsNew_of_cons (hinjective : Function.Injective hashKey)
    {history : List (Entry (State Hash) (Action Hash))} {s : State Hash}
    (hrun : (system hashKey).Run history s) {action : Action Hash}
    (honce : DrawnOnce hashKey ((system hashKey).entryOf s action :: history)) :
    DrawsNew hashKey s action := by
  intro raw id hdrawn
  have hcons : ((system hashKey).entryOf s action :: history).filterMap
      (drawn hashKey) = (raw, id) :: history.filterMap (drawn hashKey) :=
    List.filterMap_cons_some hdrawn
  unfold DrawnOnce at honce
  rw [hcons] at honce
  obtain ⟨hraws, hids⟩ := honce
  constructor
  · cases hkey : s.keys.get (hashKey raw) with
    | none => rfl
    | some key =>
        obtain ⟨raw', hhash, hmem⟩ := drawn_of_stored hrun hkey
        have hraw : raw' = raw := (hinjective hhash).symm
        have hdrawn' : raw ∈ (history.filterMap (drawn hashKey)).map Prod.fst :=
          List.mem_map.mpr ⟨(raw', key.id), hmem, hraw⟩
        exact absurd hdrawn' (List.nodup_cons.mp hraws).1
  · rintro hash key hkey rfl
    obtain ⟨raw', _, hmem⟩ := drawn_of_stored hrun hkey
    exact (List.nodup_cons.mp hids).1 (List.mem_map.mpr ⟨_, hmem, rfl⟩)

theorem DrawnOnce.sublist {history history' : List (Entry (State Hash) (Action Hash))}
    (h : DrawnOnce hashKey history) (hsublist : history'.Sublist history) :
    DrawnOnce hashKey history' := by
  have hdrawn := hsublist.filterMap (drawn hashKey)
  exact ⟨h.1.sublist (hdrawn.map _), h.2.sublist (hdrawn.map _)⟩

theorem DrawnOnce.of_cons {entry : Entry (State Hash) (Action Hash)}
    {history : List (Entry (State Hash) (Action Hash))}
    (h : DrawnOnce hashKey (entry :: history)) : DrawnOnce hashKey history :=
  h.sublist (List.sublist_cons_self entry history)

theorem DrawnOnce.of_append {later earlier : List (Entry (State Hash) (Action Hash))}
    (h : DrawnOnce hashKey (later ++ earlier)) : DrawnOnce hashKey earlier :=
  h.sublist (List.sublist_append_right later earlier)

theorem drawsNew_of_run (hinjective : Function.Injective hashKey)
    {history : List (Entry (State Hash) (Action Hash))} {s : State Hash}
    (hrun : (system hashKey).Run history s) (honce : DrawnOnce hashKey history) :
    ∀ entry ∈ history, DrawsNew hashKey entry.before entry.input := by
  induction hrun using System.Run.induction with
  | start s _ => exact List.forall_mem_nil _
  | next history s action hrun _ ih =>
      exact List.forall_mem_cons.mpr
        ⟨drawsNew_of_cons hinjective hrun honce, ih honce.of_cons⟩

/-! ## The chains -/

/-- A call that draws something new keeps the chains. -/
theorem KeyEffect.linked {s : State Hash} {action : Action Hash}
    {draw : Option (Text × Text)} {table : Hash → Option (Meta Hash)}
    (heffect : KeyEffect hashKey s action draw table)
    (h : (keyView Hash).Linked s.keys.get)
    (hnew : ∀ raw id, draw = some (raw, id) →
      s.keys.get (hashKey raw) = none ∧
        ∀ hash key, s.keys.get hash = some key → key.id ≠ id) :
    (keyView Hash).Linked table := by
  cases heffect with
  | same _ _ _ => exact h
  | used raw now key hkey => exact h.overwrite hkey rfl rfl rfl (fun hold => hold)
  | created _ _ _ secret id _ key hid hfirst =>
      subst hid
      obtain ⟨hfree, hids⟩ := hnew _ _ rfl
      exact h.insert hfree hids (Or.inl hfirst)
  | revoked id now hash key hkey hid =>
      exact h.overwrite hkey rfl rfl rfl (fun _ => rfl)
  | rotated raw secret id now old hold hlive =>
      obtain ⟨hfree, hids⟩ := hnew _ _ rfl
      have hrevoked : (keyView Hash).Linked
          (Function.update s.keys.get (hashKey raw) (some (old.revoke now))) :=
        h.overwrite hold rfl rfl rfl (fun _ => rfl)
      -- the old hash is taken, the new one was free
      have hne : hashKey (rawKey secret) ≠ hashKey raw := by
        intro heq
        rw [heq, hold] at hfree
        cases hfree
      have hlive : (keyView Hash).live old = true := by simp [keyView, hlive]
      refine hrevoked.insert ?_ ?_ (Or.inr ⟨hashKey raw, old.revoke now, ?_, rfl,
        rfl, rfl, ?_⟩)
      · rw [Function.update_of_ne hne, hfree]
      · intro hash key hkey
        rcases Succession.update_cases hkey with ⟨_, rfl⟩ | hbefore
        · exact hids _ old hold
        · exact hids hash key hbefore
      · exact Function.update_self ..
      · -- the old key was live, so nothing had replaced it
        intro hash key hkey
        rcases Succession.update_cases hkey with ⟨_, rfl⟩ | hbefore
        · have hfirst := h.not_replaced_of_live hold hlive hold
          exact hfirst
        · have hother := h.not_replaced_of_live hold hlive hbefore
          exact hother

theorem linked_of_run (hinjective : Function.Injective hashKey)
    {history : List (Entry (State Hash) (Action Hash))} {s : State Hash}
    (hrun : (system hashKey).Run history s) (honce : DrawnOnce hashKey history) :
    (keyView Hash).Linked s.keys.get := by
  induction hrun using System.Run.induction with
  | start s hinitial =>
      cases hinitial
      exact Succession.Linked.empty
  | next history s action hrun _ ih =>
      exact (keyEffect hashKey s action).linked (ih honce.of_cons)
        (drawsNew_of_cons hinjective hrun honce)

/-! ## Validation -/

/-- A revoked key does not validate. -/
theorem validateKey_of_revoked {s : State Hash} {raw : Text} {key : Meta Hash}
    (hkey : s.keys.get (hashKey raw) = some key) (hrevoked : key.revoked = true)
    (now : Nat) : (validateKey hashKey s raw now).2 = none := by
  unfold validateKey
  split
  · rfl
  · simp only [hkey, hrevoked, if_true]

/-- Validation reads nothing but the key with the hash. -/
theorem validateKey_congr {s s' : State Hash} {raw : Text}
    (h : s'.keys.get (hashKey raw) = s.keys.get (hashKey raw)) (now : Nat) :
    (validateKey hashKey s' raw now).2 = (validateKey hashKey s raw now).2 := by
  unfold validateKey
  split
  · rfl
  · simp only [h]
    cases s.keys.get (hashKey raw) with
    | none => rfl
    | some key =>
        dsimp only
        split
        · rfl
        · rfl

/-! ## Rotation and revocation -/

/-- The call of the entry has rotated the raw key away, or revoked it. -/
def Ends (hashKey : Text → Hash) (entry : Entry (State Hash) (Action Hash))
    (raw : Text) : Prop :=
  (∃ secret id now newRaw newId, entry.input = .rotateKey raw secret id now ∧
    (handle hashKey entry.before entry.input).2 = .rotated newRaw newId) ∨
  ∃ id now key, entry.input = .revokeById id now ∧
    entry.before.keys.get (hashKey raw) = some key ∧ key.id = id

/-- The call of the entry rotates or revokes the key with the id. -/
def ActsOn (hashKey : Text → Hash) (entry : Entry (State Hash) (Action Hash))
    (id : Text) : Prop :=
  (∃ raw secret newId now key, entry.input = .rotateKey raw secret newId now ∧
    entry.before.keys.get (hashKey raw) = some key ∧ key.id = id) ∨
  ∃ now, entry.input = .revokeById id now

/-- At most one key of a chain is not revoked. -/
def OneLive (s : State Hash) : Prop :=
  ∀ hash₀ hash hash' root key key', s.keys.get hash₀ = some root →
    root.rotatedFrom = none → s.keys.get hash = some key →
    s.keys.get hash' = some key' →
    (keyView Hash).Chain s.keys.get root.id key.id →
    (keyView Hash).Chain s.keys.get root.id key'.id →
    key.revoked = false → key'.revoked = false → key = key'

/-- The keys of a chain have the same name, owner and limit. -/
def SameDetails (s : State Hash) : Prop :=
  ∀ hash hash' key key', s.keys.get hash = some key → s.keys.get hash' = some key' →
    (keyView Hash).Chain s.keys.get key.id key'.id →
    key.name = key'.name ∧ key.ownerId = key'.ownerId ∧
      key.rateLimit = key'.rateLimit

/-- A rotation stores a key that replaces the old one and has its name, owner and
limit. -/
def KeepsDetails (hashKey : Text → Hash)
    (entry : Entry (State Hash) (Action Hash)) : Prop :=
  ∀ raw secret id now newRaw newId, entry.input = .rotateKey raw secret id now →
    (handle hashKey entry.before entry.input).2 = .rotated newRaw newId →
    ∃ old new, entry.before.keys.get (hashKey raw) = some old ∧
      entry.after.keys.get (hashKey newRaw) = some new ∧ new.id = newId ∧
      new.rotatedFrom = some old.id ∧ new.name = old.name ∧
      new.ownerId = old.ownerId ∧ new.rateLimit = old.rateLimit

/-- Rotating or revoking a key changes nothing for the validation of a key of
another chain. -/
def LeavesOthers (hashKey : Text → Hash)
    (entry : Entry (State Hash) (Action Hash)) : Prop :=
  ∀ id, ActsOn hashKey entry id → ∀ raw key,
    entry.before.keys.get (hashKey raw) = some key →
    ¬ (keyView Hash).SameChain entry.before.keys.get id key.id →
    ∀ now, (validateKey hashKey entry.after raw now).2 =
      (validateKey hashKey entry.before raw now).2

theorem revoked_of_ends {entry : Entry (State Hash) (Action Hash)} {raw : Text}
    (h : Ends hashKey entry raw)
    (hlinked : (keyView Hash).Linked entry.before.keys.get)
    (hnew : DrawsNew hashKey entry.before entry.input) :
    ∃ key, (handle hashKey entry.before entry.input).1.keys.get (hashKey raw) =
      some key ∧ key.revoked = true := by
  have heffect := keyEffect hashKey entry.before entry.input
  unfold DrawsNew at hnew
  generalize (handle hashKey entry.before entry.input).1.keys.get = table at heffect ⊢
  rcases h with ⟨secret, id, now, newRaw, newId, hinput, hresult⟩ |
    ⟨id, now, key, hinput, hkey, hid⟩
  · rw [hresult, hinput] at heffect
    rw [hresult] at hnew
    cases heffect with
    | rotated _ _ _ _ old hold _ =>
        obtain ⟨hfree, _⟩ := hnew _ _ rfl
        have hne : hashKey raw ≠ hashKey (rawKey secret) := by
          intro heq
          rw [← heq, hold] at hfree
          cases hfree
        refine ⟨old.revoke now, ?_, rfl⟩
        rw [Function.update_of_ne hne, Function.update_self]
  · generalize drawnIn (handle hashKey entry.before entry.input).2 = draw at heffect
    rw [hinput] at heffect
    cases heffect with
    | same _ _ hrevoke => exact absurd hid (hrevoke id now _ key rfl hkey)
    | revoked _ _ hash found hfound hfoundId =>
        obtain rfl := hlinked.unique hfound hkey (hfoundId.trans hid.symm)
        exact ⟨found.revoke now, Function.update_self .., rfl⟩

theorem keepsDetails {entry : Entry (State Hash) (Action Hash)}
    (hafter : entry.after = (handle hashKey entry.before entry.input).1) :
    KeepsDetails hashKey entry := by
  intro raw secret id now newRaw newId hinput hresult
  have heffect := keyEffect hashKey entry.before entry.input
  rw [← hafter, hresult, hinput] at heffect
  generalize entry.after.keys.get = table at heffect ⊢
  cases heffect with
  | rotated _ _ _ _ old hold _ =>
      exact ⟨old, _, hold, Function.update_self .., rfl, rfl, rfl, rfl, rfl⟩

theorem leavesOthers {entry : Entry (State Hash) (Action Hash)}
    (hafter : entry.after = (handle hashKey entry.before entry.input).1)
    (hlinked : (keyView Hash).Linked entry.before.keys.get)
    (hnew : DrawsNew hashKey entry.before entry.input) :
    LeavesOthers hashKey entry := by
  intro id hacts raw key hkey hother now
  refine validateKey_congr ?_ now
  -- a key with another hash than the one acted on
  have hne : ∀ {hash found}, entry.before.keys.get hash = some found →
      found.id = id → hashKey raw ≠ hash := by
    rintro hash found hfound rfl rfl
    rw [hkey] at hfound
    cases hfound
    exact hother (hlinked.sameChain_self hkey)
  have heffect := keyEffect hashKey entry.before entry.input
  unfold DrawsNew at hnew
  rw [← hafter] at heffect
  generalize entry.after.keys.get = table at heffect ⊢
  generalize drawnIn (handle hashKey entry.before entry.input).2 = draw at heffect hnew
  rcases hacts with ⟨oldRaw, secret, newId, time, acted, hinput, hacted, hid⟩ |
    ⟨time, hinput⟩
  · rw [hinput] at heffect
    cases heffect with
    | same _ _ _ => rfl
    | rotated _ _ _ _ old hold _ =>
        obtain ⟨hfree, _⟩ := hnew _ _ rfl
        have hnewHash : hashKey raw ≠ hashKey (rawKey secret) := by
          intro heq
          rw [← heq, hkey] at hfree
          cases hfree
        rw [Function.update_of_ne hnewHash, Function.update_of_ne (hne hacted hid)]
  · rw [hinput] at heffect
    cases heffect with
    | same _ _ _ => rfl
    | revoked _ _ hash found hfound hid =>
        rw [Function.update_of_ne (hne hfound hid)]

/-- A raw key that was rotated away or revoked never validates again. -/
theorem never_validates_of_ends (hinjective : Function.Injective hashKey)
    {later earlier : List (Entry (State Hash) (Action Hash))}
    {entry : Entry (State Hash) (Action Hash)} {s : State Hash}
    (hrun : (system hashKey).Run (later ++ entry :: earlier) s)
    (honce : DrawnOnce hashKey (later ++ entry :: earlier)) {raw : Text}
    (hends : Ends hashKey entry raw) (now : Nat) :
    (validateKey hashKey s raw now).2 = none := by
  have hnew := drawsNew_of_run hinjective hrun honce
  obtain ⟨hbefore, hafter, _⟩ := hrun.of_split
  have hentry : ∃ key, entry.after.keys.get (hashKey raw) = some key ∧
      key.revoked = true := by
    rw [hafter]
    exact revoked_of_ends hends (linked_of_run hinjective hbefore honce.of_append.of_cons)
      (hnew entry (List.mem_append_right later List.mem_cons_self))
  have hlast : ∃ key, s.keys.get (hashKey raw) = some key ∧ key.revoked = true := by
    refine System.Run.persists (P := fun s => ∃ key,
      s.keys.get (hashKey raw) = some key ∧ key.revoked = true)
      (Q := DrawsNew hashKey) ?_ hrun ?_ hentry
    · rintro _ s action _ _ hdraws ⟨key, hkey, hrevoked⟩
      exact (keyEffect hashKey s action).stays_revoked
        (fun raw id hdraw => (hdraws raw id hdraw).1) hkey hrevoked
    · intro newer hnewer
      exact hnew newer (List.mem_append_left _ hnewer)
  obtain ⟨key, hkey, hrevoked⟩ := hlast
  exact validateKey_of_revoked hkey hrevoked now

/-- Over every sequence of calls that draw no raw key and no id twice, with an
injective hash: at most one key of a chain is not revoked, and the keys of a chain
share their details; a raw key that was rotated away or revoked never validates
again; a rotation keeps name, owner and limit; and rotating or revoking a key
leaves the validation of the keys of other chains as it is. -/
theorem key_rotation (hinjective : Function.Injective hashKey)
    {history : List (Entry (State Hash) (Action Hash))} {s : State Hash}
    (hrun : (system hashKey).Run history s) (honce : DrawnOnce hashKey history) :
    (OneLive s ∧ SameDetails s) ∧
    (∀ later entry earlier raw, history = later ++ entry :: earlier →
      Ends hashKey entry raw →
        ∀ now, (validateKey hashKey s raw now).2 = none) ∧
    (∀ entry ∈ history, KeepsDetails hashKey entry) ∧
    (∀ entry ∈ history, LeavesOthers hashKey entry) := by
  have hlinked := linked_of_run hinjective hrun honce
  refine ⟨⟨?_, ?_⟩, ?_, ?_, ?_⟩
  · intro _ hash hash' root key key' _ _ hkey hkey' hchain hchain' hlive hlive'
    exact hlinked.one_live hkey hkey' hchain hchain' (by simp [keyView, hlive])
      (by simp [keyView, hlive'])
  · intro hash hash' key key' hkey hkey' hchain
    have hdetail := hlinked.detail_eq hkey hkey' hchain
    simpa [keyView] using hdetail
  · rintro later entry earlier raw rfl hends now
    exact never_validates_of_ends hinjective hrun honce hends now
  · intro entry hentry
    obtain ⟨later, earlier, rfl⟩ := List.append_of_mem hentry
    exact keepsDetails hrun.of_split.2.1
  · intro entry hentry
    have hnew := drawsNew_of_run hinjective hrun honce entry hentry
    obtain ⟨later, earlier, rfl⟩ := List.append_of_mem hentry
    obtain ⟨hbefore, hafter, _⟩ := hrun.of_split
    exact leavesOthers hafter
      (linked_of_run hinjective hbefore honce.of_append.of_cons) hnew

end Keys

/-! ## A rotation, a second key and a revocation -/

namespace KeySample

/-- One key is created and rotated, another one is created, and the new key of the
first chain is revoked. -/
def calls : List (Action Text) :=
  [.createKey ['n'] ['o'] none ['a'] ['1'] 0,
    .rotateKey (rawKey ['a']) ['b'] ['2'] 10,
    .createKey ['m'] ['o'] none ['c'] ['3'] 20,
    .revokeById ['2'] 30]

def play : List (Entry (State Text) (Action Text)) × State Text :=
  (system fun raw => raw).replay [] ⟨.empty, .empty⟩ calls

theorem play_run : (system fun raw : Text => raw).Run play.1 play.2 :=
  ⟨_, rfl, System.Path.stay.replay (by decide)⟩

theorem play_drawnOnce : DrawnOnce (fun raw => raw) play.1 := by
  unfold DrawnOnce
  decide

end KeySample

open KeySample

/-- The key that was rotated away does not validate, and the one of the other chain
still does. -/
theorem key_rotation_of_sample :
    ∃ history s, (system fun raw : Text => raw).Run history s ∧
      DrawnOnce (fun raw => raw) history ∧
      (validateKey (fun raw => raw) s (rawKey ['a']) 40).2 = none ∧
      (validateKey (fun raw => raw) s (rawKey ['c']) 40).2.isSome = true ∧
      OneLive s := by
  obtain ⟨⟨hlive, _⟩, hends, _, _⟩ :=
    key_rotation Function.injective_id play_run play_drawnOnce
  refine ⟨_, _, play_run, play_drawnOnce, ?_, rfl, hlive⟩
  refine hends (play.1.take 2) _ (play.1.drop 3) _ rfl
    (Or.inl ⟨['b'], ['2'], 10, _, _, rfl, rfl⟩) 40

end Properties
end Paystream
