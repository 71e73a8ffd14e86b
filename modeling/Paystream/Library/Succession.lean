import Mathlib.Logic.Function.Basic
import Mathlib.Logic.Relation

/-!
# Records that replace one another

A table of records, each with an id of its own.  A record may name the id of the
one it replaces; a record that was replaced is retired, and the new one takes its
details over.  Following these links, the records form chains.

`Linked` is what makes a table one of chains.  Overwriting a record without giving
it life, adding a first one and adding a replacement keep it, and it gives: at most
one live record in a chain (`Linked.one_live`), and the same details all along it
(`Linked.detail_eq`).
-/

namespace Paystream
namespace Library

/-- How to read a record. -/
structure Succession (Record Id Detail : Type) where
  id : Record → Id
  replaces : Record → Option Id
  live : Record → Bool
  detail : Record → Detail

namespace Succession

variable {Key Record Id Detail : Type}

/-! ## Updated tables -/

section Update

variable [DecidableEq Key] {table : Key → Option Record} {key key' : Key}
  {new record : Record}

/-- A record of the updated table is the new one or was there before. -/
theorem update_cases (h : Function.update table key (some new) key' = some record) :
    (key' = key ∧ record = new) ∨ table key' = some record := by
  rw [Function.update_apply] at h
  split at h
  · rename_i hkey
    exact Or.inl ⟨hkey, (Option.some.inj h).symm⟩
  · exact Or.inr h

/-- A record that is added under a free key leaves the others. -/
theorem update_of_free (hfree : table key = none) (h : table key' = some record) :
    Function.update table key (some new) key' = some record := by
  have hkey : key' ≠ key := by
    rintro rfl
    rw [hfree] at h
    cases h
  rw [Function.update_of_ne hkey, h]

end Update

/-! ## Links -/

variable (view : Succession Record Id Detail)

/-- The record with the second id replaces the one with the first. -/
def Link (table : Key → Option Record) (old new : Id) : Prop :=
  ∃ key record, table key = some record ∧ view.replaces record = some old ∧
    view.id record = new

/-- The second id is reached from the first one by links. -/
def Chain (table : Key → Option Record) : Id → Id → Prop :=
  Relation.ReflTransGen (view.Link table)

/-- Both ids belong to the chain of one first record. -/
def SameChain (table : Key → Option Record) (a b : Id) : Prop :=
  ∃ key root, table key = some root ∧ view.replaces root = none ∧
    view.Chain table (view.id root) a ∧ view.Chain table (view.id root) b

/-- Ids are unique; what a record replaces is there, is retired and has its
details; no record is replaced twice; every record is on the chain of a first
one. -/
structure Linked (table : Key → Option Record) : Prop where
  unique : ∀ {key key' record record'}, table key = some record →
    table key' = some record' → view.id record = view.id record' → key = key'
  replaced : ∀ {key record id}, table key = some record →
    view.replaces record = some id → ∃ key' old, table key' = some old ∧
      view.id old = id ∧ view.live old = false ∧
      view.detail old = view.detail record
  once : ∀ {key key' record record' id}, table key = some record →
    table key' = some record' → view.replaces record = some id →
    view.replaces record' = some id → key = key'
  rooted : ∀ {key record}, table key = some record → ∃ key' root,
    table key' = some root ∧ view.replaces root = none ∧
      view.Chain table (view.id root) (view.id record)

variable {view} {table : Key → Option Record}

theorem Linked.empty : view.Linked (fun _ : Key => (none : Option Record)) :=
  ⟨by simp, by simp, by simp, by simp⟩

/-! ## Chains -/

namespace Linked

theorem record_eq (h : view.Linked table) {key key' : Key} {record record' : Record}
    (hrecord : table key = some record) (hrecord' : table key' = some record')
    (hid : view.id record = view.id record') : record = record' := by
  obtain rfl := h.unique hrecord hrecord' hid
  rw [hrecord] at hrecord'
  exact Option.some.inj hrecord'

theorem link_unique (h : view.Linked table) : Relator.RightUnique (view.Link table) := by
  rintro old new new' ⟨key, record, hrecord, hold, rfl⟩ ⟨key', record', hrecord', hold', rfl⟩
  obtain rfl := h.once hrecord hrecord' hold hold'
  rw [hrecord] at hrecord'
  rw [Option.some.inj hrecord']

/-- A record that was replaced is retired. -/
theorem retired_of_link (h : view.Linked table) {key : Key} {record : Record}
    {new : Id} (hrecord : table key = some record)
    (hlink : view.Link table (view.id record) new) : view.live record = false := by
  obtain ⟨key', record', hrecord', hreplaces, _⟩ := hlink
  obtain ⟨key'', old, hold, hid, hretired, _⟩ := h.replaced hrecord' hreplaces
  rw [← h.record_eq hold hrecord hid]
  exact hretired

/-- A live record is the end of its chain. -/
theorem eq_of_chain (h : view.Linked table) {key key' : Key} {record record' : Record}
    (hrecord : table key = some record) (hrecord' : table key' = some record')
    (hlive : view.live record = true)
    (hchain : view.Chain table (view.id record) (view.id record')) :
    record = record' := by
  rcases Relation.ReflTransGen.cases_head hchain with hid | ⟨next, hlink, _⟩
  · exact h.record_eq hrecord hrecord' hid
  · rw [h.retired_of_link hrecord hlink] at hlive
    cases hlive

/-- A chain has at most one live record. -/
theorem one_live (h : view.Linked table) {root : Id} {key key' : Key}
    {record record' : Record} (hrecord : table key = some record)
    (hrecord' : table key' = some record')
    (hchain : view.Chain table root (view.id record))
    (hchain' : view.Chain table root (view.id record'))
    (hlive : view.live record = true) (hlive' : view.live record' = true) :
    record = record' := by
  rcases Relation.ReflTransGen.total_of_right_unique h.link_unique hchain hchain'
    with hto | hfrom
  · exact h.eq_of_chain hrecord hrecord' hlive hto
  · exact (h.eq_of_chain hrecord' hrecord hlive' hfrom).symm

/-- The details are the same all along a chain. -/
theorem detail_eq (h : view.Linked table) {key key' : Key} {record record' : Record}
    (hrecord : table key = some record) (hrecord' : table key' = some record')
    (hchain : view.Chain table (view.id record) (view.id record')) :
    view.detail record = view.detail record' := by
  generalize hend : view.id record' = last at hchain
  induction hchain generalizing key' record' with
  | refl => rw [h.record_eq hrecord' hrecord hend]
  | tail _ hlink ih =>
      obtain ⟨key'', new, hnew, hreplaces, hid⟩ := hlink
      obtain ⟨_, old, hold, holdId, _, hdetail⟩ := h.replaced hnew hreplaces
      rw [ih hold holdId, hdetail, h.record_eq hnew hrecord' (hid.trans hend.symm)]

/-- Nothing replaces a live record. -/
theorem not_replaced_of_live (h : view.Linked table) {key key' : Key}
    {old record : Record} (hold : table key = some old)
    (hlive : view.live old = true) (hrecord : table key' = some record) :
    view.replaces record ≠ some (view.id old) := by
  intro hreplaces
  rw [h.retired_of_link hold ⟨key', record, hrecord, hreplaces, rfl⟩] at hlive
  cases hlive

/-- Every record is on the same chain as itself. -/
theorem sameChain_self (h : view.Linked table) {key : Key} {record : Record}
    (hrecord : table key = some record) :
    view.SameChain table (view.id record) (view.id record) := by
  obtain ⟨key', root, hroot, hfirst, hchain⟩ := h.rooted hrecord
  exact ⟨key', root, hroot, hfirst, hchain, hchain⟩

/-! ## Changing the table -/

/-- Chains stay when every record keeps its id and its link. -/
theorem mono_chain {table' : Key → Option Record}
    (hkept : ∀ key record, table key = some record → ∃ record',
      table' key = some record' ∧ view.id record' = view.id record ∧
      view.replaces record' = view.replaces record) {a b : Id}
    (hchain : view.Chain table a b) : view.Chain table' a b := by
  refine Relation.ReflTransGen.mono ?_ a b hchain
  rintro old new ⟨key, record, hrecord, hreplaces, hid⟩
  obtain ⟨record', hrecord', hid', hreplaces'⟩ := hkept key record hrecord
  exact ⟨key, record', hrecord', hreplaces'.trans hreplaces, hid'.trans hid⟩

/-- The second table has the records of the first one, with the same ids, links and
details, and none of them back to life. -/
structure Keeps (view : Succession Record Id Detail)
    (table table' : Key → Option Record) : Prop where
  forth : ∀ {key record}, table key = some record → ∃ record',
    table' key = some record' ∧ view.id record' = view.id record ∧
    view.replaces record' = view.replaces record ∧
    view.detail record' = view.detail record ∧
    (view.live record = false → view.live record' = false)
  back : ∀ {key record'}, table' key = some record' → ∃ record,
    table key = some record ∧ view.id record' = view.id record ∧
    view.replaces record' = view.replaces record ∧
    view.detail record' = view.detail record

theorem of_keeps (h : view.Linked table) {table' : Key → Option Record}
    (hkeeps : Keeps view table table') : view.Linked table' := by
  refine ⟨?_, ?_, ?_, ?_⟩
  · intro key key' record record' hrecord hrecord' hids
    obtain ⟨before, hbefore, hid, _, _⟩ := hkeeps.back hrecord
    obtain ⟨before', hbefore', hid', _, _⟩ := hkeeps.back hrecord'
    exact h.unique hbefore hbefore' (by rw [← hid, ← hid', hids])
  · intro key record id hrecord hlink
    obtain ⟨before, hbefore, _, hreplaces, hdetail⟩ := hkeeps.back hrecord
    obtain ⟨key', old, hold, holdId, hretired, hsame⟩ :=
      h.replaced hbefore (hreplaces.symm.trans hlink)
    obtain ⟨old', hold', hid', _, hdetail', hlive'⟩ := hkeeps.forth hold
    exact ⟨key', old', hold', hid'.trans holdId, hlive' hretired,
      by rw [hdetail', hsame, hdetail]⟩
  · intro key key' record record' id hrecord hrecord' hlink hlink'
    obtain ⟨before, hbefore, _, hreplaces, _⟩ := hkeeps.back hrecord
    obtain ⟨before', hbefore', _, hreplaces', _⟩ := hkeeps.back hrecord'
    exact h.once hbefore hbefore' (hreplaces.symm.trans hlink)
      (hreplaces'.symm.trans hlink')
  · intro key record hrecord
    obtain ⟨before, hbefore, hid, _, _⟩ := hkeeps.back hrecord
    obtain ⟨key', root, hroot, hfirst, hreach⟩ := h.rooted hbefore
    obtain ⟨root', hroot', hid', hreplaces', _, _⟩ := hkeeps.forth hroot
    refine ⟨key', root', hroot', hreplaces'.trans hfirst, ?_⟩
    rw [hid, hid']
    refine mono_chain ?_ hreach
    intro k record hrecord
    obtain ⟨record', hrecord', hsameId, hsameLink, _, _⟩ := hkeeps.forth hrecord
    exact ⟨record', hrecord', hsameId, hsameLink⟩

section Update

variable [DecidableEq Key]

/-- Overwriting a record with one of the same id, link and details keeps the
chains, unless it brings the record back to life. -/
theorem overwrite (h : view.Linked table) {key : Key} {old new : Record}
    (hold : table key = some old) (hid : view.id new = view.id old)
    (hreplaces : view.replaces new = view.replaces old)
    (hdetail : view.detail new = view.detail old)
    (hlive : view.live old = false → view.live new = false) :
    view.Linked (Function.update table key (some new)) := by
  refine h.of_keeps ⟨?_, ?_⟩
  · intro other record hrecord
    by_cases hother : other = key
    · subst hother
      rw [hold] at hrecord
      cases hrecord
      exact ⟨new, Function.update_self .., hid, hreplaces, hdetail, hlive⟩
    · exact ⟨record, by rw [Function.update_of_ne hother, hrecord], rfl, rfl, rfl,
        fun hretired => hretired⟩
  · intro other record' hrecord'
    rcases update_cases hrecord' with ⟨rfl, rfl⟩ | hbefore
    · exact ⟨old, hold, hid, hreplaces, hdetail⟩
    · exact ⟨record', hbefore, rfl, rfl, rfl⟩

/-- Where related records stand under one key, a new record that is related to none
of them changes nothing. -/
theorem keys_eq_of_update {key : Key} {new : Record} {R : Record → Record → Prop}
    (hold : ∀ {k k' record record'}, table k = some record →
      table k' = some record' → R record record' → k = k')
    (hleft : ∀ {k record}, table k = some record → ¬ R new record)
    (hright : ∀ {k record}, table k = some record → ¬ R record new)
    {k k' : Key} {record record' : Record}
    (hrecord : Function.update table key (some new) k = some record)
    (hrecord' : Function.update table key (some new) k' = some record')
    (hrelated : R record record') : k = k' := by
  rcases update_cases hrecord with ⟨rfl, rfl⟩ | hfound
  · rcases update_cases hrecord' with ⟨rfl, rfl⟩ | hfound'
    · rfl
    · exact absurd hrelated (hleft hfound')
  · rcases update_cases hrecord' with ⟨rfl, rfl⟩ | hfound'
    · exact absurd hrelated (hright hfound)
    · exact hold hfound hfound' hrelated

/-- What a new record may replace: nothing, or a retired record with its details
that nothing else replaces. -/
def Succeeds (view : Succession Record Id Detail) (table : Key → Option Record)
    (new : Record) : Prop :=
  view.replaces new = none ∨ ∃ key old, table key = some old ∧
    view.replaces new = some (view.id old) ∧ view.live old = false ∧
    view.detail old = view.detail new ∧
    ∀ key' record, table key' = some record →
      view.replaces record ≠ some (view.id old)

/-- A new record under a free key and with a new id keeps the chains. -/
theorem insert (h : view.Linked table) {key : Key} {new : Record}
    (hfree : table key = none)
    (hid : ∀ key' record, table key' = some record → view.id record ≠ view.id new)
    (hsucceeds : Succeeds view table new) :
    view.Linked (Function.update table key (some new)) := by
  have hforth : ∀ {k record}, table k = some record →
      Function.update table key (some new) k = some record :=
    update_of_free hfree
  have hchain : ∀ {a b}, view.Chain table a b →
      view.Chain (Function.update table key (some new)) a b :=
    mono_chain fun k record hrecord => ⟨record, hforth hrecord, rfl, rfl⟩
  refine ⟨?_, ?_, ?_, ?_⟩
  · intro k k' record record' hrecord hrecord' hids
    exact keys_eq_of_update (R := fun a b => view.id a = view.id b) h.unique
      (fun hfound => (hid _ _ hfound).symm) (fun hfound => hid _ _ hfound)
      hrecord hrecord' hids
  · intro k record id hrecord hlink
    rcases update_cases hrecord with ⟨rfl, rfl⟩ | hold
    · rcases hsucceeds with hnone | ⟨k', old, hold, hreplaces, hretired, hdetail, _⟩
      · rw [hnone] at hlink
        cases hlink
      · rw [hreplaces] at hlink
        cases hlink
        exact ⟨k', old, hforth hold, rfl, hretired, hdetail⟩
    · obtain ⟨k', old, hfound, hrest⟩ := h.replaced hold hlink
      exact ⟨k', old, hforth hfound, hrest⟩
  · -- the new record is the only one that replaces its predecessor
    have hnew : ∀ {k record id}, table k = some record →
        view.replaces record = some id → view.replaces new ≠ some id := by
      intro k record id hrecord hlink hlink'
      rcases hsucceeds with hnone | ⟨_, old, _, hreplaces, _, _, honly⟩
      · rw [hnone] at hlink'
        cases hlink'
      · rw [hreplaces] at hlink'
        cases hlink'
        exact honly k record hrecord hlink
    intro k k' record record' id hrecord hrecord' hlink hlink'
    refine keys_eq_of_update
      (R := fun a b => view.replaces a = some id ∧ view.replaces b = some id)
      (fun hfound hfound' hboth => h.once hfound hfound' hboth.1 hboth.2) ?_ ?_
      hrecord hrecord' ⟨hlink, hlink'⟩
    · rintro k record hfound ⟨hleft, hright⟩
      exact hnew hfound hright hleft
    · rintro k record hfound ⟨hleft, hright⟩
      exact hnew hfound hleft hright
  · intro k record hrecord
    rcases update_cases hrecord with ⟨rfl, rfl⟩ | hold
    · -- the root of a new record is its own, or that of its predecessor
      rcases hsucceeds with hnone | ⟨k', old, hold, hreplaces, _, _, _⟩
      · exact ⟨k, record, hrecord, hnone, .refl⟩
      · obtain ⟨k'', root, hroot, hfirst, hreach⟩ := h.rooted hold
        refine ⟨k'', root, hforth hroot, hfirst, (hchain hreach).tail ?_⟩
        exact ⟨k, record, hrecord, hreplaces, rfl⟩
    · obtain ⟨k', root, hroot, hfirst, hreach⟩ := h.rooted hold
      exact ⟨k', root, hforth hroot, hfirst, hchain hreach⟩

end Update

end Linked

end Succession

end Library
end Paystream
