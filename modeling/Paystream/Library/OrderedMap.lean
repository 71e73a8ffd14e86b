import Mathlib.Data.List.Nodup
import Mathlib.Logic.Function.Basic

/-!
# Maps that keep the order of insertion

A map that enumerates its entries in the order in which their keys were first
added: setting a key that is there keeps its place, a new one goes to the end.
`find` is the first entry in that order whose value passes a test.

To everybody who only looks keys up it is a function (`get_set`, `get_modify`).
-/

namespace Paystream
namespace Library

structure OrderedMap (Key Value : Type) where
  entries : List (Key × Value)
  nodup : (entries.map Prod.fst).Nodup

namespace OrderedMap

variable {Key Value : Type}

def empty : OrderedMap Key Value := ⟨[], List.nodup_nil⟩

/-- The first entry whose value passes the test. -/
def find (map : OrderedMap Key Value) (test : Value → Bool) : Option (Key × Value) :=
  map.entries.find? fun entry => test entry.2

@[ext] theorem ext {map map' : OrderedMap Key Value}
    (h : map.entries = map'.entries) : map = map' := by
  cases map
  cases map'
  cases h
  rfl

/-- The entries that pass a test. -/
def restrict (map : OrderedMap Key Value) (keep : Key × Value → Bool) :
    OrderedMap Key Value :=
  ⟨map.entries.filter keep, map.nodup.sublist (List.filter_sublist.map Prod.fst)⟩

theorem mem_restrict {map : OrderedMap Key Value} {keep : Key × Value → Bool}
    {entry : Key × Value} :
    entry ∈ (map.restrict keep).entries ↔ entry ∈ map.entries ∧ keep entry = true :=
  List.mem_filter

section Lookup

variable [DecidableEq Key]

def get (map : OrderedMap Key Value) (key : Key) : Option Value :=
  (map.entries.find? fun entry => decide (entry.1 = key)).map Prod.snd

/-- The entries, with the value under one key changed. -/
def changeAt (key : Key) (f : Value → Value) (entries : List (Key × Value)) :
    List (Key × Value) :=
  entries.map fun entry => if entry.1 = key then (entry.1, f entry.2) else entry

theorem changeAt_keys (key : Key) (f : Value → Value)
    (entries : List (Key × Value)) :
    (changeAt key f entries).map Prod.fst = entries.map Prod.fst := by
  unfold changeAt
  rw [List.map_map]
  apply List.map_congr_left
  intro entry _
  show (if entry.1 = key then (entry.1, f entry.2) else entry).1 = entry.1
  split
  · rfl
  · rfl

/-- Change the value under a key, if there is one. -/
def modify (map : OrderedMap Key Value) (key : Key) (f : Value → Value) :
    OrderedMap Key Value :=
  ⟨changeAt key f map.entries, by
    rw [changeAt_keys]
    exact map.nodup⟩

/-- Set the value under a key. -/
def set (map : OrderedMap Key Value) (key : Key) (value : Value) :
    OrderedMap Key Value :=
  if h : key ∈ map.entries.map Prod.fst then
    map.modify key fun _ => value
  else
    ⟨map.entries ++ [(key, value)], by
      rw [List.map_append, List.nodup_append]
      refine ⟨map.nodup, List.nodup_singleton key, ?_⟩
      intro other hother new hnew
      rintro rfl
      have hkey : other = key := List.mem_singleton.mp hnew
      exact h (hkey ▸ hother)⟩

/-! ## Lookups -/

theorem mem_of_get {map : OrderedMap Key Value} {key : Key} {value : Value}
    (h : map.get key = some value) : (key, value) ∈ map.entries := by
  obtain ⟨entry, hentry, rfl⟩ := Option.map_eq_some_iff.mp h
  have hkey : entry.1 = key := by simpa using List.find?_some hentry
  rw [← hkey]
  exact List.mem_of_find?_eq_some hentry

theorem get_of_mem {map : OrderedMap Key Value} {key : Key} {value : Value}
    (h : (key, value) ∈ map.entries) : map.get key = some value := by
  unfold get
  cases hfind : map.entries.find? fun entry => decide (entry.1 = key) with
  | none =>
      have hnone := List.find?_eq_none.mp hfind (key, value) h
      simp at hnone
  | some entry =>
      have hkey : entry.1 = key := by simpa using List.find?_some hfind
      have hsame : entry = (key, value) :=
        List.inj_on_of_nodup_map map.nodup (List.mem_of_find?_eq_some hfind) h hkey
      rw [hsame]
      rfl

theorem get_eq_some_iff {map : OrderedMap Key Value} {key : Key} {value : Value} :
    map.get key = some value ↔ (key, value) ∈ map.entries :=
  ⟨mem_of_get, get_of_mem⟩

theorem find_eq_some {map : OrderedMap Key Value} {test : Value → Bool} {key : Key}
    {value : Value} (h : map.find test = some (key, value)) :
    map.get key = some value ∧ test value = true := by
  have htest := List.find?_some h
  exact ⟨get_of_mem (List.mem_of_find?_eq_some h), htest⟩

theorem find_eq_none {map : OrderedMap Key Value} {test : Value → Bool}
    (h : map.find test = none) {key : Key} {value : Value}
    (hget : map.get key = some value) : test value = false := by
  have hnone := List.find?_eq_none.mp h (key, value) (mem_of_get hget)
  simpa using hnone

/-! ## The map as a function -/

theorem get_modify_of_get {map : OrderedMap Key Value} {key : Key} {value : Value}
    (h : map.get key = some value) (f : Value → Value) :
    (map.modify key f).get = Function.update map.get key (some (f value)) := by
  have hmem := mem_of_get h
  funext other
  rw [Function.update_apply]
  split
  · rename_i hother
    subst hother
    apply get_of_mem
    exact List.mem_map.mpr ⟨(other, value), hmem, if_pos rfl⟩
  · rename_i hother
    apply Option.ext
    intro found
    rw [get_eq_some_iff, get_eq_some_iff]
    constructor
    · intro hfound
      obtain ⟨entry, hentry, heq⟩ := List.mem_map.mp hfound
      split at heq
      · rename_i hkey
        exact absurd ((Prod.mk.inj heq).1.symm.trans hkey) hother
      · rw [← heq]
        exact hentry
    · intro hfound
      exact List.mem_map.mpr ⟨(other, found), hfound, if_neg hother⟩

theorem get_set (map : OrderedMap Key Value) (key : Key) (value : Value) :
    (map.set key value).get = Function.update map.get key (some value) := by
  unfold set
  split
  · rename_i hkey
    obtain ⟨entry, hentry, hfst⟩ := List.mem_map.mp hkey
    have hget : map.get key = some entry.2 := by
      rw [← hfst]
      exact get_of_mem hentry
    exact get_modify_of_get hget fun _ => value
  · rename_i hkey
    funext other
    rw [Function.update_apply]
    split
    · rename_i hother
      subst hother
      apply get_of_mem
      exact List.mem_append_right _ List.mem_cons_self
    · rename_i hother
      apply Option.ext
      intro found
      rw [get_eq_some_iff, get_eq_some_iff, List.mem_append, List.mem_singleton]
      constructor
      · rintro (hfound | hnew)
        · exact hfound
        · exact absurd (Prod.mk.inj hnew).1 hother
      · exact Or.inl

/-! ## A part of the map -/

def erase (map : OrderedMap Key Value) (key : Key) : OrderedMap Key Value :=
  map.restrict fun entry => decide (entry.1 ≠ key)

/-- Looking up in a part of the map. -/
theorem get_restrict (map : OrderedMap Key Value) (keep : Key × Value → Bool)
    (key : Key) :
    (map.restrict keep).get key = (map.get key).filter fun value => keep (key, value) := by
  apply Option.ext
  intro value
  rw [get_eq_some_iff, mem_restrict, Option.filter_eq_some_iff, get_eq_some_iff]

/-- A change that keeps what passes the test. -/
theorem restrict_modify_of_same {map : OrderedMap Key Value}
    {keep : Key × Value → Bool} {key : Key} {f : Value → Value}
    (h : ∀ value, map.get key = some value → keep (key, f value) = keep (key, value)) :
    (map.modify key f).restrict keep = (map.restrict keep).modify key f := by
  apply ext
  show (map.entries.map _).filter keep = (map.entries.filter keep).map _
  rw [List.filter_map]
  congr 1
  apply List.filter_congr
  rintro ⟨other, value⟩ hmem
  show keep (if other = key then _ else _) = keep (other, value)
  split
  · rename_i hkey
    subst hkey
    exact h value (get_of_mem hmem)
  · rfl

/-- A change of an entry that is not in the part. -/
theorem restrict_modify_of_hidden {map : OrderedMap Key Value}
    {keep : Key × Value → Bool} {key : Key} {f : Value → Value}
    (h : ∀ value, map.get key = some value →
      keep (key, value) = false ∧ keep (key, f value) = false) :
    (map.modify key f).restrict keep = map.restrict keep := by
  rw [restrict_modify_of_same fun value hvalue => by rw [(h value hvalue).1, (h value hvalue).2]]
  apply ext
  show (map.entries.filter keep).map _ = map.entries.filter keep
  refine (List.map_congr_left (g := id) ?_).trans (List.map_id _)
  rintro ⟨other, value⟩ hmem
  obtain ⟨hentry, hkept⟩ := List.mem_filter.mp hmem
  show (if other = key then _ else _) = (other, value)
  split
  · rename_i hkey
    subst hkey
    rw [(h value (get_of_mem hentry)).1] at hkept
    cases hkept
  · rfl

theorem restrict_erase (map : OrderedMap Key Value) (keep : Key × Value → Bool)
    (key : Key) : (map.erase key).restrict keep = (map.restrict keep).erase key := by
  apply ext
  show (map.entries.filter _).filter keep = (map.entries.filter keep).filter _
  rw [List.filter_filter, List.filter_filter]
  apply List.filter_congr
  intro entry _
  exact Bool.and_comm _ _

theorem restrict_erase_of_hidden {map : OrderedMap Key Value}
    {keep : Key × Value → Bool} {key : Key}
    (h : ∀ value, map.get key = some value → keep (key, value) = false) :
    (map.erase key).restrict keep = map.restrict keep := by
  rw [restrict_erase]
  apply ext
  apply List.filter_eq_self.mpr
  rintro ⟨other, value⟩ hmem
  obtain ⟨hentry, hkept⟩ := mem_restrict.mp hmem
  simp only [decide_eq_true_eq]
  rintro rfl
  rw [h value (get_of_mem hentry)] at hkept
  cases hkept

/-- A new key goes to the end. -/
theorem set_entries_of_new {map : OrderedMap Key Value} {key : Key}
    (h : map.get key = none) (value : Value) :
    (map.set key value).entries = map.entries ++ [(key, value)] := by
  unfold set
  split
  · rename_i hkey
    obtain ⟨entry, hentry, hfst⟩ := List.mem_map.mp hkey
    have hget := @get_of_mem _ _ _ map entry.1 entry.2 hentry
    rw [hfst, h] at hget
    cases hget
  · rfl

theorem restrict_set_of_kept {map : OrderedMap Key Value} {keep : Key × Value → Bool}
    {key : Key} (h : map.get key = none) {value : Value}
    (hkept : keep (key, value) = true) :
    (map.set key value).restrict keep = (map.restrict keep).set key value := by
  apply ext
  have hpart : (map.restrict keep).get key = none := by
    rw [get_restrict, h]
    rfl
  rw [set_entries_of_new hpart]
  show (map.set key value).entries.filter keep = map.entries.filter keep ++ _
  rw [set_entries_of_new h, List.filter_append, List.filter_cons_of_pos hkept,
    List.filter_nil]

theorem restrict_set_of_hidden {map : OrderedMap Key Value}
    {keep : Key × Value → Bool} {key : Key} (h : map.get key = none) {value : Value}
    (hhidden : keep (key, value) = false) :
    (map.set key value).restrict keep = map.restrict keep := by
  apply ext
  show (map.set key value).entries.filter keep = map.entries.filter keep
  rw [set_entries_of_new h, List.filter_append,
    List.filter_cons_of_neg (by simp [hhidden]), List.filter_nil, List.append_nil]

end Lookup

end OrderedMap

end Library
end Paystream
