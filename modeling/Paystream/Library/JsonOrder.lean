import Paystream.Library.Json

/-!
# JSON values through a store that orders keys

A script engine enumerates the members of an object in a fixed order: first the
keys that are array indices, ascending, then the other ones as they were added
(`inEngineOrder`).  A store with a binary JSON type keeps keys and values but not
that order: it sorts the keys by length and then bytewise.  `readBack` is the
value the engine gets from the store.

`readBack_eq_self_iff`: a value comes back as it was exactly when, at every depth,
the keys that are no array indices are in the order of the store.
-/

namespace Paystream
namespace Library
namespace Json

/-- A member of an object. -/
abbrev Member := Text × Json

/-! ## The two orders -/

/-- The key as an array index: a number below `2 ^ 32 - 1` without leading
zeros. -/
def arrayIndex (key : Text) : Option Nat :=
  let value := Nat.ofDigitChars 10 key 0
  if key = ['0'] ∨ (key ≠ [] ∧ key.head? ≠ some '0') then
    if key.all Char.isDigit ∧ value < 2 ^ 32 - 1 then some value else none
  else
    none

def isIndex (member : Member) : Bool := (arrayIndex member.1).isSome

/-- The indices of two members are in ascending order. -/
def indexLE (a b : Member) : Prop := (arrayIndex a.1).getD 0 ≤ (arrayIndex b.1).getD 0

instance : DecidableRel indexLE := fun a b =>
  inferInstanceAs (Decidable ((arrayIndex a.1).getD 0 ≤ (arrayIndex b.1).getD 0))

/-- The bytes of a key in UTF-8. -/
def keyBytes (key : Text) : List Nat :=
  key.flatMap fun c => (String.utf8EncodeChar c).map UInt8.toNat

/-- The order of the store: shorter keys first, then bytewise. -/
def keyLE (a b : Text) : Prop :=
  toLex ((keyBytes a).length, keyBytes a) ≤ toLex ((keyBytes b).length, keyBytes b)

instance : DecidableRel keyLE := fun a b =>
  inferInstanceAs (Decidable (toLex ((keyBytes a).length, keyBytes a) ≤
    toLex ((keyBytes b).length, keyBytes b)))

def memberLE (a b : Member) : Prop := keyLE a.1 b.1

instance : DecidableRel memberLE := fun a b =>
  inferInstanceAs (Decidable (keyLE a.1 b.1))

instance : Std.Total indexLE := ⟨fun _ _ => le_total _ _⟩

instance : IsTrans Member indexLE := ⟨fun _ _ _ hab hbc => hab.trans hbc⟩

instance : Std.Total memberLE := ⟨fun _ _ => le_total _ _⟩

instance : IsTrans Member memberLE := ⟨fun _ _ _ hab hbc => hab.trans hbc⟩

/-! ## Enumerating and storing -/

/-- The order in which the engine enumerates members that were added in this
order. -/
def enumerate (members : List Member) : List Member :=
  (members.filter isIndex).insertionSort indexLE ++
    members.filter fun member => !isIndex member

mutual

/-- The value that comes back from the store. -/
def readBack : Json → Json
  | .null => .null
  | .bool value => .bool value
  | .num text => .num text
  | .str text => .str text
  | .arr items => .arr (readItems items)
  | .obj members =>
      .obj (enumerate ((readMembers members).insertionSort memberLE))
termination_by structural value => value

def readItems : List Json → List Json
  | [] => []
  | item :: items => item.readBack :: readItems items
termination_by structural items => items

def readMembers : List (Text × Json) → List (Text × Json)
  | [] => []
  | (key, value) :: members => (key, value.readBack) :: readMembers members
termination_by structural members => members

end

/-- An object of the engine has distinct keys, the array indices first and
ascending. -/
def objectInEngineOrder : Json → Bool
  | .obj members =>
      decide ((members.map Prod.fst).Nodup ∧
        (members.filter isIndex).Pairwise (fun a b => ¬ indexLE b a) ∧
        members = members.filter isIndex ++
          members.filter (fun member => !isIndex member))
  | _ => true

/-- A value as the engine holds it. -/
def inEngineOrder (value : Json) : Bool := value.everywhere objectInEngineOrder

/-- The values of the engine. -/
abbrev EngineValue := { value : Json // value.inEngineOrder = true }

/-- The keys of an object that are no array indices are in the order of the
store. -/
def objectInStoreOrder : Json → Bool
  | .obj members =>
      decide ((members.filter fun member => !isIndex member).Pairwise memberLE)
  | _ => true

/-- The same at every depth. -/
def namesInStoreOrder (value : Json) : Bool := value.everywhere objectInStoreOrder

/-! ## Members, one by one -/

theorem readItems_eq_map (items : List Json) :
    readItems items = items.map readBack := by
  induction items with
  | nil => rfl
  | cons item items ih => simp [readItems, ih]

theorem readMembers_eq_map (members : List Member) :
    readMembers members = members.map fun member => (member.1, member.2.readBack) := by
  induction members with
  | nil => rfl
  | cons member members ih => simp [readMembers, ih]

/-! ## One object -/

theorem enumerate_perm (members : List Member) : (enumerate members).Perm members := by
  have hsorted := List.perm_insertionSort indexLE (members.filter isIndex)
  have hparts : (members.filter isIndex ++
      members.filter (fun member => !isIndex member)).Perm members :=
    List.filter_append_perm isIndex members
  exact (hsorted.append_right _).trans hparts

/-- The names of an enumeration are the names that were added, in that order. -/
theorem filter_enumerate (members : List Member) :
    (enumerate members).filter (fun member => !isIndex member) =
      members.filter fun member => !isIndex member := by
  have hindices : ((members.filter isIndex).insertionSort indexLE).filter
      (fun member => !isIndex member) = [] := by
    rw [List.filter_eq_nil_iff]
    intro member hmember
    rw [List.mem_insertionSort, List.mem_filter] at hmember
    simp [hmember.2]
  unfold enumerate
  rw [List.filter_append, hindices, List.nil_append, List.filter_filter]
  simp

section Object

variable {members : List Member}

/-- An object whose values all come back as they were, and whose names are in the
order of the store, is enumerated as before. -/
theorem enumerate_sort_of_names
    (hindices : (members.filter isIndex).Pairwise (fun a b => ¬ indexLE b a))
    (hfirst : members = members.filter isIndex ++
      members.filter (fun member => !isIndex member))
    (hnames : (members.filter fun member => !isIndex member).Pairwise memberLE) :
    enumerate (members.insertionSort memberLE) = members := by
  have hperm := List.perm_insertionSort memberLE members
  -- the names are a sorted sublist, which the sort leaves in place
  have hsublist : (members.filter fun member => !isIndex member).Sublist
      ((members.insertionSort memberLE).filter fun member => !isIndex member) := by
    have hkept := (List.sublist_insertionSort hnames List.filter_sublist).filter
      (fun member => !isIndex member)
    rw [List.filter_filter] at hkept
    simpa using hkept
  have hsame : (members.insertionSort memberLE).filter
      (fun member => !isIndex member) =
        members.filter fun member => !isIndex member :=
    (hsublist.eq_of_length (hperm.filter _).length_eq.symm).symm
  -- the indices are distinct, so there is one ascending order of them
  have hdistinct : ∀ a ∈ members.filter isIndex, ∀ b ∈ members.filter isIndex,
      indexLE a b → indexLE b a → a = b := by
    intro a ha b hb hab hba
    by_contra hne
    rcases List.pairwise_iff_getElem.mp hindices with h
    obtain ⟨i, hi, rfl⟩ := List.getElem_of_mem ha
    obtain ⟨j, hj, rfl⟩ := List.getElem_of_mem hb
    rcases Nat.lt_trichotomy i j with hij | rfl | hji
    · exact h i j hi hj hij hba
    · exact hne rfl
    · exact h j i hj hi hji hab
  have hascending : ((members.insertionSort memberLE).filter isIndex).insertionSort
      indexLE = members.filter isIndex := by
    have hparts : (((members.insertionSort memberLE).filter isIndex).insertionSort
        indexLE).Perm (members.filter isIndex) :=
      (List.perm_insertionSort indexLE _).trans (hperm.filter _)
    refine List.Perm.eq_of_pairwise ?_
      (List.pairwise_insertionSort indexLE _) ?_ hparts
    · intro a b ha hb
      exact hdistinct a (hparts.mem_iff.mp ha) b hb
    · refine hindices.imp ?_
      intro a b hnot
      exact (le_total _ _).resolve_right hnot
  unfold enumerate
  rw [hascending, hsame]
  exact hfirst.symm

/-- An object that comes back as it was: its values do, and its names are in the
order of the store. -/
theorem of_enumerate_sort_eq (hnodup : (members.map Prod.fst).Nodup)
    (hback : enumerate ((readMembers members).insertionSort memberLE) = members) :
    (members.filter fun member => !isIndex member).Pairwise memberLE ∧
      ∀ member ∈ members, member.2.readBack = member.2 := by
  constructor
  · have hsorted := (List.pairwise_insertionSort memberLE
      (readMembers members)).filter (fun member => !isIndex member)
    rw [← filter_enumerate, hback] at hsorted
    exact hsorted
  · intro member hmember
    have hperm : (readMembers members).Perm members := by
      have h := (enumerate_perm ((readMembers members).insertionSort memberLE)).trans
        (List.perm_insertionSort memberLE _)
      rw [hback] at h
      exact h.symm
    have hread : (member.1, member.2.readBack) ∈ members := by
      rw [← hperm.mem_iff, readMembers_eq_map]
      exact List.mem_map.mpr ⟨member, hmember, rfl⟩
    -- one key, one value
    have hequal := List.inj_on_of_nodup_map hnodup hread hmember rfl
    exact congrArg Prod.snd hequal

end Object

/-! ## Every value -/

/-- A value of the engine comes back from the store as it was exactly when its
names are in the order of the store, at every depth. -/
theorem readBack_eq_self_iff {value : Json} (h : value.inEngineOrder = true) :
    value.readBack = value ↔ value.namesInStoreOrder = true := by
  induction value using Json.induction with
  | null => exact iff_of_true rfl rfl
  | bool value => exact iff_of_true rfl rfl
  | num text => exact iff_of_true rfl rfl
  | str text => exact iff_of_true rfl rfl
  | arr items ih =>
      rw [inEngineOrder, everywhere_arr_iff] at h
      have htest : objectInStoreOrder (.arr items) = true := rfl
      rw [readBack, readItems_eq_map, Json.arr.injEq, namesInStoreOrder,
        everywhere_arr_iff, and_iff_right htest]
      constructor
      · intro hback item hitem
        have hitem' : item.readBack = item := by
          have hid : items.map readBack = items.map id := by
            rw [hback, List.map_id]
          exact List.map_inj_left.mp hid item hitem
        exact (ih item hitem (h.2 item hitem)).mp hitem'
      · intro hnames
        have hid : items.map readBack = items.map id := by
          apply List.map_congr_left
          intro item hitem
          exact (ih item hitem (h.2 item hitem)).mpr (hnames item hitem)
        rw [hid, List.map_id]
  | obj members ih =>
      rw [inEngineOrder, everywhere_obj_iff, objectInEngineOrder,
        decide_eq_true_eq] at h
      -- here the order of the names can change, besides what is below them
      obtain ⟨⟨hnodup, hindices, hfirst⟩, hvalues⟩ := h
      rw [readBack, Json.obj.injEq, namesInStoreOrder, everywhere_obj_iff,
        objectInStoreOrder, decide_eq_true_eq]
      constructor
      · intro hback
        obtain ⟨hnames, hread⟩ := of_enumerate_sort_eq hnodup hback
        refine ⟨hnames, ?_⟩
        intro member hmember
        exact (ih member hmember (hvalues member hmember)).mp (hread member hmember)
      · rintro ⟨hnames, hdeep⟩
        have hread : readMembers members = members := by
          have hid : (members.map fun member => (member.1, member.2.readBack)) =
              members.map id := by
            apply List.map_congr_left
            intro member hmember
            rw [(ih member hmember (hvalues member hmember)).mpr
              (hdeep member hmember)]
            rfl
          rw [readMembers_eq_map, hid, List.map_id]
        rw [hread]
        exact enumerate_sort_of_names hindices hfirst hnames

end Json
end Library
end Paystream
