import Mathlib.Data.Char
import Paystream.Services.Sanitize

/-!
# What the sanitizer guarantees

The loop keeps the allowed fields with which nothing is wrong, and reports the others
(`body_sanitizeFields`, `errors_sanitizeFields`).  Only strings are looked at, so a
body without errors may have any other value under the name of an address field:
`sanitize_guarantees_iff` says when it does not.
-/

namespace Paystream
namespace Properties

open Library
open Services
open Services.Sanitize

/-! ## The address check -/

/-- 56 characters of the base32 alphabet, the first of them a `G`. -/
structure IsStellarAddress (text : Text) : Prop where
  length : text.length = 56
  first : text.head? = some 'G'
  base32 : ∀ c ∈ text, ('A' ≤ c ∧ c ≤ 'Z') ∨ ('2' ≤ c ∧ c ≤ '7')

theorem isBase32_iff (c : Char) :
    isBase32 c = true ↔ ('A' ≤ c ∧ c ≤ 'Z') ∨ ('2' ≤ c ∧ c ≤ '7') := by
  simp [isBase32]

theorem utf8Size_of_isBase32 {c : Char} (h : isBase32 c = true) : c.utf8Size = 1 := by
  have hascii : c ≤ 'Z' := by
    rcases (isBase32_iff c).mp h with ⟨_, hle⟩ | ⟨_, hle⟩
    · exact hle
    · exact hle.trans (by decide)
  rw [Char.utf8Size_eq_one_iff]
  exact UInt32.le_trans hascii (by decide)

/-- Over the base32 alphabet, bytes are characters. -/
theorem byteLength_of_isBase32 {addr : Text} (h : ∀ c ∈ addr, isBase32 c = true) :
    byteLength addr = addr.length := by
  unfold byteLength
  have hones : addr.map Char.utf8Size = addr.map fun _ => 1 := by
    refine List.map_congr_left ?_
    intro c hc
    exact utf8Size_of_isBase32 (h c hc)
  rw [hones]
  simp

theorem validateStellarAddress_ok_iff (addr : Text) :
    validateStellarAddress addr = .ok () ↔ IsStellarAddress addr := by
  have halphabet : addr.any (fun c => !isBase32 c) = true ↔
      ¬ ∀ c ∈ addr, isBase32 c = true := by
    simp [List.any_eq_true]
  unfold validateStellarAddress
  constructor
  · intro hok
    split at hok
    · cases hok
    rename_i hbytes
    split at hok
    · cases hok
    rename_i hfirst
    split at hok
    · cases hok
    rename_i hall
    rw [halphabet, not_not] at hall
    rw [not_not] at hbytes hfirst
    rw [byteLength_of_isBase32 hall] at hbytes
    exact ⟨hbytes, hfirst, fun c hc => (isBase32_iff c).mp (hall c hc)⟩
  · intro h
    have hall : ∀ c ∈ addr, isBase32 c = true :=
      fun c hc => (isBase32_iff c).mpr (h.base32 c hc)
    rw [byteLength_of_isBase32 hall, if_neg (not_not_intro h.length),
      if_neg (not_not_intro h.first), if_neg (by rw [halphabet]; exact not_not_intro hall)]

/-- Nothing is wrong with a string exactly when it is an address. -/
theorem addressError_str_eq_none_iff {key : Text} (hkey : isAddressField key = true)
    (addr : Text) : addressError key (.str addr) = none ↔ IsStellarAddress addr := by
  rw [← validateStellarAddress_ok_iff]
  unfold addressError
  rw [if_pos hkey]
  dsimp only
  cases validateStellarAddress addr with
  | error message => simp
  | ok _ => simp

/-- A value that is no string is not looked at. -/
theorem addressError_eq_none_of_not_str {key : Text} {value : Json}
    (h : ∀ addr, value ≠ .str addr) : addressError key value = none := by
  unfold addressError
  split
  · cases value with
    | str addr => exact absurd rfl (h addr)
    | _ => rfl
  · rfl

/-! ## The loop -/

/-- The error reported for a field. -/
def fieldError (allowedFields : Finset Text) (field : Text × Json) : Option FieldError :=
  if field.1 ∈ allowedFields then (addressError field.1 field.2).map (⟨field.1, ·⟩)
  else none

/-- The field goes into the body. -/
def Kept (allowedFields : Finset Text) (field : Text × Json) : Prop :=
  field.1 ∈ allowedFields ∧ addressError field.1 field.2 = none

variable {allowedFields : Finset Text}

/-- A field is stripped, reported or kept. -/
theorem sanitizeField_cases (allowedFields : Finset Text) (result : SanitizeResult)
    (field : Text × Json) :
    (field.1 ∉ allowedFields ∧ sanitizeField allowedFields result field = result) ∨
    (∃ message, field.1 ∈ allowedFields ∧ addressError field.1 field.2 = some message ∧
      sanitizeField allowedFields result field =
        { result with errors := result.errors ++ [⟨field.1, message⟩] }) ∨
    (Kept allowedFields field ∧ sanitizeField allowedFields result field =
      { result with body := result.body.set field.1 field.2 }) := by
  unfold sanitizeField Kept
  by_cases hallowed : field.1 ∈ allowedFields
  · rw [if_neg (not_not_intro hallowed)]
    cases herror : addressError field.1 field.2 with
    | some message => exact Or.inr (Or.inl ⟨message, hallowed, rfl, rfl⟩)
    | none => exact Or.inr (Or.inr ⟨⟨hallowed, rfl⟩, rfl⟩)
  · rw [if_pos hallowed]
    exact Or.inl ⟨hallowed, rfl⟩

/-- The errors are those of the fields, in order. -/
theorem errors_sanitizeFields (fields : List (Text × Json)) (result : SanitizeResult) :
    (fields.foldl (sanitizeField allowedFields) result).errors =
      result.errors ++ fields.filterMap (fieldError allowedFields) := by
  induction fields generalizing result with
  | nil => simp
  | cons field fields ih =>
      rw [List.foldl_cons, ih]
      rcases sanitizeField_cases allowedFields result field with
        ⟨hunknown, hstep⟩ | ⟨message, hallowed, herror, hstep⟩ | ⟨⟨hallowed, hnone⟩, hstep⟩
      · rw [hstep, List.filterMap_cons_none]
        simp [fieldError, hunknown]
      · rw [hstep, List.filterMap_cons_some (b := ⟨field.1, message⟩)]
        · simp
        · simp [fieldError, hallowed, herror]
      · rw [hstep, List.filterMap_cons_none]
        simp [fieldError, hnone]

/-- A field that is not kept can be left out. -/
theorem kept_cons_iff_of_not {fields : List (Text × Json)} {field : Text × Json}
    (hnot : ¬ Kept allowedFields field) {key : Text} {value : Json} {P : Prop} :
    ((key, value) ∈ field :: fields ∧ Kept allowedFields (key, value)) ∨
      ((∀ other, (key, other) ∈ field :: fields → ¬ Kept allowedFields (key, other)) ∧ P) ↔
    ((key, value) ∈ fields ∧ Kept allowedFields (key, value)) ∨
      ((∀ other, (key, other) ∈ fields → ¬ Kept allowedFields (key, other)) ∧ P) := by
  have hmem : ∀ other, (key, other) ∈ field :: fields ∧ Kept allowedFields (key, other) ↔
      (key, other) ∈ fields ∧ Kept allowedFields (key, other) := by
    intro other
    rw [List.mem_cons]
    constructor
    · rintro ⟨rfl | hlater, hkept⟩
      · exact absurd hkept hnot
      · exact ⟨hlater, hkept⟩
    · rintro ⟨hlater, hkept⟩
      exact ⟨Or.inr hlater, hkept⟩
  simp only [← not_and, hmem]

/-- A field that is kept decides what its key has, as no later field has this key. -/
theorem kept_cons_iff_of_kept {fields : List (Text × Json)} {field : Text × Json}
    (hkept : Kept allowedFields field) (hfresh : field.1 ∉ fields.map Prod.fst)
    (body : Text → Option Json) {key : Text} {value : Json} :
    ((key, value) ∈ field :: fields ∧ Kept allowedFields (key, value)) ∨
      ((∀ other, (key, other) ∈ field :: fields → ¬ Kept allowedFields (key, other)) ∧
        body key = some value) ↔
    ((key, value) ∈ fields ∧ Kept allowedFields (key, value)) ∨
      ((∀ other, (key, other) ∈ fields → ¬ Kept allowedFields (key, other)) ∧
        Function.update body field.1 (some field.2) key = some value) := by
  by_cases hkey : key = field.1
  · have hlater : ∀ other, (key, other) ∉ fields := by
      intro other hother
      exact hfresh (hkey ▸ List.mem_map_of_mem hother)
    subst hkey
    rw [Function.update_self]
    constructor
    · rintro (⟨hmem, _⟩ | ⟨hnone, _⟩)
      · rcases List.mem_cons.mp hmem with hfield | hmem
        · exact Or.inr ⟨fun other hother => absurd hother (hlater other),
            congrArg some (congrArg Prod.snd hfield).symm⟩
        · exact absurd hmem (hlater value)
      · exact absurd hkept (hnone field.2 (List.mem_cons_self ..))
    · rintro (⟨hmem, _⟩ | ⟨_, hvalue⟩)
      · exact absurd hmem (hlater value)
      · rw [Option.some.injEq] at hvalue
        subst hvalue
        exact Or.inl ⟨List.mem_cons_self .., hkept⟩
  · have hmem : ∀ other, (key, other) ∈ field :: fields ↔ (key, other) ∈ fields := by
      intro other
      rw [List.mem_cons, or_iff_right]
      intro heq
      exact hkey (congrArg Prod.fst heq)
    rw [Function.update_of_ne hkey]
    simp only [hmem]

/-- The body gets the fields that are kept. -/
theorem body_sanitizeFields {fields : List (Text × Json)}
    (hkeys : (fields.map Prod.fst).Nodup) (result : SanitizeResult) (key : Text)
    (value : Json) :
    (fields.foldl (sanitizeField allowedFields) result).body.get key = some value ↔
      ((key, value) ∈ fields ∧ Kept allowedFields (key, value)) ∨
      ((∀ other, (key, other) ∈ fields → ¬ Kept allowedFields (key, other)) ∧
        result.body.get key = some value) := by
  induction fields generalizing result with
  | nil => simp
  | cons field fields ih =>
      rw [List.map_cons, List.nodup_cons] at hkeys
      obtain ⟨hfresh, hrest⟩ := hkeys
      rw [List.foldl_cons, ih hrest]
      rcases sanitizeField_cases allowedFields result field with
        ⟨hunknown, hstep⟩ | ⟨message, _, herror, hstep⟩ | ⟨hkept, hstep⟩
      · have hnot : ¬ Kept allowedFields field := fun h => hunknown h.1
        rw [hstep]
        exact (kept_cons_iff_of_not hnot).symm
      · have hnot : ¬ Kept allowedFields field := by
          intro h
          rw [h.2] at herror
          cases herror
        rw [hstep]
        exact (kept_cons_iff_of_not hnot).symm
      · rw [hstep]
        dsimp only
        rw [OrderedMap.get_set]
        exact (kept_cons_iff_of_kept hkept hfresh result.body.get).symm

/-! ## The guarantee -/

/-- Every field of the body is allowed and has its value from the object; an address
field has an address. -/
def Guaranteed (allowedFields : Finset Text) (object body : OrderedMap Text Json) :
    Prop :=
  ∀ key value, body.get key = some value →
    key ∈ allowedFields ∧ object.get key = some value ∧
      (isAddressField key = true → ∃ text, value = .str text ∧ IsStellarAddress text)

section

variable (fromSlice : List UInt8 → Option Parsed) (raw : List UInt8)

/-- What is returned for a body that is not too large. -/
theorem sanitize_ok {raw : List UInt8} (hsize : raw.length ≤ maxBodyBytes)
    (allowedFields : Finset Text) :
    ∃ result, sanitize fromSlice raw allowedFields = .ok result ∧
      (∀ key value, result.body.get key = some value ↔
        (readObject fromSlice raw).get key = some value ∧
          Kept allowedFields (key, value)) ∧
      (result.errors = [] ↔ ∀ key value, (readObject fromSlice raw).get key = some value →
        fieldError allowedFields (key, value) = none) := by
  refine ⟨_, if_neg (Nat.not_lt.mpr hsize), ?_, ?_⟩
  · intro key value
    have hempty : (OrderedMap.empty : OrderedMap Text Json).get key = none := rfl
    rw [body_sanitizeFields (readObject fromSlice raw).nodup, hempty,
      OrderedMap.get_eq_some_iff]
    simp
  · rw [errors_sanitizeFields, List.nil_append, List.filterMap_eq_nil_iff]
    simp only [OrderedMap.get_eq_some_iff, Prod.forall]

/-- There is no error for a field unless it has a string that is no address. -/
theorem fieldError_eq_none_iff (allowedFields : Finset Text) (key : Text) (value : Json) :
    fieldError allowedFields (key, value) = none ↔
      ∀ addr, value = .str addr → key ∈ allowedFields → isAddressField key = true →
        IsStellarAddress addr := by
  unfold fieldError
  by_cases hallowed : key ∈ allowedFields
  · rw [if_pos hallowed, Option.map_eq_none_iff]
    by_cases hkey : isAddressField key = true
    · cases value with
      | str addr => simp [addressError_str_eq_none_iff hkey, hallowed, hkey]
      | _ => simp [addressError]
    · simp [addressError, hkey]
  · simp [hallowed]

/-- Of a body without errors, the guarantee says no more than that its address fields
have strings. -/
theorem guaranteed_iff {object body : OrderedMap Text Json}
    (hbody : ∀ key value, body.get key = some value ↔
      object.get key = some value ∧ Kept allowedFields (key, value))
    (hvalid : ∀ key value, object.get key = some value →
      fieldError allowedFields (key, value) = none) :
    Guaranteed allowedFields object body ↔
      ∀ key value, object.get key = some value → key ∈ allowedFields →
        isAddressField key = true → ∃ text, value = .str text := by
  constructor
  · intro hguaranteed key value hget hallowed hkey
    by_contra hother
    -- a value that is no string is kept
    have hkept : Kept allowedFields (key, value) :=
      ⟨hallowed, addressError_eq_none_of_not_str fun addr heq => hother ⟨addr, heq⟩⟩
    obtain ⟨_, _, haddress⟩ := hguaranteed key value ((hbody key value).mpr ⟨hget, hkept⟩)
    obtain ⟨text, htext, _⟩ := haddress hkey
    exact hother ⟨text, htext⟩
  · intro hstrings key value hkept
    obtain ⟨hget, hallowed, _⟩ := (hbody key value).mp hkept
    refine ⟨hallowed, hget, ?_⟩
    intro hkey
    obtain ⟨text, rfl⟩ := hstrings key value hget hallowed hkey
    exact ⟨text, rfl, (fieldError_eq_none_iff allowedFields key (.str text)).mp
      (hvalid key (.str text) hget) text rfl hallowed hkey⟩

/-- When `sanitize` reports no error, the guarantee holds exactly if every allowed
address field of the object has a string as its value. -/
theorem sanitize_guarantees_iff (allowedFields : Finset Text) :
    (∀ result, sanitize fromSlice raw allowedFields = .ok result → result.errors = [] →
      Guaranteed allowedFields (readObject fromSlice raw) result.body) ↔
    maxBodyBytes < raw.length ∨
    (∃ key addr, (readObject fromSlice raw).get key = some (.str addr) ∧
      key ∈ allowedFields ∧ isAddressField key = true ∧
        validateStellarAddress addr ≠ .ok ()) ∨
    (∀ key value, (readObject fromSlice raw).get key = some value →
      key ∈ allowedFields → isAddressField key = true → ∃ text, value = .str text) := by
  rcases Nat.lt_or_ge maxBodyBytes raw.length with hlarge | hsize
  · refine iff_of_true ?_ (Or.inl hlarge)
    intro result hok
    rw [sanitize, if_pos hlarge] at hok
    cases hok
  rw [or_iff_right (Nat.not_lt.mpr hsize)]
  obtain ⟨result, hresult, hbody, herrors⟩ := sanitize_ok fromSlice hsize allowedFields
  rw [hresult]
  simp only [Except.ok.injEq, forall_eq']
  by_cases hinvalid : ∃ key addr, (readObject fromSlice raw).get key = some (.str addr) ∧
      key ∈ allowedFields ∧ isAddressField key = true ∧ validateStellarAddress addr ≠ .ok ()
  · -- the string is reported, so nothing is promised
    refine iff_of_true ?_ (Or.inl hinvalid)
    obtain ⟨key, addr, hget, hallowed, hkey, hwrong⟩ := hinvalid
    intro hnone
    have hvalid := (fieldError_eq_none_iff allowedFields key (.str addr)).mp
      (herrors.mp hnone key (.str addr) hget) addr rfl hallowed hkey
    exact absurd ((validateStellarAddress_ok_iff addr).mpr hvalid) hwrong
  · rw [or_iff_right hinvalid]
    have hvalid : ∀ key value, (readObject fromSlice raw).get key = some value →
        fieldError allowedFields (key, value) = none := by
      intro key value hget
      rw [fieldError_eq_none_iff]
      rintro addr rfl hallowed hkey
      by_contra hwrong
      rw [← validateStellarAddress_ok_iff] at hwrong
      exact hinvalid ⟨key, addr, hget, hallowed, hkey, hwrong⟩
    rw [forall_prop_of_true (herrors.mpr hvalid)]
    exact guaranteed_iff hbody hvalid

end

namespace SanitizeSample

/-- The text of the number 5. -/
def five : NumberText where
  chars := ['5']
  nonempty := List.cons_ne_nil _ _
  digits := by
    intro c hc
    rw [List.mem_singleton.mp hc]
    rfl

/-- What is read of the body. -/
def object : OrderedMap Text Json :=
  ⟨[("employer".toList, .num five)], List.nodup_singleton _⟩

/-- The bytes of `{"employer":5}`. -/
def body : List UInt8 :=
  [0x7b, 0x22, 0x65, 0x6d, 0x70, 0x6c, 0x6f, 0x79, 0x65, 0x72, 0x22, 0x3a, 0x35, 0x7d]

def fromSlice (raw : List UInt8) : Option Parsed :=
  if raw = body then some (.object object) else none

end SanitizeSample

open SanitizeSample in
/-- The number 5 goes through as the employer. -/
theorem sanitize_keeps_number :
    ∃ result, sanitize fromSlice body {"employer".toList} = .ok result ∧
      result.errors = [] ∧ isAddressField "employer".toList = true ∧
      result.body.get "employer".toList = some (.num five) ∧
      ¬ Guaranteed {"employer".toList} (readObject fromSlice body) result.body := by
  have hread : readObject fromSlice body = object := by
    simp [readObject, fromSlice]
  have hok : sanitize fromSlice body {"employer".toList} = .ok ⟨object, []⟩ := by
    rw [sanitize, if_neg (by simp [maxBodyBytes, body]), hread]
    rfl
  refine ⟨_, hok, rfl, by decide, rfl, ?_⟩
  · intro hguaranteed
    obtain ⟨_, _, haddress⟩ := hguaranteed "employer".toList (.num five) rfl
    obtain ⟨text, htext, _⟩ := haddress (by decide)
    cases htext

end Properties
end Paystream
