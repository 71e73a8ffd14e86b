import Mathlib.Data.Finset.Basic
import Paystream.Library.Json
import Paystream.Library.OrderedMap

/-!
# The sanitizer of request bodies

`backend/src/sanitize.rs`: the size limit, the address check and the stripping of
unknown fields.

`serde_json` is outside the repository.  Its `Map` is an `OrderedMap` in the order in
which it is iterated, so that a key is in it once, and `fromSlice` stands for
`serde_json::from_slice`, with `none` for an error.
-/

namespace Paystream
namespace Services
namespace Sanitize

open Library

/-- `MAX_BODY_BYTES`, 1 MB. -/
def maxBodyBytes : Nat := 1024 * 1024

structure FieldError where
  field : Text
  message : Text
  deriving DecidableEq

structure SanitizeResult where
  /-- the body without the unknown fields -/
  body : OrderedMap Text Json
  /-- the request should be rejected if there are any -/
  errors : List FieldError

/-- A parsed body, an object or any other value. -/
inductive Parsed
  | object (map : OrderedMap Text Json)
  | other (value : Json)

def isAddressField (name : Text) : Bool :=
  name = "employer".toList || name = "employee".toList || name = "admin".toList ||
    name = "token".toList || "_address".toList.isSuffixOf name

/-- `addr.len()`, which counts bytes. -/
def byteLength (addr : Text) : Nat := (addr.map Char.utf8Size).sum

/-- `'A'..='Z' | '2'..='7'`. -/
def isBase32 (c : Char) : Bool :=
  (decide ('A' ≤ c) && decide (c ≤ 'Z')) || (decide ('2' ≤ c) && decide (c ≤ '7'))

def validateStellarAddress (addr : Text) : Except Text Unit :=
  if byteLength addr ≠ 56 then
    .error ("invalid Stellar address: expected 56 characters, got ".toList ++
      Nat.toDigits 10 (byteLength addr))
  else if addr.head? ≠ some 'G' then
    .error "invalid Stellar address: must start with 'G'".toList
  else if addr.any (fun c => !isBase32 c) then
    .error "invalid Stellar address: illegal character".toList
  else
    .ok ()

/-- What is wrong with the value of a field; only a string under the name of an address
field is looked at. -/
def addressError (key : Text) (value : Json) : Option Text :=
  if isAddressField key then
    match value with
    | .str addr =>
        match validateStellarAddress addr with
        | .error message => some message
        | .ok () => none
    | _ => none
  else
    none

/-- The body of the loop over the fields. -/
def sanitizeField (allowedFields : Finset Text) (result : SanitizeResult)
    (field : Text × Json) : SanitizeResult :=
  if field.1 ∉ allowedFields then
    result
  else
    match addressError field.1 field.2 with
    | some message =>
        { result with errors := result.errors ++ [⟨field.1, message⟩] }
    | none => { result with body := result.body.set field.1 field.2 }

section

variable (fromSlice : List UInt8 → Option Parsed)

/-- The object in the body; anything else counts as one without fields. -/
def readObject (raw : List UInt8) : OrderedMap Text Json :=
  match fromSlice raw with
  | some (.object map) => map
  | _ => .empty

/-- `sanitize`. -/
def sanitize (raw : List UInt8) (allowedFields : Finset Text) :
    Except (List FieldError) SanitizeResult :=
  if maxBodyBytes < raw.length then
    .error [⟨"_body".toList, "payload exceeds maximum size of ".toList ++
      Nat.toDigits 10 maxBodyBytes ++ " bytes".toList⟩]
  else
    .ok ((readObject fromSlice raw).entries.foldl (sanitizeField allowedFields)
      ⟨.empty, []⟩)

end

end Sanitize
end Services
end Paystream
