import Paystream.Library.Json

/-!
# What the routes check of a value

The patterns that the validators of `api/routes` match strings against, the check
of an address in `api/services/stellarService.js`, and how a script reads a parsed
value.
-/

namespace Paystream
namespace Services

open Library

/-! ## Patterns -/

/-- `/^G[A-Z0-9]{55}$/`. -/
def matchesAddress (text : Text) : Bool :=
  match text with
  | 'G' :: rest =>
      decide (rest.length = 55) && rest.all fun c => c.isUpper || c.isDigit
  | _ => false

/-- `validateAddress` of the Stellar service, on a string. -/
def validateAddress (text : Text) : Bool :=
  decide (text.head? = some 'G') && decide (text.length = 56) &&
    text.all fun c => c.isUpper || c.isLower || (decide ('2' ≤ c) && decide (c ≤ '7'))

/-- `/^[1-9][0-9]*$/`. -/
def matchesAmount (text : Text) : Bool :=
  match text with
  | first :: rest => first.isDigit && first != '0' && rest.all Char.isDigit
  | [] => false

/-- A string that passes the test. -/
def isStringWith (test : Text → Bool) : Json → Bool
  | .str text => test text
  | _ => false

/-- An address that passes both checks. -/
def isAddress : Json → Bool :=
  isStringWith fun text => matchesAddress text && validateAddress text

/-! ## Values in a script -/

/-- The value counts as true in a condition. -/
def truthy : Json → Bool
  | .null => false
  | .bool value => value
  | .num text => decide (text.chars ≠ ['0'])
  | .str text => decide (text ≠ [])
  | .arr _ => true
  | .obj _ => true

/-- A member of an object; nothing else has members. -/
def member (name : Text) : Json → Option Json
  | .obj members => (members.find? fun member => decide (member.1 = name)).map Prod.snd
  | _ => none

/-- The value is the string. -/
def isText (text : Text) : Json → Bool
  | .str other => decide (other = text)
  | _ => false

end Services
end Paystream
