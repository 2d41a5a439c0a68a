/-!
# JSON values

A value as it is written. Numbers keep their digits, because their meaning depends on where they
stand; objects keep their members in order, repeated keys included. A text may spell halves of
surrogate pairs or hold bytes that are no characters; such a text is `none`.
-/

namespace Pseudonym.Json

/-- The number that digits spell. -/
def digitsValue (digits : List Nat) : Nat := digits.foldl (fun n d => n * 10 + d) 0

/-- A number by its digits. -/
structure Number where
  /-- Whether a minus sign precedes the number. -/
  isNegative : Bool
  /-- The digits in front of the point. -/
  whole : List Nat
  /-- The digits behind the point; a number without a point has none. -/
  fraction : List Nat := []
  /-- The power of ten, if one is written. -/
  exponent : Option Int := none
deriving DecidableEq, Repr

/-- A JSON value. -/
inductive Value where
  | null
  | bool (value : Bool)
  | number (value : Number)
  | string (text : Option String)
  | array (items : List Value)
  | object (members : List (Option String × Value))

namespace Value

/-- A text that is well-formed. -/
def text (s : String) : Value := .string (some s)

/-- An object of members with well-formed keys. -/
def record (members : List (String × Value)) : Value :=
  .object (members.map fun member => (some member.1, member.2))

end Value

end Pseudonym.Json
