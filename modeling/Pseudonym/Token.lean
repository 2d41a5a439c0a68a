import Pseudonym.Markers
import Pseudonym.Text.Hex
import Pseudonym.Text.Utf16

/-!
# Tokens

A token stands for a name: the opening marker, a body of ASCII letters, digits and underscores, the
closing marker. Letters and digits stand for themselves; every other character becomes one escape
per UTF-16 unit, an underscore and four lower case hexadecimal digits. In a class name a `/` becomes
the boundary of the markers, so that every package segment is a framed token of its own.

A hexadecimal digit is never an underscore, so two underscores inside a token always start a closing
marker, and one forward pass reads a token back.
-/

namespace Pseudonym.Markers

open Text

/-- The UTF-16 unit of the package separator. -/
def separatorUnit : UInt16 := 0x2F

/-- An escaped unit. -/
def escape (u : UInt16) : List Char := '_' :: hexWord u

/-- What stands for a character of a name. -/
def encodeChar (m : Markers) (isClass : Bool) (c : Char) : List Char :=
  if c.isAlphanum then [c]
  else if isClass && c == '/' then m.boundary
  else (units c).flatMap escape

/-- The token of a name. -/
def encodeText (m : Markers) (isClass : Bool) (name : List Char) : List Char :=
  m.opening ++ name.flatMap (m.encodeChar isClass) ++ m.closing

/-- Whether a name starts with the opening marker. -/
def isEncoded (m : Markers) (name : String) : Bool := m.opening.isPrefixOf name.toList

/-- Whether a name carries the markers anywhere that a token would: the opening one in front, the
closing one behind, or a boundary. -/
def carries (m : Markers) (name : String) : Bool :=
  m.isEncoded name || m.closing.isSuffixOf name.toList || contains m.boundary name.toList

/-- The token of a name. In a class name `/` separates packages, elsewhere it is a character like
any other. A name that carries the markers is refused. -/
def encode (m : Markers) (name : String) (isClass : Bool) : Except Error String :=
  if m.carries name then .error (.alreadyEncoded name)
  else .ok (String.ofList (m.encodeText isClass name.toList))

/-! ### Reading tokens -/

/-- The UTF-16 units that the body of a token spells. A bare `/`, which no token of this library
holds, is read as a separator, and an opening marker behind it belongs to it. -/
def bodyUnits (m : Markers) (body : List Char) : Except TokenFault (List UInt16) :=
  match body with
  | [] => .ok []
  | '_' :: rest =>
    if rest.head? = some '_' then
      match _h : m.boundary.isPrefixOf? ('_' :: rest) with
      | some after => return separatorUnit :: (← bodyUnits m after)
      | none => .error .brokenBoundary
    else
      match rest with
      | a :: b :: c :: d :: after =>
        match wordOfHex? lowerHexValue? a b c d with
        | some u => return u :: (← bodyUnits m after)
        | none => .error .badEscape
      | _ => .error .badEscape
  | '/' :: rest =>
    match _h : m.opening.isPrefixOf? rest with
    | some after => return separatorUnit :: (← bodyUnits m after)
    | none => return separatorUnit :: (← bodyUnits m rest)
  | c :: rest => return units c ++ (← bodyUnits m rest)
termination_by body.length
decreasing_by
  · have := congrArg List.length (append_of_isPrefixOf? _h)
    simp [boundary] at this ⊢
    omega
  · simp
    omega
  · have := congrArg List.length (append_of_isPrefixOf? _h)
    simp at this ⊢
    omega
  · simp
  · simp

/-- The text that the body of a token spells. -/
def decodeBody (m : Markers) (body : List Char) : Except TokenFault (List Char) := do
  match ofUnits? (← m.bodyUnits body) with
  | some text => .ok text
  | none => .error .unpairedSurrogate

/-- The text that a token spells. -/
def decodeText (m : Markers) (token : List Char) : Except TokenFault (List Char) :=
  match m.opening.isPrefixOf? token with
  | none => .error .noOpening
  | some framed =>
    match m.closing.isSuffixOf? framed with
    | none => .error .noClosing
    | some body => m.decodeBody body

/-- The name that a token stands for. -/
def decode (m : Markers) (token : String) : Except Error String :=
  match m.decodeText token.toList with
  | .ok name => .ok (String.ofList name)
  | .error fault => .error (.malformedToken token fault)

end Pseudonym.Markers
