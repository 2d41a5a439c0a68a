import Pseudonym.Json.Value
import Pseudonym.Text.Hex

/-!
# Writing JSON

Values are written in one of two layouts: without any blanks, or with one item a line and two blanks
for each level. In texts only quotes, backslashes and control characters are escaped.
-/

namespace Pseudonym.Json

open Text

/-- What stands for a character of a text. -/
def escapeChar (c : Char) : List Char :=
  if c = '"' then ['\\', '"']
  else if c = '\\' then ['\\', '\\']
  else if c = '\n' then ['\\', 'n']
  else if c = '\r' then ['\\', 'r']
  else if c = '\t' then ['\\', 't']
  else if c.toNat = 8 then ['\\', 'b']
  else if c.toNat = 12 then ['\\', 'f']
  else if c.toNat < 0x20 then '\\' :: 'u' :: hexWord (.ofNat c.toNat)
  else [c]

/-- A text between quotes. -/
def quote (text : List Char) : List Char := '"' :: text.flatMap escapeChar ++ ['"']

def digitChars (digits : List Nat) : List Char := digits.map Nat.digitChar

/-- The characters of a number. An exponent always has a sign. -/
def Number.toText (n : Number) : List Char :=
  let sign := if n.isNegative then ['-'] else []
  let fraction := if n.fraction.isEmpty then [] else '.' :: digitChars n.fraction
  let exponent :=
    match n.exponent with
    | some e => 'e' :: (if e < 0 then '-' else '+') :: Nat.toDigits 10 e.natAbs
    | none => []
  sign ++ digitChars n.whole ++ fraction ++ exponent

/-- How values are laid out: without blanks, or indented by a number of levels. -/
abbrev Layout := Option Nat

namespace Layout

/-- The layout inside a value. -/
def inner (layout : Layout) : Layout := layout.map (· + 1)

/-- What stands in front of an item, or of the bracket that closes a value. -/
def lead : Layout → List Char
  | none => []
  | some level => '\n' :: List.replicate (2 * level) ' '

/-- What stands between a key and its value. -/
def colon : Layout → List Char
  | none => [':']
  | some _ => [':', ' ']

end Layout

namespace Value

mutual

def toText (layout : Layout) : Value → List Char
  | null => ['n', 'u', 'l', 'l']
  | bool true => ['t', 'r', 'u', 'e']
  | bool false => ['f', 'a', 'l', 's', 'e']
  | number n => n.toText
  | string text => quote (text.getD "").toList
  | array [] => ['[', ']']
  | array (item :: items) =>
    '[' :: layout.inner.lead ++ item.toText layout.inner ++ itemsText layout items
  | object [] => ['\x7b', '\x7d']
  | object (member :: members) =>
    '\x7b' :: layout.inner.lead ++ memberText layout member ++ membersText layout members

/-- The characters of the items behind the first one, and of the closing bracket. -/
def itemsText (layout : Layout) : List Value → List Char
  | [] => layout.lead ++ [']']
  | item :: items =>
    ',' :: layout.inner.lead ++ item.toText layout.inner ++ itemsText layout items

def memberText (layout : Layout) : Option String × Value → List Char
  | (key, value) => quote (key.getD "").toList ++ layout.colon ++ value.toText layout.inner

/-- The characters of the members behind the first one, and of the closing brace. -/
def membersText (layout : Layout) : List (Option String × Value) → List Char
  | [] => layout.lead ++ ['\x7d']
  | member :: members =>
    ',' :: layout.inner.lead ++ memberText layout member ++ membersText layout members

end

def render (layout : Layout) (v : Value) : String := String.ofList (v.toText layout)

end Value

end Pseudonym.Json
