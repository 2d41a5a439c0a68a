import Pseudonym.Json.Value
import Pseudonym.Text.Hex
import Pseudonym.Text.Utf16
import Pseudonym.Text.Utf8

/-!
# Reading JSON

A document is one value, with blanks around it. Inside texts no control character stands unescaped,
and numbers have no superfluous zeros. Texts are read in two steps: first the pieces that are
written, then the characters that the pieces spell, which fails where surrogates do not pair up or a
byte is no character.
-/

namespace Pseudonym.Json

open Text

def isBlank (s : Symbol) : Bool :=
  s == some ' ' || s == some '\n' || s == some '\t' || s == some '\r'

/-- What follows after the blanks. -/
def skipBlanks (text : List Symbol) : List Symbol := text.dropWhile isBlank

/-! ### Texts -/

/-- A piece of a text. -/
inductive Piece where
  /-- A character, escaped by its name or not at all. -/
  | char (c : Char)
  /-- An escaped UTF-16 unit. -/
  | unit (u : UInt16)
  /-- A byte that belongs to no character. -/
  | stray
deriving DecidableEq, Repr

def namedEscape? : Char → Option Char
  | '"' => some '"'
  | '\\' => some '\\'
  | '/' => some '/'
  | 'b' => some (Char.ofNat 8)
  | 'f' => some (Char.ofNat 12)
  | 'n' => some '\n'
  | 'r' => some '\r'
  | 't' => some '\t'
  | _ => none

/-- Reads the pieces of a text up to the closing quote. -/
def readPieces : List Symbol → Option (List Piece × List Symbol)
  | [] => none
  | some '"' :: rest => some ([], rest)
  | some '\\' :: some 'u' :: some a :: some b :: some c :: some d :: rest => do
    let u ← wordOfHex? hexValue? a b c d
    let (pieces, rest) ← readPieces rest
    return (.unit u :: pieces, rest)
  | some '\\' :: some e :: rest => do
    let c ← namedEscape? e
    let (pieces, rest) ← readPieces rest
    return (.char c :: pieces, rest)
  | some c :: rest =>
    if c = '\\' ∨ c.toNat < 0x20 then none
    else do
      let (pieces, rest) ← readPieces rest
      return (.char c :: pieces, rest)
  | none :: rest => do
    let (pieces, rest) ← readPieces rest
    return (.stray :: pieces, rest)

def spell : List Piece → Option (List Char)
  | [] => some []
  | .char c :: pieces => (c :: ·) <$> spell pieces
  | .unit u :: .unit v :: pieces =>
    if isLeadingSurrogate u then
      if isTrailingSurrogate v then (ofSurrogates u v :: ·) <$> spell pieces else none
    else if isTrailingSurrogate u then none
    else (Char.ofNat u.toNat :: ·) <$> spell (.unit v :: pieces)
  | .unit u :: pieces =>
    if isLeadingSurrogate u || isTrailingSurrogate u then none
    else (Char.ofNat u.toNat :: ·) <$> spell pieces
  | .stray :: _ => none

/-- Reads a text behind its opening quote. -/
def readText (text : List Symbol) : Option (Option String × List Symbol) := do
  let (pieces, rest) ← readPieces text
  return ((spell pieces).map String.ofList, rest)

/-! ### Numbers -/

/-- Reads digits, as many as there are. -/
def readDigits : List Symbol → List Nat × List Symbol
  | some c :: rest =>
    if c.isDigit then
      let (digits, rest) := readDigits rest
      ((c.toNat - '0'.toNat) :: digits, rest)
    else ([], some c :: rest)
  | text => ([], text)

/-- Reads the digits in front of the point. -/
def readWhole (text : List Symbol) : Option (List Nat × List Symbol) :=
  match readDigits text with
  | ([], _) => none
  | (0 :: _ :: _, _) => none
  | read => some read

/-- Reads the digits behind the point, if there is one. -/
def readFraction : List Symbol → Option (List Nat × List Symbol)
  | some '.' :: rest =>
    match readDigits rest with
    | ([], _) => none
    | read => some read
  | text => some ([], text)

/-- Reads the digits of an exponent and gives them a sign. -/
def readPower (isNegative : Bool) (text : List Symbol) : Option (Option Int × List Symbol) :=
  match readDigits text with
  | ([], _) => none
  | (digits, rest) =>
    some (some (if isNegative then -digitsValue digits else digitsValue digits), rest)

def readExponent : List Symbol → Option (Option Int × List Symbol)
  | some c :: rest =>
    if c = 'e' ∨ c = 'E' then
      match rest with
      | some '-' :: rest => readPower true rest
      | some '+' :: rest => readPower false rest
      | rest => readPower false rest
    else some (none, some c :: rest)
  | text => some (none, text)

/-- Reads a number behind its sign. -/
def readUnsigned (isNegative : Bool) (text : List Symbol) : Option (Number × List Symbol) := do
  let (whole, rest) ← readWhole text
  let (fraction, rest) ← readFraction rest
  let (exponent, rest) ← readExponent rest
  return ({ isNegative, whole, fraction, exponent }, rest)

def readNumber : List Symbol → Option (Number × List Symbol)
  | some '-' :: rest => readUnsigned true rest
  | text => readUnsigned false text

/-! ### Values -/

/-- Reads a word that stands for a value. -/
def readWord (word : List Char) (value : Value) (text : List Symbol) :
    Option (Value × List Symbol) :=
  ((word.map some).isPrefixOf? text).map (value, ·)

mutual

/-- Reads a value; blanks may precede it. -/
def readValue : Nat → List Symbol → Option (Value × List Symbol)
  | 0, _ => none
  | fuel + 1, text =>
    match skipBlanks text with
    | some '[' :: rest =>
      match skipBlanks rest with
      | some ']' :: rest => some (.array [], rest)
      | rest => do
        let (items, rest) ← readItems fuel rest
        return (.array items, rest)
    | some '\x7b' :: rest =>
      match skipBlanks rest with
      | some '\x7d' :: rest => some (.object [], rest)
      | rest => do
        let (members, rest) ← readMembers fuel rest
        return (.object members, rest)
    | some '"' :: rest => do
      let (text, rest) ← readText rest
      return (.string text, rest)
    | some 'n' :: rest => readWord ['u', 'l', 'l'] .null rest
    | some 't' :: rest => readWord ['r', 'u', 'e'] (.bool true) rest
    | some 'f' :: rest => readWord ['a', 'l', 's', 'e'] (.bool false) rest
    | text => do
      let (n, rest) ← readNumber text
      return (.number n, rest)

/-- Reads the items of an array and its closing bracket. -/
def readItems : Nat → List Symbol → Option (List Value × List Symbol)
  | 0, _ => none
  | fuel + 1, text => do
    let (item, rest) ← readValue fuel text
    match skipBlanks rest with
    | some ']' :: rest => return ([item], rest)
    | some ',' :: rest =>
      let (items, rest) ← readItems fuel rest
      return (item :: items, rest)
    | _ => none

/-- Reads the members of an object and its closing brace. -/
def readMembers : Nat → List Symbol → Option (List (Option String × Value) × List Symbol)
  | 0, _ => none
  | fuel + 1, text =>
    match skipBlanks text with
    | some '"' :: rest => do
      let (key, rest) ← readText rest
      match skipBlanks rest with
      | some ':' :: rest =>
        let (value, rest) ← readValue fuel rest
        match skipBlanks rest with
        | some '\x7d' :: rest => return ([(key, value)], rest)
        | some ',' :: rest =>
          let (members, rest) ← readMembers fuel rest
          return ((key, value) :: members, rest)
        | _ => none
      | _ => none
    | _ => none

end

/-- Reads a document. Every value and every item takes at least one symbol, which bounds the depth
of the reading. -/
def Value.ofSymbols? (text : List Symbol) : Option Value := do
  let (value, rest) ← readValue (2 * text.length + 1) text
  if (skipBlanks rest).isEmpty then return value else none

/-- Reads a document from bytes. -/
def Value.ofBytes? (bytes : ByteArray) : Option Value := Value.ofSymbols? (symbols bytes)

end Pseudonym.Json
