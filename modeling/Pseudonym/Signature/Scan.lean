import Pseudonym.Descriptor.Scan

/-!
# Reading generic signatures

A generic signature extends descriptors by type parameters, type arguments, type variables and
nested class types. It is read character by character by an automaton with a stack: the classes
whose type arguments are open. `scan` cuts a signature into pieces, characters that stay and classes
that are named, and says which fault ended the reading, if one did. The automaton never looks at a
new name, so what it finds depends on the text alone.

A class type such as `La/Outer<TT;>.Inner;` names two classes, `a/Outer` and then `a/Outer$Inner`.
-/

namespace Pseudonym.Signature

open Descriptor Text

/-- A piece of a signature. -/
inductive Piece where
  /-- A character that stays. -/
  | char (c : Char)
  /-- The class that a class type starts with, by its internal name. -/
  | outer (name : String)
  /-- A class nested in the one before it, by its internal name; the text shows its simple name. -/
  | inner (name : String)
  /-- The semicolon that ends a class type. -/
  | close
deriving DecidableEq, Repr

/-- The part of a signature that is being read, type arguments aside. -/
inductive Part where
  /-- The bounds of a type parameter. -/
  | bounds
  /-- The parameters of a method. -/
  | parameters
  /-- The result of a method. -/
  | result
  /-- What a method throws. -/
  | thrown
  /-- The type of a field, or the supertypes of a class. -/
  | supertypes
deriving DecidableEq, Repr

/-- What the automaton is in the middle of. -/
inductive Mode where
  /-- Nothing was read. -/
  | start
  /-- Type parameters, if any, were read. -/
  | body
  /-- The list of type parameters was opened. -/
  | typeParameters
  /-- The name of a type parameter, of which something was read. -/
  | typeParameter
  /-- A colon was read. -/
  | bound
  /-- A type ended, or a list of types was opened. -/
  | next
  /-- A type must follow. -/
  | type
  /-- A type that is not primitive must follow. -/
  | reference
  /-- The name of a type variable, of which something was read or nothing yet. -/
  | variable (named : Bool)
  /-- A name in a class type, last character first, after the class it is nested in. -/
  | segment (outer : Option String) (reversed : List Char)
  /-- The type arguments of a class were closed. -/
  | closed (name : String)
deriving DecidableEq, Repr

/-- A state of the automaton. -/
structure State where
  /-- The part at hand. -/
  part : Part
  /-- The classes whose type arguments are open, innermost first. -/
  enclosing : List String
  /-- What the automaton is in the middle of. -/
  mode : Mode
deriving DecidableEq, Repr

namespace State

/-- Before the first character. -/
def initial : State := ⟨.supertypes, [], .start⟩

def enter (s : State) (mode : Mode) : State := { s with mode }

/-- A type ended. Behind the result of a method only thrown types can follow. -/
def endType (s : State) : State :=
  match s.enclosing, s.part with
  | [], .result => { s with part := .thrown, mode := .next }
  | _, _ => s.enter .next

end State

/-- What a character does: a fault, or the next state and the pieces it completes. -/
abbrev Step := Except DescriptorFault (State × List Piece)

/-- The character stays. -/
def keep (s : State) (c : Char) : Step := .ok (s, [.char c])

/-- A type that is not primitive starts. -/
def stepReference (s : State) (c : Char) (place : Nat) : Step :=
  match c with
  | 'L' => keep (s.enter (.segment none [])) c
  | 'T' => keep (s.enter (.variable false)) c
  | '[' => keep (s.enter .type) c
  | _ => .error (.unexpected c place)

/-- A type starts; `V` counts as a type. -/
def stepType (s : State) (c : Char) (place : Nat) : Step :=
  if c == 'V' || (Primitive.ofLetter? c).isSome then keep s.endType c else stepReference s c place

/-- A type parameter starts, or their list ends. -/
def stepTypeParameters (s : State) (c : Char) : Step :=
  match c with
  | '>' => keep (s.enter .body) c
  | ':' => .error .emptyTypeParameter
  | _ => keep (s.enter .typeParameter) c

/-- Another bound starts, or the bounds of a type parameter end. -/
def stepBounds (s : State) (c : Char) : Step :=
  match c with
  | ':' => keep (s.enter .bound) c
  | _ => stepTypeParameters s c

/-- A type follows another one, or their list ends. -/
def stepNext (s : State) (c : Char) (place : Nat) : Step :=
  match s.enclosing with
  | name :: others =>
    match c with
    | '>' => keep { s with enclosing := others, mode := .closed name } c
    | '*' => keep s c
    | '+' | '-' => keep (s.enter .reference) c
    | _ => stepReference s c place
  | [] =>
    match s.part with
    | .bounds => stepBounds s c
    | .parameters =>
      match c with
      | ')' => keep { s with part := .result, mode := .type } c
      | _ => stepType s c place
    | .result | .thrown =>
      match c with
      | '^' => keep (s.enter .reference) c
      | _ => .error (.trailing place)
    | .supertypes => stepReference s c place

/-- The character behind a name in a class type. -/
def stepClosed (s : State) (name : String) (c : Char) (place : Nat) : Step :=
  match c with
  | '.' => keep (s.enter (.segment (some name) [])) c
  | ';' => .ok (s.endType, [.close])
  | _ => .error (.noSemicolon c place)

/-- The name of a class by the class it is nested in and its simple name. -/
def nestedName (outer : Option String) (simple : List Char) : String :=
  match outer with
  | none => String.ofList simple
  | some name => name ++ "$" ++ String.ofList simple

/-- The piece that a name in a class type makes. -/
def segmentPiece (outer : Option String) (simple : List Char) : Piece :=
  match outer with
  | none => .outer (nestedName none simple)
  | some name => .inner (nestedName (some name) simple)

/-- A name in a class type goes on or ends. -/
def stepSegment (s : State) (outer : Option String) (reversed : List Char) (c : Char)
    (place : Nat) : Step :=
  if c == '<' || c == '.' || c == ';' then
    if reversed.isEmpty then .error (.emptyName place)
    else
      let name := nestedName outer reversed.reverse
      let piece := segmentPiece outer reversed.reverse
      match c with
      | '<' => .ok ({ s with enclosing := name :: s.enclosing, mode := .next }, [piece, .char c])
      | '.' => .ok (s.enter (.segment (some name) []), [piece, .char c])
      | _ => .ok (s.endType, [piece, .close])
  else .ok (s.enter (.segment outer (c :: reversed)), [])

/-- What a character at an offset does in a state. -/
def step (s : State) (c : Char) (place : Nat) : Step :=
  match s.mode with
  | .start =>
    match c with
    | '<' => keep { s with part := .bounds, mode := .typeParameters } c
    | '(' => keep { s with part := .parameters, mode := .next } c
    | _ => stepReference { s with part := .supertypes } c place
  | .body =>
    match c with
    | '(' => keep { s with part := .parameters, mode := .next } c
    | _ => stepReference { s with part := .supertypes } c place
  | .typeParameters => stepTypeParameters s c
  | .typeParameter =>
    match c with
    | ':' => keep (s.enter .bound) c
    | _ => keep s c
  | .bound =>
    match c with
    | 'L' | 'T' | '[' => stepReference s c place
    | _ => stepBounds s c
  | .next => stepNext s c place
  | .type => stepType s c place
  | .reference => stepReference s c place
  | .variable named =>
    match c with
    | ';' => if named then keep s.endType c else .error .emptyTypeVariable
    | _ => keep (s.enter (.variable true)) c
  | .segment outer reversed => stepSegment s outer reversed c place
  | .closed name => stepClosed s name c place

/-- The fault of a signature that ends in a state, if it may not end there. -/
def State.faultAtEnd (s : State) : Option DescriptorFault :=
  match s.mode with
  | .start => some .emptySignature
  | .body => none
  | .typeParameters | .bound => some .unterminatedTypeParameters
  | .typeParameter | .variable _ | .type | .reference => some .unexpectedSignatureEnd
  | .segment .. => some .unterminatedClassType
  | .closed _ => some .noSemicolonAtEnd
  | .next =>
    match s.enclosing, s.part with
    | _ :: _, _ => some .unterminatedTypeArguments
    | [], .bounds => some .unterminatedTypeParameters
    | [], .parameters => some .unexpectedSignatureEnd
    | [], _ => none

/-- What a reader of a signature finds: the pieces up to the first fault, and the fault. -/
structure Scan where
  /-- The pieces, in order. -/
  pieces : List Piece
  /-- What ended the reading early. -/
  fault : Option DescriptorFault
deriving DecidableEq, Repr

/-- Reads the rest of a signature from a state and an offset on. -/
def scanFrom (place : Nat) (s : State) : List Char → Scan
  | [] => ⟨[], s.faultAtEnd⟩
  | c :: rest =>
    match step s c place with
    | .error fault => ⟨[], some fault⟩
    | .ok (next, pieces) =>
      let scan := scanFrom (place + c.utf8Size) next rest
      ⟨pieces ++ scan.pieces, scan.fault⟩

/-- Reads a signature. -/
def scan (signature : List Char) : Scan := scanFrom 0 .initial signature

end Pseudonym.Signature
