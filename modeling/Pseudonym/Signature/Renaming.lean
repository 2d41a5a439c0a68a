import Pseudonym.Signature.Scan
import Pseudonym.Text.Cut
import Pseudonym.Traced

/-!
# Renaming in generic signatures

Every class that a signature names is handed to a renaming, in the order of the text. The name of a
nested class is written as a simple name behind the new name of the class around it: what follows
that name and `$`, or, if the renaming does not keep the nesting, the last segment of the new name.
Type variables and type parameters stay.
-/

namespace Pseudonym.Signature

open Descriptor Text

variable {ω : Type}

/-- Whether a character separates the segments of an internal name. -/
def isNameSeparator (c : Char) : Bool := c == '$' || c == '/'

/-- The last segment of an internal name. -/
def lastSegment (name : List Char) : List Char :=
  match cutLast? isNameSeparator name with
  | some (_, last) => last
  | none => name

/-- The simple name that is written for a class nested in another one, by their new names. -/
def simpleName (outer nested : String) : List Char :=
  match (outer.toList ++ ['$']).isPrefixOf? nested.toList with
  | some simple => simple
  | none => lastSegment nested.toList

/-- Writes pieces with their classes renamed. `around` holds the new names of the class types that
are open, innermost first. -/
def renamePieces (f : String → Traced ω String) : (around : List String) → List Piece →
    Traced ω (List Char)
  | _, [] => pure []
  | around, .char c :: pieces => (c :: ·) <$> renamePieces f around pieces
  | around, .close :: pieces => (';' :: ·) <$> renamePieces f around.tail pieces
  | around, .outer name :: pieces => do
    let renamed ← f name
    (renamed.toList ++ ·) <$> renamePieces f (renamed :: around) pieces
  | around, .inner name :: pieces => do
    let renamed ← f name
    (simpleName (around.headD "") renamed ++ ·) <$> renamePieces f (renamed :: around.tail) pieces

/-- Renames the classes in a signature. -/
def rename (f : String → Traced ω String) (signature : String) : Traced ω String := do
  let scan := scan signature.toList
  let text ← renamePieces f [] scan.pieces
  match scan.fault with
  | some fault => Traced.fail (.malformedDescriptor signature fault)
  | none => return String.ofList text

end Pseudonym.Signature
