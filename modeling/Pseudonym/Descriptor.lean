import Pseudonym.Error
import Pseudonym.Text.Utf8

/-!
# Descriptors

A descriptor spells a type: one letter for a primitive type, `L`, an internal name and `;` for a
class, one `[` in front for each array dimension, `V` for no value at all. A method descriptor
spells its parameters between parentheses and then its result. The types below hold exactly what
descriptors can say, names apart: a parameter is never void and the element of an array is never an
array. `toText` writes a type; reading is in `Pseudonym.Descriptor.Scan`.
-/

namespace Pseudonym

/-- The primitive types. -/
inductive Primitive where
  | byte | char | double | float | int | long | short | boolean
deriving DecidableEq, Repr

/-- The letter of a primitive type. -/
def Primitive.letter : Primitive → Char
  | byte => 'B'
  | char => 'C'
  | double => 'D'
  | float => 'F'
  | int => 'I'
  | long => 'J'
  | short => 'S'
  | boolean => 'Z'

/-- The primitive type of a letter. -/
def Primitive.ofLetter? : Char → Option Primitive
  | 'B' => some byte
  | 'C' => some char
  | 'D' => some double
  | 'F' => some float
  | 'I' => some int
  | 'J' => some long
  | 'S' => some short
  | 'Z' => some boolean
  | _ => none

/-- What stands behind the brackets of a type. -/
inductive ElementType where
  | primitive (kind : Primitive)
  /-- A class by its internal name. -/
  | object (name : String)
deriving DecidableEq, Repr

/-- The type of a value: an element type under a number of array dimensions. -/
structure FieldType where
  /-- The number of array dimensions. -/
  dimensions : Nat
  /-- The type behind the brackets. -/
  element : ElementType
deriving DecidableEq, Repr

/-- A type, or the absence of a value. -/
inductive TypeDescriptor where
  /-- No value. -/
  | void
  | value (type : FieldType)
deriving DecidableEq, Repr

/-- The type of a method. -/
structure MethodDescriptor where
  /-- The types of the parameters, in order. -/
  parameters : List FieldType
  /-- The type of the result. -/
  result : TypeDescriptor
deriving DecidableEq, Repr

namespace ElementType

def toText : ElementType → List Char
  | primitive kind => [kind.letter]
  | object name => 'L' :: name.toList ++ [';']

/-- The class that an element type names. -/
def name? : ElementType → Option String
  | primitive _ => none
  | object name => some name

/-- The element type with its class renamed. -/
def renameM {m : Type → Type} [Monad m] (f : String → m String) : ElementType → m ElementType
  | primitive kind => pure (primitive kind)
  | object name => object <$> f name

end ElementType

namespace FieldType

def toText (t : FieldType) : List Char := List.replicate t.dimensions '[' ++ t.element.toText

/-- The type with its class renamed. -/
def renameM {m : Type → Type} [Monad m] (f : String → m String) (t : FieldType) : m FieldType :=
  (⟨t.dimensions, ·⟩) <$> t.element.renameM f

end FieldType

namespace TypeDescriptor

def toText : TypeDescriptor → List Char
  | void => ['V']
  | value t => t.toText

/-- The class that a type names, arrays included. -/
def elementName? : TypeDescriptor → Option String
  | void => none
  | value t => t.element.name?

/-- The internal name of a class type, which an array is not. -/
def internalName? : TypeDescriptor → Option String
  | value ⟨0, .object name⟩ => some name
  | _ => none

/-- Whether the type is primitive or void. -/
def isPrimitive : TypeDescriptor → Bool
  | void | value ⟨0, .primitive _⟩ => true
  | _ => false

/-- The type with its class renamed. -/
def renameM {m : Type → Type} [Monad m] (f : String → m String) : TypeDescriptor → m TypeDescriptor
  | void => pure void
  | value t => value <$> t.renameM f

end TypeDescriptor

namespace MethodDescriptor

/-- The text of a method type. -/
def toText (d : MethodDescriptor) : List Char :=
  '(' :: d.parameters.flatMap FieldType.toText ++ ')' :: d.result.toText

/-- The classes that a method type names, parameters first. -/
def names (d : MethodDescriptor) : List String :=
  d.parameters.filterMap (·.element.name?) ++ d.result.elementName?.toList

end MethodDescriptor

/-- The characters that no name in a descriptor may hold. -/
def isIllegalInName (c : Char) : Bool :=
  c == '(' || c == ')' || c == '[' || c == '.' || c == ';' || c == '<' || c == '>'

end Pseudonym
