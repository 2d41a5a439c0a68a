import Pseudonym.Error

/-!
# Mappings

A mapping answers which new name a symbol gets. It may leave a name alone (`none`) or refuse the
question. Two mappings come with the library: `MappingTable`, which lists new names, and
`Mapping.generated`, which makes them up.
-/

namespace Pseudonym

/-- A symbol that may get a new name. -/
inductive Entity where
  /-- A class by its internal name. -/
  | class (name : String)
  | field (owner name descriptor : String)
  | method (owner name descriptor : String)
  | component (owner name descriptor : String)
  /-- A local variable by the slot it has in a method. -/
  | variable (owner methodName methodDescriptor name descriptor : String) (index : UInt16)
deriving DecidableEq, Repr

namespace Entity

/-- The class that declares the symbol; a class counts as its own. -/
def owner : Entity → String
  | .class name => name
  | .field owner _ _ | .method owner _ _ | .component owner _ _ | .variable owner _ _ _ _ _ => owner

/-- The name that the symbol has. -/
def name : Entity → String
  | .class name | .field _ name _ | .method _ name _ | .component _ name _
  | .variable _ _ _ name _ _ => name

/-- The descriptor of the symbol, which classes lack. -/
def descriptor? : Entity → Option String
  | .class _ => none
  | .field _ _ descriptor | .method _ _ descriptor | .component _ _ descriptor
  | .variable _ _ _ _ descriptor _ => some descriptor

end Entity

/-- New names for symbols. -/
structure Mapping where
  /-- The new name of a class. -/
  className (name : String) : Except Error (Option String)
  /-- The new name of a field. -/
  fieldName (owner name descriptor : String) : Except Error (Option String)
  /-- The new name of a method. -/
  methodName (owner name descriptor : String) : Except Error (Option String)
  /-- The new name of a local variable. -/
  variableName (owner methodName methodDescriptor name descriptor : String) (index : UInt16) :
    Except Error (Option String) := .ok none

namespace Mapping

/-- The new name of a symbol. A record component gets the name of the method with its name and
descriptor. -/
def lookup (mapping : Mapping) : Entity → Except Error (Option String)
  | .class name => mapping.className name
  | .field owner name descriptor => mapping.fieldName owner name descriptor
  | .method owner name descriptor | .component owner name descriptor =>
    mapping.methodName owner name descriptor
  | .variable owner methodName methodDescriptor name descriptor index =>
    mapping.variableName owner methodName methodDescriptor name descriptor index

end Mapping

end Pseudonym
