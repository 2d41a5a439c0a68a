import Pseudonym.Mapping
import Pseudonym.Token
import Pseudonym.Workspace

/-!
# Generated names

Everything that a primary class declares gets its token as its new name, apart from methods that are
found by their names. Everything else keeps its name. A class that keeps its name must not carry the
opening marker: such a class was renamed before, and renaming what refers to it would lose names.
-/

namespace Pseudonym

/-- Names of methods that the virtual machine or a launcher looks for. -/
def defaultReserved : List String := ["<init>", "<clinit>", "main"]

namespace Mapping

variable (symbols : SymbolSource) (m : Markers)

/-- Whether what a class declares gets new names. -/
def inScope (owner : String) : Except Error Bool :=
  if symbols.isPrimary owner then .ok true
  else if m.isEncoded owner then .error (.alreadyRenamed owner)
  else .ok false

/-- The token of a name if its owner is in scope. -/
def tokenIn (owner name : String) (isClass : Bool) : Except Error (Option String) := do
  if ← inScope symbols m owner then return some (← m.encode name isClass) else return none

/-- The mapping that gives tokens to what primary classes declare. Methods with a reserved name keep
it. -/
def generated (reserved : List String) : Mapping where
  className name := tokenIn symbols m name name true
  fieldName owner name _ := tokenIn symbols m owner name false
  methodName owner name _ := do
    if ← inScope symbols m owner then
      if reserved.contains name then return none
      else return some (← m.encode name false)
    else return none
  variableName _ _ _ _ _ _ := .ok none

end Mapping

end Pseudonym
