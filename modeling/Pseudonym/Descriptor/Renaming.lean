import Pseudonym.Descriptor.Scan
import Pseudonym.Traced

/-!
# Renaming in descriptors

Every class that a descriptor names is handed to a renaming, in the order of the text, and
everything else stays. A fault is found where the text shows it: the parameters in front of it were
renamed already, the result of a method only if nothing is wrong with the text behind it. The answer
is `none` for a descriptor without any class, which there is nothing to do about.
-/

namespace Pseudonym.Descriptor

open Text

variable {ω : Type}

/-- Renames the class in a type descriptor. -/
def renameType (f : String → Traced ω String) (descriptor : String) :
    Traced ω (Option String) := do
  let type ← Traced.lift (TypeDescriptor.parse descriptor)
  let renamed ← type.renameM f
  return type.elementName?.map fun _ => String.ofList renamed.toText

/-- Renames the classes in a method descriptor. -/
def renameMethod (f : String → Traced ω String) (descriptor : String) :
    Traced ω (Option String) := do
  let scan := scanMethod descriptor.toList
  let parameters ← scan.parameters.mapM (FieldType.renameM f)
  let result ← Traced.lift (located descriptor scan.ending)
  let renamed ← result.renameM f
  if (MethodDescriptor.mk scan.parameters result).names.isEmpty then return none
  else return some (String.ofList (MethodDescriptor.mk parameters renamed).toText)

/-- Renames the classes in a descriptor of either kind; a method descriptor starts with `(`. -/
def rename (f : String → Traced ω String) (descriptor : String) : Traced ω (Option String) :=
  if descriptor.toList.head? = some '(' then renameMethod f descriptor
  else renameType f descriptor

end Pseudonym.Descriptor
