import Pseudonym.Class.Codec
import Pseudonym.Renamer

/-!
# Renaming whole classes

A class is renamed by answering each of its mentions. What refers to a member is looked up with the
names that everything had before, so that declarations and references meet again under new names.
The first failure ends the class at hand and no other one.
-/

namespace Pseudonym

/-- A renamed class. -/
structure Remapped where
  result : ClassFile
  /-- Whether any name was replaced. -/
  isModified : Bool

namespace Renamer

variable (r : Renamer)

/-- A class with everything in it renamed. -/
def remap (c : ClassFile) : Except Error Remapped := do
  let traced := c.renameM r.rename
  return ⟨← traced.outcome, !traced.log.isEmpty⟩

/-- A class with everything in it renamed, from bytes to bytes. Where nothing is replaced the bytes
stay as they are. -/
def remapBytes (codec : ClassCodec) (bytes : ByteArray) : Except Error ByteArray := do
  let remapped ← r.remap (← codec.read bytes)
  if remapped.isModified then codec.write remapped.result else return bytes

/-- Several classes with everything in them renamed, each with its own outcome. -/
def remapAll (classes : List ClassFile) : List (Except Error Remapped) := classes.map r.remap

end Renamer

end Pseudonym
