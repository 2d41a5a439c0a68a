import Pseudonym.Workspace
import Pseudonym.Error

/-!
# Codecs

A codec reads classes from bytes and writes them to bytes. Renaming works on any format that has
one.
-/

namespace Pseudonym

/-- A format for classes. -/
structure ClassCodec where
  read (bytes : ByteArray) : Except Error ClassFile
  write (c : ClassFile) : Except Error ByteArray

/-- A codec reads back whatever it writes. -/
def ClassCodec.Lawful (codec : ClassCodec) : Prop :=
  ∀ c bytes, codec.write c = .ok bytes → codec.read bytes = .ok c

/-- What a workspace holds of a class that is given by its bytes. -/
def ClassInfo.read (codec : ClassCodec) (bytes : ByteArray) : Except Error ClassInfo := do
  return .ofClass (← codec.read bytes) bytes

end Pseudonym
