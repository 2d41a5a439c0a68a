import Pseudonym.Class.Codec

/-!
# Filling a workspace

Classes are added to a workspace one after the other. A primary class may be given by its bytes, and
bytes that hold no class add nothing.
-/

namespace Pseudonym

/-- A class that is added to a workspace. -/
inductive Addition where
  | primary (info : ClassInfo)
  | library (info : ClassInfo)
  /-- A primary class that is given by its bytes. -/
  | loaded (codec : ClassCodec) (bytes : ByteArray)

namespace Workspace

/-- Adds a primary class that is given by its bytes. -/
def loadPrimary (w : Workspace) (codec : ClassCodec) (bytes : ByteArray) : Except Error Workspace := do
  return w.addPrimary (← ClassInfo.read codec bytes)

/-- Adds a class, unless it cannot be read. -/
def add (w : Workspace) : Addition → Except Error Workspace
  | .primary info => .ok (w.addPrimary info)
  | .library info => .ok (w.addLibrary info)
  | .loaded codec bytes => w.loadPrimary codec bytes

/-- What a workspace is after an addition. An addition that fails changes nothing. -/
def after (w : Workspace) (addition : Addition) : Workspace :=
  match w.add addition with
  | .ok w' => w'
  | .error _ => w

/-- The workspace that some additions make, one after the other. -/
def build (additions : List Addition) : Workspace := additions.foldl after {}

end Workspace

end Pseudonym
