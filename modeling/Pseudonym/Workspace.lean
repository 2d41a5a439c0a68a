import Std.Data.ExtTreeMap
import Pseudonym.Class.ClassFile

/-!
# Workspaces

A workspace holds the classes that are worked on, the primary ones, and the libraries they need. A
primary class hides a library of the same name, and of two classes that were added to one side under
one name the last one counts. Everything that looks classes up asks a `SymbolSource`, for which a
workspace is one example.
-/

namespace Pseudonym

open Std

/-- A class as workspaces hold it. -/
structure ClassInfo where
  /-- The internal name. -/
  name : String
  /-- The class as it was read. -/
  bytes : ByteArray
  /-- Name and descriptor of every method. -/
  methods : List (String × String) := []
  /-- The classes that are declared inside the class. -/
  innerClasses : List String := []

/-- Whether an entry for a nested class is about a class inside the class `owner`: it says so, or
its name continues the one of `owner` after a `$`. -/
def InnerClass.isInside (i : InnerClass) (owner : String) : Bool :=
  i.name != owner &&
    (i.outerName == some owner || (owner.toList ++ ['$']).isPrefixOf i.name.toList)

namespace ClassInfo

/-- What a workspace holds of a class with given bytes. -/
def ofClass (c : ClassFile) (bytes : ByteArray) : ClassInfo where
  name := c.name
  bytes := bytes
  methods := c.methods.map fun method => (method.name, method.descriptor)
  innerClasses := (c.innerClasses.filter (·.isInside c.name)).map InnerClass.name

/-- The descriptor of the first method of a name. -/
def method? (info : ClassInfo) (name : String) : Option String :=
  (info.methods.find? (·.1 == name)).map Prod.snd

end ClassInfo

/-- A place to look classes up in. -/
structure SymbolSource where
  /-- The class of a name. -/
  find? (name : String) : Option ClassInfo
  /-- Whether the class is primary. Only primary classes are renamed. -/
  isPrimary (name : String) : Bool
  /-- The names of all classes, primary ones first. -/
  names : List String

/-- Primary classes and libraries, by their names. -/
structure Workspace where
  primary : ExtTreeMap String ClassInfo := ∅
  library : ExtTreeMap String ClassInfo := ∅

namespace Workspace

def addPrimary (w : Workspace) (info : ClassInfo) : Workspace :=
  { w with primary := w.primary.insert info.name info }

def addLibrary (w : Workspace) (info : ClassInfo) : Workspace :=
  { w with library := w.library.insert info.name info }

/-- The class of a name; a primary class precedes a library. -/
def find? (w : Workspace) (name : String) : Option ClassInfo :=
  match w.primary[name]? with
  | some info => some info
  | none => w.library[name]?

/-- Whether the class is primary. -/
def isPrimary (w : Workspace) (name : String) : Bool := w.primary.contains name

/-- The names of the primary classes, sorted. -/
def primaryNames (w : Workspace) : List String := w.primary.keys

/-- The primary classes, sorted by their names. -/
def primaryClasses (w : Workspace) : List ClassInfo := w.primary.toList.map Prod.snd

/-- The names of all classes: the primary ones, then the other libraries, both sorted. -/
def names (w : Workspace) : List String :=
  w.primary.keys ++ w.library.keys.filter (!w.isPrimary ·)

/-- The workspace as a place to look classes up in. -/
def symbols (w : Workspace) : SymbolSource where
  find? := w.find?
  isPrimary := w.isPrimary
  names := w.names

end Workspace

end Pseudonym
