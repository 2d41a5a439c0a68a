import Pseudonym.Class.Mention
import Pseudonym.Descriptor.Renaming
import Pseudonym.Mapping
import Pseudonym.Signature.Renaming
import Pseudonym.Workspace

/-!
# Renaming

A renamer answers every mention of a name by a mapping. Each name that is replaced by another one is
logged, and a class counts as modified if anything was logged on the way through it. The attributes
of an annotation are methods of its interface and need a symbol source to be found; attributes that
are not found keep their names.

A lambda expression is a call site that carries the name of the method it implements, and its type
returns the interface that declares the method. Such a name is looked up as a method of the
interface, with the descriptor of the implementation, which is the second argument of the bootstrap
method.
-/

namespace Pseudonym

/-- A name that was replaced by another one. -/
structure Replacement where
  old : String
  new : String
deriving DecidableEq, Repr

/-- A mapping, and the classes in which annotation attributes are found. -/
structure Renamer where
  /-- The new names. -/
  mapping : Mapping
  /-- Where annotation interfaces are looked up. -/
  symbols : Option SymbolSource := none

/-- Whether a bootstrap method makes lambda expressions. -/
def Handle.isLambdaBootstrap (h : Handle) : Bool :=
  h.kind == .invokeStatic && h.owner == "java/lang/invoke/LambdaMetafactory" &&
    (h.name == "metafactory" || h.name == "altMetafactory")

/-- The method that the call site of a lambda expression implements: its interface and its
descriptor. A call site of another kind implements none. -/
def lambdaTarget? (descriptor : String) (bootstrap : Handle) (arguments : List Constant) :
    Except Error (Option (String × String)) := do
  if bootstrap.isLambdaBootstrap then
    let callSite ← MethodDescriptor.parse descriptor
    match callSite.result.internalName?, arguments[1]? with
    | some interface, some (Constant.handle implementation) =>
      return some (interface, implementation.descriptor)
    | _, _ => return none
  else return none

namespace Renamer

/-- Replaces a name by what a look-up found; a name that comes out as it was is left alone. -/
def replace (old : String) (found : Except Error (Option String)) : Traced Replacement String := do
  match ← Traced.lift found with
  | none => return old
  | some new =>
    if new = old then return old
    else
      Traced.note ⟨old, new⟩
      return new

variable (r : Renamer)

/-- The new name of a class. -/
def className (name : String) : Traced Replacement String :=
  replace name (r.mapping.className name)

/-- The new name of a field. -/
def fieldName (owner name descriptor : String) : Traced Replacement String :=
  replace name (r.mapping.fieldName owner name descriptor)

/-- The new name of a method. -/
def methodName (owner name descriptor : String) : Traced Replacement String :=
  replace name (r.mapping.methodName owner name descriptor)

/-- A descriptor with its classes renamed. -/
def descriptor (d : String) : Traced Replacement String :=
  (·.getD d) <$> Descriptor.rename r.className d

/-- What stands for a name after renaming. -/
def rename : Mention → Traced Replacement String
  | .class name => r.className name
  | .type name => if name.toList.head? = some '[' then r.descriptor name else r.className name
  | .descriptor d => r.descriptor d
  | .methodDescriptor d => (·.getD d) <$> Descriptor.renameMethod r.className d
  | .signature s => Signature.rename r.className s
  | .field owner name d => r.fieldName owner name d
  | .method owner name d | .component owner name d => r.methodName owner name d
  | .attribute descriptor name => do
    let interface ← Traced.lift (Descriptor.internalName descriptor)
    match (r.symbols.bind (·.find? interface)).bind (·.method? name) with
    | some d => r.methodName interface name d
    | none => return name
  | .enumConstant d name => do
    let owner ← Traced.lift (Descriptor.internalName d)
    r.fieldName owner name d
  | .variable owner methodName methodDescriptor name d index =>
    replace name (r.mapping.variableName owner methodName methodDescriptor name d index)
  | .callSite name d bootstrap arguments => do
    match ← Traced.lift (lambdaTarget? d bootstrap arguments) with
    | some (interface, target) => r.methodName interface name target
    | none => return name
  | .package name | .module name => return name

end Renamer

end Pseudonym
