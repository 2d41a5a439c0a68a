import Pseudonym.Class.ClassFile
import Pseudonym.Text.Cut

/-!
# Mentions of names

A `Mention` is a place in a class where a name is written, together with all that decides what the
name refers to: a field is meant by its owner and its descriptor as well. `ClassFile.renameM` walks
a class and asks once for every mention; the answers take the places of the names, and all else
stays. The walk is written for any monad, so that it renames, collects or fails as the answers do.
Mentions are visited in a fixed order, which decides which of several failures a class reports: what
encloses the class, the class itself, then its parts as they stand in `ClassFile`, and in a method
the local variables first.

The simple name of a nested class is no mention. It follows the new name of the class.
-/

namespace Pseudonym

open Text

/-- A place where a name is written, and what decides its meaning. -/
inductive Mention where
  /-- A class by its internal name. -/
  | class (name : String)
  /-- A class by its internal name, or an array by its descriptor. -/
  | type (name : String)
  /-- A descriptor of either kind. -/
  | descriptor (descriptor : String)
  | methodDescriptor (descriptor : String)
  | signature (signature : String)
  | field (owner name descriptor : String)
  | method (owner name descriptor : String)
  | component (owner name descriptor : String)
  /-- An attribute of an annotation, by the descriptor of the annotation interface. -/
  | attribute (interface name : String)
  /-- An enum constant, by the descriptor of its class. -/
  | enumConstant (descriptor name : String)
  | variable (owner methodName methodDescriptor name descriptor : String) (index : UInt16)
  /-- A call site that a bootstrap method links. -/
  | callSite (name descriptor : String) (bootstrap : Handle) (arguments : List Constant)
  | package (name : String)
  | module (name : String)
deriving DecidableEq

/-- The name that is written in a place. -/
def Mention.text : Mention → String
  | .class name | .type name | .field _ name _ | .method _ name _ | .component _ name _
  | .attribute _ name | .enumConstant _ name | .variable _ _ _ name _ _ | .callSite name _ _ _
  | .package name | .module name => name
  | .descriptor text | .methodDescriptor text | .signature text => text

/-- The simple name of a nested class after it was renamed. It stays if the class keeps its last
path segment. Otherwise it is what follows the last `$` of the new name, less the digits that local
classes have there; a new name without `$` leaves it alone. -/
def simpleNameAfter (old renamed simple : String) : String :=
  let lastPath (name : String) := (cutLast? (· == '/') name.toList).map Prod.snd
  if old = renamed then simple
  else if (lastPath old).isSome && lastPath old == lastPath renamed then simple
  else
    match cutLast? (· == '$') renamed.toList with
    | some (_, last) => String.ofList (last.dropWhile Char.isDigit)
    | none => simple

section

variable {m : Type → Type} [Monad m] (f : Mention → m String)

/-- Renames what a handle mentions. -/
def Handle.renameM (h : Handle) : m Handle := do
  let name ← f (if h.kind.isField then .field h.owner h.name h.descriptor
    else .method h.owner h.name h.descriptor)
  let owner ← f (.type h.owner)
  let descriptor ← f (.descriptor h.descriptor)
  return { h with name, owner, descriptor }

mutual

/-- Renames what a constant mentions. Texts are data and stay, and so do the names of dynamic
constants, which only their bootstrap methods read. -/
def Constant.renameM : Constant → m Constant
  | .int value => pure (.int value)
  | .long value => pure (.long value)
  | .float bits => pure (.float bits)
  | .double bits => pure (.double bits)
  | .string text => pure (.string text)
  | .type d => return .type (← f (.descriptor d))
  | .methodType d => return .methodType (← f (.methodDescriptor d))
  | .handle h => return .handle (← h.renameM f)
  | .dynamic name d bootstrap arguments => do
    let d ← f (.descriptor d)
    let bootstrap ← bootstrap.renameM f
    let arguments ← Constant.renameListM arguments
    return .dynamic name d bootstrap arguments

/-- Renames what several constants mention. -/
def Constant.renameListM : List Constant → m (List Constant)
  | [] => pure []
  | c :: cs => do
    let c ← c.renameM
    let cs ← Constant.renameListM cs
    return c :: cs

end

mutual

/-- Renames what an annotation value mentions. -/
def AnnotationValue.renameM : AnnotationValue → m AnnotationValue
  | .const c => return .const (← c.renameM f)
  | .enum d value => do
    let value ← f (.enumConstant d value)
    let d ← f (.descriptor d)
    return .enum d value
  | .type d => return .type (← f (.descriptor d))
  | .nested a => return .nested (← a.renameM)
  | .array items => return .array (← AnnotationValue.renameListM items)

/-- Renames what several annotation values mention. -/
def AnnotationValue.renameListM : List AnnotationValue → m (List AnnotationValue)
  | [] => pure []
  | v :: vs => do
    let v ← v.renameM
    let vs ← AnnotationValue.renameListM vs
    return v :: vs

/-- Renames what an annotation mentions: its attributes, then its interface. -/
def AnnotationUse.renameM : AnnotationUse → m AnnotationUse
  | ⟨d, visible, values⟩ => do
    let values ← AnnotationUse.renameValuesM d values
    let d ← f (.descriptor d)
    return ⟨d, visible, values⟩

/-- Renames the attributes of an annotation with the descriptor `d`. -/
def AnnotationUse.renameValuesM (d : String) :
    List (String × AnnotationValue) → m (List (String × AnnotationValue))
  | [] => pure []
  | (name, value) :: values => do
    let name ← f (.attribute d name)
    let value ← value.renameM
    let values ← AnnotationUse.renameValuesM d values
    return (name, value) :: values

end

/-- Renames the class that a frame value mentions. -/
def FrameValue.renameM : FrameValue → m FrameValue
  | .object name => return .object (← f (.type name))
  | value => pure value

/-- Renames what an instruction mentions. -/
def Instruction.renameM : Instruction → m Instruction
  | .type opcode d => return .type opcode (← f (.type d))
  | .field opcode owner name d => do
    let name ← f (.field owner name d)
    let owner ← f (.type owner)
    let d ← f (.descriptor d)
    return .field opcode owner name d
  | .method opcode owner name d isInterface => do
    let name ← f (.method owner name d)
    let owner ← f (.type owner)
    let d ← f (.methodDescriptor d)
    return .method opcode owner name d isInterface
  | .invokeDynamic name d bootstrap arguments => do
    let name ← f (.callSite name d bootstrap arguments)
    let d ← f (.methodDescriptor d)
    let bootstrap ← bootstrap.renameM f
    let arguments ← Constant.renameListM f arguments
    return .invokeDynamic name d bootstrap arguments
  | .ldc value => return .ldc (← value.renameM f)
  | .multiANewArray d dimensions => return .multiANewArray (← f (.descriptor d)) dimensions
  | .frame locals stack => do
    let locals ← locals.mapM (FrameValue.renameM f)
    let stack ← stack.mapM (FrameValue.renameM f)
    return .frame locals stack
  | instruction => pure instruction

/-- Renames what encloses a class. A method is only meant if name and descriptor are both there. -/
def EnclosingMethod.renameM (e : EnclosingMethod) : m EnclosingMethod := do
  let methodName ←
    match e.methodName, e.methodDescriptor with
    | some name, some d => some <$> f (.method e.owner name d)
    | name, _ => pure name
  let owner ← f (.type e.owner)
  let methodDescriptor ← e.methodDescriptor.mapM (f <| .methodDescriptor ·)
  return ⟨owner, methodName, methodDescriptor⟩

/-- Renames what an entry for a nested class mentions. -/
def InnerClass.renameM (i : InnerClass) : m InnerClass := do
  let name ← f (.type i.name)
  let outerName ← i.outerName.mapM (f <| .type ·)
  return ⟨name, outerName, i.innerName.map (simpleNameAfter i.name name), i.access⟩

/-- Renames a record component of a class. -/
def RecordComponent.renameM (owner : String) (c : RecordComponent) : m RecordComponent := do
  let name ← f (.component owner c.name c.descriptor)
  let descriptor ← f (.descriptor c.descriptor)
  let signature ← c.signature.mapM (f <| .signature ·)
  let annotations ← c.annotations.mapM (AnnotationUse.renameM f)
  return { name, descriptor, signature, annotations }

/-- Renames a field of a class. -/
def Field.renameM (owner : String) (c : Field) : m Field := do
  let name ← f (.field owner c.name c.descriptor)
  let descriptor ← f (.descriptor c.descriptor)
  let signature ← c.signature.mapM (f <| .signature ·)
  let value ← c.value.mapM (Constant.renameM f)
  let annotations ← c.annotations.mapM (AnnotationUse.renameM f)
  return { access := c.access, name, descriptor, signature, value, annotations }

/-- Renames a local variable of a method. -/
def LocalVariable.renameM (owner methodName methodDescriptor : String) (v : LocalVariable) :
    m LocalVariable := do
  let name ← f (.variable owner methodName methodDescriptor v.name v.descriptor v.index)
  let descriptor ← f (.descriptor v.descriptor)
  let signature ← v.signature.mapM (f <| .signature ·)
  return { v with name, descriptor, signature }

/-- Renames the class that a handler catches. -/
def ExceptionHandler.renameM (h : ExceptionHandler) : m ExceptionHandler := do
  let exceptionType ← h.exceptionType.mapM (f <| .type ·)
  return { h with exceptionType }

/-- Renames a method of a class. -/
def Method.renameM (owner : String) (c : Method) : m Method := do
  let localVariables ← c.localVariables.mapM (LocalVariable.renameM f owner c.name c.descriptor)
  let name ← f (.method owner c.name c.descriptor)
  let descriptor ← f (.methodDescriptor c.descriptor)
  let signature ← c.signature.mapM (f <| .signature ·)
  let exceptions ← c.exceptions.mapM (f <| .type ·)
  let annotations ← c.annotations.mapM (AnnotationUse.renameM f)
  let annotationDefault ← c.annotationDefault.mapM (AnnotationValue.renameM f)
  let instructions ← c.instructions.mapM (Instruction.renameM f)
  let handlers ← c.handlers.mapM (ExceptionHandler.renameM f)
  return { access := c.access, name, descriptor, signature, exceptions, annotations,
           annotationDefault, instructions, handlers, localVariables }

/-- Renames what a class mentions. -/
def ClassFile.renameM (c : ClassFile) : m ClassFile := do
  let enclosing ← c.enclosing.mapM (EnclosingMethod.renameM f)
  let name ← f (.class c.name)
  let signature ← c.signature.mapM (f <| .signature ·)
  let superName ← c.superName.mapM (f <| .type ·)
  let interfaces ← c.interfaces.mapM (f <| .type ·)
  let innerClasses ← c.innerClasses.mapM (InnerClass.renameM f)
  let nestHost ← c.nestHost.mapM (f <| .type ·)
  let nestMembers ← c.nestMembers.mapM (f <| .type ·)
  let permittedSubclasses ← c.permittedSubclasses.mapM (f <| .type ·)
  let annotations ← c.annotations.mapM (AnnotationUse.renameM f)
  let recordComponents ← c.recordComponents.mapM (RecordComponent.renameM f c.name)
  let fields ← c.fields.mapM (Field.renameM f c.name)
  let methods ← c.methods.mapM (Method.renameM f c.name)
  return { access := c.access, name, signature, superName, interfaces, sourceFile := c.sourceFile,
           enclosing, innerClasses, nestHost, nestMembers, permittedSubclasses, annotations,
           recordComponents, fields, methods }

end

end Pseudonym
