import Pseudonym.Class.ClassFile

/-!
# Stripping debug data

A class may carry data that only helps people: the name of its source file, line numbers, local
variables, generic signatures. `StripConfig.strip` removes what is selected and leaves all else as
it is; `StripConfig.touches` says beforehand whether there is anything to remove.
-/

namespace Pseudonym

/-- What is removed. -/
structure StripConfig where
  /-- The name of the source file. -/
  sourceFile : Bool := true
  lineNumbers : Bool := false
  localVariables : Bool := true
  /-- Generic signatures of classes, members and variables. -/
  signatures : Bool := false
deriving DecidableEq, Repr

namespace StripConfig

variable (s : StripConfig)

/-- A signature after stripping. -/
def keepSignature (signature : Option String) : Option String :=
  if s.signatures then none else signature

/-- A field after stripping. -/
def stripField (c : Field) : Field := { c with signature := s.keepSignature c.signature }

/-- A record component after stripping. -/
def stripComponent (c : RecordComponent) : RecordComponent :=
  { c with signature := s.keepSignature c.signature }

/-- A local variable after stripping, if local variables are kept. -/
def stripVariable (v : LocalVariable) : LocalVariable :=
  { v with signature := s.keepSignature v.signature }

/-- A method after stripping. -/
def stripMethod (c : Method) : Method :=
  { c with
    signature := s.keepSignature c.signature
    localVariables := if s.localVariables then [] else c.localVariables.map s.stripVariable
    instructions :=
      if s.lineNumbers then c.instructions.filter (!·.isLine) else c.instructions }

/-- A class after stripping. -/
def strip (c : ClassFile) : ClassFile :=
  { c with
    sourceFile := if s.sourceFile then none else c.sourceFile
    signature := s.keepSignature c.signature
    fields := c.fields.map s.stripField
    recordComponents := c.recordComponents.map s.stripComponent
    methods := c.methods.map s.stripMethod }

/-- Whether stripping removes anything from a method. -/
def touchesMethod (c : Method) : Bool :=
  (s.signatures && (c.signature.isSome || c.localVariables.any (·.signature.isSome))) ||
    (s.localVariables && !c.localVariables.isEmpty) ||
    (s.lineNumbers && c.instructions.any Instruction.isLine)

/-- Whether stripping removes anything from a class. -/
def touches (c : ClassFile) : Bool :=
  (s.sourceFile && c.sourceFile.isSome) ||
    (s.signatures && (c.signature.isSome || c.fields.any (·.signature.isSome) ||
      c.recordComponents.any (·.signature.isSome))) ||
    c.methods.any s.touchesMethod

end StripConfig

end Pseudonym
