import Pseudonym.Class.ClassFile
import Pseudonym.Document.Decoder
import Pseudonym.Json.Reader

/-!
# Reading class documents

A class document is a class as a JSON value. Classes, fields, methods, record components and
annotations have defaults for all their members; other records need every member that is not
optional. Constants and annotation values nest, and reading them goes down as far as there are
levels left.
-/

namespace Pseudonym.Document

open Decoder

/-- The kind of a handle by its name. -/
def handleKind? : String → Option HandleKind
  | "get_field" => some .getField
  | "get_static" => some .getStatic
  | "put_field" => some .putField
  | "put_static" => some .putStatic
  | "invoke_virtual" => some .invokeVirtual
  | "invoke_static" => some .invokeStatic
  | "invoke_special" => some .invokeSpecial
  | "new_invoke_special" => some .newInvokeSpecial
  | "invoke_interface" => some .invokeInterface
  | _ => none

def handleKind : Decoder HandleKind := unit handleKind?

def handle : Decoder Handle :=
  record ["kind", "owner", "name", "descriptor", "is_interface"] false fun r => do
    return {
      kind := ← r.get "kind" handleKind
      owner := ← r.get "owner" string
      name := ← r.get "name" string
      descriptor := ← r.get "descriptor" string
      isInterface := ← r.get "is_interface" bool }

/-- Reads a constant that nests less than `height` constants deep. -/
def constantBelow : Nat → Decoder Constant
  | 0 => never
  | height + 1 => variant fun
    | "int" => int32.map .int
    | "long" => int64.map .long
    | "float" => single.map .float
    | "double" => double.map .double
    | "string" => string.map .string
    | "type" => string.map .type
    | "method_type" => string.map .methodType
    | "handle" => handle.map .handle
    | "dynamic" =>
      record ["name", "descriptor", "bootstrap", "arguments"] false fun r => do
        return .dynamic (← r.get "name" string) (← r.get "descriptor" string)
          (← r.get "bootstrap" handle) (← r.get "arguments" (list (constantBelow height)))
    | _ => never

/-- Reads a constant. Every constant inside a constant takes a level at least. -/
def constant : Decoder Constant := fun p v => constantBelow p.levels p v

/-- Reads an annotation with values of a given shape. -/
def annotationUseOf (value : Decoder AnnotationValue) : Decoder AnnotationUse :=
  record ["descriptor", "visible", "values"] true fun r => do
    return ⟨← r.getD "descriptor" string "", ← r.getD "visible" bool false,
      ← r.getList "values" (pair string value)⟩

/-- Reads an annotation value that nests less than `height` values deep. -/
def annotationValueBelow : Nat → Decoder AnnotationValue
  | 0 => never
  | height + 1 => variant fun
    | "const" => constant.map .const
    | "enum" => record ["descriptor", "value"] false fun r => do
        return .enum (← r.get "descriptor" string) (← r.get "value" string)
    | "class" => string.map .type
    | "annotation" => (annotationUseOf (annotationValueBelow height)).map .nested
    | "array" => (list (annotationValueBelow height)).map .array
    | _ => never

/-- Reads an annotation value. Every value inside a value takes a level at least. -/
def annotationValue : Decoder AnnotationValue := fun p v => annotationValueBelow p.levels p v

def annotationUse : Decoder AnnotationUse := annotationUseOf annotationValue

/-- Reads the type of a local variable or stack entry. -/
def frameValue : Decoder FrameValue :=
  orElse
    (unit fun
      | "top" => some .top
      | "integer" => some .integer
      | "float" => some .float
      | "long" => some .long
      | "double" => some .double
      | "null" => some .null
      | "uninitialized_this" => some .uninitializedThis
      | _ => none)
    (variant fun
      | "uninitialized" => uint32.map .uninitialized
      | "object" => string.map .object
      | _ => never)

/-- The members of an instruction by its kind. -/
def instructionMembers? : String → Option (List String)
  | "op" => some ["opcode"]
  | "int" => some ["opcode", "operand"]
  | "var" => some ["opcode", "index"]
  | "iinc" => some ["index", "increment"]
  | "jump" => some ["opcode", "label"]
  | "switch" => some ["keys", "labels", "default"]
  | "label" => some ["id"]
  | "line" => some ["line", "label"]
  | "type" => some ["opcode", "descriptor"]
  | "field" => some ["opcode", "owner", "name", "descriptor"]
  | "method" => some ["opcode", "owner", "name", "descriptor", "is_interface"]
  | "invoke_dynamic" => some ["name", "descriptor", "bootstrap", "arguments"]
  | "ldc" => some ["value"]
  | "multi_a_new_array" => some ["descriptor", "dimensions"]
  | "frame" => some ["locals", "stack"]
  | _ => none

def instructionOfKind (kind : String) (r : Members) : Option Instruction := do
  match kind with
  | "op" => return .op (← r.get "opcode" uint8)
  | "int" => return .int (← r.get "opcode" uint8) (← r.get "operand" int32)
  | "var" => return .var (← r.get "opcode" uint8) (← r.get "index" uint16)
  | "iinc" => return .iinc (← r.get "index" uint16) (← r.get "increment" int16)
  | "jump" => return .jump (← r.get "opcode" uint8) (← r.get "label" uint32)
  | "switch" =>
    return .switch (← r.get "keys" (list int32)) (← r.get "labels" (list uint32))
      (← r.get "default" uint32)
  | "label" => return .label (← r.get "id" uint32)
  | "line" => return .line (← r.get "line" uint32) (← r.get "label" uint32)
  | "type" => return .type (← r.get "opcode" uint8) (← r.get "descriptor" string)
  | "field" =>
    return .field (← r.get "opcode" uint8) (← r.get "owner" string) (← r.get "name" string)
      (← r.get "descriptor" string)
  | "method" =>
    return .method (← r.get "opcode" uint8) (← r.get "owner" string) (← r.get "name" string)
      (← r.get "descriptor" string) (← r.get "is_interface" bool)
  | "invoke_dynamic" =>
    return .invokeDynamic (← r.get "name" string) (← r.get "descriptor" string)
      (← r.get "bootstrap" handle) (← r.get "arguments" (list constant))
  | "ldc" => return .ldc (← r.get "value" constant)
  | "multi_a_new_array" =>
    return .multiANewArray (← r.get "descriptor" string) (← r.get "dimensions" uint8)
  | "frame" =>
    return .frame (← r.get "locals" (list frameValue)) (← r.get "stack" (list frameValue))
  | _ => none

def instruction : Decoder Instruction := tagged "kind" instructionMembers? instructionOfKind

/-- Reads what encloses a class. -/
def enclosingMethod : Decoder EnclosingMethod :=
  record ["owner", "method_name", "method_descriptor"] false fun r => do
    return {
      owner := ← r.get "owner" string
      methodName := ← r.get? "method_name" string
      methodDescriptor := ← r.get? "method_descriptor" string }

/-- Reads an entry for a nested class. -/
def innerClass : Decoder InnerClass :=
  record ["name", "outer_name", "inner_name", "access"] false fun r => do
    return {
      name := ← r.get "name" string
      outerName := ← r.get? "outer_name" string
      innerName := ← r.get? "inner_name" string
      access := ← r.get "access" uint16 }

def field : Decoder Field :=
  record ["access", "name", "descriptor", "signature", "value", "annotations"] true fun r => do
    return {
      access := ← r.getD "access" uint16 0
      name := ← r.getD "name" string ""
      descriptor := ← r.getD "descriptor" string ""
      signature := ← r.get? "signature" string
      value := ← r.get? "value" constant
      annotations := ← r.getList "annotations" annotationUse }

def localVariable : Decoder LocalVariable :=
  record ["name", "descriptor", "signature", "start", "end", "index"] false fun r => do
    return {
      name := ← r.get "name" string
      descriptor := ← r.get "descriptor" string
      signature := ← r.get? "signature" string
      start := ← r.get "start" uint32
      stop := ← r.get "end" uint32
      index := ← r.get "index" uint16 }

/-- Reads an entry of the exception table. -/
def exceptionHandler : Decoder ExceptionHandler :=
  record ["start", "end", "handler", "exception_type"] false fun r => do
    return {
      start := ← r.get "start" uint32
      stop := ← r.get "end" uint32
      handler := ← r.get "handler" uint32
      exceptionType := ← r.get? "exception_type" string }

def method : Decoder Method :=
  record ["access", "name", "descriptor", "signature", "exceptions", "annotations",
      "annotation_default", "instructions", "try_catch_blocks", "local_variables"] true fun r => do
    return {
      access := ← r.getD "access" uint16 0
      name := ← r.getD "name" string ""
      descriptor := ← r.getD "descriptor" string ""
      signature := ← r.get? "signature" string
      exceptions := ← r.getList "exceptions" string
      annotations := ← r.getList "annotations" annotationUse
      annotationDefault := ← r.get? "annotation_default" annotationValue
      instructions := ← r.getList "instructions" instruction
      handlers := ← r.getList "try_catch_blocks" exceptionHandler
      localVariables := ← r.getList "local_variables" localVariable }

def recordComponent : Decoder RecordComponent :=
  record ["name", "descriptor", "signature", "annotations"] true fun r => do
    return {
      name := ← r.getD "name" string ""
      descriptor := ← r.getD "descriptor" string ""
      signature := ← r.get? "signature" string
      annotations := ← r.getList "annotations" annotationUse }

def classFile : Decoder ClassFile :=
  record ["access", "name", "signature", "super_name", "interfaces", "source_file", "outer_class",
      "inner_classes", "nest_host", "nest_members", "permitted_subclasses", "annotations",
      "record_components", "fields", "methods"] true fun r => do
    return {
      access := ← r.getD "access" uint16 0
      name := ← r.getD "name" string ""
      signature := ← r.get? "signature" string
      superName := ← r.get? "super_name" string
      interfaces := ← r.getList "interfaces" string
      sourceFile := ← r.get? "source_file" string
      enclosing := ← r.get? "outer_class" enclosingMethod
      innerClasses := ← r.getList "inner_classes" innerClass
      nestHost := ← r.get? "nest_host" string
      nestMembers := ← r.getList "nest_members" string
      permittedSubclasses := ← r.getList "permitted_subclasses" string
      annotations := ← r.getList "annotations" annotationUse
      recordComponents := ← r.getList "record_components" recordComponent
      fields := ← r.getList "fields" field
      methods := ← r.getList "methods" method }

/-- How deep arrays and objects of a document may nest. -/
def maxDepth : Nat := 127

/-- Reads a document of a given shape. -/
def read? {α : Type} (shape : Decoder α) (bytes : ByteArray) : Option α := do
  shape ⟨maxDepth, false⟩ (← Json.Value.ofBytes? bytes)

end Pseudonym.Document
