import Pseudonym.Class.ClassFile
import Pseudonym.Json.Number
import Pseudonym.Json.Printer

/-!
# Writing class documents

A class document names all members of every record, in a fixed order. Infinite floating point
constants have no written form and become `null`.
-/

namespace Pseudonym.Document

open Json

/-- An integer as a value. -/
def ofInt (i : Int) : Value := .number (.ofInt i)

/-- A text that may be missing as a value. -/
def ofText? (text : Option String) : Value := text.elim .null .text

/-- A list of texts as a value. -/
def ofTexts (texts : List String) : Value := .array (texts.map .text)

/-- A floating point pattern as a value. -/
def ofPattern (s : Style) (bits : Nat) : Value :=
  (Number.ofPattern? s bits).elim .null .number

/-- A variant with content as a value. -/
def tag (name : String) (content : Value) : Value := .record [(name, content)]

def handleKindName : HandleKind → String
  | .getField => "get_field"
  | .getStatic => "get_static"
  | .putField => "put_field"
  | .putStatic => "put_static"
  | .invokeVirtual => "invoke_virtual"
  | .invokeStatic => "invoke_static"
  | .invokeSpecial => "invoke_special"
  | .newInvokeSpecial => "new_invoke_special"
  | .invokeInterface => "invoke_interface"

def ofHandle (h : Handle) : Value :=
  .record [("kind", .text (handleKindName h.kind)), ("owner", .text h.owner),
    ("name", .text h.name), ("descriptor", .text h.descriptor),
    ("is_interface", .bool h.isInterface)]

mutual

def ofConstant : Constant → Value
  | .int value => tag "int" (ofInt value.toInt)
  | .long value => tag "long" (ofInt value.toInt)
  | .float bits => tag "float" (ofPattern singleStyle bits.toNat)
  | .double bits => tag "double" (ofPattern doubleStyle bits.toNat)
  | .string text => tag "string" (.text text)
  | .type descriptor => tag "type" (.text descriptor)
  | .methodType descriptor => tag "method_type" (.text descriptor)
  | .handle h => tag "handle" (ofHandle h)
  | .dynamic name descriptor bootstrap arguments =>
    tag "dynamic" (.record [("name", .text name), ("descriptor", .text descriptor),
      ("bootstrap", ofHandle bootstrap), ("arguments", .array (ofConstants arguments))])

def ofConstants : List Constant → List Value
  | [] => []
  | c :: cs => ofConstant c :: ofConstants cs

end

mutual

def ofAnnotationValue : AnnotationValue → Value
  | .const c => tag "const" (ofConstant c)
  | .enum descriptor value =>
    tag "enum" (.record [("descriptor", .text descriptor), ("value", .text value)])
  | .type descriptor => tag "class" (.text descriptor)
  | .nested a => tag "annotation" (ofAnnotationUse a)
  | .array items => tag "array" (.array (ofAnnotationValues items))

def ofAnnotationValues : List AnnotationValue → List Value
  | [] => []
  | v :: vs => ofAnnotationValue v :: ofAnnotationValues vs

def ofAnnotationUse : AnnotationUse → Value
  | ⟨descriptor, visible, values⟩ =>
    .record [("descriptor", .text descriptor), ("visible", .bool visible),
      ("values", .array (ofAttributes values))]

def ofAttributes : List (String × AnnotationValue) → List Value
  | [] => []
  | (name, v) :: values => .array [.text name, ofAnnotationValue v] :: ofAttributes values

end

/-- The type of a local variable or stack entry as a value. -/
def ofFrameValue : FrameValue → Value
  | .top => .text "top"
  | .integer => .text "integer"
  | .float => .text "float"
  | .long => .text "long"
  | .double => .text "double"
  | .null => .text "null"
  | .uninitializedThis => .text "uninitialized_this"
  | .uninitialized label => tag "uninitialized" (ofInt label.toNat)
  | .object name => tag "object" (.text name)

/-- An instruction of a kind as a value. -/
def ofKind (kind : String) (members : List (String × Value)) : Value :=
  .record (("kind", .text kind) :: members)

def ofInstruction : Instruction → Value
  | .op opcode => ofKind "op" [("opcode", ofInt opcode.toNat)]
  | .int opcode operand =>
    ofKind "int" [("opcode", ofInt opcode.toNat), ("operand", ofInt operand.toInt)]
  | .var opcode index =>
    ofKind "var" [("opcode", ofInt opcode.toNat), ("index", ofInt index.toNat)]
  | .iinc index increment =>
    ofKind "iinc" [("index", ofInt index.toNat), ("increment", ofInt increment.toInt)]
  | .jump opcode label =>
    ofKind "jump" [("opcode", ofInt opcode.toNat), ("label", ofInt label.toNat)]
  | .switch keys labels default =>
    ofKind "switch" [("keys", .array (keys.map (ofInt ·.toInt))),
      ("labels", .array (labels.map (ofInt ·.toNat))), ("default", ofInt default.toNat)]
  | .label id => ofKind "label" [("id", ofInt id.toNat)]
  | .line line label => ofKind "line" [("line", ofInt line.toNat), ("label", ofInt label.toNat)]
  | .type opcode descriptor =>
    ofKind "type" [("opcode", ofInt opcode.toNat), ("descriptor", .text descriptor)]
  | .field opcode owner name descriptor =>
    ofKind "field" [("opcode", ofInt opcode.toNat), ("owner", .text owner), ("name", .text name),
      ("descriptor", .text descriptor)]
  | .method opcode owner name descriptor isInterface =>
    ofKind "method" [("opcode", ofInt opcode.toNat), ("owner", .text owner), ("name", .text name),
      ("descriptor", .text descriptor), ("is_interface", .bool isInterface)]
  | .invokeDynamic name descriptor bootstrap arguments =>
    ofKind "invoke_dynamic" [("name", .text name), ("descriptor", .text descriptor),
      ("bootstrap", ofHandle bootstrap), ("arguments", .array (arguments.map ofConstant))]
  | .ldc value => ofKind "ldc" [("value", ofConstant value)]
  | .multiANewArray descriptor dimensions =>
    ofKind "multi_a_new_array" [("descriptor", .text descriptor),
      ("dimensions", ofInt dimensions.toNat)]
  | .frame locals stack =>
    ofKind "frame" [("locals", .array (locals.map ofFrameValue)),
      ("stack", .array (stack.map ofFrameValue))]

/-- What encloses a class as a value. -/
def ofEnclosingMethod (e : EnclosingMethod) : Value :=
  .record [("owner", .text e.owner), ("method_name", ofText? e.methodName),
    ("method_descriptor", ofText? e.methodDescriptor)]

/-- An entry for a nested class as a value. -/
def ofInnerClass (i : InnerClass) : Value :=
  .record [("name", .text i.name), ("outer_name", ofText? i.outerName),
    ("inner_name", ofText? i.innerName), ("access", ofInt i.access.toNat)]

def ofField (c : Field) : Value :=
  .record [("access", ofInt c.access.toNat), ("name", .text c.name),
    ("descriptor", .text c.descriptor), ("signature", ofText? c.signature),
    ("value", (c.value.map ofConstant).getD .null),
    ("annotations", .array (c.annotations.map ofAnnotationUse))]

def ofLocalVariable (v : LocalVariable) : Value :=
  .record [("name", .text v.name), ("descriptor", .text v.descriptor),
    ("signature", ofText? v.signature), ("start", ofInt v.start.toNat), ("end", ofInt v.stop.toNat),
    ("index", ofInt v.index.toNat)]

/-- An entry of the exception table as a value. -/
def ofExceptionHandler (h : ExceptionHandler) : Value :=
  .record [("start", ofInt h.start.toNat), ("end", ofInt h.stop.toNat),
    ("handler", ofInt h.handler.toNat), ("exception_type", ofText? h.exceptionType)]

def ofMethod (c : Method) : Value :=
  .record [("access", ofInt c.access.toNat), ("name", .text c.name),
    ("descriptor", .text c.descriptor), ("signature", ofText? c.signature),
    ("exceptions", ofTexts c.exceptions),
    ("annotations", .array (c.annotations.map ofAnnotationUse)),
    ("annotation_default", (c.annotationDefault.map ofAnnotationValue).getD .null),
    ("instructions", .array (c.instructions.map ofInstruction)),
    ("try_catch_blocks", .array (c.handlers.map ofExceptionHandler)),
    ("local_variables", .array (c.localVariables.map ofLocalVariable))]

def ofRecordComponent (c : RecordComponent) : Value :=
  .record [("name", .text c.name), ("descriptor", .text c.descriptor),
    ("signature", ofText? c.signature),
    ("annotations", .array (c.annotations.map ofAnnotationUse))]

def ofClass (c : ClassFile) : Value :=
  .record [("access", ofInt c.access.toNat), ("name", .text c.name),
    ("signature", ofText? c.signature), ("super_name", ofText? c.superName),
    ("interfaces", ofTexts c.interfaces), ("source_file", ofText? c.sourceFile),
    ("outer_class", (c.enclosing.map ofEnclosingMethod).getD .null),
    ("inner_classes", .array (c.innerClasses.map ofInnerClass)),
    ("nest_host", ofText? c.nestHost), ("nest_members", ofTexts c.nestMembers),
    ("permitted_subclasses", ofTexts c.permittedSubclasses),
    ("annotations", .array (c.annotations.map ofAnnotationUse)),
    ("record_components", .array (c.recordComponents.map ofRecordComponent)),
    ("fields", .array (c.fields.map ofField)), ("methods", .array (c.methods.map ofMethod))]

end Pseudonym.Document
