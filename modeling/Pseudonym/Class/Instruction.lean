import Pseudonym.Class.Constant

/-!
# Instructions

Instructions keep what they refer to by name. Jumps, scopes and frames refer to labels, which stand
between the instructions. Line numbers and stack map frames stand among the instructions too.
-/

namespace Pseudonym

/-- The type of a local variable or stack entry in a stack map frame. -/
inductive FrameValue where
  | top | integer | float | long | double | null | uninitializedThis
  /-- A value that the `new` at a label left uninitialized. -/
  | uninitialized (label : UInt32)
  /-- A class by its internal name, or an array by its descriptor. -/
  | object (name : String)
deriving DecidableEq, Repr

/-- An instruction, or a mark between instructions. -/
inductive Instruction where
  /-- An instruction without operands. -/
  | op (opcode : UInt8)
  /-- An instruction with one small integer. -/
  | int (opcode : UInt8) (operand : Int32)
  /-- An instruction on a local variable. -/
  | var (opcode : UInt8) (index : UInt16)
  /-- Adds to a local variable. -/
  | iinc (index : UInt16) (increment : Int16)
  /-- A branch. -/
  | jump (opcode : UInt8) (label : UInt32)
  /-- A branch by a key. -/
  | switch (keys : List Int32) (labels : List UInt32) (default : UInt32)
  /-- A position that others refer to. -/
  | label (id : UInt32)
  /-- The source line that starts at a label. -/
  | line (line label : UInt32)
  /-- An instruction on a class, by its internal name, or on an array, by its descriptor. -/
  | type (opcode : UInt8) (descriptor : String)
  /-- An access to a field. -/
  | field (opcode : UInt8) (owner name descriptor : String)
  /-- A call of a method. -/
  | method (opcode : UInt8) (owner name descriptor : String) (isInterface : Bool)
  /-- A call site that a bootstrap method links. -/
  | invokeDynamic (name descriptor : String) (bootstrap : Handle) (arguments : List Constant)
  /-- Loads a constant. -/
  | ldc (value : Constant)
  /-- Allocates an array of several dimensions. -/
  | multiANewArray (descriptor : String) (dimensions : UInt8)
  /-- A stack map frame. -/
  | frame (locals stack : List FrameValue)
deriving DecidableEq

/-- Whether the instruction is a line number. -/
def Instruction.isLine : Instruction → Bool
  | line .. => true
  | _ => false

end Pseudonym
