/-!
# Method handles and constants

The constants that code loads, that fields start from and that call sites are linked with. Floating
point constants are kept as their bits, so that two constants are equal exactly when they are the
same, signs of zero included. A dynamic constant holds further constants; functions on constants
come with their counterpart on lists of constants.
-/

namespace Pseudonym

/-- What a method handle does. -/
inductive HandleKind where
  | getField | getStatic | putField | putStatic
  | invokeVirtual | invokeStatic | invokeSpecial | newInvokeSpecial | invokeInterface
deriving DecidableEq, Repr

/-- Whether a handle of this kind refers to a field. -/
def HandleKind.isField : HandleKind → Bool
  | getField | getStatic | putField | putStatic => true
  | _ => false

/-- A reference to a member of a class. -/
structure Handle where
  /-- What the handle does. -/
  kind : HandleKind
  /-- The class that declares the member. -/
  owner : String
  name : String
  descriptor : String
  /-- Whether the owner is an interface. -/
  isInterface : Bool := false
deriving DecidableEq, Repr

inductive Constant where
  /-- An `int`, or a smaller integer of a field. -/
  | int (value : Int32)
  | long (value : Int64)
  /-- A `float`, by its bits. -/
  | float (bits : UInt32)
  /-- A `double`, by its bits. -/
  | double (bits : UInt64)
  | string (text : String)
  /-- A class literal, by its type descriptor. -/
  | type (descriptor : String)
  /-- A method type, by its descriptor. -/
  | methodType (descriptor : String)
  | handle (handle : Handle)
  /-- A constant that a bootstrap method computes. -/
  | dynamic (name descriptor : String) (bootstrap : Handle) (arguments : List Constant)

mutual

/-- Whether two constants are equal. -/
def Constant.beq : Constant → Constant → Bool
  | .int a, .int b => a == b
  | .long a, .long b => a == b
  | .float a, .float b => a == b
  | .double a, .double b => a == b
  | .string a, .string b => a == b
  | .type a, .type b => a == b
  | .methodType a, .methodType b => a == b
  | .handle a, .handle b => a == b
  | .dynamic n d h as, .dynamic n' d' h' bs =>
    n == n' && d == d' && h == h' && Constant.beqList as bs
  | _, _ => false

/-- Whether two lists of constants are equal. -/
def Constant.beqList : List Constant → List Constant → Bool
  | [], [] => true
  | a :: as, b :: bs => a.beq b && Constant.beqList as bs
  | _, _ => false

end

mutual

theorem Constant.beq_iff : ∀ (a b : Constant), a.beq b = true ↔ a = b
  | .int _, b | .long _, b | .float _, b | .double _, b | .string _, b | .type _, b
  | .methodType _, b | .handle _, b => by cases b <;> simp [Constant.beq]
  | .dynamic _ _ _ as, b => by
    cases b <;> simp [Constant.beq, Constant.beqList_iff as, and_assoc]

theorem Constant.beqList_iff : ∀ (as bs : List Constant), Constant.beqList as bs = true ↔ as = bs
  | [], bs => by cases bs <;> simp [Constant.beqList]
  | a :: as, bs => by
    cases bs <;> simp [Constant.beqList, Constant.beq_iff a, Constant.beqList_iff as]

end

instance : DecidableEq Constant := fun _ _ => decidable_of_iff _ (Constant.beq_iff _ _)

end Pseudonym
