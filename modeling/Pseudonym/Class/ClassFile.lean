import Pseudonym.Class.AnnotationUse
import Pseudonym.Class.Instruction

/-!
# Classes

The view of a class that renaming works on: everything in it that holds a name, and what stands
around the names. Internal names separate packages by `/`.
-/

namespace Pseudonym

/-- The method or class that encloses a class. -/
structure EnclosingMethod where
  /-- The enclosing class. -/
  owner : String
  /-- The name of the enclosing method, if there is one. -/
  methodName : Option String
  /-- The descriptor of the enclosing method, if there is one. -/
  methodDescriptor : Option String
deriving DecidableEq, Repr

/-- What a class says about a nested class. -/
structure InnerClass where
  /-- The nested class. -/
  name : String
  /-- The class that declares it, unless it is local or anonymous. -/
  outerName : Option String
  /-- Its simple name, unless it is anonymous. -/
  innerName : Option String
  access : UInt16
deriving DecidableEq, Repr

structure Field where
  access : UInt16 := 0
  name : String := ""
  descriptor : String := ""
  signature : Option String := none
  /-- The constant that the field starts from. -/
  value : Option Constant := none
  annotations : List AnnotationUse := []
deriving DecidableEq

/-- An entry of the table of local variables. -/
structure LocalVariable where
  name : String
  descriptor : String
  signature : Option String
  /-- The label where the scope starts. -/
  start : UInt32
  /-- The label where the scope ends. -/
  stop : UInt32
  /-- The slot. -/
  index : UInt16
deriving DecidableEq, Repr

/-- An entry of the exception table. -/
structure ExceptionHandler where
  /-- The label where the protected range starts. -/
  start : UInt32
  /-- The label where the protected range ends. -/
  stop : UInt32
  /-- The label of the handler. -/
  handler : UInt32
  /-- The class that is caught, unless everything is. -/
  exceptionType : Option String
deriving DecidableEq, Repr

/-- A method with its code. -/
structure Method where
  access : UInt16 := 0
  name : String := ""
  descriptor : String := ""
  signature : Option String := none
  /-- The classes that the method declares to throw. -/
  exceptions : List String := []
  annotations : List AnnotationUse := []
  /-- The default value of an annotation attribute. -/
  annotationDefault : Option AnnotationValue := none
  /-- The code. -/
  instructions : List Instruction := []
  /-- The exception table. -/
  handlers : List ExceptionHandler := []
  /-- The table of local variables. -/
  localVariables : List LocalVariable := []
deriving DecidableEq

/-- A component of a record. -/
structure RecordComponent where
  name : String := ""
  descriptor : String := ""
  signature : Option String := none
  annotations : List AnnotationUse := []
deriving DecidableEq

/-- A class, interface, enum, record or annotation interface. -/
structure ClassFile where
  access : UInt16 := 0
  name : String := ""
  signature : Option String := none
  /-- The superclass. -/
  superName : Option String := none
  /-- The interfaces that the class implements. -/
  interfaces : List String := []
  /-- The name of the source file. -/
  sourceFile : Option String := none
  /-- What encloses the class. -/
  enclosing : Option EnclosingMethod := none
  /-- What the class says about nested classes. -/
  innerClasses : List InnerClass := []
  /-- The host of the nest that the class belongs to. -/
  nestHost : Option String := none
  /-- The members of the nest that the class hosts. -/
  nestMembers : List String := []
  /-- The classes that may extend the class. -/
  permittedSubclasses : List String := []
  annotations : List AnnotationUse := []
  /-- The components of a record, in order. -/
  recordComponents : List RecordComponent := []
  fields : List Field := []
  methods : List Method := []
deriving DecidableEq

namespace ClassFile

/-- The first method of a name. -/
def method? (c : ClassFile) (name : String) : Option Method := c.methods.find? (·.name == name)

/-- The first field of a name. -/
def field? (c : ClassFile) (name : String) : Option Field := c.fields.find? (·.name == name)

end ClassFile

end Pseudonym
