import Std.Data.ExtTreeMap
import Pseudonym.Mapping

/-!
# Mapping tables

A table lists new names. Classes are found by their name, methods by owner, name and descriptor,
local variables by method and slot. A field is found by its descriptor as well, or else in an entry
that leaves the descriptor open. Tables that hold the same entries are equal, in whatever order the
entries came, and are read in the order of their keys.
-/

namespace Pseudonym

open Std

/-- What a table finds a field by. -/
structure FieldKey where
  /-- The class that declares the field. -/
  owner : String
  name : String
  /-- The descriptor, or `none` for a field of any type. -/
  descriptor : Option String
deriving DecidableEq, Repr

/-- What a table finds a method by. -/
structure MethodKey where
  /-- The class that declares the method. -/
  owner : String
  name : String
  descriptor : String
deriving DecidableEq, Repr

/-- What a table finds a local variable by. -/
structure VariableKey where
  /-- The method that the variable belongs to. -/
  method : MethodKey
  /-- The slot of the variable. -/
  index : BitVec 16
deriving DecidableEq, Repr

/-- By owner, name and descriptor; an open descriptor comes first. -/
instance : Ord FieldKey where
  compare := compareLex (compareOn FieldKey.owner)
    (compareLex (compareOn FieldKey.name) (compareOn FieldKey.descriptor))

instance : TransOrd FieldKey := inferInstanceAs <| TransCmp (compareLex _ _)

instance : LawfulEqOrd FieldKey where
  eq_of_compare {a b} h := by
    obtain ⟨ho, h⟩ := compareLex_eq_eq.1 h
    obtain ⟨hn, hd⟩ := compareLex_eq_eq.1 h
    have ho : a.owner = b.owner := LawfulEqOrd.eq_of_compare ho
    have hn : a.name = b.name := LawfulEqOrd.eq_of_compare hn
    have hd : a.descriptor = b.descriptor := LawfulEqOrd.eq_of_compare hd
    cases a
    cases b
    simp_all

/-- By owner, name and descriptor. -/
instance : Ord MethodKey where
  compare := compareLex (compareOn MethodKey.owner)
    (compareLex (compareOn MethodKey.name) (compareOn MethodKey.descriptor))

instance : TransOrd MethodKey := inferInstanceAs <| TransCmp (compareLex _ _)

instance : LawfulEqOrd MethodKey where
  eq_of_compare {a b} h := by
    obtain ⟨ho, h⟩ := compareLex_eq_eq.1 h
    obtain ⟨hn, hd⟩ := compareLex_eq_eq.1 h
    have ho : a.owner = b.owner := LawfulEqOrd.eq_of_compare ho
    have hn : a.name = b.name := LawfulEqOrd.eq_of_compare hn
    have hd : a.descriptor = b.descriptor := LawfulEqOrd.eq_of_compare hd
    cases a
    cases b
    simp_all

/-- By method and slot. -/
instance : Ord VariableKey where
  compare := compareLex (compareOn VariableKey.method) (compareOn VariableKey.index)

instance : TransOrd VariableKey := inferInstanceAs <| TransCmp (compareLex _ _)

instance : LawfulEqOrd VariableKey where
  eq_of_compare {a b} h := by
    obtain ⟨hm, hi⟩ := compareLex_eq_eq.1 h
    have hm : a.method = b.method := LawfulEqOrd.eq_of_compare hm
    have hi : a.index = b.index := LawfulEqOrd.eq_of_compare hi
    cases a
    cases b
    simp_all

/-- A list of new names. -/
structure MappingTable where
  /-- New names of classes. -/
  classes : ExtTreeMap String String := ∅
  /-- New names of fields. -/
  fields : ExtTreeMap FieldKey String := ∅
  /-- New names of methods. -/
  methods : ExtTreeMap MethodKey String := ∅
  /-- New names of local variables. -/
  localVariables : ExtTreeMap VariableKey String := ∅

/-- One entry of a table. -/
inductive MappingEntry where
  | class (old new : String)
  | field (key : FieldKey) (new : String)
  | method (key : MethodKey) (new : String)
  | variable (key : VariableKey) (new : String)
deriving DecidableEq, Repr

namespace MappingTable

/-- The table with one more entry, which replaces an entry of the same key. -/
def insert (t : MappingTable) : MappingEntry → MappingTable
  | .class old new => { t with classes := t.classes.insert old new }
  | .field key new => { t with fields := t.fields.insert key new }
  | .method key new => { t with methods := t.methods.insert key new }
  | .variable key new => { t with localVariables := t.localVariables.insert key new }

/-- The table of a list of entries. Of entries with the same key the last one counts. -/
def ofEntries (entries : List MappingEntry) : MappingTable := entries.foldl insert {}

/-- The entries in order: classes, fields, methods, local variables, each sorted by their keys. -/
def entries (t : MappingTable) : List MappingEntry :=
  t.classes.toList.map (fun e => .class e.1 e.2) ++ t.fields.toList.map (fun e => .field e.1 e.2) ++
    t.methods.toList.map (fun e => .method e.1 e.2) ++
    t.localVariables.toList.map (fun e => .variable e.1 e.2)

/-- The number of entries. -/
def size (t : MappingTable) : Nat :=
  t.classes.size + t.fields.size + t.methods.size + t.localVariables.size

/-- The new name of a field; an entry with its descriptor precedes one that leaves it open. -/
def field? (t : MappingTable) (owner name descriptor : String) : Option String :=
  match t.fields[FieldKey.mk owner name (some descriptor)]? with
  | some new => some new
  | none => t.fields[FieldKey.mk owner name none]?

/-- The mapping that answers from a table. -/
def mapping (t : MappingTable) : Mapping where
  className name := .ok t.classes[name]?
  fieldName owner name descriptor := .ok (t.field? owner name descriptor)
  methodName owner name descriptor := .ok t.methods[MethodKey.mk owner name descriptor]?
  variableName owner name descriptor _ _ index :=
    .ok t.localVariables[VariableKey.mk ⟨owner, name, descriptor⟩ index.toBitVec]?

/-- Adds the way back from a new name. A new name that leads back to another class already is a
conflict. -/
def addInverse (inverse : ExtTreeMap String String) (entry : String × String) :
    Except Error (ExtTreeMap String String) :=
  match inverse[entry.2]? with
  | some first => .error (.mappingConflict entry.2 first entry.1)
  | none => .ok (inverse.insert entry.2 entry.1)

/-- The classes by their new names. -/
def invertClasses (t : MappingTable) : Except Error (ExtTreeMap String String) :=
  t.classes.toList.foldlM addInverse ∅

end MappingTable

end Pseudonym
