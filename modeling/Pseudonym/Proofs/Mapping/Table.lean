import Pseudonym.Mapping.Table

/-!
# Tables by their keys

A table is seen through one look-up, `get?`: the new name that stands under a key. Tables with the
same look-ups are equal (`ext_get?`), a table lists the entries that it answers with
(`mem_entries`), and adding an entry changes the answer for its own key and for no other one,

    (t.insert (k.entry new)).get? k' = if k = k' then some new else t.get? k'.
-/

namespace Pseudonym

open Std

/-- What a new name stands under in a table. -/
inductive MappingKey where
  | class (name : String)
  | field (key : FieldKey)
  | method (key : MethodKey)
  | variable (key : VariableKey)
deriving DecidableEq

/-- The entry with a new name for a key. -/
def MappingKey.entry : MappingKey → String → MappingEntry
  | .class name, new => .class name new
  | .field key, new => .field key new
  | .method key, new => .method key new
  | .variable key, new => .variable key new

theorem MappingEntry.exists_key (e : MappingEntry) :
    ∃ (k : MappingKey) (new : String), e = k.entry new := by
  cases e with
  | «class» old new => exact ⟨.class old, new, rfl⟩
  | field key new => exact ⟨.field key, new, rfl⟩
  | method key new => exact ⟨.method key, new, rfl⟩
  | «variable» key new => exact ⟨.variable key, new, rfl⟩

theorem MappingKey.entry_inj {k k' : MappingKey} {new new' : String}
    (h : k.entry new = k'.entry new') : k = k' ∧ new = new' := by
  cases k <;> cases k' <;> simp_all [MappingKey.entry]

namespace MappingTable

/-- The new name that stands under a key. -/
def get? (t : MappingTable) : MappingKey → Option String
  | .class name => t.classes[name]?
  | .field key => t.fields[key]?
  | .method key => t.methods[key]?
  | .variable key => t.localVariables[key]?

@[simp] theorem get?_empty (k : MappingKey) : ({} : MappingTable).get? k = none := by
  cases k with
  | «class» _ | field _ | method _ | «variable» _ => exact ExtTreeMap.getElem?_empty

theorem get?_insert (t : MappingTable) (k k' : MappingKey) (new : String) :
    (t.insert (k.entry new)).get? k' = if k = k' then some new else t.get? k' := by
  cases k with
  | «class» name =>
    cases k' with
    | «class» name' => simp [insert, get?, MappingKey.entry, ExtTreeMap.getElem?_insert]
    | _ => rfl
  | field key =>
    cases k' with
    | field key' => simp [insert, get?, MappingKey.entry, ExtTreeMap.getElem?_insert]
    | _ => rfl
  | method key =>
    cases k' with
    | method key' => simp [insert, get?, MappingKey.entry, ExtTreeMap.getElem?_insert]
    | _ => rfl
  | «variable» key =>
    cases k' with
    | «variable» key' => simp [insert, get?, MappingKey.entry, ExtTreeMap.getElem?_insert]
    | _ => rfl

theorem ext_get? {t t' : MappingTable} (h : ∀ k, t.get? k = t'.get? k) : t = t' := by
  obtain ⟨classes, fields, methods, localVariables⟩ := t
  obtain ⟨classes', fields', methods', localVariables'⟩ := t'
  obtain rfl : classes = classes' := ExtTreeMap.ext_getElem? fun name => h (.class name)
  obtain rfl : fields = fields' := ExtTreeMap.ext_getElem? fun key => h (.field key)
  obtain rfl : methods = methods' := ExtTreeMap.ext_getElem? fun key => h (.method key)
  obtain rfl : localVariables = localVariables' :=
    ExtTreeMap.ext_getElem? fun key => h (.variable key)
  rfl

/-- A table lists what it answers with. -/
theorem mem_entries {t : MappingTable} {k : MappingKey} {new : String} :
    k.entry new ∈ t.entries ↔ t.get? k = some new := by
  cases k with
  | «class» _ | field _ | method _ | «variable» _ =>
    simp [entries, MappingKey.entry, get?, ExtTreeMap.mem_toList_iff_getElem?_eq_some]

end MappingTable

end Pseudonym
