import Pseudonym.Proofs.CallSites
import Pseudonym.Proofs.Mapping.Listing

/-!
# Record components and their accessors

A record component is looked up as a method, by the descriptor of the component and not by the one
of the method that reads it. So it bears the new name of its accessor if the mapping does not tell
the two descriptors apart. Generated names never do. A table does as soon as one of the two methods
has an entry of its own, and an entry that was read from a file is never found by the descriptor of
a component (`method?_of_parse`): such a table renames accessors and leaves the components alone.
-/

namespace Pseudonym

/-- The method that reads a component of a record. -/
def RecordComponent.accessor (owner : String) (c : RecordComponent) : Entity :=
  .method owner c.name ("()" ++ c.descriptor)

theorem RecordComponent.mem_mentions {C : ClassFile} {c : RecordComponent}
    (hc : c ∈ C.recordComponents) {q : Mention} (hq : q ∈ c.mentions C.name) : q ∈ C.mentions := by
  have components : q ∈ C.recordComponents.flatMap (RecordComponent.mentions C.name) :=
    List.mem_flatMap.2 ⟨c, hc, hq⟩
  exact List.mem_flatten_of_mem (by simp) components

namespace Renamer

variable {r : Renamer} {C : ClassFile} {C' : Remapped} {i : Nat}

/-- A component is renamed to its new name in the mapping. -/
theorem componentName_of_remap (hC : r.remap C = .ok C') {c : RecordComponent}
    (hi : C.recordComponents[i]? = some c) :
    ∃ new, r.mapping.newName (.component C.name c.name c.descriptor) = .ok new ∧
      C'.result.recordComponents[i]?.map RecordComponent.name = some new := by
  have asked := RecordComponent.mem_mentions (List.mem_of_getElem? hi)
    (q := .component C.name c.name c.descriptor) (by simp [RecordComponent.mentions])
  refine ⟨_, (outcome_replace _ _).symm.trans ((of_remap hC).1 _ asked), ?_⟩
  rw [(of_remap hC).2, ClassFile.renamed, List.getElem?_map, hi]
  rfl

/-- So is a method. -/
theorem methodName_of_remap (hC : r.remap C = .ok C') {method : Method}
    (hi : C.methods[i]? = some method) :
    ∃ new, r.mapping.newName (.method C.name method.name method.descriptor) = .ok new ∧
      C'.result.methods[i]?.map Method.name = some new := by
  have asked := Method.mem_mentions (List.mem_of_getElem? hi)
    (q := .method C.name method.name method.descriptor) (by simp [Method.mentions])
  have found := (outcome_method ..).symm.trans ((of_remap hC).1 _ asked)
  exact ⟨_, found, (Mapping.calls_of_newName found).declared hC rfl hi rfl rfl⟩

end Renamer

namespace MappingTable

/-- A table that was read from a file finds no method by the descriptor of a type. -/
theorem method?_of_parse {text d : String} {t : MappingTable} {type : TypeDescriptor}
    (h : parse text = .ok t) (hd : TypeDescriptor.parse d = .ok type) (owner name : String) :
    t.methods[MethodKey.mk owner name d]? = none := by
  refine Option.eq_none_iff_forall_ne_some.2 fun new found => ?_
  have entry : .method ⟨owner, name, d⟩ new ∈ t.entries :=
    (mem_entries (k := .method ⟨owner, name, d⟩)).2 found
  cases representable_of_parse h _ entry with
  | method _ _ _ _ _ parsed _ =>
    obtain ⟨rest, opens⟩ := MappingEntry.head_of_parse parsed
    rw [(Descriptor.toText_of_parse hd).1] at opens
    cases type with
    | void => cases opens
    | value type =>
      obtain ⟨c, tail, written, other⟩ := type.toText_eq_cons
      rw [TypeDescriptor.toText, written] at opens
      exact other (by simp [(List.cons.inj opens).1])

end MappingTable

/-- **When a component follows its accessor.**  After a successful renaming a component bears the
new name of the method with its name and its own descriptor. Under generated names this is the new
name of its accessor. Under a table it is exactly if the table has one name for both methods, and
under a table that was read from a file the component keeps its name. An accessor that the class
declares keeps the name of its component exactly if both have one new name. -/
theorem component_follows_accessor_iff (mapping : Mapping) (src : Option SymbolSource)
    {C : ClassFile} {C' : Remapped} {i : Nat} {c : RecordComponent}
    (hC : (Renamer.mk mapping src).remap C = .ok C') (hi : C.recordComponents[i]? = some c) :
    ∃ new, C'.result.recordComponents[i]?.map RecordComponent.name = some new ∧
      mapping.newName (.component C.name c.name c.descriptor) = .ok new ∧
      (∀ symbols m reserved, mapping = .generated symbols m reserved →
        mapping.newName (c.accessor C.name) = .ok new) ∧
      (∀ t : MappingTable, mapping = t.mapping →
        (mapping.newName (c.accessor C.name) = .ok new ↔
          t.methods[MethodKey.mk C.name c.name ("()" ++ c.descriptor)]?.getD c.name =
            t.methods[MethodKey.mk C.name c.name c.descriptor]?.getD c.name)) ∧
      (∀ (text : String) (t : MappingTable) (type : TypeDescriptor), mapping = t.mapping →
        MappingTable.parse text = .ok t → TypeDescriptor.parse c.descriptor = .ok type →
          new = c.name) ∧
      ∀ (j : Nat) (method : Method), C.methods[j]? = some method → method.name = c.name →
        method.descriptor = "()" ++ c.descriptor →
          (C'.result.methods[j]?.map Method.name = some new ↔
            mapping.newName (c.accessor C.name) = .ok new) := by
  obtain ⟨new, found, renamed⟩ := Renamer.componentName_of_remap hC hi
  refine ⟨new, renamed, found, ?_, ?_, ?_, ?_⟩
  · rintro symbols m reserved rfl
    -- generated names leave the descriptor of a method aside
    exact found
  · rintro t rfl
    have listed : t.methods[MethodKey.mk C.name c.name c.descriptor]?.getD c.name = new :=
      Except.ok.inj found
    rw [listed]
    exact ⟨Except.ok.inj, congrArg Except.ok⟩
  · rintro text t type rfl read parsed
    have listed : t.methods[MethodKey.mk C.name c.name c.descriptor]?.getD c.name = new :=
      Except.ok.inj found
    rw [MappingTable.method?_of_parse read parsed] at listed
    exact listed.symm
  · intro j method hj name descriptor
    obtain ⟨new', found', renamed'⟩ := Renamer.methodName_of_remap hC hj
    rw [name, descriptor] at found'
    rw [RecordComponent.accessor, found', renamed', Option.some.injEq, Except.ok.injEq]

/-- A record with one component and its accessor. -/
def recordClass : ClassFile where
  name := "a/R"
  recordComponents := [{ name := "x", descriptor := "I" }]
  methods := [{ name := "x", descriptor := "()I" }]

/-- Under generated names both get one new name. -/
theorem component_follows_accessor_generated :
    let symbols : SymbolSource :=
      { find? := fun _ => none, isPrimary := fun name => name == "a/R", names := ["a/R"] }
    let mapping := Mapping.generated symbols Markers.sample defaultReserved
    ∃ C' new, (Renamer.mk mapping none).remap recordClass = .ok C' ∧ new ≠ "x" ∧
      C'.result.recordComponents[0]?.map RecordComponent.name = some new ∧
      C'.result.methods[0]?.map Method.name = some new := by
  intro symbols mapping
  have renamed : ((Renamer.mk mapping none).remap recordClass).toOption.map
      (fun o => o.result.recordComponents[0]?.map fun c => c.name == "x") = some (some false) := by
    decide +kernel
  obtain ⟨C', remapped, replaced⟩ := Option.map_eq_some_iff.1 renamed
  have hC := toOption_eq_some_iff.1 remapped
  obtain ⟨new, component, -, generated, -, -, declared⟩ :=
    component_follows_accessor_iff mapping none hC (i := 0) rfl
  have accessor := (declared 0 _ rfl rfl rfl).2 (generated symbols _ _ rfl)
  obtain ⟨c, hc, rfl⟩ := Option.map_eq_some_iff.1 component
  rw [hc] at replaced
  exact ⟨C', c.name, hC, by simpa using replaced, component, accessor⟩

/-- Under a table with an entry for the accessor the component keeps its name. -/
theorem renamed_accessor_leaves_component :
    let t : MappingTable := .ofEntries [.method ⟨"a/R", "x", "()I"⟩ "y"]
    ∃ C', (Renamer.mk t.mapping none).remap recordClass = .ok C' ∧
      C'.result.recordComponents.map RecordComponent.name = ["x"] ∧
      C'.result.methods.map Method.name = ["y"] ∧
      t.mapping.newName (.component "a/R" "x" "I") ≠
        t.mapping.newName (.method "a/R" "x" "()I") := by
  intro t
  have renamed : ((Renamer.mk t.mapping none).remap recordClass).toOption.map
      (fun o => (o.result.recordComponents.map RecordComponent.name,
        o.result.methods.map Method.name)) = some (["x"], ["y"]) := by
    decide +kernel
  obtain ⟨C', remapped, names⟩ := Option.map_eq_some_iff.1 renamed
  obtain ⟨components, methods⟩ := Prod.mk.inj names
  refine ⟨C', toOption_eq_some_iff.1 remapped, components, methods, fun same => ?_⟩
  have apart : (t.mapping.newName (.component "a/R" "x" "I")).toOption ≠
      (t.mapping.newName (.method "a/R" "x" "()I")).toOption := by
    decide +kernel
  exact apart (congrArg Except.toOption same)

end Pseudonym
