import Mathlib.Data.List.Forall2
import Pseudonym.Proofs.Class.Namings
import Pseudonym.Proofs.Generated

/-!
# No class name is missed

A class that is renamed names classes in the same places as before (`ClassFile.namings_renamed`),
and each of the places was answered, by a text that reads the same with every class in it renamed
(`Renamer.read_answer`). Together this says what becomes of the classes that are named in a class,

    o.result.classNames = c.classNames.map mapping.classAfter,

with nothing left out, nothing renamed twice and nothing put in between. It holds wherever new names
can stand in descriptors; tokens always can.
-/

namespace Pseudonym

/-- Two places spell the same type, but for classes that are called as `f` says in the second. -/
def Naming.Follows (f : String → String) (p q : Naming) : Prop :=
  ∃ u, p.read = .ok u ∧ q.read = .ok (u.renamed f)

/-- `c'` names the classes that `c` names, each under the name that `f` gives it. -/
structure ClassFile.Follows (f : String → String) (c c' : ClassFile) : Prop where
  /-- The classes that are named are the same, renamed, in the same order. -/
  classNames : c'.classNames = c.classNames.map f
  /-- Place by place, the texts can be read and spell the same. -/
  namings : List.Forall₂ (Naming.Follows f) c.namings c'.namings

section

variable {f : String → String}

theorem Naming.Follows.names_eq {p q : Naming} (h : p.Follows f q) :
    q.names = p.names.map f := by
  obtain ⟨u, read, read'⟩ := h
  rw [Naming.names, Naming.names, read, read']
  exact u.names_renamed

theorem flatMap_names_of_follows {ps qs : List Naming} (h : List.Forall₂ (Naming.Follows f) ps qs) :
    qs.flatMap Naming.names = (ps.flatMap Naming.names).map f := by
  induction h with
  | nil => rfl
  | cons first _ ih => rw [List.flatMap_cons, List.flatMap_cons, List.map_append, first.names_eq, ih]

/-- Reading place by place decides which classes are named. -/
theorem ClassFile.follows_of_namings {c c' : ClassFile}
    (h : List.Forall₂ (Naming.Follows f) c.namings c'.namings) : c.Follows f c' :=
  ⟨flatMap_names_of_follows h, h⟩

end

open Std (ExtTreeMap)

namespace Renamer

variable {r : Renamer}

theorem follows_renamed (hm : r.mapping.IsLegal) {p : Naming}
    (h : (r.rename p.mention).outcome = .ok (r.answer p.mention)) :
    p.Follows r.mapping.classAfter (p.renamed r.answer) := by
  obtain ⟨u, read, -, read'⟩ := read_answer hm h
  exact ⟨u, read, read'⟩

theorem follows_of_remap (hm : r.mapping.IsLegal) {c : ClassFile} {o : Remapped}
    (h : r.remap c = .ok o) : c.Follows r.mapping.classAfter o.result := by
  obtain ⟨answered, same⟩ := of_remap h
  refine ClassFile.follows_of_namings ?_
  rw [same, ClassFile.namings_renamed, List.forall₂_map_right_iff, List.forall₂_same]
  intro p hp
  exact follows_renamed hm (answered _ (ClassFile.mention_mem_mentions hp))

/-- **No class name is missed.**  Wherever a class that can be renamed names a class, generic
signatures apart, the new class names what became of it, in a text with the same primitive types,
array dimensions and number of parameters. A table must not hold new names that would break a
descriptor; a generated name never does. -/
theorem no_class_name_is_missed (src : Option SymbolSource) {c : ClassFile} {o : Remapped} :
    (∀ t : MappingTable,
      (∀ (old new : String), t.classes[old]? = some new → IsClassName new) →
        (mk t.mapping src).remap c = .ok o → c.Follows t.mapping.classAfter o.result) ∧
    (∀ (symbols : SymbolSource) (m : Markers) (reserved : List String),
      (generated symbols m reserved src).remap c = .ok o →
        c.Follows (Mapping.generated symbols m reserved).classAfter o.result) := by
  constructor
  · intro t legal h
    exact follows_of_remap (Mapping.isLegal_table legal) h
  · intro symbols m reserved h
    exact follows_of_remap Mapping.isLegal_generated h

/-- A class that names others at all depths, by a table and by generated names. -/
theorem no_class_name_is_missed_nested :
    let t : MappingTable := .ofEntries [.class "a/A" "b/X", .class "a/B" "Y"]
    let symbols : SymbolSource :=
      { find? := fun _ => none, isPrimary := fun name => name == "a/A", names := ["a/A"] }
    let handle : Handle := ⟨.invokeStatic, "a/B", "run", "(La/A;I)[[La/B;", false⟩
    let c : ClassFile :=
      { name := "a/A"
        superName := some "java/lang/Object"
        annotations := [⟨"La/B;", true, [("value", .array [.type "[La/A;", .enum "La/B;" "ON"])]⟩]
        methods := [
          { name := "run"
            descriptor := "([La/A;J)V"
            exceptions := ["a/B"]
            instructions := [
              .ldc (.dynamic "x" "I" handle [.methodType "()La/A;"]),
              .frame [.integer, .object "[[La/B;"] []] }] }
    (∀ (old new : String), t.classes[old]? = some new → IsClassName new) ∧
      (∃ o, (mk t.mapping none).remap c = .ok o ∧ o.isModified = true ∧
        c.Follows t.mapping.classAfter o.result ∧
        o.result.classNames =
          ["b/X", "java/lang/Object", "Y", "b/X", "Y", "b/X", "Y", "Y", "b/X", "Y", "b/X", "Y"]) ∧
      ∃ o, (generated symbols Markers.sample defaultReserved none).remap c = .ok o ∧
        o.isModified = true ∧
        c.Follows (Mapping.generated symbols Markers.sample defaultReserved).classAfter
          o.result := by
  intro t symbols handle c
  have legal : ∀ (old new : String), t.classes[old]? = some new → IsClassName new := by
    intro old new found
    simp only [t, MappingTable.ofEntries, List.foldl_cons, List.foldl_nil, MappingTable.insert,
      ExtTreeMap.getElem?_insert, ExtTreeMap.getElem?_empty] at found
    split_ifs at found
    · exact Option.some.inj found ▸ (by decide : IsClassName "Y")
    · exact Option.some.inj found ▸ (by decide : IsClassName "b/X")
  have modified : ((mk t.mapping none).remap c).toOption.map (·.isModified) = some true := by
    decide +kernel
  have modified' : ((generated symbols Markers.sample defaultReserved none).remap c).toOption.map
      (·.isModified) = some true := by
    decide +kernel
  obtain ⟨o, remapped, modified⟩ := Option.map_eq_some_iff.1 modified
  obtain ⟨o', remapped', modified'⟩ := Option.map_eq_some_iff.1 modified'
  have h := toOption_eq_some_iff.1 remapped
  have h' := toOption_eq_some_iff.1 remapped'
  have follows := (no_class_name_is_missed none).1 t legal h
  have follows' := (no_class_name_is_missed none).2 symbols Markers.sample defaultReserved h'
  have names : c.classNames.map t.mapping.classAfter =
      ["b/X", "java/lang/Object", "Y", "b/X", "Y", "b/X", "Y", "Y", "b/X", "Y", "b/X", "Y"] := by
    decide +kernel
  exact ⟨legal, ⟨o, h, modified, follows, follows.classNames.trans names⟩, o', h', modified',
    follows'⟩

end Renamer

end Pseudonym
