import Pseudonym.Mapping.Generated
import Pseudonym.Proofs.Class.Links
import Pseudonym.Proofs.Renamer
import Pseudonym.Proofs.Token

/-!
# Links meet their declarations under new names

A declaration is asked for by the class that holds it, a link by what it says about its owner, and
the two are asked for at different places and in different words. They still get the same answer,
because every question that is asked about a member comes down to one look-up with the names from
before. So if two classes are renamed by one mapping, a link of one to a member of the other is, at
the same place of the renamed class, a link to the member that it meant (`links_meet_declarations`).
-/

namespace Pseudonym.Renamer

open Descriptor

variable {r : Renamer}

/-- What stands for an attribute after renaming, by the class that declares it. -/
def attributeName (r : Renamer) (owner name : String) : String :=
  match (r.symbols.bind (·.find? owner)).bind (·.method? name) with
  | some d => r.answer (.method owner name d)
  | none => name

/-! ### Questions that come down to the same look-up -/

theorem answer_type {name : String} (h : name.toList.head? ≠ some '[') :
    r.answer (.type name) = r.answer (.class name) := by
  have asked : r.rename (.type name) = r.rename (.class name) := if_neg h
  rw [answer, answer, asked]
  rfl

theorem answer_methodDescriptor {d : String} (h : d.toList.head? = some '(') :
    r.answer (.methodDescriptor d) = r.answer (.descriptor d) := by
  rw [answer, answer, rename_descriptor_of_head h]
  rfl

theorem rename_enumConstant {d owner : String} (h : internalName d = .ok owner) (name : String) :
    r.rename (.enumConstant d name) = r.rename (.field owner name d) := by
  show (Traced.lift (internalName d) >>= fun owner => r.fieldName owner name d) = _
  rw [h]
  rfl

theorem rename_attribute {d owner : String} (h : internalName d = .ok owner) (name : String) :
    r.rename (.attribute d name) =
      match (r.symbols.bind (·.find? owner)).bind (·.method? name) with
      | some d => r.rename (.method owner name d)
      | none => pure name := by
  show (Traced.lift (internalName d) >>= fun owner =>
    match (r.symbols.bind (·.find? owner)).bind (·.method? name) with
    | some d => r.methodName owner name d
    | none => pure name) = _
  rw [h]
  rfl

/-- The descriptor of a class gets the answer for the class, whether or not there is one. -/
theorem answer_descriptor_of_internalName {d owner : String} (h : internalName d = .ok owner) :
    r.answer (.descriptor d) =
      String.ofList ('L' :: (r.answer (.class owner)).toList ++ [';']) := by
  obtain ⟨parsed, written, _⟩ := toList_of_internalName h
  have hd : d.toList.head? ≠ some '(' := by simp [written]
  cases found : (r.className owner).outcome with
  | ok new =>
    have answered : (r.className owner).outcome = .ok (r.answer (.class owner)) := by
      rw [found, ← r.agrees_className owner new found]
    refine r.agrees_answer _ _ ((outcome_typeDescriptor hd).2 ⟨_, parsed, ?_, rfl⟩)
    intro name hn
    obtain rfl : name = owner := by
      simpa [TypeDescriptor.elementName?, ElementType.name?] using hn
    exact answered
  | error e =>
    have refused : r.answer (.descriptor d) = d := by
      cases renamed : (r.rename (.descriptor d)).outcome with
      | error e => rw [answer, renamed]; rfl
      | ok s =>
        obtain ⟨t, parsed', answered, _⟩ := (outcome_typeDescriptor hd).1 renamed
        obtain rfl := Except.ok.inj (parsed.symm.trans parsed')
        have := answered owner (by simp [TypeDescriptor.elementName?, ElementType.name?])
        rw [found] at this
        exact absurd this (by simp)
    have kept : r.answer (.class owner) = owner := by rw [answer, rename, found]; rfl
    rw [refused, kept, ← written, String.ofList_toList]

/-- The class in the answer for a descriptor is the answer for the class. -/
theorem classOfDescriptor_answer {d owner : String} (h : internalName d = .ok owner) :
    classOfDescriptor d = owner ∧
      classOfDescriptor (r.answer (.descriptor d)) = r.answer (.type owner) := by
  obtain ⟨_, written, legal⟩ := toList_of_internalName h
  have element : owner.toList.head? ≠ some '[' := by
    intro head
    exact absurd (legal '[' (List.mem_of_head? head)) (by decide)
  constructor
  · rw [classOfDescriptor, written, List.cons_append, List.tail_cons, List.dropLast_concat,
      String.ofList_toList]
  · rw [answer_descriptor_of_internalName h, answer_type element, classOfDescriptor,
      String.toList_ofList, List.cons_append, List.tail_cons, List.dropLast_concat,
      String.ofList_toList]

/-- **The answer for a mention is the one for the link that it belongs to.** -/
theorem linked_answer {q : Mention} (h : (r.rename q).outcome = .ok (r.answer q)) :
    q.Linked r.answer r.attributeName := by
  match q, h with
  | .methodDescriptor d, h => exact answer_methodDescriptor (head_of_methodDescriptor h)
  | .enumConstant d name, h =>
    obtain ⟨owner, read, _⟩ := Traced.outcome_bind_eq_ok_iff.1 h
    obtain ⟨same, answered⟩ := classOfDescriptor_answer (r := r) read
    refine ⟨same ▸ answered, ?_⟩
    rw [same, answer, answer, rename_enumConstant read]
    rfl
  | .attribute d name, h =>
    obtain ⟨owner, read, _⟩ := Traced.outcome_bind_eq_ok_iff.1 h
    obtain ⟨same, answered⟩ := classOfDescriptor_answer (r := r) read
    refine ⟨same ▸ answered, ?_⟩
    rw [same, answer, rename_attribute read, attributeName]
    cases (r.symbols.bind (·.find? owner)).bind (·.method? name) with
    | some d => rfl
    | none => rfl
  | .class _, _ | .type _, _ | .descriptor _, _ | .signature _, _ | .field .., _ | .method .., _
  | .component .., _ | .variable .., _ | .callSite .., _ | .package _, _ | .module _, _ => trivial

/-! ### Two classes under one mapping -/

variable {mapping : Mapping} {src : Option SymbolSource} (src' : Option SymbolSource)
  {A B : ClassFile} {A' B' : Remapped}

/-- Only attributes are looked up in the symbols. -/
theorem answer_congr (src src' : Option SymbolSource) {q : Mention}
    (hq : ∀ d name, q ≠ .attribute d name) :
    (mk mapping src').answer q = (mk mapping src).answer q := by
  match q, hq with
  | .attribute d name, hq => exact absurd rfl (hq d name)
  | .class _, _ | .type _, _ | .descriptor _, _ | .methodDescriptor _, _ | .signature _, _
  | .field .., _ | .method .., _ | .component .., _ | .enumConstant .., _ | .variable .., _
  | .callSite .., _ | .package _, _ | .module _, _ => rfl

theorem links_of_remap (h : r.remap B = .ok B') :
    B'.result.links = B.links.map (Link.renamed r.answer r.attributeName) := by
  obtain ⟨answered, same⟩ := of_remap h
  rw [same]
  exact ClassFile.links_renamed fun q hq => linked_answer (answered q hq)

/-- A class is linked to by the name that it declares. -/
theorem owner_of_remap (hA : (mk mapping src).remap A = .ok A')
    (hn : A.name.toList.head? ≠ some '[') :
    (mk mapping src').answer (.type A.name) = A'.result.name := by
  rw [answer_type hn, (of_remap hA).2]
  exact answer_congr src src' (by simp)

theorem field_of_remap (hA : (mk mapping src).remap A = .ok A')
    (hn : A.name.toList.head? ≠ some '[') {i : Nat} {d : Field} (hd : A.fields[i]? = some d) :
    ∃ d', A'.result.fields[i]? = some d' ∧ ∀ a,
      Link.renamed (mk mapping src').answer a (.field A.name d.name d.descriptor) =
        .field A'.result.name d'.name d'.descriptor := by
  obtain ⟨_, same⟩ := of_remap hA
  refine ⟨d.renamed (mk mapping src).answer A.name, ?_, ?_⟩
  · rw [same, ClassFile.renamed, List.getElem?_map, hd]
    rfl
  · intro a
    rw [Link.renamed, owner_of_remap src' hA hn, answer_congr src src' (by simp),
      answer_congr src src' (by simp)]
    rfl

theorem method_of_remap (hA : (mk mapping src).remap A = .ok A')
    (hn : A.name.toList.head? ≠ some '[') {i : Nat} {d : Method} (hd : A.methods[i]? = some d) :
    ∃ d', A'.result.methods[i]? = some d' ∧
      (mk mapping src').answer (.method A.name d.name d.descriptor) = d'.name ∧ ∀ a,
        Link.renamed (mk mapping src').answer a (.method A.name d.name d.descriptor) =
          .method A'.result.name d'.name d'.descriptor := by
  obtain ⟨answered, same⟩ := of_remap hA
  have asked : Mention.methodDescriptor d.descriptor ∈ A.mentions :=
    Method.mem_mentions (List.mem_of_getElem? hd) (by simp [Method.mentions])
  have descriptor := answer_methodDescriptor (r := mk mapping src)
    (head_of_methodDescriptor (answered _ asked))
  refine ⟨d.renamed (mk mapping src).answer A.name, ?_, answer_congr src src' (by simp), ?_⟩
  · rw [same, ClassFile.renamed, List.getElem?_map, hd]
    rfl
  · intro a
    rw [Link.renamed, owner_of_remap src' hA hn, answer_congr src src' (by simp),
      answer_congr src src' (by simp), ← descriptor]
    rfl

/-- An attribute is found as the first method of its name. -/
theorem attributeName_of_find? {bytes : ByteArray} {name : String} {i : Nat} {d : Method}
    (hs : r.symbols.bind (·.find? A.name) = some (.ofClass A bytes))
    (first : A.methods.findIdx? (·.name == name) = some i) (hd : A.methods[i]? = some d) :
    r.attributeName A.name name = r.answer (.method A.name d.name d.descriptor) := by
  obtain ⟨hi, named, _⟩ := List.findIdx?_eq_some_iff_getElem.1 first
  have same : d.name = name := by
    rw [List.getElem?_eq_getElem hi] at hd
    exact (Option.some.inj hd) ▸ eq_of_beq named
  have declared : A.methods.find? (·.name == name) = some d := by
    rw [List.find?_eq_bind_findIdx?_getElem?, first, Option.bind_some, hd]
  have found : (ClassInfo.ofClass A bytes).method? name = some d.descriptor := by
    rw [ClassInfo.method?, ClassInfo.ofClass, List.find?_map]
    show ((A.methods.find? (·.name == name)).map _).map _ = _
    rw [declared]
    rfl
  rw [attributeName, hs, Option.bind_some, found, same]

/-- **Links meet their declarations under new names.**  Two classes are renamed by one mapping, with
any symbols. Where the second refers to a field or a method of the first, the renamed second refers
to the field or method that the first has in the same place, by its new owner, name and descriptor.
Where it gives a value to an attribute and knows the first class, the attribute has the new name of
the first method of that name. -/
theorem links_meet_declarations (mapping : Mapping) (src src' : Option SymbolSource)
    {A B : ClassFile} {A' B' : Remapped} (hA : (mk mapping src).remap A = .ok A')
    (hB : (mk mapping src').remap B = .ok B') (hn : A.name.toList.head? ≠ some '[') :
    B'.result.links.length = B.links.length ∧
      (∀ (i : Nat) d, A.fields[i]? = some d → ∃ d', A'.result.fields[i]? = some d' ∧
        ∀ j : Nat, B.links[j]? = some (.field A.name d.name d.descriptor) →
          B'.result.links[j]? = some (.field A'.result.name d'.name d'.descriptor)) ∧
      (∀ (i : Nat) d, A.methods[i]? = some d → ∃ d', A'.result.methods[i]? = some d' ∧
        ∀ j : Nat, B.links[j]? = some (.method A.name d.name d.descriptor) →
          B'.result.links[j]? = some (.method A'.result.name d'.name d'.descriptor)) ∧
      ∀ bytes, src'.bind (·.find? A.name) = some (.ofClass A bytes) →
        ∀ name (i : Nat), A.methods.findIdx? (·.name == name) = some i →
          ∃ d', A'.result.methods[i]? = some d' ∧
            ∀ j : Nat, B.links[j]? = some (.attribute A.name name) →
              B'.result.links[j]? = some (.attribute A'.result.name d'.name) := by
  have links := links_of_remap hB
  refine ⟨by rw [links, List.length_map], ?_, ?_, ?_⟩
  · intro i d hd
    obtain ⟨d', hd', renamed⟩ := field_of_remap src' hA hn hd
    refine ⟨d', hd', fun j hj => ?_⟩
    rw [links, List.getElem?_map, hj, Option.map_some, renamed]
  · intro i d hd
    obtain ⟨d', hd', _, renamed⟩ := method_of_remap src' hA hn hd
    refine ⟨d', hd', fun j hj => ?_⟩
    rw [links, List.getElem?_map, hj, Option.map_some, renamed]
  · intro bytes hs name i first
    obtain ⟨hi, _⟩ := List.findIdx?_eq_some_iff_getElem.1 first
    have hd := List.getElem?_eq_getElem hi
    obtain ⟨d', hd', renamed, _⟩ := method_of_remap src' hA hn hd
    refine ⟨d', hd', fun j hj => ?_⟩
    rw [links, List.getElem?_map, hj, Option.map_some, Link.renamed, owner_of_remap src' hA hn,
      attributeName_of_find? hs first hd, renamed]

/-- An annotation of an annotated class with an enum constant, a call, and a handle inside a dynamic
constant. -/
theorem links_meet_declarations_annotated :
    let A : ClassFile :=
      { name := "a/A"
        fields := [{ name := "ON", descriptor := "La/A;" }]
        methods := [{ name := "value", descriptor := "()I" }] }
    let B : ClassFile :=
      { name := "a/B"
        annotations := [⟨"La/A;", true, [("value", .enum "La/A;" "ON")]⟩]
        methods := [
          { name := "run"
            descriptor := "()V"
            instructions := [
              .method 0xb6 "a/A" "value" "()I" false,
              .ldc (.dynamic "x" "I" ⟨.getStatic, "a/A", "ON", "La/A;", false⟩ [])] }] }
    let symbols : SymbolSource :=
      { find? := fun name => if name = "a/A" then some (.ofClass A .empty) else none
        isPrimary := fun name => name == "a/A"
        names := ["a/A"] }
    let mapping : Mapping := .generated symbols Markers.sample defaultReserved
    ∃ A' B' d d', (mk mapping none).remap A = .ok A' ∧
      (mk mapping (some symbols)).remap B = .ok B' ∧
      A'.isModified = true ∧ A'.result.fields[0]? = some d ∧ A'.result.methods[0]? = some d' ∧
        B'.result.links[0]? = some (.attribute A'.result.name d'.name) ∧
        B'.result.links[1]? = some (.field A'.result.name d.name d.descriptor) ∧
        B'.result.links[2]? = some (.method A'.result.name d'.name d'.descriptor) ∧
        B'.result.links[3]? = some (.field A'.result.name d.name d.descriptor) := by
  intro A B symbols mapping
  have modified : ((mk mapping none).remap A).toOption.map (·.isModified) = some true := by
    decide +kernel
  have modified' : ((mk mapping (some symbols)).remap B).toOption.map (·.isModified) =
      some true := by
    decide +kernel
  obtain ⟨A', remapped, modified⟩ := Option.map_eq_some_iff.1 modified
  obtain ⟨B', remapped', _⟩ := Option.map_eq_some_iff.1 modified'
  have hA := toOption_eq_some_iff.1 remapped
  have hB := toOption_eq_some_iff.1 remapped'
  obtain ⟨_, fields, methods, attributes⟩ :=
    links_meet_declarations mapping none (some symbols) hA hB (by decide)
  obtain ⟨d, hd, field⟩ := fields 0 _ rfl
  obtain ⟨d', hd', method⟩ := methods 0 _ rfl
  obtain ⟨d'', hd'', value⟩ := attributes .empty rfl "value" 0 rfl
  obtain rfl : d' = d'' := Option.some.inj (hd'.symm.trans hd'')
  exact ⟨A', B', d, d', hA, hB, modified, hd, hd', value 0 (by decide +kernel),
    field 1 (by decide +kernel), method 2 (by decide +kernel), field 3 (by decide +kernel)⟩

end Pseudonym.Renamer
