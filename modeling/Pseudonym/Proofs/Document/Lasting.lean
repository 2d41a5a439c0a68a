import Pseudonym.Proofs.Document.Finite
import Pseudonym.Proofs.Document.Levels

/-!
# Classes that can be written and read over and over

What is written for a class is read again if it is sound and its floating point constants are finite
(`rereadsAs_classFile`). Such a class is lasting, and it stays so when it is written and read, when
names in it are replaced and when debug data is removed. None of these makes it deeper; floating
point constants are rounded by the first, kept by the second and dropped or kept by the third.
-/

namespace Pseudonym

open Document Json

/-- Whether what is written for a class can be read, and what is read then as well. -/
structure ClassFile.IsLasting (c : ClassFile) : Prop where
  sound : isSound maxDepth (ofClass c) = true
  finite : AllFinite c.floating

/-! ### Rounding floating point constants -/

theorem Constant.IsFinite.settled {c : Constant} (h : c.IsFinite) : c.settled.IsFinite := by
  cases c with
  | float bits =>
    obtain ⟨n, written⟩ := Number.exists_of_isFinite (s := singleStyle) h
    obtain ⟨r, read, finite⟩ := Number.exists_toSingle? written
    rw [Constant.settled, settledSingle, written, Option.bind_some, read]
    exact finite
  | double bits =>
    obtain ⟨n, written⟩ := Number.exists_of_isFinite (s := doubleStyle) h
    obtain ⟨r, read⟩ := Number.readable_double.exists_toDouble? written
    rw [Constant.settled, settledDouble, written, Option.bind_some, read]
    exact Number.isFinite_of_toDouble? read
  | _ => trivial

theorem AllFinite.settled {cs : List Constant} (h : AllFinite cs) :
    AllFinite (cs.map Constant.settled) := by
  intro c hc
  obtain ⟨d, hd, rfl⟩ := List.mem_map.1 hc
  exact (h d hd).settled

mutual

theorem Constant.floating_settled : ∀ c : Constant, c.settled.floating = c.floating.map settled
  | .int _ | .long _ | .float _ | .double _ | .string _ | .type _ | .methodType _ | .handle _ => rfl
  | .dynamic _ _ _ arguments => Constant.floatingList_settledList arguments

theorem Constant.floatingList_settledList : ∀ cs : List Constant,
    Constant.floatingList (Constant.settledList cs) =
      (Constant.floatingList cs).map Constant.settled
  | [] => rfl
  | c :: cs => by
    rw [Constant.settledList, Constant.floatingList, Constant.floatingList, List.map_append,
      Constant.floating_settled c, Constant.floatingList_settledList cs]

end

mutual

theorem AnnotationValue.floating_settled : ∀ v : AnnotationValue,
    v.settled.floating = v.floating.map Constant.settled
  | .const c => c.floating_settled
  | .enum _ _ | .type _ => rfl
  | .nested a => AnnotationUse.floating_settled a
  | .array items => AnnotationValue.floatingList_settledList items

theorem AnnotationValue.floatingList_settledList : ∀ vs : List AnnotationValue,
    AnnotationValue.floatingList (AnnotationValue.settledList vs) =
      (AnnotationValue.floatingList vs).map Constant.settled
  | [] => rfl
  | v :: vs => by
    rw [AnnotationValue.settledList, AnnotationValue.floatingList, AnnotationValue.floatingList,
      List.map_append, AnnotationValue.floating_settled v,
      AnnotationValue.floatingList_settledList vs]

theorem AnnotationUse.floating_settled : ∀ a : AnnotationUse,
    a.settled.floating = a.floating.map Constant.settled
  | ⟨_, _, values⟩ => AnnotationUse.floatingValues_settledValues values

theorem AnnotationUse.floatingValues_settledValues : ∀ values : List (String × AnnotationValue),
    AnnotationUse.floatingValues (AnnotationUse.settledValues values) =
      (AnnotationUse.floatingValues values).map Constant.settled
  | [] => rfl
  | (_, v) :: values => by
    rw [AnnotationUse.settledValues, AnnotationUse.floatingValues, AnnotationUse.floatingValues,
      List.map_append, AnnotationValue.floating_settled v,
      AnnotationUse.floatingValues_settledValues values]

end

theorem Instruction.floating_settled (i : Instruction) :
    i.settled.floating = i.floating.map Constant.settled := by
  cases i with
  | invokeDynamic name descriptor bootstrap arguments =>
    exact flatMap_map_comm Constant.floating_settled arguments
  | ldc value => exact value.floating_settled
  | _ => rfl

theorem toList_flatMap_map_comm {α β : Type} {k : α → α} {parts : α → List β} {f : β → β}
    (h : ∀ x, parts (k x) = (parts x).map f) (o : Option α) :
    (o.map k).toList.flatMap parts = (o.toList.flatMap parts).map f := by
  rw [Option.toList_map, flatMap_map_comm h]

theorem Field.floating_settled (c : Field) :
    c.settled.floating = c.floating.map Constant.settled := by
  simp only [floating, settled, List.map_append, toList_flatMap_map_comm Constant.floating_settled,
    flatMap_map_comm AnnotationUse.floating_settled]

theorem RecordComponent.floating_settled (c : RecordComponent) :
    c.settled.floating = c.floating.map Constant.settled :=
  flatMap_map_comm AnnotationUse.floating_settled c.annotations

theorem Method.floating_settled (c : Method) :
    c.settled.floating = c.floating.map Constant.settled := by
  simp only [floating, settled, List.map_append, flatMap_map_comm AnnotationUse.floating_settled,
    toList_flatMap_map_comm AnnotationValue.floating_settled,
    flatMap_map_comm Instruction.floating_settled]

theorem ClassFile.floating_settled (c : ClassFile) :
    c.settled.floating = c.floating.map Constant.settled := by
  simp only [floating, settled, List.map_append, flatMap_map_comm AnnotationUse.floating_settled,
    flatMap_map_comm RecordComponent.floating_settled, flatMap_map_comm Field.floating_settled,
    flatMap_map_comm Method.floating_settled]

/-! ### Replacing names -/

section

variable (g : Mention → String)

mutual

theorem Constant.floating_renamed : ∀ c : Constant, (c.renamed g).floating = c.floating
  | .int _ | .long _ | .float _ | .double _ | .string _ | .type _ | .methodType _ | .handle _ => rfl
  | .dynamic _ _ _ arguments => Constant.floatingList_renamedList arguments

theorem Constant.floatingList_renamedList : ∀ cs : List Constant,
    Constant.floatingList (Constant.renamedList g cs) = Constant.floatingList cs
  | [] => rfl
  | c :: cs => by
    rw [Constant.renamedList, Constant.floatingList, Constant.floatingList,
      Constant.floating_renamed c, Constant.floatingList_renamedList cs]

end

mutual

theorem AnnotationValue.floating_renamed : ∀ v : AnnotationValue,
    (v.renamed g).floating = v.floating
  | .const c => c.floating_renamed g
  | .enum _ _ | .type _ => rfl
  | .nested a => AnnotationUse.floating_renamed a
  | .array items => AnnotationValue.floatingList_renamedList items

theorem AnnotationValue.floatingList_renamedList : ∀ vs : List AnnotationValue,
    AnnotationValue.floatingList (AnnotationValue.renamedList g vs) =
      AnnotationValue.floatingList vs
  | [] => rfl
  | v :: vs => by
    rw [AnnotationValue.renamedList, AnnotationValue.floatingList, AnnotationValue.floatingList,
      AnnotationValue.floating_renamed v, AnnotationValue.floatingList_renamedList vs]

theorem AnnotationUse.floating_renamed : ∀ a : AnnotationUse, (a.renamed g).floating = a.floating
  | ⟨d, _, values⟩ => AnnotationUse.floatingValues_renamedValues d values

theorem AnnotationUse.floatingValues_renamedValues (d : String) :
    ∀ values : List (String × AnnotationValue),
      AnnotationUse.floatingValues (AnnotationUse.renamedValues g d values) =
        AnnotationUse.floatingValues values
  | [] => rfl
  | (_, v) :: values => by
    rw [AnnotationUse.renamedValues, AnnotationUse.floatingValues, AnnotationUse.floatingValues,
      AnnotationValue.floating_renamed v, AnnotationUse.floatingValues_renamedValues d values]

end

theorem Instruction.floating_renamed (i : Instruction) : (i.renamed g).floating = i.floating := by
  cases i with
  | invokeDynamic name d bootstrap arguments =>
    have same := Constant.floatingList_renamedList g arguments
    rwa [Constant.floatingList_eq_flatMap, Constant.floatingList_eq_flatMap] at same
  | ldc value => exact value.floating_renamed g
  | _ => rfl

theorem flatMap_map_of_same {α β : Type} {k : α → α} {parts : α → List β}
    (h : ∀ x, parts (k x) = parts x) (xs : List α) :
    (xs.map k).flatMap parts = xs.flatMap parts := by
  rw [List.flatMap_map]
  exact List.flatMap_congr fun x _ => h x

theorem toList_flatMap_map_of_same {α β : Type} {k : α → α} {parts : α → List β}
    (h : ∀ x, parts (k x) = parts x) (o : Option α) :
    (o.map k).toList.flatMap parts = o.toList.flatMap parts := by
  rw [Option.toList_map, flatMap_map_of_same h]

theorem Field.floating_renamed (owner : String) (c : Field) :
    (c.renamed g owner).floating = c.floating := by
  simp only [floating, renamed, toList_flatMap_map_of_same (Constant.floating_renamed g),
    flatMap_map_of_same (AnnotationUse.floating_renamed g)]

theorem RecordComponent.floating_renamed (owner : String) (c : RecordComponent) :
    (c.renamed g owner).floating = c.floating :=
  flatMap_map_of_same (AnnotationUse.floating_renamed g) c.annotations

theorem Method.floating_renamed (owner : String) (c : Method) :
    (c.renamed g owner).floating = c.floating := by
  simp only [floating, renamed, flatMap_map_of_same (AnnotationUse.floating_renamed g),
    toList_flatMap_map_of_same (AnnotationValue.floating_renamed g),
    flatMap_map_of_same (Instruction.floating_renamed g)]

theorem ClassFile.floating_renamed (c : ClassFile) : (c.renamed g).floating = c.floating := by
  simp only [floating, renamed, flatMap_map_of_same (AnnotationUse.floating_renamed g),
    flatMap_map_of_same (RecordComponent.floating_renamed g c.name),
    flatMap_map_of_same (Field.floating_renamed g c.name),
    flatMap_map_of_same (Method.floating_renamed g c.name)]

end

/-! ### Removing debug data -/

namespace StripConfig

variable (s : StripConfig)

theorem mem_of_mem_floating_stripMethod (c : Method) :
    ∀ k ∈ (s.stripMethod c).floating, k ∈ c.floating := by
  intro k hk
  simp only [Method.floating, List.mem_append] at hk ⊢
  refine hk.imp_right fun hk => ?_
  obtain ⟨i, hi, hk⟩ := List.mem_flatMap.1 hk
  exact List.mem_flatMap.2 ⟨i, s.mem_of_mem_stripMethod c i hi, hk⟩

theorem mem_of_mem_floating_strip (c : ClassFile) :
    ∀ k ∈ (s.strip c).floating, k ∈ c.floating := by
  have fields (d : Field) : (s.stripField d).floating = d.floating := rfl
  have components (d : RecordComponent) : (s.stripComponent d).floating = d.floating := rfl
  intro k hk
  simp only [ClassFile.floating, strip, List.mem_append, flatMap_map_of_same fields,
    flatMap_map_of_same components] at hk ⊢
  refine hk.imp_right fun hk => ?_
  obtain ⟨stripped, hs, hk⟩ := List.mem_flatMap.1 hk
  obtain ⟨d, hd, rfl⟩ := List.mem_map.1 hs
  exact List.mem_flatMap.2 ⟨d, hd, s.mem_of_mem_floating_stripMethod d k hk⟩

end StripConfig

/-! ### Lasting classes -/

namespace ClassFile.IsLasting

variable {c : ClassFile}

theorem settled (h : c.IsLasting) : c.settled.IsLasting where
  sound := soundWith_ofClass_settled c _ h.sound
  finite := by
    rw [ClassFile.floating_settled]
    exact h.finite.settled

theorem renamed (h : c.IsLasting) (g : Mention → String) : (c.renamed g).IsLasting where
  sound := soundWith_ofClass_renamed g c _ h.sound
  finite := by
    rw [ClassFile.floating_renamed]
    exact h.finite

theorem strip (h : c.IsLasting) (s : StripConfig) : (s.strip c).IsLasting where
  sound := soundWith_ofClass_strip s c _ h.sound
  finite := h.finite.sublist (s.mem_of_mem_floating_strip c)

end ClassFile.IsLasting

end Pseudonym
