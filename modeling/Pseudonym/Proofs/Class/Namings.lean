import Pseudonym.Proofs.Class.Walk
import Pseudonym.Proofs.Reading

/-!
# Where a class names classes

`ClassFile.namings` goes through a class and lists every place that names classes, generic
signatures apart: the class and its relatives, then owners, operands and descriptors down to the
constants inside constants and the annotations inside annotations. The order is that of the data.
It is not the order in which renaming asks, and nothing here rests on what renaming asks for. Still
every place gets its answer,

    (c.renamed g).namings = c.namings.map (Naming.renamed g),

whatever the answers `g` are (`ClassFile.namings_renamed`). A place that renaming left out would
break the equation, since it would stay the same under new answers; so each of them is asked for
(`ClassFile.mention_mem_mentions`).
-/

namespace Pseudonym

/-! ### Collecting namings -/

def Handle.namings (h : Handle) : List Naming := [.type h.owner, .descriptor h.descriptor]

mutual

def Constant.namings : Constant → List Naming
  | .int _ | .long _ | .float _ | .double _ | .string _ => []
  | .type d => [.descriptor d]
  | .methodType d => [.methodDescriptor d]
  | .handle h => h.namings
  | .dynamic _ d bootstrap arguments =>
    .descriptor d :: (bootstrap.namings ++ Constant.namingsList arguments)

def Constant.namingsList : List Constant → List Naming
  | [] => []
  | c :: cs => c.namings ++ Constant.namingsList cs

end

mutual

def AnnotationValue.namings : AnnotationValue → List Naming
  | .const c => c.namings
  | .enum d _ | .type d => [.descriptor d]
  | .nested a => a.namings
  | .array items => AnnotationValue.namingsList items

def AnnotationValue.namingsList : List AnnotationValue → List Naming
  | [] => []
  | v :: vs => v.namings ++ AnnotationValue.namingsList vs

def AnnotationUse.namings : AnnotationUse → List Naming
  | ⟨d, _, values⟩ => .descriptor d :: AnnotationUse.namingsValues values

def AnnotationUse.namingsValues : List (String × AnnotationValue) → List Naming
  | [] => []
  | (_, value) :: values => value.namings ++ AnnotationUse.namingsValues values

end

def FrameValue.namings : FrameValue → List Naming
  | .object name => [.type name]
  | .top | .integer | .float | .long | .double | .null | .uninitializedThis | .uninitialized _ => []

def Instruction.namings : Instruction → List Naming
  | .type _ d => [.type d]
  | .field _ owner _ d => [.type owner, .descriptor d]
  | .method _ owner _ d _ => [.type owner, .methodDescriptor d]
  | .invokeDynamic _ d bootstrap arguments =>
    .methodDescriptor d :: (bootstrap.namings ++ Constant.namingsList arguments)
  | .ldc value => value.namings
  | .multiANewArray d _ => [.descriptor d]
  | .frame locals stack =>
    locals.flatMap FrameValue.namings ++ stack.flatMap FrameValue.namings
  | .op _ | .int _ _ | .var _ _ | .iinc _ _ | .jump _ _ | .switch _ _ _ | .label _ | .line _ _ => []

def EnclosingMethod.namings (e : EnclosingMethod) : List Naming :=
  .type e.owner :: e.methodDescriptor.toList.map .methodDescriptor

def InnerClass.namings (i : InnerClass) : List Naming :=
  .type i.name :: i.outerName.toList.map .type

def RecordComponent.namings (c : RecordComponent) : List Naming :=
  .descriptor c.descriptor :: c.annotations.flatMap AnnotationUse.namings

def Field.namings (c : Field) : List Naming :=
  .descriptor c.descriptor ::
    (c.value.toList.flatMap Constant.namings ++ c.annotations.flatMap AnnotationUse.namings)

def ExceptionHandler.namings (h : ExceptionHandler) : List Naming :=
  h.exceptionType.toList.map .type

def Method.namings (c : Method) : List Naming :=
  .methodDescriptor c.descriptor ::
    [c.exceptions.map .type,
      c.annotations.flatMap AnnotationUse.namings,
      c.annotationDefault.toList.flatMap AnnotationValue.namings,
      c.instructions.flatMap Instruction.namings,
      c.handlers.flatMap ExceptionHandler.namings,
      c.localVariables.map (.descriptor ·.descriptor)].flatten

/-- The places in which a class names classes. -/
def ClassFile.namings (c : ClassFile) : List Naming :=
  .class c.name ::
    [c.superName.toList.map .type,
      c.interfaces.map .type,
      c.enclosing.toList.flatMap EnclosingMethod.namings,
      c.innerClasses.flatMap InnerClass.namings,
      c.nestHost.toList.map .type,
      c.nestMembers.map .type,
      c.permittedSubclasses.map .type,
      c.annotations.flatMap AnnotationUse.namings,
      c.recordComponents.flatMap RecordComponent.namings,
      c.fields.flatMap Field.namings,
      c.methods.flatMap Method.namings].flatten

/-- The classes that are named in a class, in order, as often as they are named. -/
def ClassFile.classNames (c : ClassFile) : List String := c.namings.flatMap Naming.names

/-! ### Namings of a renamed class -/

section

variable {g : Mention → String}

theorem Handle.namings_renamed (h : Handle) :
    (h.renamed g).namings = h.namings.map (Naming.renamed g) := rfl

mutual

theorem Constant.namings_renamed : ∀ c : Constant,
    (c.renamed g).namings = c.namings.map (Naming.renamed g)
  | .int _ | .long _ | .float _ | .double _ | .string _ | .type _ | .methodType _ => rfl
  | .handle h => h.namings_renamed
  | .dynamic _ d bootstrap arguments => by
    rw [Constant.renamed, Constant.namings, Constant.namings, bootstrap.namings_renamed,
      Constant.namings_renamedList arguments, List.map_cons, List.map_append]
    rfl

theorem Constant.namings_renamedList : ∀ cs : List Constant,
    Constant.namingsList (Constant.renamedList g cs) =
      (Constant.namingsList cs).map (Naming.renamed g)
  | [] => rfl
  | c :: cs => by
    rw [Constant.renamedList, Constant.namingsList, Constant.namingsList,
      Constant.namings_renamed c, Constant.namings_renamedList cs, List.map_append]

end

mutual

theorem AnnotationValue.namings_renamed : ∀ v : AnnotationValue,
    (v.renamed g).namings = v.namings.map (Naming.renamed g)
  | .const c => c.namings_renamed
  | .enum _ _ | .type _ => rfl
  | .nested a => AnnotationUse.namings_renamed a
  | .array items => AnnotationValue.namings_renamedList items

theorem AnnotationValue.namings_renamedList : ∀ vs : List AnnotationValue,
    AnnotationValue.namingsList (AnnotationValue.renamedList g vs) =
      (AnnotationValue.namingsList vs).map (Naming.renamed g)
  | [] => rfl
  | v :: vs => by
    rw [AnnotationValue.renamedList, AnnotationValue.namingsList, AnnotationValue.namingsList,
      AnnotationValue.namings_renamed v, AnnotationValue.namings_renamedList vs, List.map_append]

theorem AnnotationUse.namings_renamed : ∀ u : AnnotationUse,
    (u.renamed g).namings = u.namings.map (Naming.renamed g)
  | ⟨d, _, values⟩ => by
    rw [AnnotationUse.renamed, AnnotationUse.namings, AnnotationUse.namings,
      AnnotationUse.namings_renamedValues d values, List.map_cons]
    rfl

theorem AnnotationUse.namings_renamedValues (d : String) :
    ∀ values : List (String × AnnotationValue),
      AnnotationUse.namingsValues (AnnotationUse.renamedValues g d values) =
        (AnnotationUse.namingsValues values).map (Naming.renamed g)
  | [] => rfl
  | (name, value) :: values => by
    rw [AnnotationUse.renamedValues, AnnotationUse.namingsValues, AnnotationUse.namingsValues,
      AnnotationValue.namings_renamed value, AnnotationUse.namings_renamedValues d values,
      List.map_append]

end

theorem FrameValue.namings_renamed (v : FrameValue) :
    (v.renamed g).namings = v.namings.map (Naming.renamed g) := by
  cases v <;> rfl

theorem Instruction.namings_renamed (i : Instruction) :
    (i.renamed g).namings = i.namings.map (Naming.renamed g) := by
  cases i with
  | invokeDynamic name d bootstrap arguments =>
    rw [renamed, namings, namings, bootstrap.namings_renamed,
      Constant.namings_renamedList arguments, List.map_cons, List.map_append]
    rfl
  | ldc value => exact value.namings_renamed
  | frame locals stack =>
    rw [renamed, namings, namings, flatMap_map_comm FrameValue.namings_renamed,
      flatMap_map_comm FrameValue.namings_renamed, List.map_append]
  | _ => rfl

theorem EnclosingMethod.namings_renamed (e : EnclosingMethod) :
    (e.renamed g).namings = e.namings.map (Naming.renamed g) := by
  simp only [namings, renamed, Option.toList_map, List.map_cons, List.map_map]
  rfl

theorem InnerClass.namings_renamed (i : InnerClass) :
    (i.renamed g).namings = i.namings.map (Naming.renamed g) := by
  simp only [namings, renamed, Option.toList_map, List.map_cons, List.map_map]
  rfl

theorem RecordComponent.namings_renamed (owner : String) (c : RecordComponent) :
    (c.renamed g owner).namings = c.namings.map (Naming.renamed g) := by
  have annotations := flatMap_map_comm (AnnotationUse.namings_renamed (g := g)) c.annotations
  rw [namings, renamed, annotations, namings, List.map_cons]
  rfl

theorem Field.namings_renamed (owner : String) (c : Field) :
    (c.renamed g owner).namings = c.namings.map (Naming.renamed g) := by
  have value := flatMap_map_comm (Constant.namings_renamed (g := g)) c.value.toList
  have annotations := flatMap_map_comm (AnnotationUse.namings_renamed (g := g)) c.annotations
  simp only [namings, renamed, Option.toList_map, value, annotations, List.map_cons,
    List.map_append]
  rfl

theorem ExceptionHandler.namings_renamed (h : ExceptionHandler) :
    (h.renamed g).namings = h.namings.map (Naming.renamed g) := by
  simp only [namings, renamed, Option.toList_map, List.map_map]
  rfl

theorem Method.namings_renamed (owner : String) (c : Method) :
    (c.renamed g owner).namings = c.namings.map (Naming.renamed g) := by
  have annotations := flatMap_map_comm (AnnotationUse.namings_renamed (g := g)) c.annotations
  have annotationDefault :=
    flatMap_map_comm (AnnotationValue.namings_renamed (g := g)) c.annotationDefault.toList
  have instructions :=
    flatMap_map_comm (Instruction.namings_renamed (g := g)) c.instructions
  have handlers := flatMap_map_comm (ExceptionHandler.namings_renamed (g := g)) c.handlers
  simp only [namings, renamed, Option.toList_map, annotations, annotationDefault, instructions,
    handlers, List.map_cons, List.map_flatten, List.map_nil, List.map_map]
  rfl

/-- **Renaming keeps the namings of a class in place and answers for each of them.** -/
theorem ClassFile.namings_renamed (c : ClassFile) :
    (c.renamed g).namings = c.namings.map (Naming.renamed g) := by
  have enclosing :=
    flatMap_map_comm (EnclosingMethod.namings_renamed (g := g)) c.enclosing.toList
  have innerClasses := flatMap_map_comm (InnerClass.namings_renamed (g := g)) c.innerClasses
  have annotations := flatMap_map_comm (AnnotationUse.namings_renamed (g := g)) c.annotations
  have components :=
    flatMap_map_comm (RecordComponent.namings_renamed (g := g) c.name) c.recordComponents
  have fields := flatMap_map_comm (Field.namings_renamed (g := g) c.name) c.fields
  have methods := flatMap_map_comm (Method.namings_renamed (g := g) c.name) c.methods
  simp only [namings, renamed, Option.toList_map, enclosing, innerClasses, annotations, components,
    fields, methods, List.map_cons, List.map_flatten, List.map_nil, List.map_map]
  rfl

end

/-- Every place in which a class names classes is one that renaming asks for. -/
theorem ClassFile.mention_mem_mentions {c : ClassFile} {p : Naming} (hp : p ∈ c.namings) :
    p.mention ∈ c.mentions := by
  by_contra absent
  -- The class is the same under answers that differ for `p` alone.
  have same : c.renamed (fun _ => "") = c.renamed fun q => if q = p.mention then "x" else "" := by
    refine ClassFile.renamed_congr fun q hq => ?_
    rw [if_neg (ne_of_mem_of_not_mem hq absent)]
  have namings := congrArg ClassFile.namings same
  rw [ClassFile.namings_renamed, ClassFile.namings_renamed, List.map_inj_left] at namings
  have answer : "" = if p.mention = p.mention then "x" else "" :=
    Naming.withText_inj (namings p hp)
  rw [if_pos rfl] at answer
  exact absurd answer (by decide)

end Pseudonym
