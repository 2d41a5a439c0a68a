import Pseudonym.Mapping.Table
import Pseudonym.Proofs.Renamer

/-!
# Renaming touches nothing but names

The skeleton of a class is the class with every name in it blank. Internal names, names of members
and variables, simple names, descriptors and signatures count as names. Everything else is part of
the skeleton: flags, opcodes, operands, labels, slots, constants, texts that are data, which
optional parts are there, how long each list is and of which kind each element is.

The walk builds a class anew from its parts. Whatever is answered on the way, a part that comes out
has the skeleton of the part that went in,

    (c.renamed g).skeleton = c.skeleton    for all answers g,

so that nothing is dropped, swapped or filled in (`renaming_keeps_skeleton`).
-/

namespace Pseudonym

/-! ### Names blanked out -/

def Handle.skeleton (h : Handle) : Handle := { h with owner := "", name := "", descriptor := "" }

mutual

/-- The name of a dynamic constant is data. -/
def Constant.skeleton : Constant → Constant
  | .type _ => .type ""
  | .methodType _ => .methodType ""
  | .handle h => .handle h.skeleton
  | .dynamic name _ bootstrap arguments =>
    .dynamic name "" bootstrap.skeleton (Constant.skeletons arguments)
  | .int value => .int value
  | .long value => .long value
  | .float bits => .float bits
  | .double bits => .double bits
  | .string text => .string text

def Constant.skeletons : List Constant → List Constant
  | [] => []
  | c :: cs => c.skeleton :: Constant.skeletons cs

end

mutual

def AnnotationValue.skeleton : AnnotationValue → AnnotationValue
  | .const c => .const c.skeleton
  | .enum _ _ => .enum "" ""
  | .type _ => .type ""
  | .nested a => .nested a.skeleton
  | .array items => .array (AnnotationValue.skeletons items)

def AnnotationValue.skeletons : List AnnotationValue → List AnnotationValue
  | [] => []
  | v :: vs => v.skeleton :: AnnotationValue.skeletons vs

def AnnotationUse.skeleton : AnnotationUse → AnnotationUse
  | ⟨_, visible, values⟩ => ⟨"", visible, AnnotationUse.skeletonValues values⟩

def AnnotationUse.skeletonValues : List (String × AnnotationValue) → List (String × AnnotationValue)
  | [] => []
  | (_, value) :: values => ("", value.skeleton) :: AnnotationUse.skeletonValues values

end

def FrameValue.skeleton : FrameValue → FrameValue
  | .object _ => .object ""
  | value => value

def Instruction.skeleton : Instruction → Instruction
  | .type opcode _ => .type opcode ""
  | .field opcode _ _ _ => .field opcode "" "" ""
  | .method opcode _ _ _ isInterface => .method opcode "" "" "" isInterface
  | .invokeDynamic _ _ bootstrap arguments =>
    .invokeDynamic "" "" bootstrap.skeleton (Constant.skeletons arguments)
  | .ldc value => .ldc value.skeleton
  | .multiANewArray _ dimensions => .multiANewArray "" dimensions
  | .frame locals stack => .frame (locals.map FrameValue.skeleton) (stack.map FrameValue.skeleton)
  | instruction => instruction

/-- A name that may be missing, blanked out. -/
def blank? (name : Option String) : Option String := name.map fun _ => ""

/-- Several names, blanked out. -/
def blanks (names : List String) : List String := names.map fun _ => ""

def EnclosingMethod.skeleton (e : EnclosingMethod) : EnclosingMethod where
  owner := ""
  methodName := blank? e.methodName
  methodDescriptor := blank? e.methodDescriptor

def InnerClass.skeleton (i : InnerClass) : InnerClass :=
  { i with name := "", outerName := blank? i.outerName, innerName := blank? i.innerName }

def RecordComponent.skeleton (c : RecordComponent) : RecordComponent where
  name := ""
  descriptor := ""
  signature := blank? c.signature
  annotations := c.annotations.map AnnotationUse.skeleton

def Field.skeleton (c : Field) : Field :=
  { c with
    name := ""
    descriptor := ""
    signature := blank? c.signature
    value := c.value.map Constant.skeleton
    annotations := c.annotations.map AnnotationUse.skeleton }

def LocalVariable.skeleton (v : LocalVariable) : LocalVariable :=
  { v with name := "", descriptor := "", signature := blank? v.signature }

def ExceptionHandler.skeleton (h : ExceptionHandler) : ExceptionHandler :=
  { h with exceptionType := blank? h.exceptionType }

def Method.skeleton (c : Method) : Method :=
  { c with
    name := ""
    descriptor := ""
    signature := blank? c.signature
    exceptions := blanks c.exceptions
    annotations := c.annotations.map AnnotationUse.skeleton
    annotationDefault := c.annotationDefault.map AnnotationValue.skeleton
    instructions := c.instructions.map Instruction.skeleton
    handlers := c.handlers.map ExceptionHandler.skeleton
    localVariables := c.localVariables.map LocalVariable.skeleton }

/-- A class without its names. The name of the source file is data. -/
def ClassFile.skeleton (c : ClassFile) : ClassFile :=
  { c with
    name := ""
    signature := blank? c.signature
    superName := blank? c.superName
    interfaces := blanks c.interfaces
    enclosing := c.enclosing.map EnclosingMethod.skeleton
    innerClasses := c.innerClasses.map InnerClass.skeleton
    nestHost := blank? c.nestHost
    nestMembers := blanks c.nestMembers
    permittedSubclasses := blanks c.permittedSubclasses
    annotations := c.annotations.map AnnotationUse.skeleton
    recordComponents := c.recordComponents.map RecordComponent.skeleton
    fields := c.fields.map Field.skeleton
    methods := c.methods.map Method.skeleton }

/-! ### Answers do not show -/

section

variable {α β : Type} {g : Mention → String}

@[simp] theorem blank?_map (f : String → String) (name : Option String) :
    blank? (name.map f) = blank? name := by
  cases name <;> rfl

@[simp] theorem blanks_map (f : String → String) (names : List String) :
    blanks (names.map f) = blanks names := List.map_map

theorem map_of_absorbs {k : α → α} {s : α → β} (h : ∀ x, s (k x) = s x) (xs : List α) :
    (xs.map k).map s = xs.map s := by
  rw [List.map_map]
  exact List.map_congr_left fun x _ => h x

theorem option_map_of_absorbs {k : α → α} {s : α → β} (h : ∀ x, s (k x) = s x) (o : Option α) :
    (o.map k).map s = o.map s := by
  cases o with
  | none => rfl
  | some x => exact congrArg some (h x)

theorem Handle.skeleton_renamed (h : Handle) : (h.renamed g).skeleton = h.skeleton := rfl

mutual

theorem Constant.skeleton_renamed : ∀ c : Constant, (c.renamed g).skeleton = c.skeleton
  | .int _ | .long _ | .float _ | .double _ | .string _ | .type _ | .methodType _ => rfl
  | .handle h => congrArg Constant.handle h.skeleton_renamed
  | .dynamic _ _ bootstrap arguments => by
    rw [Constant.renamed, Constant.skeleton, Constant.skeleton, bootstrap.skeleton_renamed,
      Constant.skeletons_renamed arguments]

theorem Constant.skeletons_renamed : ∀ cs : List Constant,
    Constant.skeletons (Constant.renamedList g cs) = Constant.skeletons cs
  | [] => rfl
  | c :: cs => by
    rw [Constant.renamedList, Constant.skeletons, Constant.skeletons, Constant.skeleton_renamed c,
      Constant.skeletons_renamed cs]

end

mutual

theorem AnnotationValue.skeleton_renamed : ∀ v : AnnotationValue,
    (v.renamed g).skeleton = v.skeleton
  | .const c => congrArg AnnotationValue.const c.skeleton_renamed
  | .enum _ _ | .type _ => rfl
  | .nested a => congrArg AnnotationValue.nested (AnnotationUse.skeleton_renamed a)
  | .array items => congrArg AnnotationValue.array (AnnotationValue.skeletons_renamed items)

theorem AnnotationValue.skeletons_renamed : ∀ vs : List AnnotationValue,
    AnnotationValue.skeletons (AnnotationValue.renamedList g vs) = AnnotationValue.skeletons vs
  | [] => rfl
  | v :: vs => by
    rw [AnnotationValue.renamedList, AnnotationValue.skeletons, AnnotationValue.skeletons,
      AnnotationValue.skeleton_renamed v, AnnotationValue.skeletons_renamed vs]

theorem AnnotationUse.skeleton_renamed : ∀ a : AnnotationUse, (a.renamed g).skeleton = a.skeleton
  | ⟨d, _, values⟩ => by
    rw [AnnotationUse.renamed, AnnotationUse.skeleton, AnnotationUse.skeleton,
      AnnotationUse.skeletonValues_renamed d values]

theorem AnnotationUse.skeletonValues_renamed (d : String) :
    ∀ values : List (String × AnnotationValue),
      AnnotationUse.skeletonValues (AnnotationUse.renamedValues g d values) =
        AnnotationUse.skeletonValues values
  | [] => rfl
  | (_, value) :: values => by
    rw [AnnotationUse.renamedValues, AnnotationUse.skeletonValues, AnnotationUse.skeletonValues,
      AnnotationValue.skeleton_renamed value, AnnotationUse.skeletonValues_renamed d values]

end

theorem FrameValue.skeleton_renamed (v : FrameValue) : (v.renamed g).skeleton = v.skeleton := by
  cases v <;> rfl

theorem Instruction.skeleton_renamed (i : Instruction) : (i.renamed g).skeleton = i.skeleton := by
  cases i with
  | invokeDynamic name d bootstrap arguments =>
    rw [renamed, skeleton, skeleton, bootstrap.skeleton_renamed, Constant.skeletons_renamed]
  | ldc value => exact congrArg Instruction.ldc value.skeleton_renamed
  | frame locals stack =>
    rw [renamed, skeleton, skeleton, map_of_absorbs FrameValue.skeleton_renamed,
      map_of_absorbs FrameValue.skeleton_renamed]
  | _ => rfl

theorem EnclosingMethod.skeleton_renamed (e : EnclosingMethod) :
    (e.renamed g).skeleton = e.skeleton := by
  obtain ⟨owner, methodName, methodDescriptor⟩ := e
  cases methodName <;> cases methodDescriptor <;> rfl

theorem InnerClass.skeleton_renamed (i : InnerClass) : (i.renamed g).skeleton = i.skeleton := by
  simp only [renamed, skeleton, blank?_map]

theorem RecordComponent.skeleton_renamed (owner : String) (c : RecordComponent) :
    (c.renamed g owner).skeleton = c.skeleton := by
  simp only [renamed, skeleton, blank?_map, map_of_absorbs AnnotationUse.skeleton_renamed]

theorem Field.skeleton_renamed (owner : String) (c : Field) :
    (c.renamed g owner).skeleton = c.skeleton := by
  simp only [renamed, skeleton, blank?_map, option_map_of_absorbs Constant.skeleton_renamed,
    map_of_absorbs AnnotationUse.skeleton_renamed]

theorem LocalVariable.skeleton_renamed (owner methodName methodDescriptor : String)
    (v : LocalVariable) :
    (v.renamed g owner methodName methodDescriptor).skeleton = v.skeleton := by
  simp only [renamed, skeleton, blank?_map]

theorem ExceptionHandler.skeleton_renamed (h : ExceptionHandler) :
    (h.renamed g).skeleton = h.skeleton := by
  simp only [renamed, skeleton, blank?_map]

theorem Method.skeleton_renamed (owner : String) (c : Method) :
    (c.renamed g owner).skeleton = c.skeleton := by
  have locals := map_of_absorbs
    (LocalVariable.skeleton_renamed (g := g) owner c.name c.descriptor) c.localVariables
  simp only [renamed, skeleton, blank?_map, blanks_map,
    map_of_absorbs AnnotationUse.skeleton_renamed,
    option_map_of_absorbs AnnotationValue.skeleton_renamed,
    map_of_absorbs Instruction.skeleton_renamed, map_of_absorbs ExceptionHandler.skeleton_renamed,
    locals]

theorem ClassFile.skeleton_renamed (c : ClassFile) : (c.renamed g).skeleton = c.skeleton := by
  simp only [renamed, skeleton, blank?_map, blanks_map,
    option_map_of_absorbs EnclosingMethod.skeleton_renamed,
    map_of_absorbs InnerClass.skeleton_renamed, map_of_absorbs AnnotationUse.skeleton_renamed,
    map_of_absorbs (RecordComponent.skeleton_renamed c.name),
    map_of_absorbs (Field.skeleton_renamed c.name), map_of_absorbs (Method.skeleton_renamed c.name)]

end

/-- **Renaming touches nothing but names**, whatever the mapping answers and wherever annotation
interfaces are looked up. The same is true of every other way to answer the mentions of a class, so
it does not matter what a mapping may look at. -/
theorem renaming_keeps_skeleton (c : ClassFile) :
    (∀ (r : Renamer) (o : Remapped), r.remap c = .ok o → o.result.skeleton = c.skeleton) ∧
    ∀ (ω : Type) (f : Mention → Traced ω String) (result : ClassFile),
      (c.renameM f).outcome = .ok result → result.skeleton = c.skeleton := by
  constructor
  · intro r o h
    rw [(Renamer.of_remap h).2]
    exact c.skeleton_renamed
  · intro ω f result h
    have known : Agrees f fun q => (f q).outcome.toOption.getD q.text := by
      intro q text answered
      dsimp only
      rw [answered]
      rfl
    rw [((ClassFile.outcome_renameM known).1 h).2]
    exact c.skeleton_renamed

/-- A class with data between its names, under a table and under answers that prefix every text. -/
theorem renaming_keeps_skeleton_between :
    let t : MappingTable :=
      .ofEntries [.class "a/A" "b/X", .method ⟨"a/A", "run", "([La/A;J)V"⟩ "go"]
    let handle : Handle := ⟨.invokeInterface, "a/A", "run", "([La/A;J)V", true⟩
    let c : ClassFile :=
      { access := 0x21
        name := "a/A"
        sourceFile := some "a/A"
        enclosing := some ⟨"a/A", some "run", none⟩
        innerClasses := [⟨"a/A$B", none, some "B", 9⟩]
        annotations := [
          ⟨"La/A;", true, [("a/A", .array [.const (.string "a/A"), .enum "La/A;" "ON"])]⟩]
        fields := [{ access := 2, name := "x", descriptor := "I", value := some (.int (-1)) }]
        methods := [
          { name := "run"
            descriptor := "([La/A;J)V"
            instructions := [
              .label 0, .line 7 0, .var 0x2A 0, .iinc 1 (-1), .switch [-1, 5] [0, 0] 0,
              .ldc (.dynamic "a/A" "I" handle [.long 3, .methodType "()La/A;"]),
              .multiANewArray "[[La/A;" 2, .frame [.integer, .object "a/A"] [.uninitialized 0]]
            handlers := [⟨0, 0, 0, some "a/A"⟩, ⟨0, 0, 0, none⟩]
            localVariables := [⟨"this", "La/A;", none, 0, 0, 0⟩] }] }
    (∃ o, (Renamer.mk t.mapping none).remap c = .ok o ∧ o.isModified = true ∧
      o.result.skeleton = c.skeleton) ∧
    ∃ result, (c.renameM fun q => (pure ("x" ++ q.text) : Traced Mention String)).outcome =
      .ok result ∧ result ≠ c ∧ result.skeleton = c.skeleton := by
  intro t handle c
  have modified :
      ((Renamer.mk t.mapping none).remap c).toOption.map (·.isModified) = some true := by
    decide +kernel
  have changed :
      (c.renameM fun q => (pure ("x" ++ q.text) : Traced Mention String)).outcome.toOption.map
        (decide <| · ≠ c) = some true := by
    decide +kernel
  obtain ⟨o, remapped, modified⟩ := Option.map_eq_some_iff.1 modified
  obtain ⟨result, walked, changed⟩ := Option.map_eq_some_iff.1 changed
  have h := toOption_eq_some_iff.1 remapped
  have h' := toOption_eq_some_iff.1 walked
  obtain ⟨by_mapping, by_answers⟩ := renaming_keeps_skeleton c
  exact ⟨⟨o, h, modified, by_mapping _ o h⟩, result, h', of_decide_eq_true changed,
    by_answers _ _ result h'⟩

end Pseudonym
