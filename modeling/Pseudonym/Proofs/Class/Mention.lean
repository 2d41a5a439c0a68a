import Mathlib.Data.List.Basic
import Pseudonym.Class.Mention

/-!
# What a class mentions, and answers in place

The walk `ClassFile.renameM` runs in a monad, so what a class becomes depends on effects as well as
on answers. The definitions below take the two apart, construct by construct: `mentions` lists what
a part of a class mentions, in the order of the walk, and `renamed` puts given answers in the places
of the names. `Pseudonym.Proofs.Class.Walk` proves that a walk is nothing but these two. Answers that
repeat what is written give back the class that was there (`ClassFile.renamed_text`).
-/

namespace Pseudonym

/-! ### What a class mentions -/

/-- The member that a handle refers to. -/
def Handle.member (h : Handle) : Mention :=
  if h.kind.isField then .field h.owner h.name h.descriptor else .method h.owner h.name h.descriptor

def Handle.mentions (h : Handle) : List Mention :=
  [h.member, .type h.owner, .descriptor h.descriptor]

mutual

def Constant.mentions : Constant → List Mention
  | .int _ | .long _ | .float _ | .double _ | .string _ => []
  | .type d => [.descriptor d]
  | .methodType d => [.methodDescriptor d]
  | .handle h => h.mentions
  | .dynamic _ d bootstrap arguments =>
    [[.descriptor d], bootstrap.mentions, Constant.mentionsList arguments].flatten

def Constant.mentionsList : List Constant → List Mention
  | [] => []
  | c :: cs => c.mentions ++ Constant.mentionsList cs

end

mutual

def AnnotationValue.mentions : AnnotationValue → List Mention
  | .const c => c.mentions
  | .enum d value => [.enumConstant d value, .descriptor d]
  | .type d => [.descriptor d]
  | .nested a => a.mentions
  | .array items => AnnotationValue.mentionsList items

def AnnotationValue.mentionsList : List AnnotationValue → List Mention
  | [] => []
  | v :: vs => v.mentions ++ AnnotationValue.mentionsList vs

def AnnotationUse.mentions : AnnotationUse → List Mention
  | ⟨d, _, values⟩ => AnnotationUse.mentionsValues d values ++ [.descriptor d]

/-- What the attributes of an annotation with the descriptor `d` mention. -/
def AnnotationUse.mentionsValues (d : String) : List (String × AnnotationValue) → List Mention
  | [] => []
  | (name, value) :: values =>
    [[.attribute d name], value.mentions, AnnotationUse.mentionsValues d values].flatten

end

def FrameValue.mentions : FrameValue → List Mention
  | .object name => [.type name]
  | _ => []

def Instruction.mentions : Instruction → List Mention
  | .type _ d => [.type d]
  | .field _ owner name d => [.field owner name d, .type owner, .descriptor d]
  | .method _ owner name d _ => [.method owner name d, .type owner, .methodDescriptor d]
  | .invokeDynamic name d bootstrap arguments =>
    [[.callSite name d bootstrap arguments], [.methodDescriptor d], bootstrap.mentions,
      Constant.mentionsList arguments].flatten
  | .ldc value => value.mentions
  | .multiANewArray d _ => [.descriptor d]
  | .frame locals stack =>
    [locals.flatMap FrameValue.mentions, stack.flatMap FrameValue.mentions].flatten
  | _ => []

namespace EnclosingMethod

/-- The enclosing method, if both its name and its descriptor are known. -/
def method? (e : EnclosingMethod) : Option Mention :=
  match e.methodName, e.methodDescriptor with
  | some name, some d => some (.method e.owner name d)
  | _, _ => none

def mentions (e : EnclosingMethod) : List Mention :=
  [e.method?.toList, [.type e.owner], e.methodDescriptor.toList.map .methodDescriptor].flatten

end EnclosingMethod

def InnerClass.mentions (i : InnerClass) : List Mention :=
  [[.type i.name], i.outerName.toList.map .type].flatten

def RecordComponent.mentions (owner : String) (c : RecordComponent) : List Mention :=
  [[.component owner c.name c.descriptor], [.descriptor c.descriptor],
    c.signature.toList.map .signature, c.annotations.flatMap AnnotationUse.mentions].flatten

def Field.mentions (owner : String) (c : Field) : List Mention :=
  [[.field owner c.name c.descriptor], [.descriptor c.descriptor],
    c.signature.toList.map .signature, c.value.toList.flatMap Constant.mentions,
    c.annotations.flatMap AnnotationUse.mentions].flatten

def LocalVariable.mentions (owner methodName methodDescriptor : String) (v : LocalVariable) :
    List Mention :=
  [[.variable owner methodName methodDescriptor v.name v.descriptor v.index],
    [.descriptor v.descriptor], v.signature.toList.map .signature].flatten

def ExceptionHandler.mentions (h : ExceptionHandler) : List Mention :=
  h.exceptionType.toList.map .type

def Method.mentions (owner : String) (c : Method) : List Mention :=
  [c.localVariables.flatMap (LocalVariable.mentions owner c.name c.descriptor),
    [.method owner c.name c.descriptor], [.methodDescriptor c.descriptor],
    c.signature.toList.map .signature, c.exceptions.map .type,
    c.annotations.flatMap AnnotationUse.mentions,
    c.annotationDefault.toList.flatMap AnnotationValue.mentions,
    c.instructions.flatMap Instruction.mentions,
    c.handlers.flatMap ExceptionHandler.mentions].flatten

/-- What a class mentions, in the order of the walk. -/
def ClassFile.mentions (c : ClassFile) : List Mention :=
  [c.enclosing.toList.flatMap EnclosingMethod.mentions, [.class c.name],
    c.signature.toList.map .signature, c.superName.toList.map .type, c.interfaces.map .type,
    c.innerClasses.flatMap InnerClass.mentions, c.nestHost.toList.map .type,
    c.nestMembers.map .type, c.permittedSubclasses.map .type,
    c.annotations.flatMap AnnotationUse.mentions,
    c.recordComponents.flatMap (RecordComponent.mentions c.name),
    c.fields.flatMap (Field.mentions c.name), c.methods.flatMap (Method.mentions c.name)].flatten

theorem InnerClass.mem_mentions {c : ClassFile} {i : InnerClass} (hi : i ∈ c.innerClasses)
    {q : Mention} (hq : q ∈ i.mentions) : q ∈ c.mentions := by
  have entries : q ∈ c.innerClasses.flatMap InnerClass.mentions := List.mem_flatMap.2 ⟨i, hi, hq⟩
  exact List.mem_flatten_of_mem (by simp) entries

theorem Method.mem_mentions {c : ClassFile} {d : Method} (hd : d ∈ c.methods)
    {q : Mention} (hq : q ∈ d.mentions c.name) : q ∈ c.mentions := by
  have methods : q ∈ c.methods.flatMap (Method.mentions c.name) := List.mem_flatMap.2 ⟨d, hd, hq⟩
  exact List.mem_flatten_of_mem (by simp) methods

/-! ### Answers in place -/

section

variable (g : Mention → String)

def Handle.renamed (h : Handle) : Handle :=
  { h with
    name := g h.member
    owner := g (.type h.owner)
    descriptor := g (.descriptor h.descriptor) }

mutual

def Constant.renamed : Constant → Constant
  | .int value => .int value
  | .long value => .long value
  | .float bits => .float bits
  | .double bits => .double bits
  | .string text => .string text
  | .type d => .type (g (.descriptor d))
  | .methodType d => .methodType (g (.methodDescriptor d))
  | .handle h => .handle (h.renamed g)
  | .dynamic name d bootstrap arguments =>
    .dynamic name (g (.descriptor d)) (bootstrap.renamed g) (Constant.renamedList arguments)

def Constant.renamedList : List Constant → List Constant
  | [] => []
  | c :: cs => c.renamed :: Constant.renamedList cs

end

mutual

def AnnotationValue.renamed : AnnotationValue → AnnotationValue
  | .const c => .const (c.renamed g)
  | .enum d value => .enum (g (.descriptor d)) (g (.enumConstant d value))
  | .type d => .type (g (.descriptor d))
  | .nested a => .nested a.renamed
  | .array items => .array (AnnotationValue.renamedList items)

def AnnotationValue.renamedList : List AnnotationValue → List AnnotationValue
  | [] => []
  | v :: vs => v.renamed :: AnnotationValue.renamedList vs

def AnnotationUse.renamed : AnnotationUse → AnnotationUse
  | ⟨d, visible, values⟩ => ⟨g (.descriptor d), visible, AnnotationUse.renamedValues d values⟩

def AnnotationUse.renamedValues (d : String) :
    List (String × AnnotationValue) → List (String × AnnotationValue)
  | [] => []
  | (name, value) :: values =>
    (g (.attribute d name), value.renamed) :: AnnotationUse.renamedValues d values

end

def FrameValue.renamed : FrameValue → FrameValue
  | .object name => .object (g (.type name))
  | value => value

def Instruction.renamed : Instruction → Instruction
  | .type opcode d => .type opcode (g (.type d))
  | .field opcode owner name d =>
    .field opcode (g (.type owner)) (g (.field owner name d)) (g (.descriptor d))
  | .method opcode owner name d isInterface =>
    .method opcode (g (.type owner)) (g (.method owner name d)) (g (.methodDescriptor d))
      isInterface
  | .invokeDynamic name d bootstrap arguments =>
    .invokeDynamic (g (.callSite name d bootstrap arguments)) (g (.methodDescriptor d))
      (bootstrap.renamed g) (Constant.renamedList g arguments)
  | .ldc value => .ldc (value.renamed g)
  | .multiANewArray d dimensions => .multiANewArray (g (.descriptor d)) dimensions
  | .frame locals stack =>
    .frame (locals.map (FrameValue.renamed g)) (stack.map (FrameValue.renamed g))
  | instruction => instruction

/-- What encloses a class, with answers. A method whose descriptor is unknown keeps its name. -/
def EnclosingMethod.renamed (e : EnclosingMethod) : EnclosingMethod where
  owner := g (.type e.owner)
  methodName := e.method?.elim e.methodName (some <| g ·)
  methodDescriptor := e.methodDescriptor.map (g <| .methodDescriptor ·)

def InnerClass.renamed (i : InnerClass) : InnerClass where
  name := g (.type i.name)
  outerName := i.outerName.map (g <| .type ·)
  innerName := i.innerName.map (simpleNameAfter i.name (g (.type i.name)))
  access := i.access

def RecordComponent.renamed (owner : String) (c : RecordComponent) : RecordComponent where
  name := g (.component owner c.name c.descriptor)
  descriptor := g (.descriptor c.descriptor)
  signature := c.signature.map (g <| .signature ·)
  annotations := c.annotations.map (AnnotationUse.renamed g)

def Field.renamed (owner : String) (c : Field) : Field where
  access := c.access
  name := g (.field owner c.name c.descriptor)
  descriptor := g (.descriptor c.descriptor)
  signature := c.signature.map (g <| .signature ·)
  value := c.value.map (Constant.renamed g)
  annotations := c.annotations.map (AnnotationUse.renamed g)

def LocalVariable.renamed (owner methodName methodDescriptor : String) (v : LocalVariable) :
    LocalVariable :=
  { v with
    name := g (.variable owner methodName methodDescriptor v.name v.descriptor v.index)
    descriptor := g (.descriptor v.descriptor)
    signature := v.signature.map (g <| .signature ·) }

def ExceptionHandler.renamed (h : ExceptionHandler) : ExceptionHandler :=
  { h with exceptionType := h.exceptionType.map (g <| .type ·) }

def Method.renamed (owner : String) (c : Method) : Method where
  access := c.access
  name := g (.method owner c.name c.descriptor)
  descriptor := g (.methodDescriptor c.descriptor)
  signature := c.signature.map (g <| .signature ·)
  exceptions := c.exceptions.map (g <| .type ·)
  annotations := c.annotations.map (AnnotationUse.renamed g)
  annotationDefault := c.annotationDefault.map (AnnotationValue.renamed g)
  instructions := c.instructions.map (Instruction.renamed g)
  handlers := c.handlers.map (ExceptionHandler.renamed g)
  localVariables := c.localVariables.map (LocalVariable.renamed g owner c.name c.descriptor)

/-- A class with answers for what it mentions. -/
def ClassFile.renamed (c : ClassFile) : ClassFile where
  access := c.access
  name := g (.class c.name)
  signature := c.signature.map (g <| .signature ·)
  superName := c.superName.map (g <| .type ·)
  interfaces := c.interfaces.map (g <| .type ·)
  sourceFile := c.sourceFile
  enclosing := c.enclosing.map (EnclosingMethod.renamed g)
  innerClasses := c.innerClasses.map (InnerClass.renamed g)
  nestHost := c.nestHost.map (g <| .type ·)
  nestMembers := c.nestMembers.map (g <| .type ·)
  permittedSubclasses := c.permittedSubclasses.map (g <| .type ·)
  annotations := c.annotations.map (AnnotationUse.renamed g)
  recordComponents := c.recordComponents.map (RecordComponent.renamed g c.name)
  fields := c.fields.map (Field.renamed g c.name)
  methods := c.methods.map (Method.renamed g c.name)

end

/-! ### Collecting from parts that changed -/

section

variable {α β : Type} {k : α → α} {parts : α → List β} {f : β → β}

theorem flatMap_map_of_mem {xs : List α} (h : ∀ x ∈ xs, parts (k x) = (parts x).map f) :
    (xs.map k).flatMap parts = (xs.flatMap parts).map f := by
  rw [List.flatMap_map, List.map_flatMap]
  exact List.flatMap_congr h

theorem flatMap_map_comm (h : ∀ x, parts (k x) = (parts x).map f) (xs : List α) :
    (xs.map k).flatMap parts = (xs.flatMap parts).map f :=
  flatMap_map_of_mem fun x _ => h x

end

/-! ### Answers that change nothing -/

theorem option_map_of_stays {α : Type} {k : α → α} (h : ∀ x, k x = x) (o : Option α) :
    o.map k = o := by
  cases o with
  | none => rfl
  | some x => exact congrArg some (h x)

theorem Handle.renamed_text (h : Handle) : h.renamed Mention.text = h := by
  have name : h.member.text = h.name := by
    unfold member
    split
    · rfl
    · rfl
  rw [renamed, name]
  rfl

mutual

theorem Constant.renamed_text : ∀ c : Constant, c.renamed Mention.text = c
  | .int _ | .long _ | .float _ | .double _ | .string _ | .type _ | .methodType _ => rfl
  | .handle h => congrArg Constant.handle h.renamed_text
  | .dynamic _ _ bootstrap arguments => by
    rw [Constant.renamed, bootstrap.renamed_text, Constant.renamedList_text arguments]
    rfl

theorem Constant.renamedList_text : ∀ cs : List Constant,
    Constant.renamedList Mention.text cs = cs
  | [] => rfl
  | c :: cs => by
    rw [Constant.renamedList, Constant.renamed_text c, Constant.renamedList_text cs]

end

mutual

theorem AnnotationValue.renamed_text : ∀ v : AnnotationValue, v.renamed Mention.text = v
  | .const c => congrArg AnnotationValue.const c.renamed_text
  | .enum _ _ | .type _ => rfl
  | .nested a => congrArg AnnotationValue.nested (AnnotationUse.renamed_text a)
  | .array items => congrArg AnnotationValue.array (AnnotationValue.renamedList_text items)

theorem AnnotationValue.renamedList_text : ∀ vs : List AnnotationValue,
    AnnotationValue.renamedList Mention.text vs = vs
  | [] => rfl
  | v :: vs => by
    rw [AnnotationValue.renamedList, AnnotationValue.renamed_text v,
      AnnotationValue.renamedList_text vs]

theorem AnnotationUse.renamed_text : ∀ u : AnnotationUse, u.renamed Mention.text = u
  | ⟨d, _, values⟩ => by
    rw [AnnotationUse.renamed, AnnotationUse.renamedValues_text d values]
    rfl

theorem AnnotationUse.renamedValues_text (d : String) :
    ∀ values : List (String × AnnotationValue),
      AnnotationUse.renamedValues Mention.text d values = values
  | [] => rfl
  | (name, value) :: values => by
    rw [AnnotationUse.renamedValues, AnnotationValue.renamed_text value,
      AnnotationUse.renamedValues_text d values]
    rfl

end

theorem FrameValue.renamed_text (v : FrameValue) : v.renamed Mention.text = v := by
  cases v <;> rfl

theorem Instruction.renamed_text (i : Instruction) : i.renamed Mention.text = i := by
  cases i with
  | invokeDynamic name d bootstrap arguments =>
    rw [renamed, bootstrap.renamed_text, Constant.renamedList_text]
    rfl
  | ldc value => exact congrArg Instruction.ldc value.renamed_text
  | frame locals stack =>
    rw [renamed, List.map_id'' FrameValue.renamed_text, List.map_id'' FrameValue.renamed_text]
  | _ => rfl

theorem EnclosingMethod.renamed_text (e : EnclosingMethod) : e.renamed Mention.text = e := by
  obtain ⟨owner, methodName, methodDescriptor⟩ := e
  cases methodName with
  | none => cases methodDescriptor <;> rfl
  | some name => cases methodDescriptor <;> rfl

theorem simpleNameAfter_self (name simple : String) : simpleNameAfter name name simple = simple :=
  if_pos rfl

theorem InnerClass.renamed_text (i : InnerClass) : i.renamed Mention.text = i := by
  simp only [renamed, Mention.text, Option.map_id_apply',
    option_map_of_stays (simpleNameAfter_self i.name)]

theorem RecordComponent.renamed_text (owner : String) (c : RecordComponent) :
    c.renamed Mention.text owner = c := by
  simp only [renamed, Mention.text, Option.map_id_apply', List.map_id'' AnnotationUse.renamed_text]

theorem Field.renamed_text (owner : String) (c : Field) : c.renamed Mention.text owner = c := by
  simp only [renamed, Mention.text, Option.map_id_apply', option_map_of_stays Constant.renamed_text,
    List.map_id'' AnnotationUse.renamed_text]

theorem LocalVariable.renamed_text (owner methodName methodDescriptor : String)
    (v : LocalVariable) : v.renamed Mention.text owner methodName methodDescriptor = v := by
  simp only [renamed, Mention.text, Option.map_id_apply']

theorem ExceptionHandler.renamed_text (h : ExceptionHandler) : h.renamed Mention.text = h := by
  simp only [renamed, Mention.text, Option.map_id_apply']

theorem Method.renamed_text (owner : String) (c : Method) : c.renamed Mention.text owner = c := by
  have locals := List.map_id'' (LocalVariable.renamed_text owner c.name c.descriptor)
  simp only [renamed, Mention.text, Option.map_id_apply', List.map_id',
    List.map_id'' AnnotationUse.renamed_text, option_map_of_stays AnnotationValue.renamed_text,
    List.map_id'' Instruction.renamed_text, List.map_id'' ExceptionHandler.renamed_text, locals]

/-- **A class in which every mention is answered by what is written there stays as it is.** -/
theorem ClassFile.renamed_text (c : ClassFile) : c.renamed Mention.text = c := by
  simp only [renamed, Mention.text, Option.map_id_apply', List.map_id',
    option_map_of_stays EnclosingMethod.renamed_text, List.map_id'' InnerClass.renamed_text,
    List.map_id'' AnnotationUse.renamed_text, List.map_id'' (RecordComponent.renamed_text c.name),
    List.map_id'' (Field.renamed_text c.name), List.map_id'' (Method.renamed_text c.name)]

end Pseudonym
