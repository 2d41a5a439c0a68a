import Pseudonym.Proofs.Class.Mention
import Pseudonym.Strip

/-!
# The texts in a class

`texts` lists every text that a class holds, names as well as data, and `mapTexts` changes every
text but the generic signatures. Neither knows what a text means. They are what statements about all
texts of a class are made of: that none of them holds a marker, that each of them is restored. The
two are written apart, and they go through the same places,

    (strip (c.mapTexts f)).texts = (strip c).texts.map f

where `strip` removes the signatures (`ClassFile.texts_strip_mapTexts`). Every mention is about one
of the texts (`ClassFile.text_mem_texts`).
-/

namespace Pseudonym

/-- Removes the signatures and nothing else. -/
def StripConfig.signaturesOnly : StripConfig where
  sourceFile := false
  lineNumbers := false
  localVariables := false
  signatures := true

open StripConfig (signaturesOnly)

/-! ### All texts -/

def Handle.texts (h : Handle) : List String := [h.owner, h.name, h.descriptor]

mutual

def Constant.texts : Constant → List String
  | .int _ | .long _ | .float _ | .double _ => []
  | .string text => [text]
  | .type d | .methodType d => [d]
  | .handle h => h.texts
  | .dynamic name d bootstrap arguments =>
    [[name, d], bootstrap.texts, Constant.textsList arguments].flatten

def Constant.textsList : List Constant → List String
  | [] => []
  | c :: cs => c.texts ++ Constant.textsList cs

end

mutual

def AnnotationValue.texts : AnnotationValue → List String
  | .const c => c.texts
  | .enum d value => [d, value]
  | .type d => [d]
  | .nested a => a.texts
  | .array items => AnnotationValue.textsList items

def AnnotationValue.textsList : List AnnotationValue → List String
  | [] => []
  | v :: vs => v.texts ++ AnnotationValue.textsList vs

def AnnotationUse.texts : AnnotationUse → List String
  | ⟨d, _, values⟩ => d :: AnnotationUse.textsValues values

def AnnotationUse.textsValues : List (String × AnnotationValue) → List String
  | [] => []
  | (name, value) :: values => [[name], value.texts, AnnotationUse.textsValues values].flatten

end

def FrameValue.texts : FrameValue → List String
  | .object name => [name]
  | _ => []

def Instruction.texts : Instruction → List String
  | .type _ d | .multiANewArray d _ => [d]
  | .field _ owner name d | .method _ owner name d _ => [owner, name, d]
  | .invokeDynamic name d bootstrap arguments =>
    [[name, d], bootstrap.texts, Constant.textsList arguments].flatten
  | .ldc value => value.texts
  | .frame locals stack => [locals.flatMap FrameValue.texts, stack.flatMap FrameValue.texts].flatten
  | _ => []

def EnclosingMethod.texts (e : EnclosingMethod) : List String :=
  [[e.owner], e.methodName.toList, e.methodDescriptor.toList].flatten

def InnerClass.texts (i : InnerClass) : List String :=
  [[i.name], i.outerName.toList, i.innerName.toList].flatten

def RecordComponent.texts (c : RecordComponent) : List String :=
  [[c.name, c.descriptor], c.signature.toList, c.annotations.flatMap AnnotationUse.texts].flatten

def Field.texts (c : Field) : List String :=
  [[c.name, c.descriptor], c.signature.toList, c.value.toList.flatMap Constant.texts,
    c.annotations.flatMap AnnotationUse.texts].flatten

def LocalVariable.texts (v : LocalVariable) : List String :=
  [[v.name, v.descriptor], v.signature.toList].flatten

def Method.texts (c : Method) : List String :=
  [[c.name, c.descriptor], c.signature.toList, c.exceptions,
    c.annotations.flatMap AnnotationUse.texts,
    c.annotationDefault.toList.flatMap AnnotationValue.texts,
    c.instructions.flatMap Instruction.texts, c.handlers.flatMap (·.exceptionType.toList),
    c.localVariables.flatMap LocalVariable.texts].flatten

/-- Every text in a class. -/
def ClassFile.texts (c : ClassFile) : List String :=
  [[c.name], c.signature.toList, c.superName.toList, c.interfaces, c.sourceFile.toList,
    c.enclosing.toList.flatMap EnclosingMethod.texts, c.innerClasses.flatMap InnerClass.texts,
    c.nestHost.toList, c.nestMembers, c.permittedSubclasses,
    c.annotations.flatMap AnnotationUse.texts, c.recordComponents.flatMap RecordComponent.texts,
    c.fields.flatMap Field.texts, c.methods.flatMap Method.texts].flatten

/-! ### All texts changed -/

section

variable (f : String → String)

def Handle.mapTexts (h : Handle) : Handle :=
  { h with owner := f h.owner, name := f h.name, descriptor := f h.descriptor }

mutual

def Constant.mapTexts : Constant → Constant
  | .int value => .int value
  | .long value => .long value
  | .float bits => .float bits
  | .double bits => .double bits
  | .string text => .string (f text)
  | .type d => .type (f d)
  | .methodType d => .methodType (f d)
  | .handle h => .handle (h.mapTexts f)
  | .dynamic name d bootstrap arguments =>
    .dynamic (f name) (f d) (bootstrap.mapTexts f) (Constant.mapTextsList arguments)

def Constant.mapTextsList : List Constant → List Constant
  | [] => []
  | c :: cs => c.mapTexts :: Constant.mapTextsList cs

end

mutual

def AnnotationValue.mapTexts : AnnotationValue → AnnotationValue
  | .const c => .const (c.mapTexts f)
  | .enum d value => .enum (f d) (f value)
  | .type d => .type (f d)
  | .nested a => .nested a.mapTexts
  | .array items => .array (AnnotationValue.mapTextsList items)

def AnnotationValue.mapTextsList : List AnnotationValue → List AnnotationValue
  | [] => []
  | v :: vs => v.mapTexts :: AnnotationValue.mapTextsList vs

def AnnotationUse.mapTexts : AnnotationUse → AnnotationUse
  | ⟨d, visible, values⟩ => ⟨f d, visible, AnnotationUse.mapTextsValues values⟩

def AnnotationUse.mapTextsValues : List (String × AnnotationValue) → List (String × AnnotationValue)
  | [] => []
  | (name, value) :: values => (f name, value.mapTexts) :: AnnotationUse.mapTextsValues values

end

def FrameValue.mapTexts : FrameValue → FrameValue
  | .object name => .object (f name)
  | value => value

def Instruction.mapTexts : Instruction → Instruction
  | .type opcode d => .type opcode (f d)
  | .field opcode owner name d => .field opcode (f owner) (f name) (f d)
  | .method opcode owner name d isInterface => .method opcode (f owner) (f name) (f d) isInterface
  | .invokeDynamic name d bootstrap arguments =>
    .invokeDynamic (f name) (f d) (bootstrap.mapTexts f) (Constant.mapTextsList f arguments)
  | .ldc value => .ldc (value.mapTexts f)
  | .multiANewArray d dimensions => .multiANewArray (f d) dimensions
  | .frame locals stack =>
    .frame (locals.map (FrameValue.mapTexts f)) (stack.map (FrameValue.mapTexts f))
  | instruction => instruction

def EnclosingMethod.mapTexts (e : EnclosingMethod) : EnclosingMethod where
  owner := f e.owner
  methodName := e.methodName.map f
  methodDescriptor := e.methodDescriptor.map f

def InnerClass.mapTexts (i : InnerClass) : InnerClass :=
  { i with name := f i.name, outerName := i.outerName.map f, innerName := i.innerName.map f }

def RecordComponent.mapTexts (c : RecordComponent) : RecordComponent :=
  { c with
    name := f c.name
    descriptor := f c.descriptor
    annotations := c.annotations.map (AnnotationUse.mapTexts f) }

def Field.mapTexts (c : Field) : Field :=
  { c with
    name := f c.name
    descriptor := f c.descriptor
    value := c.value.map (Constant.mapTexts f)
    annotations := c.annotations.map (AnnotationUse.mapTexts f) }

def LocalVariable.mapTexts (v : LocalVariable) : LocalVariable :=
  { v with name := f v.name, descriptor := f v.descriptor }

def ExceptionHandler.mapTexts (h : ExceptionHandler) : ExceptionHandler :=
  { h with exceptionType := h.exceptionType.map f }

def Method.mapTexts (c : Method) : Method :=
  { c with
    name := f c.name
    descriptor := f c.descriptor
    exceptions := c.exceptions.map f
    annotations := c.annotations.map (AnnotationUse.mapTexts f)
    annotationDefault := c.annotationDefault.map (AnnotationValue.mapTexts f)
    instructions := c.instructions.map (Instruction.mapTexts f)
    handlers := c.handlers.map (ExceptionHandler.mapTexts f)
    localVariables := c.localVariables.map (LocalVariable.mapTexts f) }

/-- A class with every text changed but the signatures. -/
def ClassFile.mapTexts (c : ClassFile) : ClassFile :=
  { c with
    name := f c.name
    superName := c.superName.map f
    interfaces := c.interfaces.map f
    sourceFile := c.sourceFile.map f
    enclosing := c.enclosing.map (EnclosingMethod.mapTexts f)
    innerClasses := c.innerClasses.map (InnerClass.mapTexts f)
    nestHost := c.nestHost.map f
    nestMembers := c.nestMembers.map f
    permittedSubclasses := c.permittedSubclasses.map f
    annotations := c.annotations.map (AnnotationUse.mapTexts f)
    recordComponents := c.recordComponents.map (RecordComponent.mapTexts f)
    fields := c.fields.map (Field.mapTexts f)
    methods := c.methods.map (Method.mapTexts f) }

/-! ### The same places -/

theorem Handle.texts_mapTexts (h : Handle) : (h.mapTexts f).texts = h.texts.map f := rfl

mutual

theorem Constant.texts_mapTexts : ∀ c : Constant, (c.mapTexts f).texts = c.texts.map f
  | .int _ | .long _ | .float _ | .double _ | .string _ | .type _ | .methodType _ | .handle _ => rfl
  | .dynamic name d bootstrap arguments => by
    rw [mapTexts, texts, texts, Constant.texts_mapTextsList arguments, Handle.texts_mapTexts,
      List.map_flatten]
    rfl

theorem Constant.texts_mapTextsList : ∀ cs : List Constant,
    Constant.textsList (Constant.mapTextsList f cs) = (Constant.textsList cs).map f
  | [] => rfl
  | c :: cs => by
    rw [mapTextsList, textsList, textsList, Constant.texts_mapTexts c,
      Constant.texts_mapTextsList cs, List.map_append]

end

mutual

theorem AnnotationValue.texts_mapTexts : ∀ v : AnnotationValue,
    (v.mapTexts f).texts = v.texts.map f
  | .const c => Constant.texts_mapTexts f c
  | .enum _ _ | .type _ => rfl
  | .nested a => AnnotationUse.texts_mapTexts a
  | .array items => AnnotationValue.texts_mapTextsList items

theorem AnnotationValue.texts_mapTextsList : ∀ vs : List AnnotationValue,
    AnnotationValue.textsList (AnnotationValue.mapTextsList f vs) =
      (AnnotationValue.textsList vs).map f
  | [] => rfl
  | v :: vs => by
    rw [AnnotationValue.mapTextsList, AnnotationValue.textsList, AnnotationValue.textsList,
      AnnotationValue.texts_mapTexts v, AnnotationValue.texts_mapTextsList vs, List.map_append]

theorem AnnotationUse.texts_mapTexts : ∀ a : AnnotationUse, (a.mapTexts f).texts = a.texts.map f
  | ⟨d, visible, values⟩ => by
    rw [AnnotationUse.mapTexts, AnnotationUse.texts, AnnotationUse.texts,
      AnnotationUse.texts_mapTextsValues values, List.map_cons]

theorem AnnotationUse.texts_mapTextsValues : ∀ values : List (String × AnnotationValue),
    AnnotationUse.textsValues (AnnotationUse.mapTextsValues f values) =
      (AnnotationUse.textsValues values).map f
  | [] => rfl
  | (name, value) :: values => by
    rw [AnnotationUse.mapTextsValues, AnnotationUse.textsValues, AnnotationUse.textsValues,
      AnnotationValue.texts_mapTexts value, AnnotationUse.texts_mapTextsValues values,
      List.map_flatten]
    rfl

end

theorem flatMap_texts_strip_map {α : Type} {k strip : α → α} {ts : α → List String}
    (h : ∀ x, ts (strip (k x)) = (ts (strip x)).map f) (xs : List α) :
    ((xs.map k).map strip).flatMap ts = ((xs.map strip).flatMap ts).map f := by
  rw [List.map_map, List.flatMap_map, List.flatMap_map, List.map_flatMap]
  exact congrArg (xs.flatMap ·) (funext h)

theorem FrameValue.texts_mapTexts (v : FrameValue) : (v.mapTexts f).texts = v.texts.map f := by
  cases v <;> rfl

theorem Instruction.texts_mapTexts (i : Instruction) : (i.mapTexts f).texts = i.texts.map f := by
  cases i with
  | invokeDynamic name d bootstrap arguments =>
    simp only [mapTexts, texts, Constant.texts_mapTextsList, Handle.texts_mapTexts,
      List.map_flatten]
    rfl
  | ldc value => exact Constant.texts_mapTexts f value
  | frame locals stack =>
    simp only [mapTexts, texts, flatMap_map_comm (FrameValue.texts_mapTexts f),
      List.map_flatten]
    rfl
  | _ => rfl

theorem EnclosingMethod.texts_mapTexts (e : EnclosingMethod) :
    (e.mapTexts f).texts = e.texts.map f := by
  simp [mapTexts, texts, Option.toList_map]

theorem InnerClass.texts_mapTexts (i : InnerClass) : (i.mapTexts f).texts = i.texts.map f := by
  simp [mapTexts, texts, Option.toList_map]

theorem RecordComponent.texts_strip_mapTexts (c : RecordComponent) :
    (signaturesOnly.stripComponent (c.mapTexts f)).texts =
      (signaturesOnly.stripComponent c).texts.map f := by
  have annotations := flatMap_map_comm (AnnotationUse.texts_mapTexts f) c.annotations
  simp only [texts, StripConfig.stripComponent, mapTexts, annotations, List.map_flatten]
  rfl

theorem Field.texts_strip_mapTexts (c : Field) :
    (signaturesOnly.stripField (c.mapTexts f)).texts =
      (signaturesOnly.stripField c).texts.map f := by
  have value := flatMap_map_comm (Constant.texts_mapTexts f) c.value.toList
  have annotations := flatMap_map_comm (AnnotationUse.texts_mapTexts f) c.annotations
  simp only [texts, StripConfig.stripField, mapTexts, Option.toList_map, value, annotations,
    List.map_flatten]
  rfl

theorem LocalVariable.texts_strip_mapTexts (v : LocalVariable) :
    (signaturesOnly.stripVariable (v.mapTexts f)).texts =
      (signaturesOnly.stripVariable v).texts.map f := rfl

theorem Method.texts_strip_mapTexts (c : Method) :
    (signaturesOnly.stripMethod (c.mapTexts f)).texts =
      (signaturesOnly.stripMethod c).texts.map f := by
  have annotations := flatMap_map_comm (AnnotationUse.texts_mapTexts f) c.annotations
  have annotationDefault :=
    flatMap_map_comm (AnnotationValue.texts_mapTexts f) c.annotationDefault.toList
  have instructions := flatMap_map_comm (Instruction.texts_mapTexts f) c.instructions
  have handlers : (c.handlers.map (ExceptionHandler.mapTexts f)).flatMap (·.exceptionType.toList) =
      (c.handlers.flatMap (·.exceptionType.toList)).map f := by
    refine flatMap_map_comm (fun h => ?_) c.handlers
    rw [ExceptionHandler.mapTexts, Option.toList_map]
  have localVariables :=
    flatMap_texts_strip_map f (LocalVariable.texts_strip_mapTexts f) c.localVariables
  have kept : signaturesOnly.lineNumbers = false ∧ signaturesOnly.localVariables = false :=
    ⟨rfl, rfl⟩
  simp only [texts, StripConfig.stripMethod, mapTexts, kept, Bool.false_eq_true, if_false,
    Option.toList_map, annotations, annotationDefault, instructions, handlers, localVariables,
    List.map_flatten]
  rfl

/-- **Every text but the signatures is changed, and nothing else is.** -/
theorem ClassFile.texts_strip_mapTexts (c : ClassFile) :
    (signaturesOnly.strip (c.mapTexts f)).texts = (signaturesOnly.strip c).texts.map f := by
  have enclosing := flatMap_map_comm (EnclosingMethod.texts_mapTexts f) c.enclosing.toList
  have innerClasses := flatMap_map_comm (InnerClass.texts_mapTexts f) c.innerClasses
  have annotations := flatMap_map_comm (AnnotationUse.texts_mapTexts f) c.annotations
  have recordComponents :=
    flatMap_texts_strip_map f (RecordComponent.texts_strip_mapTexts f) c.recordComponents
  have fields := flatMap_texts_strip_map f (Field.texts_strip_mapTexts f) c.fields
  have methods := flatMap_texts_strip_map f (Method.texts_strip_mapTexts f) c.methods
  have kept : signaturesOnly.sourceFile = false := rfl
  simp only [texts, StripConfig.strip, mapTexts, kept, Bool.false_eq_true, if_false,
    Option.toList_map, enclosing, innerClasses, annotations, recordComponents, fields, methods,
    List.map_flatten]
  rfl

end

/-! ### Mentions are among the texts -/

section

variable {q : Mention}

theorem Handle.text_mem_texts {h : Handle} (hq : q ∈ h.mentions) : q.text ∈ h.texts := by
  simp only [mentions, List.mem_cons, List.not_mem_nil, or_false] at hq
  rcases hq with rfl | rfl | rfl
  · unfold member
    split
    · simp [texts, Mention.text]
    · simp [texts, Mention.text]
  · simp [texts, Mention.text]
  · simp [texts, Mention.text]

mutual

theorem Constant.text_mem_texts : ∀ {c : Constant}, q ∈ c.mentions → q.text ∈ c.texts
  | .int _, h | .long _, h | .float _, h | .double _, h | .string _, h => absurd h List.not_mem_nil
  | .type _, h | .methodType _, h => by
    rw [List.mem_singleton.1 h]
    exact List.mem_singleton_self _
  | .handle _, h => Handle.text_mem_texts h
  | .dynamic _ d bootstrap arguments, h => by
    simp only [Constant.mentions, Constant.texts, List.flatten_cons, List.flatten_nil,
      List.mem_append, List.not_mem_nil, or_false] at h ⊢
    rcases h with h | h | h
    · rw [List.mem_singleton.1 h]
      simp [Mention.text]
    · exact Or.inr (Or.inl (Handle.text_mem_texts h))
    · exact Or.inr (Or.inr (Constant.text_mem_textsList h))

theorem Constant.text_mem_textsList : ∀ {cs : List Constant}, q ∈ Constant.mentionsList cs →
    q.text ∈ Constant.textsList cs
  | [], h => absurd h List.not_mem_nil
  | c :: cs, h => by
    rcases List.mem_append.1 h with h | h
    · exact List.mem_append_left _ (Constant.text_mem_texts h)
    · exact List.mem_append_right _ (Constant.text_mem_textsList h)

end

mutual

theorem AnnotationValue.text_mem_texts : ∀ {v : AnnotationValue}, q ∈ v.mentions → q.text ∈ v.texts
  | .const _, h => Constant.text_mem_texts h
  | .enum d value, h => by
    simp only [AnnotationValue.mentions, List.mem_cons, List.not_mem_nil, or_false] at h
    rcases h with rfl | rfl
    · simp [AnnotationValue.texts, Mention.text]
    · simp [AnnotationValue.texts, Mention.text]
  | .type _, h => by
    rw [List.mem_singleton.1 h]
    exact List.mem_singleton_self _
  | .nested _, h => AnnotationUse.text_mem_texts h
  | .array _, h => AnnotationValue.text_mem_textsList h

theorem AnnotationValue.text_mem_textsList : ∀ {vs : List AnnotationValue},
    q ∈ AnnotationValue.mentionsList vs → q.text ∈ AnnotationValue.textsList vs
  | [], h => absurd h List.not_mem_nil
  | v :: vs, h => by
    rcases List.mem_append.1 h with h | h
    · exact List.mem_append_left _ (AnnotationValue.text_mem_texts h)
    · exact List.mem_append_right _ (AnnotationValue.text_mem_textsList h)

theorem AnnotationUse.text_mem_texts : ∀ {a : AnnotationUse}, q ∈ a.mentions → q.text ∈ a.texts
  | ⟨d, _, values⟩, h => by
    rcases List.mem_append.1 h with h | h
    · exact List.mem_cons_of_mem d (AnnotationUse.text_mem_textsValues h)
    · rw [List.mem_singleton.1 h]
      exact List.mem_cons_self

theorem AnnotationUse.text_mem_textsValues {d : String} :
    ∀ {values : List (String × AnnotationValue)}, q ∈ AnnotationUse.mentionsValues d values →
      q.text ∈ AnnotationUse.textsValues values
  | [], h => absurd h List.not_mem_nil
  | (name, value) :: values, h => by
    simp only [AnnotationUse.mentionsValues, AnnotationUse.textsValues, List.flatten_cons,
      List.flatten_nil, List.mem_append, List.not_mem_nil, or_false] at h ⊢
    rcases h with h | h | h
    · rw [List.mem_singleton.1 h]
      exact Or.inl (List.mem_singleton_self _)
    · exact Or.inr (Or.inl (AnnotationValue.text_mem_texts h))
    · exact Or.inr (Or.inr (AnnotationUse.text_mem_textsValues h))

end

theorem text_mem_of_mem_map {k : String → Mention} {ts : List String} (h : q ∈ ts.map k)
    (hk : ∀ t, (k t).text = t) : q.text ∈ ts := by
  obtain ⟨t, ht, rfl⟩ := List.mem_map.1 h
  exact (hk t).symm ▸ ht

theorem text_mem_of_mem_flatMap {α : Type} {ms : α → List Mention} {ts : α → List String}
    {xs : List α} (h : q ∈ xs.flatMap ms) (hx : ∀ x, q ∈ ms x → q.text ∈ ts x) :
    q.text ∈ xs.flatMap ts := by
  obtain ⟨x, hm, hq⟩ := List.mem_flatMap.1 h
  exact List.mem_flatMap.2 ⟨x, hm, hx x hq⟩

theorem FrameValue.text_mem_texts {v : FrameValue} (h : q ∈ v.mentions) : q.text ∈ v.texts := by
  cases v with
  | object name =>
    rw [List.mem_singleton.1 h]
    exact List.mem_singleton_self _
  | _ => exact absurd h List.not_mem_nil

theorem Instruction.text_mem_texts {i : Instruction} (h : q ∈ i.mentions) : q.text ∈ i.texts := by
  cases i with
  | type opcode d | multiANewArray d dimensions =>
    rw [List.mem_singleton.1 h]
    exact List.mem_singleton_self _
  | field opcode owner name d | method opcode owner name d isInterface =>
    simp only [mentions, List.mem_cons, List.not_mem_nil, or_false] at h
    rcases h with rfl | rfl | rfl
    · simp [texts, Mention.text]
    · simp [texts, Mention.text]
    · simp [texts, Mention.text]
  | invokeDynamic name d bootstrap arguments =>
    simp only [mentions, texts, List.flatten_cons, List.flatten_nil, List.mem_append,
      List.mem_singleton, List.not_mem_nil, or_false] at h ⊢
    rcases h with rfl | rfl | h | h
    · simp [Mention.text]
    · simp [Mention.text]
    · exact Or.inr (Or.inl (Handle.text_mem_texts h))
    · exact Or.inr (Or.inr (Constant.text_mem_textsList h))
  | ldc value => exact Constant.text_mem_texts h
  | frame locals stack =>
    simp only [mentions, texts, List.flatten_cons, List.flatten_nil, List.mem_append,
      List.not_mem_nil, or_false] at h ⊢
    rcases h with h | h
    · exact Or.inl (text_mem_of_mem_flatMap h fun _ => FrameValue.text_mem_texts)
    · exact Or.inr (text_mem_of_mem_flatMap h fun _ => FrameValue.text_mem_texts)
  | _ => exact absurd h List.not_mem_nil

theorem EnclosingMethod.text_mem_texts {e : EnclosingMethod} (h : q ∈ e.mentions) :
    q.text ∈ e.texts := by
  obtain ⟨owner, methodName, methodDescriptor⟩ := e
  simp only [mentions, texts, List.flatten_cons, List.flatten_nil, List.mem_append,
    List.mem_singleton, List.not_mem_nil, or_false] at h ⊢
  rcases h with h | rfl | h
  · unfold method? at h
    split at h
    · next name d hn _ =>
      obtain rfl : methodName = some name := hn
      rw [List.mem_singleton.1 h]
      exact Or.inr (Or.inl (List.mem_singleton_self name))
    · exact absurd h List.not_mem_nil
  · exact Or.inl rfl
  · exact Or.inr (Or.inr (text_mem_of_mem_map h fun _ => rfl))

theorem InnerClass.text_mem_texts {i : InnerClass} (h : q ∈ i.mentions) : q.text ∈ i.texts := by
  simp only [mentions, texts, List.flatten_cons, List.flatten_nil, List.mem_append,
    List.mem_singleton, List.not_mem_nil, or_false] at h ⊢
  rcases h with rfl | h
  · exact Or.inl rfl
  · exact Or.inr (Or.inl (text_mem_of_mem_map h fun _ => rfl))

theorem RecordComponent.text_mem_texts {owner : String} {c : RecordComponent}
    (h : q ∈ c.mentions owner) : q.text ∈ c.texts := by
  simp only [mentions, texts, List.flatten_cons, List.flatten_nil, List.mem_append, List.mem_cons,
    List.not_mem_nil, or_false] at h ⊢
  rcases h with rfl | rfl | h | h
  · exact Or.inl (Or.inl rfl)
  · exact Or.inl (Or.inr rfl)
  · exact Or.inr (Or.inl (text_mem_of_mem_map h fun _ => rfl))
  · exact Or.inr (Or.inr (text_mem_of_mem_flatMap h fun _ => AnnotationUse.text_mem_texts))

theorem Field.text_mem_texts {owner : String} {c : Field} (h : q ∈ c.mentions owner) :
    q.text ∈ c.texts := by
  simp only [mentions, texts, List.flatten_cons, List.flatten_nil, List.mem_append, List.mem_cons,
    List.not_mem_nil, or_false] at h ⊢
  rcases h with rfl | rfl | h | h | h
  · exact Or.inl (Or.inl rfl)
  · exact Or.inl (Or.inr rfl)
  · exact Or.inr (Or.inl (text_mem_of_mem_map h fun _ => rfl))
  · exact Or.inr (Or.inr (Or.inl (text_mem_of_mem_flatMap h fun _ => Constant.text_mem_texts)))
  · exact Or.inr (Or.inr (Or.inr (text_mem_of_mem_flatMap h fun _ => AnnotationUse.text_mem_texts)))

theorem LocalVariable.text_mem_texts {owner methodName methodDescriptor : String}
    {v : LocalVariable} (h : q ∈ v.mentions owner methodName methodDescriptor) :
    q.text ∈ v.texts := by
  simp only [mentions, texts, List.flatten_cons, List.flatten_nil, List.mem_append, List.mem_cons,
    List.not_mem_nil, or_false] at h ⊢
  rcases h with rfl | rfl | h
  · exact Or.inl (Or.inl rfl)
  · exact Or.inl (Or.inr rfl)
  · exact Or.inr (text_mem_of_mem_map h fun _ => rfl)

theorem Method.text_mem_texts {owner : String} {c : Method} (h : q ∈ c.mentions owner) :
    q.text ∈ c.texts := by
  obtain ⟨part, hp, h⟩ := List.mem_flatten.1 h
  simp only [List.mem_cons, List.not_mem_nil, or_false] at hp
  have names : ∀ t ∈ [c.name, c.descriptor], t ∈ c.texts :=
    fun t ht => List.mem_flatten_of_mem (by simp) ht
  rcases hp with rfl | rfl | rfl | rfl | rfl | rfl | rfl | rfl | rfl
  · exact List.mem_flatten_of_mem (by simp)
      (text_mem_of_mem_flatMap h fun _ => LocalVariable.text_mem_texts)
  · rw [List.mem_singleton.1 h]
    exact names c.name (by simp)
  · rw [List.mem_singleton.1 h]
    exact names c.descriptor (by simp)
  · exact List.mem_flatten_of_mem (by simp) (text_mem_of_mem_map h fun _ => rfl)
  · exact List.mem_flatten_of_mem (by simp) (text_mem_of_mem_map h fun _ => rfl)
  · exact List.mem_flatten_of_mem (by simp)
      (text_mem_of_mem_flatMap h fun _ => AnnotationUse.text_mem_texts)
  · exact List.mem_flatten_of_mem (by simp)
      (text_mem_of_mem_flatMap h fun _ => AnnotationValue.text_mem_texts)
  · exact List.mem_flatten_of_mem (by simp)
      (text_mem_of_mem_flatMap h fun _ => Instruction.text_mem_texts)
  · have caught : q.text ∈ c.handlers.flatMap (·.exceptionType.toList) :=
      text_mem_of_mem_flatMap h fun _ hq => text_mem_of_mem_map hq fun _ => rfl
    exact List.mem_flatten_of_mem (by simp) caught

/-- **What a class mentions is among its texts.** -/
theorem ClassFile.text_mem_texts {c : ClassFile} (h : q ∈ c.mentions) : q.text ∈ c.texts := by
  obtain ⟨part, hp, h⟩ := List.mem_flatten.1 h
  simp only [List.mem_cons, List.not_mem_nil, or_false] at hp
  rcases hp with rfl | rfl | rfl | rfl | rfl | rfl | rfl | rfl | rfl | rfl | rfl | rfl | rfl
  · exact List.mem_flatten_of_mem (by simp)
      (text_mem_of_mem_flatMap h fun _ => EnclosingMethod.text_mem_texts)
  · rw [List.mem_singleton.1 h]
    exact List.mem_flatten_of_mem List.mem_cons_self (List.mem_singleton_self c.name)
  · exact List.mem_flatten_of_mem (by simp) (text_mem_of_mem_map h fun _ => rfl)
  · exact List.mem_flatten_of_mem (by simp) (text_mem_of_mem_map h fun _ => rfl)
  · exact List.mem_flatten_of_mem (by simp) (text_mem_of_mem_map h fun _ => rfl)
  · exact List.mem_flatten_of_mem (by simp)
      (text_mem_of_mem_flatMap h fun _ => InnerClass.text_mem_texts)
  · exact List.mem_flatten_of_mem (by simp) (text_mem_of_mem_map h fun _ => rfl)
  · exact List.mem_flatten_of_mem (by simp) (text_mem_of_mem_map h fun _ => rfl)
  · exact List.mem_flatten_of_mem (by simp) (text_mem_of_mem_map h fun _ => rfl)
  · exact List.mem_flatten_of_mem (by simp)
      (text_mem_of_mem_flatMap h fun _ => AnnotationUse.text_mem_texts)
  · exact List.mem_flatten_of_mem (by simp)
      (text_mem_of_mem_flatMap h fun _ => RecordComponent.text_mem_texts)
  · exact List.mem_flatten_of_mem (by simp)
      (text_mem_of_mem_flatMap h fun _ => Field.text_mem_texts)
  · exact List.mem_flatten_of_mem (by simp)
      (text_mem_of_mem_flatMap h fun _ => Method.text_mem_texts)

end

end Pseudonym
