import Pseudonym.Proofs.Document.Annotation
import Pseudonym.Proofs.Document.Instruction

/-!
# Classes as documents

For every record that a class is made of, and for the class: it is written as a value that can be
read, what is written is read again, with its floating point constants settled if they are finite,
and it is written with no more levels than it was read with, except for annotations without values
on the last level. With those it is refused when it is read again.

A record with defaults can be read where no level is left for its lists, so the members of a class
ask for two levels and a class for four. A document has many more than that: what nests in it
without bound are constants, which name all their members, and annotations.
-/

namespace Pseudonym

section

open Document (deeper)

/-- The floating point constants in a field. -/
def Field.floating (c : Field) : List Constant :=
  c.value.toList.flatMap Constant.floating ++ c.annotations.flatMap AnnotationUse.floating

/-- The floating point constants in a method. -/
def Method.floating (c : Method) : List Constant :=
  c.annotations.flatMap AnnotationUse.floating ++
    c.annotationDefault.toList.flatMap AnnotationValue.floating ++
    c.instructions.flatMap Instruction.floating

/-- The floating point constants in a record component. -/
def RecordComponent.floating (c : RecordComponent) : List Constant :=
  c.annotations.flatMap AnnotationUse.floating

/-- All `float` and `double` constants in a class. -/
def ClassFile.floating (c : ClassFile) : List Constant :=
  c.annotations.flatMap AnnotationUse.floating ++
    c.recordComponents.flatMap RecordComponent.floating ++ c.fields.flatMap Field.floating ++
    c.methods.flatMap Method.floating

/-- What stands for a field once it was written and read. -/
def Field.settled (c : Field) : Field :=
  { c with
    value := c.value.map Constant.settled
    annotations := c.annotations.map AnnotationUse.settled }

/-- What stands for a method once it was written and read. -/
def Method.settled (c : Method) : Method :=
  { c with
    annotations := c.annotations.map AnnotationUse.settled
    annotationDefault := c.annotationDefault.map AnnotationValue.settled
    instructions := c.instructions.map Instruction.settled }

/-- What stands for a record component once it was written and read. -/
def RecordComponent.settled (c : RecordComponent) : RecordComponent :=
  { c with annotations := c.annotations.map AnnotationUse.settled }

/-- What stands for a class once it was written and read. -/
def ClassFile.settled (c : ClassFile) : ClassFile :=
  { c with
    annotations := c.annotations.map AnnotationUse.settled
    recordComponents := c.recordComponents.map RecordComponent.settled
    fields := c.fields.map Field.settled
    methods := c.methods.map Method.settled }

section

variable {α : Type} {settled : α → α} {floating : α → List Constant}
  (h : ∀ x, floating x = [] → settled x = x)
include h

theorem map_settled_of_plain {xs : List α} (plain : xs.flatMap floating = []) :
    xs.map settled = xs := by
  rw [List.map_congr_left fun x hx => h x (List.flatMap_eq_nil_iff.1 plain x hx), List.map_id']

theorem option_map_settled_of_plain {o : Option α} (plain : o.toList.flatMap floating = []) :
    o.map settled = o := by
  cases o with
  | none => rfl
  | some x => exact congrArg some (h x (by simpa using plain))

end

theorem Field.settled_of_plain {c : Field} (h : c.floating = []) : c.settled = c := by
  obtain ⟨value, annotations⟩ := List.append_eq_nil_iff.1 h
  rw [settled, option_map_settled_of_plain (fun _ => Constant.settled_of_plain) value,
    map_settled_of_plain (fun _ => AnnotationUse.settled_of_plain) annotations]

theorem Method.settled_of_plain {c : Method} (h : c.floating = []) : c.settled = c := by
  simp only [floating, List.append_eq_nil_iff] at h
  obtain ⟨⟨annotations, default⟩, instructions⟩ := h
  rw [settled, map_settled_of_plain (fun _ => AnnotationUse.settled_of_plain) annotations,
    option_map_settled_of_plain (fun _ => AnnotationValue.settled_of_plain) default,
    map_settled_of_plain (fun _ => Instruction.settled_of_plain) instructions]

theorem RecordComponent.settled_of_plain {c : RecordComponent} (h : c.floating = []) :
    c.settled = c := by
  rw [settled, map_settled_of_plain (fun _ => AnnotationUse.settled_of_plain) h]

/-- Without floating point constants a class comes back. -/
theorem ClassFile.settled_of_plain {c : ClassFile} (h : c.floating = []) : c.settled = c := by
  simp only [floating, List.append_eq_nil_iff] at h
  obtain ⟨⟨⟨annotations, components⟩, fields⟩, methods⟩ := h
  rw [settled, map_settled_of_plain (fun _ => AnnotationUse.settled_of_plain) annotations,
    map_settled_of_plain (fun _ => RecordComponent.settled_of_plain) components,
    map_settled_of_plain (fun _ => Field.settled_of_plain) fields,
    map_settled_of_plain (fun _ => Method.settled_of_plain) methods]

/-- How deep the annotations without values stand in a field. -/
def Field.bareDepths (c : Field) : List Nat :=
  deeper (deeper (c.annotations.flatMap AnnotationUse.bareDepths))

/-- How deep the annotations without values stand in a method. -/
def Method.bareDepths (c : Method) : List Nat :=
  deeper (deeper (c.annotations.flatMap AnnotationUse.bareDepths) ++
    c.annotationDefault.toList.flatMap AnnotationValue.bareDepths)

/-- How deep the annotations without values stand in a record component. -/
def RecordComponent.bareDepths (c : RecordComponent) : List Nat :=
  deeper (deeper (c.annotations.flatMap AnnotationUse.bareDepths))

/-- How deep the annotations without values stand in a class, counting the arrays and objects of its
document from the outermost one to the annotation. -/
def ClassFile.bareDepths (c : ClassFile) : List Nat :=
  deeper (deeper (c.annotations.flatMap AnnotationUse.bareDepths) ++
    deeper (c.recordComponents.flatMap RecordComponent.bareDepths) ++
    deeper (c.fields.flatMap Field.bareDepths) ++ deeper (c.methods.flatMap Method.bareDepths))

end

namespace Document

open Json Decoder

/-! ### Small records -/

theorem isWritten_ofEnclosingMethod (e : EnclosingMethod) : (ofEnclosingMethod e).IsWritten := by
  simp [ofEnclosingMethod]

theorem rereads_enclosingMethod (e : EnclosingMethod) :
    Rereads enclosingMethod ofEnclosingMethod e :=
  RereadsAs.record rfl (by simp) fun q _ => by
    simp [Members.get, Members.get?, Members.getD, List.lookup_cons]

theorem staysSound_enclosingMethod (e : EnclosingMethod) :
    StaysSound 0 [] enclosingMethod ofEnclosingMethod e :=
  StaysSound.record rfl fun r _ _ _ => by simp

theorem isWritten_ofInnerClass (i : InnerClass) : (ofInnerClass i).IsWritten := by
  simp [ofInnerClass]

theorem rereads_innerClass (i : InnerClass) : Rereads innerClass ofInnerClass i :=
  RereadsAs.record rfl (by simp) fun q _ => by
    simp [Members.get, Members.get?, Members.getD, List.lookup_cons]

theorem staysSound_innerClass (i : InnerClass) : StaysSound 0 [] innerClass ofInnerClass i :=
  StaysSound.record rfl fun r _ _ _ => by simp

theorem isWritten_ofLocalVariable (v : LocalVariable) : (ofLocalVariable v).IsWritten := by
  simp [ofLocalVariable]

theorem rereads_localVariable (v : LocalVariable) : Rereads localVariable ofLocalVariable v :=
  RereadsAs.record rfl (by simp) fun q _ => by
    simp [Members.get, Members.get?, Members.getD, List.lookup_cons]

theorem staysSound_localVariable (v : LocalVariable) :
    StaysSound 0 [] localVariable ofLocalVariable v :=
  StaysSound.record rfl fun r _ _ _ => by simp

theorem isWritten_ofExceptionHandler (h : ExceptionHandler) :
    (ofExceptionHandler h).IsWritten := by
  simp [ofExceptionHandler]

theorem rereads_exceptionHandler (h : ExceptionHandler) :
    Rereads exceptionHandler ofExceptionHandler h :=
  RereadsAs.record rfl (by simp) fun q _ => by
    simp [Members.get, Members.get?, Members.getD, List.lookup_cons]

theorem staysSound_exceptionHandler (h : ExceptionHandler) :
    StaysSound 0 [] exceptionHandler ofExceptionHandler h :=
  StaysSound.record rfl fun r _ _ _ => by simp

/-! ### What was read -/

section

variable {p : Position} {v : Value}

/-- What a field holds was read from members that stand one level below it. -/
theorem exists_of_field {c : Field} (h : field p v = some c) :
    ∃ r : Members, p.levels = r.position.levels + 1 ∧
      r.get? "value" constant = some c.value ∧
      r.getList "annotations" annotationUse = some c.annotations := by
  obtain ⟨r, levels, read⟩ := exists_of_record h
  obtain ⟨access, -, read⟩ := Option.bind_eq_some_iff.1 read
  obtain ⟨name, -, read⟩ := Option.bind_eq_some_iff.1 read
  obtain ⟨descriptor, -, read⟩ := Option.bind_eq_some_iff.1 read
  obtain ⟨signature, -, read⟩ := Option.bind_eq_some_iff.1 read
  obtain ⟨constant, value_read, read⟩ := Option.bind_eq_some_iff.1 read
  obtain ⟨uses, annotations_read, read⟩ := Option.bind_eq_some_iff.1 read
  obtain rfl := Option.some.inj read
  exact ⟨r, levels, value_read, annotations_read⟩

theorem exists_of_recordComponent {c : RecordComponent} (h : recordComponent p v = some c) :
    ∃ r : Members, p.levels = r.position.levels + 1 ∧
      r.getList "annotations" annotationUse = some c.annotations := by
  obtain ⟨r, levels, read⟩ := exists_of_record h
  obtain ⟨name, -, read⟩ := Option.bind_eq_some_iff.1 read
  obtain ⟨descriptor, -, read⟩ := Option.bind_eq_some_iff.1 read
  obtain ⟨signature, -, read⟩ := Option.bind_eq_some_iff.1 read
  obtain ⟨uses, annotations_read, read⟩ := Option.bind_eq_some_iff.1 read
  obtain rfl := Option.some.inj read
  exact ⟨r, levels, annotations_read⟩

theorem exists_of_method {c : Method} (h : method p v = some c) :
    ∃ r : Members, p.levels = r.position.levels + 1 ∧
      r.getList "annotations" annotationUse = some c.annotations ∧
      r.get? "annotation_default" annotationValue = some c.annotationDefault ∧
      r.getList "instructions" instruction = some c.instructions ∧
      r.getList "try_catch_blocks" exceptionHandler = some c.handlers ∧
      r.getList "local_variables" localVariable = some c.localVariables := by
  obtain ⟨r, levels, read⟩ := exists_of_record h
  obtain ⟨access, -, read⟩ := Option.bind_eq_some_iff.1 read
  obtain ⟨name, -, read⟩ := Option.bind_eq_some_iff.1 read
  obtain ⟨descriptor, -, read⟩ := Option.bind_eq_some_iff.1 read
  obtain ⟨signature, -, read⟩ := Option.bind_eq_some_iff.1 read
  obtain ⟨exceptions, -, read⟩ := Option.bind_eq_some_iff.1 read
  obtain ⟨uses, annotations_read, read⟩ := Option.bind_eq_some_iff.1 read
  obtain ⟨value, default_read, read⟩ := Option.bind_eq_some_iff.1 read
  obtain ⟨code, instructions_read, read⟩ := Option.bind_eq_some_iff.1 read
  obtain ⟨handlers, handlers_read, read⟩ := Option.bind_eq_some_iff.1 read
  obtain ⟨locals, locals_read, read⟩ := Option.bind_eq_some_iff.1 read
  obtain rfl := Option.some.inj read
  exact ⟨r, levels, annotations_read, default_read, instructions_read, handlers_read, locals_read⟩

theorem exists_of_classFile {c : ClassFile} (h : classFile p v = some c) :
    ∃ r : Members, p.levels = r.position.levels + 1 ∧
      r.get? "outer_class" enclosingMethod = some c.enclosing ∧
      r.getList "inner_classes" innerClass = some c.innerClasses ∧
      r.getList "annotations" annotationUse = some c.annotations ∧
      r.getList "record_components" recordComponent = some c.recordComponents ∧
      r.getList "fields" field = some c.fields ∧
      r.getList "methods" method = some c.methods := by
  obtain ⟨r, levels, read⟩ := exists_of_record h
  obtain ⟨access, -, read⟩ := Option.bind_eq_some_iff.1 read
  obtain ⟨name, -, read⟩ := Option.bind_eq_some_iff.1 read
  obtain ⟨signature, -, read⟩ := Option.bind_eq_some_iff.1 read
  obtain ⟨superName, -, read⟩ := Option.bind_eq_some_iff.1 read
  obtain ⟨interfaces, -, read⟩ := Option.bind_eq_some_iff.1 read
  obtain ⟨sourceFile, -, read⟩ := Option.bind_eq_some_iff.1 read
  obtain ⟨enclosing, enclosing_read, read⟩ := Option.bind_eq_some_iff.1 read
  obtain ⟨inner, inner_read, read⟩ := Option.bind_eq_some_iff.1 read
  obtain ⟨nestHost, -, read⟩ := Option.bind_eq_some_iff.1 read
  obtain ⟨nestMembers, -, read⟩ := Option.bind_eq_some_iff.1 read
  obtain ⟨permitted, -, read⟩ := Option.bind_eq_some_iff.1 read
  obtain ⟨uses, annotations_read, read⟩ := Option.bind_eq_some_iff.1 read
  obtain ⟨parts, components_read, read⟩ := Option.bind_eq_some_iff.1 read
  obtain ⟨fieldList, fields_read, read⟩ := Option.bind_eq_some_iff.1 read
  obtain ⟨methodList, methods_read, read⟩ := Option.bind_eq_some_iff.1 read
  obtain rfl := Option.some.inj read
  exact ⟨r, levels, enclosing_read, inner_read, annotations_read, components_read, fields_read,
    methods_read⟩

end

/-! ### Members of a class -/

theorem ofConstant_ne_null (c : Constant) : ofConstant c ≠ .null := by
  cases c <;> simp [ofConstant, tag, Value.record]

theorem ofAnnotationValue_ne_null (v : AnnotationValue) : ofAnnotationValue v ≠ .null := by
  cases v <;> simp [ofAnnotationValue, tag, Value.record]

theorem isSound_ofTexts {levels : Nat} (h : 0 < levels) (texts : List String) :
    isSound levels (ofTexts texts) = true :=
  isSound_array_iff.2 ⟨levels - 1, by omega, by simp⟩

theorem rereads_texts (texts : List String) : Rereads (list string) ofTexts texts :=
  Rereads.list fun s _ p _ => string_text s p

theorem isWritten_annotations (uses : List AnnotationUse) :
    (Value.array (uses.map ofAnnotationUse)).IsWritten := by
  simpa using fun a _ => isWritten_ofAnnotationUse a

theorem rereadsAs_annotations {uses : List AnnotationUse}
    (h : AllFinite (uses.flatMap AnnotationUse.floating)) :
    RereadsAs (list annotationUse) (fun uses => .array (uses.map ofAnnotationUse)) uses
      (uses.map AnnotationUse.settled) :=
  RereadsAs.list fun a ha => rereadsAs_annotationUse (allFinite_flatMap_iff.1 h a ha)

theorem isSound_annotations {uses : List AnnotationUse} {r : Members} {name : String}
    (read : r.getList name annotationUse = some uses) (enough : 0 < r.position.levels)
    (free : r.position.levels ∉ deeper (uses.flatMap AnnotationUse.bareDepths)) :
    isSound r.position.levels (.array (uses.map ofAnnotationUse)) = true :=
  StaysSound.getList (fun a _ => staysSound_annotationUse a) read enough free

theorem refuses_annotations (uses : List AnnotationUse) :
    Refuses (deeper (uses.flatMap AnnotationUse.bareDepths)) (list annotationUse)
      (fun uses => .array (uses.map ofAnnotationUse)) uses :=
  Refuses.list fun a _ => refuses_annotationUse a

theorem isWritten_ofOptional {α : Type} {of : α → Value} {o : Option α}
    (h : ∀ x ∈ o, (of x).IsWritten) : (ofOptional of o).IsWritten := by
  cases o with
  | none => exact Value.isWritten_null
  | some x => exact h x rfl

theorem isWritten_ofField (c : Field) : (ofField c).IsWritten := by
  have value_written :=
    isWritten_ofOptional fun v (_ : v ∈ c.value) => isWritten_ofConstant v
  simp only [ofField, Value.isWritten_record_iff, List.forall_mem_cons]
  exact ⟨isWritten_ofInt _, Value.isWritten_text _, Value.isWritten_text _, isWritten_ofText? _,
    value_written, isWritten_annotations _, by simp⟩

theorem rereadsAs_field {c : Field} (h : AllFinite c.floating) :
    RereadsAs field ofField c c.settled := by
  obtain ⟨value, annotations⟩ := allFinite_append_iff.1 h
  rw [allFinite_flatMap_iff] at value
  refine RereadsAs.record rfl (by simp) fun q sound => ?_
  simp only [List.forall_mem_cons] at sound
  obtain ⟨-, -, -, -, value_sound, annotations_sound, -⟩ := sound
  have value_read := RereadsAs.optional ofConstant_ne_null
    (fun v hv => rereadsAs_constant (value v (Option.mem_toList.2 hv))) q value_sound
  have annotations_read := rereadsAs_annotations annotations q annotations_sound
  rw [ofOptional] at value_read
  simp [Members.get?, Members.getList, Members.getD, List.lookup_cons, value_read, annotations_read,
    Field.settled]

theorem staysSound_field (c : Field) : StaysSound 2 c.bareDepths field ofField c := by
  refine StaysSound.of_members (fun _ _ => exists_of_field) rfl fun r known enough free => ?_
  obtain ⟨value_read, annotations_read⟩ := known
  rw [Field.bareDepths, succ_mem_deeper] at free
  have value_sound :=
    StaysSound.get? (fun v _ => staysSound_constant v) value_read (Nat.zero_le _) (by simp)
  have annotations_sound := isSound_annotations annotations_read (by omega) free
  simp only [List.forall_mem_cons]
  exact ⟨isSound_uint16 _, isSound_text _, isSound_text _, isSound_ofText? _, value_sound,
    annotations_sound, by simp⟩

theorem refuses_field (c : Field) : Refuses c.bareDepths field ofField c := by
  refine Refuses.record rfl (by simp) fun q hq => ?_
  have refused := refuses_annotations c.annotations q hq
  simp [Members.get?, Members.getList, Members.getD, List.lookup_cons, refused]

theorem isWritten_ofRecordComponent (c : RecordComponent) : (ofRecordComponent c).IsWritten := by
  simp only [ofRecordComponent, Value.isWritten_record_iff, List.forall_mem_cons]
  exact ⟨Value.isWritten_text _, Value.isWritten_text _, isWritten_ofText? _,
    isWritten_annotations _, by simp⟩

theorem rereadsAs_recordComponent {c : RecordComponent} (h : AllFinite c.floating) :
    RereadsAs recordComponent ofRecordComponent c c.settled := by
  refine RereadsAs.record rfl (by simp) fun q sound => ?_
  simp only [List.forall_mem_cons] at sound
  have annotations_read := rereadsAs_annotations h q sound.2.2.2.1
  simp [Members.get?, Members.getList, Members.getD, List.lookup_cons, annotations_read,
    RecordComponent.settled]

theorem staysSound_recordComponent (c : RecordComponent) :
    StaysSound 2 c.bareDepths recordComponent ofRecordComponent c := by
  refine StaysSound.of_members (fun _ _ => exists_of_recordComponent) rfl fun r annotations_read enough free => ?_
  rw [RecordComponent.bareDepths, succ_mem_deeper] at free
  have annotations_sound := isSound_annotations annotations_read (by omega) free
  simp only [List.forall_mem_cons]
  exact ⟨isSound_text _, isSound_text _, isSound_ofText? _, annotations_sound, by simp⟩

theorem refuses_recordComponent (c : RecordComponent) :
    Refuses c.bareDepths recordComponent ofRecordComponent c := by
  refine Refuses.record rfl (by simp) fun q hq => ?_
  have refused := refuses_annotations c.annotations q hq
  simp [Members.get?, Members.getList, Members.getD, List.lookup_cons, refused]

theorem isWritten_ofMethod (c : Method) : (ofMethod c).IsWritten := by
  have default_written :=
    isWritten_ofOptional fun v (_ : v ∈ c.annotationDefault) => isWritten_ofAnnotationValue v
  simp only [ofMethod, Value.isWritten_record_iff, List.forall_mem_cons]
  refine ⟨isWritten_ofInt _, Value.isWritten_text _, Value.isWritten_text _, isWritten_ofText? _,
    by simp [ofTexts], isWritten_annotations _, default_written, ?_, ?_, ?_, by simp⟩
  · simpa using fun i _ => isWritten_ofInstruction i
  · simpa using fun handler _ => isWritten_ofExceptionHandler handler
  · simpa using fun v _ => isWritten_ofLocalVariable v

theorem rereadsAs_method {c : Method} (h : AllFinite c.floating) :
    RereadsAs method ofMethod c c.settled := by
  simp only [Method.floating, allFinite_append_iff] at h
  obtain ⟨⟨annotations, default⟩, instructions⟩ := h
  rw [allFinite_flatMap_iff] at default instructions
  refine RereadsAs.record rfl (by simp) fun q sound => ?_
  simp only [List.forall_mem_cons] at sound
  obtain ⟨-, -, -, -, exceptions_sound, annotations_sound, default_sound, instructions_sound,
    handlers_sound, locals_sound, -⟩ := sound
  have exceptions_read := rereads_texts c.exceptions q exceptions_sound
  have annotations_read := rereadsAs_annotations annotations q annotations_sound
  have default_read := RereadsAs.optional ofAnnotationValue_ne_null
    (fun v hv => rereadsAs_annotationValue (default v (Option.mem_toList.2 hv))) q default_sound
  have instructions_read :=
    RereadsAs.list (fun i hi => rereadsAs_instruction (instructions i hi)) q instructions_sound
  have handlers_read := Rereads.list (fun h _ => rereads_exceptionHandler h) q handlers_sound
  have locals_read := Rereads.list (fun v _ => rereads_localVariable v) q locals_sound
  rw [ofOptional] at default_read
  simp [Members.get?, Members.getList, Members.getD, List.lookup_cons, exceptions_read,
    annotations_read, default_read, instructions_read, handlers_read, locals_read, Method.settled]

theorem staysSound_method (c : Method) : StaysSound 2 c.bareDepths method ofMethod c := by
  refine StaysSound.of_members (fun _ _ => exists_of_method) rfl fun r known enough free => ?_
  obtain ⟨annotations_read, default_read, instructions_read, handlers_read, locals_read⟩ := known
  rw [Method.bareDepths, succ_mem_deeper, List.mem_append, not_or] at free
  have some_level : 0 < r.position.levels := by omega
  have annotations_sound := isSound_annotations annotations_read some_level free.1
  have default_sound := StaysSound.get?
    (fun v _ => staysSound_annotationValue v) default_read (Nat.zero_le _) free.2
  have instructions_sound := StaysSound.plainGetList
    (fun i _ => staysSound_instruction i) instructions_read some_level
  have handlers_sound := StaysSound.plainGetList
    (fun h _ => staysSound_exceptionHandler h) handlers_read some_level
  have locals_sound := StaysSound.plainGetList
    (fun v _ => staysSound_localVariable v) locals_read some_level
  simp only [List.forall_mem_cons]
  exact ⟨isSound_uint16 _, isSound_text _, isSound_text _, isSound_ofText? _,
    isSound_ofTexts some_level _, annotations_sound, default_sound, instructions_sound,
    handlers_sound, locals_sound, by simp⟩

theorem refuses_method (c : Method) : Refuses c.bareDepths method ofMethod c := by
  refine Refuses.record rfl (by simp) fun q hq => ?_
  rcases List.mem_append.1 hq with hq | hq
  · have refused := refuses_annotations c.annotations q hq
    simp [Members.get?, Members.getList, Members.getD, List.lookup_cons, refused]
  · have refused := Refuses.optional ofAnnotationValue_ne_null
      (fun v _ => refuses_annotationValue v) q hq
    rw [ofOptional] at refused
    simp [Members.get?, Members.getList, Members.getD, List.lookup_cons, refused]

/-! ### Classes -/

theorem isWritten_ofClass (c : ClassFile) : (ofClass c).IsWritten := by
  have texts_written (texts : List String) : (ofTexts texts).IsWritten := by simp [ofTexts]
  have enclosing_written :=
    isWritten_ofOptional fun e (_ : e ∈ c.enclosing) => isWritten_ofEnclosingMethod e
  simp only [ofClass, Value.isWritten_record_iff, List.forall_mem_cons]
  refine ⟨isWritten_ofInt _, Value.isWritten_text _, isWritten_ofText? _, isWritten_ofText? _,
    texts_written _, isWritten_ofText? _, enclosing_written, ?_, isWritten_ofText? _,
    texts_written _, texts_written _, isWritten_annotations _, ?_, ?_, ?_, by simp⟩
  · simpa using fun i _ => isWritten_ofInnerClass i
  · simpa using fun component _ => isWritten_ofRecordComponent component
  · simpa using fun field _ => isWritten_ofField field
  · simpa using fun method _ => isWritten_ofMethod method

theorem rereadsAs_classFile {c : ClassFile} (h : AllFinite c.floating) :
    RereadsAs classFile ofClass c c.settled := by
  simp only [ClassFile.floating, allFinite_append_iff] at h
  obtain ⟨⟨⟨annotations, components⟩, fields⟩, methods⟩ := h
  rw [allFinite_flatMap_iff] at components fields methods
  refine RereadsAs.record rfl (by simp) fun q sound => ?_
  simp only [List.forall_mem_cons] at sound
  obtain ⟨-, -, -, -, interfaces_sound, -, enclosing_sound, inner_sound, -, members_sound,
    permitted_sound, annotations_sound, components_sound, fields_sound, methods_sound, -⟩ := sound
  have interfaces_read := rereads_texts c.interfaces q interfaces_sound
  have enclosing_read :=
    RereadsAs.optional (by rintro _ ⟨⟩) (fun e _ => rereads_enclosingMethod e) q enclosing_sound
  have inner_read := Rereads.list (fun i _ => rereads_innerClass i) q inner_sound
  have members_read := rereads_texts c.nestMembers q members_sound
  have permitted_read := rereads_texts c.permittedSubclasses q permitted_sound
  have annotations_read := rereadsAs_annotations annotations q annotations_sound
  have components_read :=
    RereadsAs.list (fun c hc => rereadsAs_recordComponent (components c hc)) q components_sound
  have fields_read := RereadsAs.list (fun c hc => rereadsAs_field (fields c hc)) q fields_sound
  have methods_read := RereadsAs.list (fun c hc => rereadsAs_method (methods c hc)) q methods_sound
  rw [ofOptional] at enclosing_read
  simp [Members.get?, Members.getList, Members.getD, List.lookup_cons, interfaces_read, enclosing_read,
    inner_read, members_read, permitted_read, annotations_read, components_read, fields_read,
    methods_read, ClassFile.settled]

theorem rereads_classFile {c : ClassFile} (plain : c.floating = []) :
    Rereads classFile ofClass c := by
  have read := rereadsAs_classFile (c := c) (by simp [plain, allFinite_nil])
  rwa [ClassFile.settled_of_plain plain] at read

theorem staysSound_classFile (c : ClassFile) : StaysSound 4 c.bareDepths classFile ofClass c := by
  refine StaysSound.of_members (fun _ _ => exists_of_classFile) rfl fun r known enough free => ?_
  obtain ⟨enclosing_read, inner_read, annotations_read, components_read, fields_read, methods_read⟩ := known
  rw [ClassFile.bareDepths, succ_mem_deeper] at free
  simp only [List.mem_append, not_or] at free
  obtain ⟨⟨⟨free_annotations, free_components⟩, free_fields⟩, free_methods⟩ := free
  have some_level : 0 < r.position.levels := by omega
  have enclosing_sound := StaysSound.get?
    (fun e _ => staysSound_enclosingMethod e) enclosing_read (Nat.zero_le _) (by simp)
  have inner_sound := StaysSound.plainGetList
    (fun i _ => staysSound_innerClass i) inner_read some_level
  have annotations_sound :=
    isSound_annotations annotations_read some_level free_annotations
  have components_sound := StaysSound.getList
    (fun c _ => staysSound_recordComponent c) components_read (by omega)
    free_components
  have fields_sound := StaysSound.getList
    (fun c _ => staysSound_field c) fields_read (by omega) free_fields
  have methods_sound := StaysSound.getList
    (fun c _ => staysSound_method c) methods_read (by omega) free_methods
  simp only [List.forall_mem_cons]
  exact ⟨isSound_uint16 _, isSound_text _, isSound_ofText? _, isSound_ofText? _,
    isSound_ofTexts some_level _, isSound_ofText? _, enclosing_sound, inner_sound,
    isSound_ofText? _, isSound_ofTexts some_level _, isSound_ofTexts some_level _,
    annotations_sound, components_sound, fields_sound, methods_sound, by simp⟩

theorem refuses_classFile (c : ClassFile) : Refuses c.bareDepths classFile ofClass c := by
  refine Refuses.record rfl (by simp) fun q hq => ?_
  simp only [List.mem_append] at hq
  rcases hq with ((hq | hq) | hq) | hq
  · have refused := refuses_annotations c.annotations q hq
    simp [Members.get?, Members.getList, Members.getD, List.lookup_cons, refused]
  · have refused := Refuses.list (fun c _ => refuses_recordComponent c) q hq
    simp [Members.get?, Members.getList, Members.getD, List.lookup_cons, refused]
  · have refused := Refuses.list (fun c _ => refuses_field c) q hq
    simp [Members.get?, Members.getList, Members.getD, List.lookup_cons, refused]
  · have refused := Refuses.list (fun c _ => refuses_method c) q hq
    simp [Members.get?, Members.getList, Members.getD, List.lookup_cons, refused]

end Document

end Pseudonym
