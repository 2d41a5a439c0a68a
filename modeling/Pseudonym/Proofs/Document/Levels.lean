import Mathlib.Data.List.Forall2
import Pseudonym.Proofs.Class.Mention
import Pseudonym.Proofs.Document.Class
import Pseudonym.Strip

/-!
# Changes that take no more levels

What can happen to a class between one reading and the next adds no array or object where there was
none: its floating point constants are rounded when it is written and read (`ClassFile.settled`),
names in it are replaced (`ClassFile.renamed`), debug data is removed (`StripConfig.strip`). So what
is written for it afterwards is sound wherever it was sound before (`SoundWith`),

    isSound levels (ofClass c)  →  isSound levels (ofClass (s.strip c)).

For a record this is a matter of its members, so there is one lemma for each record, whatever
changed in it. Only constants and annotations nest, and they are walked twice, along each of the
changes.
-/

namespace Pseudonym

theorem StripConfig.mem_of_mem_stripMethod (s : StripConfig) (c : Method) :
    ∀ i ∈ (s.stripMethod c).instructions, i ∈ c.instructions := by
  intro i hi
  simp only [stripMethod] at hi
  split at hi
  · exact List.mem_of_mem_filter hi
  · exact hi

namespace Document

open Json Decoder

/-! ### Values that are no deeper than others -/

/-- Whether a value is sound wherever another one is. -/
def SoundWith (w v : Value) : Prop := ∀ levels, isSound levels v = true → isSound levels w = true

namespace SoundWith

theorem refl (v : Value) : SoundWith v v := fun _ sound => sound

theorem of_isSound {w : Value} (h : ∀ levels, isSound levels w = true) (v : Value) :
    SoundWith w v :=
  fun levels _ => h levels

theorem text (s : String) (v : Value) : SoundWith (.text s) v := of_isSound (fun _ => rfl) v

theorem text? (s : Option String) (v : Value) : SoundWith (ofText? s) v :=
  of_isSound (fun _ => isSound_ofText? s) v

theorem array {ws vs : List Value} (h : ∀ w ∈ ws, ∃ v ∈ vs, SoundWith w v) :
    SoundWith (.array ws) (.array vs) := by
  intro levels outer_sound
  obtain ⟨inner, rfl, sound⟩ := isSound_array_iff.1 outer_sound
  refine isSound_array_iff.2 ⟨inner, rfl, fun w hw => ?_⟩
  obtain ⟨v, hv, with_v⟩ := h w hw
  exact with_v inner (sound v hv)

theorem items {ws vs : List Value} (h : List.Forall₂ SoundWith ws vs) :
    SoundWith (.array ws) (.array vs) := by
  refine array fun w hw => ?_
  induction h with
  | nil => cases hw
  | cons item _ ih =>
    rcases List.mem_cons.1 hw with rfl | hw
    · exact ⟨_, List.mem_cons_self, item⟩
    · obtain ⟨v, hv, with_v⟩ := ih hw
      exact ⟨v, List.mem_cons_of_mem _ hv, with_v⟩

theorem record {ns ms : List (String × Value)}
    (h : List.Forall₂ (fun n m : String × Value => SoundWith n.2 m.2) ns ms) :
    SoundWith (.record ns) (.record ms) := by
  intro levels outer_sound
  obtain ⟨inner, rfl, sound⟩ := isSound_record_iff.1 outer_sound
  refine isSound_record_iff.2 ⟨inner, rfl, ?_⟩
  clear outer_sound
  induction h with
  | nil => simp
  | cons member _ ih =>
    rw [List.forall_mem_cons] at sound ⊢
    exact ⟨member inner sound.1, ih sound.2⟩

theorem tag {n m : String} {w v : Value} (h : SoundWith w v) :
    SoundWith (Document.tag n w) (Document.tag m v) :=
  record (.cons h .nil)

theorem «attribute» {name name' : String} {w v : Value} (h : SoundWith w v) :
    SoundWith (.array [.text name, w]) (.array [.text name', v]) :=
  items (.cons (text _ _) (.cons h .nil))

/-- A record that holds numbers, texts and flags only takes one level. -/
theorem flat {ns ms : List (String × Value)}
    (h : ∀ n ∈ ns, ∀ levels, isSound levels n.2 = true) :
    SoundWith (.record ns) (.record ms) := by
  intro levels sound
  obtain ⟨inner, rfl, -⟩ := isSound_record_iff.1 sound
  exact isSound_record_iff.2 ⟨inner, rfl, fun n hn => h n hn inner⟩

section

variable {α : Type} {of : α → Value} {k : α → α}

theorem map (h : ∀ x, SoundWith (of (k x)) (of x)) (xs : List α) :
    SoundWith (.array ((xs.map k).map of)) (.array (xs.map of)) := by
  refine array fun w hw => ?_
  rw [List.map_map] at hw
  obtain ⟨x, hx, rfl⟩ := List.mem_map.1 hw
  exact ⟨of x, List.mem_map_of_mem hx, h x⟩

theorem sublist {xs ys : List α} (h : ∀ y ∈ ys, y ∈ xs) :
    SoundWith (.array (ys.map of)) (.array (xs.map of)) := by
  refine array fun w hw => ?_
  obtain ⟨y, hy, rfl⟩ := List.mem_map.1 hw
  exact ⟨of y, List.mem_map_of_mem (h y hy), refl _⟩

theorem option_map (h : ∀ x, SoundWith (of (k x)) (of x)) (o : Option α) :
    SoundWith (((o.map k).map of).getD .null) ((o.map of).getD .null) := by
  cases o with
  | none => exact refl _
  | some x => exact h x

end

theorem texts (texts others : List String) : SoundWith (ofTexts texts) (ofTexts others) := by
  intro levels sound
  obtain ⟨inner, rfl, -⟩ := isSound_array_iff.1 sound
  exact isSound_ofTexts (Nat.succ_pos inner) texts

end SoundWith

/-! ### Constants and annotations -/

theorem soundWith_ofHandle (h h' : Handle) : SoundWith (ofHandle h') (ofHandle h) :=
  .flat (by simp)

theorem soundWith_ofDynamic {name d name' d' : String} {bootstrap bootstrap' : Handle}
    {arguments arguments' : List Constant}
    (h : SoundWith (.array (ofConstants arguments')) (.array (ofConstants arguments))) :
    SoundWith (ofConstant (.dynamic name' d' bootstrap' arguments'))
      (ofConstant (.dynamic name d bootstrap arguments)) := by
  rw [ofConstant, ofConstant]
  refine .tag (.record ?_)
  simp only [List.forall₂_cons]
  exact ⟨.text _ _, .text _ _, soundWith_ofHandle _ _, h, .nil⟩

mutual

theorem soundWith_ofConstant_settled : ∀ c : Constant,
    SoundWith (ofConstant c.settled) (ofConstant c)
  | .int _ | .long _ | .string _ | .type _ | .methodType _ | .handle _ => .refl _
  | .float _ => .tag (.of_isSound (isSound_ofSingle · _) _)
  | .double _ => .tag (.of_isSound (isSound_ofDouble · _) _)
  | .dynamic _ _ _ arguments =>
    soundWith_ofDynamic (.items (soundWith_ofConstants_settled arguments))

theorem soundWith_ofConstants_settled : ∀ cs : List Constant,
    List.Forall₂ SoundWith (ofConstants (Constant.settledList cs)) (ofConstants cs)
  | [] => .nil
  | c :: cs => .cons (soundWith_ofConstant_settled c) (soundWith_ofConstants_settled cs)

end

theorem soundWith_ofAnnotationUse {d d' : String} {visible visible' : Bool}
    {values values' : List (String × AnnotationValue)}
    (h : SoundWith (.array (ofAttributes values')) (.array (ofAttributes values))) :
    SoundWith (ofAnnotationUse ⟨d', visible', values'⟩) (ofAnnotationUse ⟨d, visible, values⟩) := by
  rw [ofAnnotationUse, ofAnnotationUse]
  refine .record ?_
  simp only [List.forall₂_cons]
  exact ⟨.text _ _, .of_isSound (fun _ => rfl) _, h, .nil⟩

mutual

theorem soundWith_ofAnnotationValue_settled : ∀ v : AnnotationValue,
    SoundWith (ofAnnotationValue v.settled) (ofAnnotationValue v)
  | .const c => .tag (soundWith_ofConstant_settled c)
  | .enum _ _ | .type _ => .refl _
  | .nested a => .tag (soundWith_ofAnnotationUse_settled a)
  | .array items => .tag (.items (soundWith_ofAnnotationValues_settled items))

theorem soundWith_ofAnnotationValues_settled : ∀ vs : List AnnotationValue,
    List.Forall₂ SoundWith (ofAnnotationValues (AnnotationValue.settledList vs))
      (ofAnnotationValues vs)
  | [] => .nil
  | v :: vs =>
    .cons (soundWith_ofAnnotationValue_settled v) (soundWith_ofAnnotationValues_settled vs)

theorem soundWith_ofAnnotationUse_settled : ∀ a : AnnotationUse,
    SoundWith (ofAnnotationUse a.settled) (ofAnnotationUse a)
  | ⟨_, _, values⟩ => soundWith_ofAnnotationUse (.items (soundWith_ofAttributes_settled values))

theorem soundWith_ofAttributes_settled : ∀ values : List (String × AnnotationValue),
    List.Forall₂ SoundWith (ofAttributes (AnnotationUse.settledValues values)) (ofAttributes values)
  | [] => .nil
  | (_, v) :: values =>
    .cons (.attribute (soundWith_ofAnnotationValue_settled v))
      (soundWith_ofAttributes_settled values)

end

section

variable (g : Mention → String)

mutual

theorem soundWith_ofConstant_renamed : ∀ c : Constant,
    SoundWith (ofConstant (c.renamed g)) (ofConstant c)
  | .int _ | .long _ | .float _ | .double _ | .string _ => .refl _
  | .type _ | .methodType _ => .tag (.text _ _)
  | .handle _ => .tag (soundWith_ofHandle _ _)
  | .dynamic _ _ _ arguments =>
    soundWith_ofDynamic (.items (soundWith_ofConstants_renamed arguments))

theorem soundWith_ofConstants_renamed : ∀ cs : List Constant,
    List.Forall₂ SoundWith (ofConstants (Constant.renamedList g cs)) (ofConstants cs)
  | [] => .nil
  | c :: cs => .cons (soundWith_ofConstant_renamed c) (soundWith_ofConstants_renamed cs)

end

mutual

theorem soundWith_ofAnnotationValue_renamed : ∀ v : AnnotationValue,
    SoundWith (ofAnnotationValue (v.renamed g)) (ofAnnotationValue v)
  | .const c => .tag (soundWith_ofConstant_renamed g c)
  | .enum _ _ => .tag (.flat (by simp))
  | .type _ => .tag (.text _ _)
  | .nested a => .tag (soundWith_ofAnnotationUse_renamed a)
  | .array items => .tag (.items (soundWith_ofAnnotationValues_renamed items))

theorem soundWith_ofAnnotationValues_renamed : ∀ vs : List AnnotationValue,
    List.Forall₂ SoundWith (ofAnnotationValues (AnnotationValue.renamedList g vs))
      (ofAnnotationValues vs)
  | [] => .nil
  | v :: vs =>
    .cons (soundWith_ofAnnotationValue_renamed v) (soundWith_ofAnnotationValues_renamed vs)

theorem soundWith_ofAnnotationUse_renamed : ∀ a : AnnotationUse,
    SoundWith (ofAnnotationUse (a.renamed g)) (ofAnnotationUse a)
  | ⟨d, _, values⟩ => soundWith_ofAnnotationUse (.items (soundWith_ofAttributes_renamed d values))

theorem soundWith_ofAttributes_renamed (d : String) : ∀ values : List (String × AnnotationValue),
    List.Forall₂ SoundWith (ofAttributes (AnnotationUse.renamedValues g d values))
      (ofAttributes values)
  | [] => .nil
  | (_, v) :: values =>
    .cons (.attribute (soundWith_ofAnnotationValue_renamed v))
      (soundWith_ofAttributes_renamed d values)

end

end

/-! ### Instructions -/

theorem soundWith_ofInvokeDynamic {name d name' d' : String} {bootstrap bootstrap' : Handle}
    {arguments arguments' : List Constant}
    (h : SoundWith (.array (arguments'.map ofConstant)) (.array (arguments.map ofConstant))) :
    SoundWith (ofInstruction (.invokeDynamic name' d' bootstrap' arguments'))
      (ofInstruction (.invokeDynamic name d bootstrap arguments)) := by
  refine .record ?_
  simp only [List.forall₂_cons]
  exact ⟨.text _ _, .text _ _, .text _ _, soundWith_ofHandle _ _, h, .nil⟩

theorem soundWith_ofLdc {value value' : Constant}
    (h : SoundWith (ofConstant value') (ofConstant value)) :
    SoundWith (ofInstruction (.ldc value')) (ofInstruction (.ldc value)) :=
  .record (.cons (.text _ _) (.cons h .nil))

theorem soundWith_ofInstruction_settled (i : Instruction) :
    SoundWith (ofInstruction i.settled) (ofInstruction i) := by
  cases i with
  | invokeDynamic name d bootstrap arguments =>
    exact soundWith_ofInvokeDynamic (.map soundWith_ofConstant_settled arguments)
  | ldc value => exact soundWith_ofLdc (soundWith_ofConstant_settled value)
  | _ => exact .refl _

theorem soundWith_ofFrameValue_renamed (g : Mention → String) (v : FrameValue) :
    SoundWith (ofFrameValue (v.renamed g)) (ofFrameValue v) := by
  cases v with
  | object name => exact .tag (.text _ _)
  | _ => exact .refl _

theorem soundWith_ofInstruction_renamed (g : Mention → String) (i : Instruction) :
    SoundWith (ofInstruction (i.renamed g)) (ofInstruction i) := by
  cases i with
  | invokeDynamic name d bootstrap arguments =>
    have each := soundWith_ofConstants_renamed g arguments
    rw [ofConstants_eq_map, ofConstants_eq_map] at each
    exact soundWith_ofInvokeDynamic (.items each)
  | ldc value => exact soundWith_ofLdc (soundWith_ofConstant_renamed g value)
  | frame locals stack =>
    refine .record ?_
    simp only [List.forall₂_cons]
    exact ⟨.text _ _, .map (soundWith_ofFrameValue_renamed g) locals,
      .map (soundWith_ofFrameValue_renamed g) stack, .nil⟩
  | type | field | method | multiANewArray => exact .flat (by simp)
  | _ => exact .refl _

/-! ### Members of a class -/

theorem soundWith_ofField {c d : Field}
    (value : SoundWith ((d.value.map ofConstant).getD .null) ((c.value.map ofConstant).getD .null))
    (annotations : SoundWith (.array (d.annotations.map ofAnnotationUse))
      (.array (c.annotations.map ofAnnotationUse))) : SoundWith (ofField d) (ofField c) := by
  refine .record ?_
  simp only [List.forall₂_cons]
  exact ⟨.of_isSound (fun _ => isSound_uint16 _) _, .text _ _, .text _ _, .text? _ _, value,
    annotations, .nil⟩

theorem soundWith_ofRecordComponent {c d : RecordComponent}
    (annotations : SoundWith (.array (d.annotations.map ofAnnotationUse))
      (.array (c.annotations.map ofAnnotationUse))) :
    SoundWith (ofRecordComponent d) (ofRecordComponent c) := by
  refine .record ?_
  simp only [List.forall₂_cons]
  exact ⟨.text _ _, .text _ _, .text? _ _, annotations, .nil⟩

theorem soundWith_ofMethod {c d : Method}
    (annotations : SoundWith (.array (d.annotations.map ofAnnotationUse))
      (.array (c.annotations.map ofAnnotationUse)))
    (default : SoundWith ((d.annotationDefault.map ofAnnotationValue).getD .null)
      ((c.annotationDefault.map ofAnnotationValue).getD .null))
    (instructions : SoundWith (.array (d.instructions.map ofInstruction))
      (.array (c.instructions.map ofInstruction)))
    (handlers : SoundWith (.array (d.handlers.map ofExceptionHandler))
      (.array (c.handlers.map ofExceptionHandler)))
    (locals : SoundWith (.array (d.localVariables.map ofLocalVariable))
      (.array (c.localVariables.map ofLocalVariable))) : SoundWith (ofMethod d) (ofMethod c) := by
  refine .record ?_
  simp only [List.forall₂_cons]
  exact ⟨.of_isSound (fun _ => isSound_uint16 _) _, .text _ _, .text _ _, .text? _ _, .texts _ _,
    annotations, default, instructions, handlers, locals, .nil⟩

theorem soundWith_ofClass {c d : ClassFile}
    (enclosing : SoundWith ((d.enclosing.map ofEnclosingMethod).getD .null)
      ((c.enclosing.map ofEnclosingMethod).getD .null))
    (inner : SoundWith (.array (d.innerClasses.map ofInnerClass))
      (.array (c.innerClasses.map ofInnerClass)))
    (annotations : SoundWith (.array (d.annotations.map ofAnnotationUse))
      (.array (c.annotations.map ofAnnotationUse)))
    (components : SoundWith (.array (d.recordComponents.map ofRecordComponent))
      (.array (c.recordComponents.map ofRecordComponent)))
    (fields : SoundWith (.array (d.fields.map ofField)) (.array (c.fields.map ofField)))
    (methods : SoundWith (.array (d.methods.map ofMethod)) (.array (c.methods.map ofMethod))) :
    SoundWith (ofClass d) (ofClass c) := by
  refine .record ?_
  simp only [List.forall₂_cons]
  exact ⟨.of_isSound (fun _ => isSound_uint16 _) _, .text _ _, .text? _ _, .text? _ _, .texts _ _,
    .text? _ _, enclosing, inner, .text? _ _, .texts _ _, .texts _ _, annotations, components,
    fields, methods, .nil⟩

/-! ### Settled classes -/

theorem soundWith_ofField_settled (c : Field) : SoundWith (ofField c.settled) (ofField c) :=
  soundWith_ofField (.option_map soundWith_ofConstant_settled c.value)
    (.map soundWith_ofAnnotationUse_settled c.annotations)

theorem soundWith_ofRecordComponent_settled (c : RecordComponent) :
    SoundWith (ofRecordComponent c.settled) (ofRecordComponent c) :=
  soundWith_ofRecordComponent (.map soundWith_ofAnnotationUse_settled c.annotations)

theorem soundWith_ofMethod_settled (c : Method) : SoundWith (ofMethod c.settled) (ofMethod c) :=
  soundWith_ofMethod (.map soundWith_ofAnnotationUse_settled c.annotations)
    (.option_map soundWith_ofAnnotationValue_settled c.annotationDefault)
    (.map soundWith_ofInstruction_settled c.instructions) (.refl _) (.refl _)

theorem soundWith_ofClass_settled (c : ClassFile) : SoundWith (ofClass c.settled) (ofClass c) :=
  soundWith_ofClass (.refl _) (.refl _) (.map soundWith_ofAnnotationUse_settled c.annotations)
    (.map soundWith_ofRecordComponent_settled c.recordComponents)
    (.map soundWith_ofField_settled c.fields) (.map soundWith_ofMethod_settled c.methods)

/-! ### Renamed classes -/

theorem soundWith_ofExceptionHandler (h h' : ExceptionHandler) :
    SoundWith (ofExceptionHandler h') (ofExceptionHandler h) :=
  .flat (by simp)

theorem soundWith_ofLocalVariable (v v' : LocalVariable) :
    SoundWith (ofLocalVariable v') (ofLocalVariable v) :=
  .flat (by simp)

theorem soundWith_ofEnclosingMethod (e e' : EnclosingMethod) :
    SoundWith (ofEnclosingMethod e') (ofEnclosingMethod e) :=
  .flat (by simp)

theorem soundWith_ofInnerClass (i i' : InnerClass) :
    SoundWith (ofInnerClass i') (ofInnerClass i) :=
  .flat (by simp)

section

variable (g : Mention → String)

theorem soundWith_ofField_renamed (owner : String) (c : Field) :
    SoundWith (ofField (c.renamed g owner)) (ofField c) :=
  soundWith_ofField (.option_map (soundWith_ofConstant_renamed g) c.value)
    (.map (soundWith_ofAnnotationUse_renamed g) c.annotations)

theorem soundWith_ofRecordComponent_renamed (owner : String) (c : RecordComponent) :
    SoundWith (ofRecordComponent (c.renamed g owner)) (ofRecordComponent c) :=
  soundWith_ofRecordComponent (.map (soundWith_ofAnnotationUse_renamed g) c.annotations)

theorem soundWith_ofMethod_renamed (owner : String) (c : Method) :
    SoundWith (ofMethod (c.renamed g owner)) (ofMethod c) :=
  soundWith_ofMethod (.map (soundWith_ofAnnotationUse_renamed g) c.annotations)
    (.option_map (soundWith_ofAnnotationValue_renamed g) c.annotationDefault)
    (.map (soundWith_ofInstruction_renamed g) c.instructions)
    (.map (fun h => soundWith_ofExceptionHandler h _) c.handlers)
    (.map (fun v => soundWith_ofLocalVariable v _) c.localVariables)

theorem soundWith_ofClass_renamed (c : ClassFile) :
    SoundWith (ofClass (c.renamed g)) (ofClass c) :=
  soundWith_ofClass (.option_map (fun e => soundWith_ofEnclosingMethod e _) c.enclosing)
    (.map (fun i => soundWith_ofInnerClass i _) c.innerClasses)
    (.map (soundWith_ofAnnotationUse_renamed g) c.annotations)
    (.map (soundWith_ofRecordComponent_renamed g c.name) c.recordComponents)
    (.map (soundWith_ofField_renamed g c.name) c.fields)
    (.map (soundWith_ofMethod_renamed g c.name) c.methods)

end

/-! ### Stripped classes -/

section

variable (s : StripConfig)

theorem soundWith_ofField_strip (c : Field) : SoundWith (ofField (s.stripField c)) (ofField c) :=
  soundWith_ofField (.refl _) (.refl _)

theorem soundWith_ofRecordComponent_strip (c : RecordComponent) :
    SoundWith (ofRecordComponent (s.stripComponent c)) (ofRecordComponent c) :=
  soundWith_ofRecordComponent (.refl _)

theorem soundWith_ofMethod_strip (c : Method) :
    SoundWith (ofMethod (s.stripMethod c)) (ofMethod c) := by
  have instructions : SoundWith (.array ((s.stripMethod c).instructions.map ofInstruction))
      (.array (c.instructions.map ofInstruction)) := .sublist (s.mem_of_mem_stripMethod c)
  have locals : SoundWith (.array ((s.stripMethod c).localVariables.map ofLocalVariable))
      (.array (c.localVariables.map ofLocalVariable)) := by
    simp only [StripConfig.stripMethod]
    split
    · exact .array (by simp)
    · exact .map (fun v => soundWith_ofLocalVariable v _) c.localVariables
  exact soundWith_ofMethod (.refl _) (.refl _) instructions (.refl _) locals

theorem soundWith_ofClass_strip (c : ClassFile) : SoundWith (ofClass (s.strip c)) (ofClass c) :=
  soundWith_ofClass (.refl _) (.refl _) (.refl _)
    (.map (soundWith_ofRecordComponent_strip s) c.recordComponents)
    (.map (soundWith_ofField_strip s) c.fields)
    (.map (soundWith_ofMethod_strip s) c.methods)

end

end Document

end Pseudonym
