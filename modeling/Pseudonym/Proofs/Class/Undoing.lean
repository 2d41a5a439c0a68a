import Pseudonym.Proofs.Class.Texts

/-!
# Taking a renaming back

A text of a renamed class is the answer to a mention, or data that no mention covers. So a change
`f` that takes back each answer and leaves each text of the old class alone takes back the renaming,

    strip ((c.renamed g).mapTexts f) = strip c,

up to signatures, which are not looked into and which `strip` removes. The statement goes through
the class part by part, and in every part it is the same: an answer in place of a name is undone
where it stands. What is not an answer, and needs a hypothesis of its own, is the simple name of a
nested class.
-/

namespace Pseudonym

variable {f : String → String} {g : Mention → String}

/-- `f` takes back the answer to a mention. Nothing is asked of signatures. -/
def Mention.Undone (f : String → String) (g : Mention → String) : Mention → Prop
  | .signature _ => True
  | q => f (g q) = q.text

open StripConfig (signaturesOnly)

/-! ### Names and data -/

theorem map_undone {α β : Type} {a : β → α} {b : α → β} {xs : List α} (h : ∀ x ∈ xs, a (b x) = x) :
    (xs.map b).map a = xs := by
  rw [List.map_map]
  exact (List.map_congr_left h).trans (List.map_id xs)

theorem option_map_undone {α β : Type} {a : β → α} {b : α → β} {o : Option α}
    (h : ∀ x ∈ o.toList, a (b x) = x) : (o.map b).map a = o := by
  cases o with
  | none => rfl
  | some x => rw [Option.map_some, Option.map_some, h x (by simp)]

theorem Handle.mapTexts_renamed {h : Handle} (hq : ∀ q ∈ h.mentions, q.Undone f g) :
    (h.renamed g).mapTexts f = h := by
  have hm : h.member.Undone f g := hq h.member (by simp [mentions])
  have ho : f (g (.type h.owner)) = h.owner := hq (.type h.owner) (by simp [mentions])
  have hd : f (g (.descriptor h.descriptor)) = h.descriptor :=
    hq (.descriptor h.descriptor) (by simp [mentions])
  have name : f (g h.member) = h.name := by
    unfold member at hm ⊢
    split at hm
    · next field => rw [if_pos field]; exact hm
    · next method => rw [if_neg method]; exact hm
  rw [renamed, mapTexts, name, ho, hd]

mutual

theorem Constant.mapTexts_renamed : ∀ {c : Constant}, (∀ q ∈ c.mentions, q.Undone f g) →
    (∀ t ∈ c.texts, f t = t) → (c.renamed g).mapTexts f = c
  | .int _, _, _ | .long _, _, _ | .float _, _, _ | .double _, _, _ => rfl
  | .string text, _, ht => congrArg Constant.string (ht text (List.mem_singleton_self text))
  | .type d, hq, _ => congrArg Constant.type (hq (.descriptor d) (List.mem_singleton_self _))
  | .methodType d, hq, _ =>
    congrArg Constant.methodType (hq (.methodDescriptor d) (List.mem_singleton_self _))
  | .handle _, hq, _ => congrArg Constant.handle (Handle.mapTexts_renamed hq)
  | .dynamic name d bootstrap arguments, hq, ht => by
    simp only [Constant.mentions, Constant.texts, List.flatten_cons, List.flatten_nil,
      List.forall_mem_append, List.forall_mem_cons] at hq ht
    have hd : f (g (.descriptor d)) = d := hq.1.1
    rw [Constant.renamed, Constant.mapTexts, ht.1.1, hd, Handle.mapTexts_renamed hq.2.1,
      Constant.mapTexts_renamedList hq.2.2.1 ht.2.2.1]

theorem Constant.mapTexts_renamedList : ∀ {cs : List Constant},
    (∀ q ∈ Constant.mentionsList cs, q.Undone f g) → (∀ t ∈ Constant.textsList cs, f t = t) →
      Constant.mapTextsList f (Constant.renamedList g cs) = cs
  | [], _, _ => rfl
  | c :: cs, hq, ht => by
    rw [Constant.mentionsList, List.forall_mem_append] at hq
    rw [Constant.textsList, List.forall_mem_append] at ht
    rw [Constant.renamedList, Constant.mapTextsList, Constant.mapTexts_renamed hq.1 ht.1,
      Constant.mapTexts_renamedList hq.2 ht.2]

end

mutual

theorem AnnotationValue.mapTexts_renamed : ∀ {v : AnnotationValue},
    (∀ q ∈ v.mentions, q.Undone f g) → (∀ t ∈ v.texts, f t = t) → (v.renamed g).mapTexts f = v
  | .const _, hq, ht => congrArg AnnotationValue.const (Constant.mapTexts_renamed hq ht)
  | .enum d value, hq, _ => by
    have hv : f (g (.enumConstant d value)) = value := hq _ List.mem_cons_self
    have hd : f (g (.descriptor d)) = d :=
      hq (.descriptor d) (List.mem_cons_of_mem _ (List.mem_singleton_self _))
    rw [AnnotationValue.renamed, AnnotationValue.mapTexts, hv, hd]
  | .type d, hq, _ => congrArg AnnotationValue.type (hq (.descriptor d) (List.mem_singleton_self _))
  | .nested _, hq, ht => congrArg AnnotationValue.nested (AnnotationUse.mapTexts_renamed hq ht)
  | .array _, hq, ht =>
    congrArg AnnotationValue.array (AnnotationValue.mapTexts_renamedList hq ht)

theorem AnnotationValue.mapTexts_renamedList : ∀ {vs : List AnnotationValue},
    (∀ q ∈ AnnotationValue.mentionsList vs, q.Undone f g) →
      (∀ t ∈ AnnotationValue.textsList vs, f t = t) →
        AnnotationValue.mapTextsList f (AnnotationValue.renamedList g vs) = vs
  | [], _, _ => rfl
  | v :: vs, hq, ht => by
    rw [AnnotationValue.mentionsList, List.forall_mem_append] at hq
    rw [AnnotationValue.textsList, List.forall_mem_append] at ht
    rw [AnnotationValue.renamedList, AnnotationValue.mapTextsList,
      AnnotationValue.mapTexts_renamed hq.1 ht.1, AnnotationValue.mapTexts_renamedList hq.2 ht.2]

theorem AnnotationUse.mapTexts_renamed : ∀ {a : AnnotationUse},
    (∀ q ∈ a.mentions, q.Undone f g) → (∀ t ∈ a.texts, f t = t) → (a.renamed g).mapTexts f = a
  | ⟨d, visible, values⟩, hq, ht => by
    rw [AnnotationUse.mentions, List.forall_mem_append] at hq
    rw [AnnotationUse.texts, List.forall_mem_cons] at ht
    have hd : f (g (.descriptor d)) = d := hq.2 _ (List.mem_singleton_self _)
    rw [AnnotationUse.renamed, AnnotationUse.mapTexts, hd,
      AnnotationUse.mapTexts_renamedValues hq.1 ht.2]

theorem AnnotationUse.mapTexts_renamedValues {d : String} :
    ∀ {values : List (String × AnnotationValue)},
      (∀ q ∈ AnnotationUse.mentionsValues d values, q.Undone f g) →
        (∀ t ∈ AnnotationUse.textsValues values, f t = t) →
          AnnotationUse.mapTextsValues f (AnnotationUse.renamedValues g d values) = values
  | [], _, _ => rfl
  | (name, value) :: values, hq, ht => by
    simp only [AnnotationUse.mentionsValues, AnnotationUse.textsValues, List.flatten_cons,
      List.flatten_nil, List.forall_mem_append, List.forall_mem_cons] at hq ht
    have hn : f (g (.attribute d name)) = name := hq.1.1
    rw [AnnotationUse.renamedValues, AnnotationUse.mapTextsValues, hn,
      AnnotationValue.mapTexts_renamed hq.2.1 ht.2.1,
      AnnotationUse.mapTexts_renamedValues hq.2.2.1 ht.2.2.1]

end

theorem FrameValue.mapTexts_renamed {v : FrameValue} (hq : ∀ q ∈ v.mentions, q.Undone f g) :
    (v.renamed g).mapTexts f = v := by
  cases v with
  | object name => exact congrArg object (hq (.type name) (List.mem_singleton_self _))
  | _ => rfl

theorem Instruction.mapTexts_renamed {i : Instruction} (hq : ∀ q ∈ i.mentions, q.Undone f g)
    (ht : ∀ t ∈ i.texts, f t = t) : (i.renamed g).mapTexts f = i := by
  cases i with
  | type opcode d => exact congrArg (type opcode) (hq (.type d) (List.mem_singleton_self _))
  | multiANewArray d dimensions =>
    exact congrArg (multiANewArray · dimensions) (hq (.descriptor d) (List.mem_singleton_self _))
  | field opcode owner name d =>
    have hn : f (g (.field owner name d)) = name := hq (.field owner name d) (by simp [mentions])
    have ho : f (g (.type owner)) = owner := hq (.type owner) (by simp [mentions])
    have hd : f (g (.descriptor d)) = d := hq (.descriptor d) (by simp [mentions])
    rw [renamed, mapTexts, hn, ho, hd]
  | method opcode owner name d isInterface =>
    have hn : f (g (.method owner name d)) = name := hq (.method owner name d) (by simp [mentions])
    have ho : f (g (.type owner)) = owner := hq (.type owner) (by simp [mentions])
    have hd : f (g (.methodDescriptor d)) = d := hq (.methodDescriptor d) (by simp [mentions])
    rw [renamed, mapTexts, hn, ho, hd]
  | invokeDynamic name d bootstrap arguments =>
    simp only [mentions, texts, List.flatten_cons, List.flatten_nil, List.forall_mem_append,
      List.forall_mem_cons] at hq ht
    have hn : f (g (.callSite name d bootstrap arguments)) = name := hq.1.1
    have hd : f (g (.methodDescriptor d)) = d := hq.2.1.1
    rw [renamed, mapTexts, hn, hd, Handle.mapTexts_renamed hq.2.2.1,
      Constant.mapTexts_renamedList hq.2.2.2.1 ht.2.2.1]
  | ldc value => exact congrArg ldc (Constant.mapTexts_renamed hq ht)
  | frame locals stack =>
    simp only [mentions, List.flatten_cons, List.flatten_nil, List.forall_mem_append,
      List.forall_mem_flatMap] at hq
    rw [renamed, mapTexts, map_undone fun v hv => FrameValue.mapTexts_renamed (hq.1 v hv),
      map_undone fun v hv => FrameValue.mapTexts_renamed (hq.2.1 v hv)]
  | _ => rfl

theorem EnclosingMethod.mapTexts_renamed {e : EnclosingMethod}
    (hq : ∀ q ∈ e.mentions, q.Undone f g) (ht : ∀ t ∈ e.texts, f t = t) :
    (e.renamed g).mapTexts f = e := by
  obtain ⟨owner, methodName, methodDescriptor⟩ := e
  simp only [mentions, texts, List.flatten_cons, List.flatten_nil, List.forall_mem_append,
    List.forall_mem_cons, List.forall_mem_map] at hq ht
  have ho : f (g (.type owner)) = owner := hq.2.1.1
  have hd : ∀ d ∈ methodDescriptor.toList, f (g (.methodDescriptor d)) = d := hq.2.2.1
  rw [renamed, mapTexts, ho, option_map_undone hd]
  congr
  -- Only a method whose descriptor is known is asked for; otherwise its name is data.
  cases methodName with
  | none => rfl
  | some name =>
    cases methodDescriptor with
    | none => exact congrArg some (ht.2.1 name (by simp))
    | some d => exact congrArg some (hq.1 (.method owner name d) (by simp [method?]))

theorem InnerClass.mapTexts_renamed {i : InnerClass} (hq : ∀ q ∈ i.mentions, q.Undone f g)
    (ht : ∀ t ∈ i.texts, f t = t)
    (hs : ∀ simple, simpleNameAfter i.name (g (.type i.name)) simple = simple) :
    (i.renamed g).mapTexts f = i := by
  simp only [mentions, texts, List.flatten_cons, List.flatten_nil, List.forall_mem_append,
    List.forall_mem_cons, List.forall_mem_map] at hq ht
  have hn : f (g (.type i.name)) = i.name := hq.1.1
  have ho : ∀ name ∈ i.outerName.toList, f (g (.type name)) = name := hq.2.1
  have inner : (i.innerName.map (simpleNameAfter i.name (g (.type i.name)))).map f = i.innerName :=
    option_map_undone fun simple h => by rw [hs, ht.2.2.1 simple h]
  rw [renamed, mapTexts, hn, inner, option_map_undone ho]

/-! ### Up to signatures -/

theorem RecordComponent.strip_mapTexts_renamed {owner : String} {c : RecordComponent}
    (hq : ∀ q ∈ c.mentions owner, q.Undone f g) (ht : ∀ t ∈ c.texts, f t = t) :
    signaturesOnly.stripComponent ((c.renamed g owner).mapTexts f) =
      signaturesOnly.stripComponent c := by
  simp only [mentions, texts, List.flatten_cons, List.flatten_nil, List.forall_mem_append,
    List.forall_mem_cons, List.forall_mem_flatMap] at hq ht
  have hn : f (g (.component owner c.name c.descriptor)) = c.name := hq.1.1
  have hd : f (g (.descriptor c.descriptor)) = c.descriptor := hq.2.1.1
  have annotations := map_undone fun a ha =>
    AnnotationUse.mapTexts_renamed (hq.2.2.2.1 a ha) (ht.2.2.1 a ha)
  rw [renamed, mapTexts]
  simp only [StripConfig.stripComponent, hn, hd, annotations]
  rfl

theorem Field.strip_mapTexts_renamed {owner : String} {c : Field}
    (hq : ∀ q ∈ c.mentions owner, q.Undone f g) (ht : ∀ t ∈ c.texts, f t = t) :
    signaturesOnly.stripField ((c.renamed g owner).mapTexts f) = signaturesOnly.stripField c := by
  simp only [mentions, texts, List.flatten_cons, List.flatten_nil, List.forall_mem_append,
    List.forall_mem_cons, List.forall_mem_flatMap] at hq ht
  have hn : f (g (.field owner c.name c.descriptor)) = c.name := hq.1.1
  have hd : f (g (.descriptor c.descriptor)) = c.descriptor := hq.2.1.1
  have value := option_map_undone fun v hv =>
    Constant.mapTexts_renamed (hq.2.2.2.1 v hv) (ht.2.2.1 v hv)
  have annotations := map_undone fun a ha =>
    AnnotationUse.mapTexts_renamed (hq.2.2.2.2.1 a ha) (ht.2.2.2.1 a ha)
  rw [renamed, mapTexts]
  simp only [StripConfig.stripField, hn, hd, value, annotations]
  rfl

theorem LocalVariable.strip_mapTexts_renamed {owner methodName methodDescriptor : String}
    {v : LocalVariable} (hq : ∀ q ∈ v.mentions owner methodName methodDescriptor, q.Undone f g) :
    signaturesOnly.stripVariable ((v.renamed g owner methodName methodDescriptor).mapTexts f) =
      signaturesOnly.stripVariable v := by
  simp only [mentions, List.flatten_cons, List.flatten_nil, List.forall_mem_append,
    List.forall_mem_cons] at hq
  have hn : f (g (.variable owner methodName methodDescriptor v.name v.descriptor v.index)) =
      v.name := hq.1.1
  have hd : f (g (.descriptor v.descriptor)) = v.descriptor := hq.2.1.1
  rw [renamed, mapTexts]
  simp only [StripConfig.stripVariable, hn, hd]
  rfl

theorem ExceptionHandler.mapTexts_renamed {h : ExceptionHandler}
    (hq : ∀ q ∈ h.mentions, q.Undone f g) : (h.renamed g).mapTexts f = h := by
  have caught : ∀ name ∈ h.exceptionType.toList, f (g (.type name)) = name :=
    List.forall_mem_map.1 hq
  rw [renamed, mapTexts, option_map_undone caught]

theorem Method.strip_mapTexts_renamed {owner : String} {c : Method}
    (hq : ∀ q ∈ c.mentions owner, q.Undone f g) (ht : ∀ t ∈ c.texts, f t = t) :
    signaturesOnly.stripMethod ((c.renamed g owner).mapTexts f) = signaturesOnly.stripMethod c := by
  simp only [mentions, texts, List.flatten_cons, List.flatten_nil, List.forall_mem_append,
    List.forall_mem_cons, List.forall_mem_map, List.forall_mem_flatMap] at hq ht
  obtain ⟨hv, ⟨hn, -⟩, ⟨hd, -⟩, -, he, ha, hdefault, hi, hh, -⟩ := hq
  obtain ⟨-, -, -, ta, tdefault, ti, -, -⟩ := ht
  have hn : f (g (.method owner c.name c.descriptor)) = c.name := hn
  have hd : f (g (.methodDescriptor c.descriptor)) = c.descriptor := hd
  have exceptions : (c.exceptions.map (g <| .type ·)).map f = c.exceptions := map_undone he
  have annotations := map_undone fun a h => AnnotationUse.mapTexts_renamed (ha a h) (ta a h)
  have annotationDefault := option_map_undone fun v h =>
    AnnotationValue.mapTexts_renamed (hdefault v h) (tdefault v h)
  have instructions := map_undone fun i h => Instruction.mapTexts_renamed (hi i h) (ti i h)
  have handlers := map_undone fun h hm => ExceptionHandler.mapTexts_renamed (hh h hm)
  have localVariables : (((c.localVariables.map
      (LocalVariable.renamed g owner c.name c.descriptor)).map (LocalVariable.mapTexts f)).map
        signaturesOnly.stripVariable) = c.localVariables.map signaturesOnly.stripVariable := by
    rw [List.map_map, List.map_map]
    exact List.map_congr_left fun v h => LocalVariable.strip_mapTexts_renamed (hv v h)
  rw [renamed, mapTexts]
  simp only [StripConfig.stripMethod, hn, hd, exceptions, annotations, annotationDefault,
    instructions, handlers, localVariables]
  rfl

/-- **What takes back the answers takes back the renaming**, up to signatures. -/
theorem ClassFile.strip_mapTexts_renamed {c : ClassFile} (hq : ∀ q ∈ c.mentions, q.Undone f g)
    (ht : ∀ t ∈ c.texts, f t = t)
    (hs : ∀ i ∈ c.innerClasses, ∀ simple,
      simpleNameAfter i.name (g (.type i.name)) simple = simple) :
    signaturesOnly.strip ((c.renamed g).mapTexts f) = signaturesOnly.strip c := by
  simp only [mentions, texts, List.flatten_cons, List.flatten_nil, List.forall_mem_append,
    List.forall_mem_cons, List.forall_mem_map, List.forall_mem_flatMap] at hq ht
  obtain ⟨he, ⟨hn, -⟩, -, hsuper, hinterfaces, hinner, hhost, hmembers, hpermitted, ha, hrecord,
    hfields, hmethods, -⟩ := hq
  obtain ⟨-, -, -, -, tsource, te, tinner, -, -, -, ta, trecord, tfields, tmethods, -⟩ := ht
  have hn : f (g (.class c.name)) = c.name := hn
  have superName : (c.superName.map (g <| .type ·)).map f = c.superName := option_map_undone hsuper
  have interfaces : (c.interfaces.map (g <| .type ·)).map f = c.interfaces := map_undone hinterfaces
  have sourceFile : c.sourceFile.map f = c.sourceFile := by
    have kept := option_map_undone (b := id) tsource
    rwa [Option.map_id] at kept
  have enclosing := option_map_undone fun e h => EnclosingMethod.mapTexts_renamed (he e h) (te e h)
  have innerClasses := map_undone fun i h =>
    InnerClass.mapTexts_renamed (hinner i h) (tinner i h) (hs i h)
  have nestHost : (c.nestHost.map (g <| .type ·)).map f = c.nestHost := option_map_undone hhost
  have nestMembers : (c.nestMembers.map (g <| .type ·)).map f = c.nestMembers := map_undone hmembers
  have permitted : (c.permittedSubclasses.map (g <| .type ·)).map f = c.permittedSubclasses :=
    map_undone hpermitted
  have annotations := map_undone fun a h => AnnotationUse.mapTexts_renamed (ha a h) (ta a h)
  have recordComponents : (((c.recordComponents.map (RecordComponent.renamed g c.name)).map
      (RecordComponent.mapTexts f)).map signaturesOnly.stripComponent) =
        c.recordComponents.map signaturesOnly.stripComponent := by
    rw [List.map_map, List.map_map]
    exact List.map_congr_left fun r h =>
      RecordComponent.strip_mapTexts_renamed (hrecord r h) (trecord r h)
  have fields : (((c.fields.map (Field.renamed g c.name)).map (Field.mapTexts f)).map
      signaturesOnly.stripField) = c.fields.map signaturesOnly.stripField := by
    rw [List.map_map, List.map_map]
    exact List.map_congr_left fun d h => Field.strip_mapTexts_renamed (hfields d h) (tfields d h)
  have methods : (((c.methods.map (Method.renamed g c.name)).map (Method.mapTexts f)).map
      signaturesOnly.stripMethod) = c.methods.map signaturesOnly.stripMethod := by
    rw [List.map_map, List.map_map]
    exact List.map_congr_left fun d h => Method.strip_mapTexts_renamed (hmethods d h) (tmethods d h)
  rw [renamed, mapTexts]
  simp only [StripConfig.strip, hn, superName, interfaces, sourceFile, enclosing, innerClasses,
    nestHost, nestMembers, permitted, annotations, recordComponents, fields, methods]
  rfl

end Pseudonym
