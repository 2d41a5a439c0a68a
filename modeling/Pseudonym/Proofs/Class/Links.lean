import Pseudonym.Proofs.Class.Mention

/-!
# Links from a class to members

A link is a place in a class that refers to a member of some class: a field or a method by owner,
name and descriptor, or an attribute by the annotation interface that declares it. `ClassFile.links`
collects the links of a class in a fixed order, from code, handles, annotations and what encloses
the class, at any depth of nested constants and annotations.

Renaming keeps the order and changes each link by itself (`ClassFile.links_renamed`),

    (c.renamed g).links = c.links.map (Link.renamed g a).

This is not true of any answers `g`. A link knows its owner by name, while an enum constant and an
attribute are asked for by a descriptor, and a method has its descriptor asked for in two ways. The
answers must not tell these apart (`Mention.Linked`).
-/

namespace Pseudonym

/-- A place that refers to a member of a class. -/
inductive Link where
  | field (owner name descriptor : String)
  | method (owner name descriptor : String)
  /-- An attribute of an annotation interface. -/
  | attribute (owner name : String)
deriving DecidableEq, Repr

/-- The class that stands between `L` and `;` in its descriptor. -/
def classOfDescriptor (d : String) : String := String.ofList d.toList.tail.dropLast

/-! ### Collecting links -/

def Handle.link (h : Handle) : Link :=
  if h.kind.isField then .field h.owner h.name h.descriptor else .method h.owner h.name h.descriptor

mutual

def Constant.links : Constant → List Link
  | .handle h => [h.link]
  | .dynamic _ _ bootstrap arguments => bootstrap.link :: Constant.linksList arguments
  | _ => []

def Constant.linksList : List Constant → List Link
  | [] => []
  | c :: cs => c.links ++ Constant.linksList cs

end

mutual

def AnnotationValue.links : AnnotationValue → List Link
  | .const c => c.links
  | .enum d value => [.field (classOfDescriptor d) value d]
  | .type _ => []
  | .nested a => a.links
  | .array items => AnnotationValue.linksList items

def AnnotationValue.linksList : List AnnotationValue → List Link
  | [] => []
  | v :: vs => v.links ++ AnnotationValue.linksList vs

def AnnotationUse.links : AnnotationUse → List Link
  | ⟨d, _, values⟩ => AnnotationUse.linksValues d values

def AnnotationUse.linksValues (d : String) : List (String × AnnotationValue) → List Link
  | [] => []
  | (name, value) :: values =>
    .attribute (classOfDescriptor d) name :: (value.links ++ AnnotationUse.linksValues d values)

end

def Instruction.links : Instruction → List Link
  | .field _ owner name d => [.field owner name d]
  | .method _ owner name d _ => [.method owner name d]
  | .invokeDynamic _ _ bootstrap arguments => bootstrap.link :: Constant.linksList arguments
  | .ldc value => value.links
  | _ => []

def EnclosingMethod.links (e : EnclosingMethod) : List Link :=
  match e.methodName, e.methodDescriptor with
  | some name, some d => [.method e.owner name d]
  | _, _ => []

def Field.links (c : Field) : List Link :=
  c.value.toList.flatMap Constant.links ++ c.annotations.flatMap AnnotationUse.links

def Method.links (c : Method) : List Link :=
  [c.annotations.flatMap AnnotationUse.links,
    c.annotationDefault.toList.flatMap AnnotationValue.links,
    c.instructions.flatMap Instruction.links].flatten

/-- The links of a class. -/
def ClassFile.links (c : ClassFile) : List Link :=
  [c.enclosing.toList.flatMap EnclosingMethod.links, c.annotations.flatMap AnnotationUse.links,
    c.recordComponents.flatMap (·.annotations.flatMap AnnotationUse.links),
    c.fields.flatMap Field.links, c.methods.flatMap Method.links].flatten

/-! ### Renaming links -/

/-- A link with answers: `g` for mentions, `a` for the attributes of a class. -/
def Link.renamed (g : Mention → String) (a : String → String → String) : Link → Link
  | .field owner name d => .field (g (.type owner)) (g (.field owner name d)) (g (.descriptor d))
  | .method owner name d => .method (g (.type owner)) (g (.method owner name d)) (g (.descriptor d))
  | .attribute owner name => .attribute (g (.type owner)) (a owner name)

/-- The answers for a mention are the ones for the link that it belongs to. -/
def Mention.Linked (g : Mention → String) (a : String → String → String) : Mention → Prop
  | .methodDescriptor d => g (.methodDescriptor d) = g (.descriptor d)
  | .enumConstant d name =>
    classOfDescriptor (g (.descriptor d)) = g (.type (classOfDescriptor d)) ∧
      g (.enumConstant d name) = g (.field (classOfDescriptor d) name d)
  | .attribute d name =>
    classOfDescriptor (g (.descriptor d)) = g (.type (classOfDescriptor d)) ∧
      g (.attribute d name) = a (classOfDescriptor d) name
  | _ => True

variable {g : Mention → String} {a : String → String → String}

theorem Handle.link_renamed (h : Handle) : (h.renamed g).link = h.link.renamed g a := by
  by_cases field : h.kind.isField = true
  · simp [link, renamed, member, field, Link.renamed]
  · simp [link, renamed, member, field, Link.renamed]

mutual

theorem Constant.links_renamed : ∀ c : Constant,
    (c.renamed g).links = c.links.map (Link.renamed g a)
  | .int _ | .long _ | .float _ | .double _ | .string _ | .type _ | .methodType _ => rfl
  | .handle h => congrArg ([·]) h.link_renamed
  | .dynamic _ _ bootstrap arguments => by
    rw [Constant.renamed, Constant.links, Constant.links, bootstrap.link_renamed (a := a),
      Constant.links_renamedList arguments, List.map_cons]

theorem Constant.links_renamedList : ∀ cs : List Constant,
    Constant.linksList (Constant.renamedList g cs) = (Constant.linksList cs).map (Link.renamed g a)
  | [] => rfl
  | c :: cs => by
    rw [Constant.renamedList, Constant.linksList, Constant.linksList, Constant.links_renamed c,
      Constant.links_renamedList cs, List.map_append]

end

mutual

theorem AnnotationValue.links_renamed : ∀ {v : AnnotationValue}, (∀ q ∈ v.mentions, q.Linked g a) →
    (v.renamed g).links = v.links.map (Link.renamed g a)
  | .const c, _ => c.links_renamed
  | .enum d value, hq => by
    obtain ⟨owner, name⟩ : Mention.Linked g a (.enumConstant d value) := hq _ List.mem_cons_self
    rw [AnnotationValue.renamed, AnnotationValue.links, AnnotationValue.links, owner, name]
    rfl
  | .type _, _ => rfl
  | .nested _, hq => AnnotationUse.links_renamed hq
  | .array _, hq => AnnotationValue.links_renamedList hq

theorem AnnotationValue.links_renamedList : ∀ {vs : List AnnotationValue},
    (∀ q ∈ AnnotationValue.mentionsList vs, q.Linked g a) →
      AnnotationValue.linksList (AnnotationValue.renamedList g vs) =
        (AnnotationValue.linksList vs).map (Link.renamed g a)
  | [], _ => rfl
  | v :: vs, hq => by
    rw [AnnotationValue.mentionsList, List.forall_mem_append] at hq
    rw [AnnotationValue.renamedList, AnnotationValue.linksList, AnnotationValue.linksList,
      AnnotationValue.links_renamed hq.1, AnnotationValue.links_renamedList hq.2, List.map_append]

theorem AnnotationUse.links_renamed : ∀ {u : AnnotationUse}, (∀ q ∈ u.mentions, q.Linked g a) →
    (u.renamed g).links = u.links.map (Link.renamed g a)
  | ⟨d, _, values⟩, hq => by
    rw [AnnotationUse.mentions, List.forall_mem_append] at hq
    exact AnnotationUse.links_renamedValues hq.1

theorem AnnotationUse.links_renamedValues {d : String} :
    ∀ {values : List (String × AnnotationValue)},
      (∀ q ∈ AnnotationUse.mentionsValues d values, q.Linked g a) →
        AnnotationUse.linksValues (g (.descriptor d)) (AnnotationUse.renamedValues g d values) =
          (AnnotationUse.linksValues d values).map (Link.renamed g a)
  | [], _ => rfl
  | (name, value) :: values, hq => by
    simp only [AnnotationUse.mentionsValues, List.flatten_cons, List.flatten_nil,
      List.forall_mem_append, List.forall_mem_cons] at hq
    obtain ⟨owner, renamed⟩ : Mention.Linked g a (.attribute d name) := hq.1.1
    rw [AnnotationUse.renamedValues, AnnotationUse.linksValues, AnnotationUse.linksValues,
      AnnotationValue.links_renamed hq.2.1, AnnotationUse.links_renamedValues hq.2.2.1, owner,
      renamed, List.map_cons, List.map_append]
    rfl

end

theorem toList_flatMap_map_links {α : Type} {walk : α → α} {links : α → List Link} {o : Option α}
    (h : ∀ x ∈ o.toList, links (walk x) = (links x).map (Link.renamed g a)) :
    (o.map walk).toList.flatMap links = (o.toList.flatMap links).map (Link.renamed g a) := by
  rw [Option.toList_map]
  exact flatMap_map_of_mem h

theorem Instruction.links_renamed {i : Instruction} (hq : ∀ q ∈ i.mentions, q.Linked g a) :
    (i.renamed g).links = i.links.map (Link.renamed g a) := by
  cases i with
  | method opcode owner name d isInterface =>
    have hd : g (.methodDescriptor d) = g (.descriptor d) :=
      hq (.methodDescriptor d) (by simp [mentions])
    rw [renamed, links, links, hd]
    rfl
  | invokeDynamic name d bootstrap arguments =>
    rw [renamed, links, links, bootstrap.link_renamed (a := a),
      Constant.links_renamedList arguments, List.map_cons]
  | ldc value => exact value.links_renamed
  | _ => rfl

theorem EnclosingMethod.links_renamed {e : EnclosingMethod} (hq : ∀ q ∈ e.mentions, q.Linked g a) :
    (e.renamed g).links = e.links.map (Link.renamed g a) := by
  obtain ⟨owner, methodName, methodDescriptor⟩ := e
  cases methodName with
  | none => rfl
  | some name =>
    cases methodDescriptor with
    | none => rfl
    | some d =>
      have hd : g (.methodDescriptor d) = g (.descriptor d) :=
        hq (.methodDescriptor d) (by simp [mentions])
      exact congrArg (fun d => [Link.method _ _ d]) hd

theorem Field.links_renamed {owner : String} {c : Field}
    (hq : ∀ q ∈ c.mentions owner, q.Linked g a) :
    (c.renamed g owner).links = c.links.map (Link.renamed g a) := by
  simp only [mentions, List.flatten_cons, List.flatten_nil, List.forall_mem_append,
    List.forall_mem_flatMap] at hq
  rw [links, links, List.map_append, renamed, toList_flatMap_map_links fun v _ => v.links_renamed,
    flatMap_map_of_mem fun u h => AnnotationUse.links_renamed (hq.2.2.2.2.1 u h)]

theorem Method.links_renamed {owner : String} {c : Method}
    (hq : ∀ q ∈ c.mentions owner, q.Linked g a) :
    (c.renamed g owner).links = c.links.map (Link.renamed g a) := by
  simp only [mentions, List.flatten_cons, List.flatten_nil, List.forall_mem_append,
    List.forall_mem_flatMap] at hq
  obtain ⟨-, -, -, -, -, annotations, annotationDefault, instructions, -, -⟩ := hq
  simp only [links, renamed, List.flatten_cons, List.flatten_nil, List.map_append, List.map_nil]
  rw [flatMap_map_of_mem fun u h => AnnotationUse.links_renamed (annotations u h),
    toList_flatMap_map_links fun v h => AnnotationValue.links_renamed (annotationDefault v h),
    flatMap_map_of_mem fun i h => Instruction.links_renamed (instructions i h)]

/-- **Renaming keeps the links of a class in place and changes each by itself.** -/
theorem ClassFile.links_renamed {c : ClassFile} (hq : ∀ q ∈ c.mentions, q.Linked g a) :
    (c.renamed g).links = c.links.map (Link.renamed g a) := by
  simp only [mentions, List.flatten_cons, List.flatten_nil, List.forall_mem_append,
    List.forall_mem_flatMap] at hq
  obtain ⟨enclosing, -, -, -, -, -, -, -, -, annotations, components, fields, methods, -⟩ := hq
  simp only [links, renamed, List.flatten_cons, List.flatten_nil, List.map_append, List.map_nil]
  have component : ∀ r ∈ c.recordComponents,
      (r.renamed g c.name).annotations.flatMap AnnotationUse.links =
        (r.annotations.flatMap AnnotationUse.links).map (Link.renamed g a) := by
    intro r hr
    have inside := components r hr
    simp only [RecordComponent.mentions, List.flatten_cons, List.flatten_nil,
      List.forall_mem_append, List.forall_mem_flatMap] at inside
    exact flatMap_map_of_mem fun u h => AnnotationUse.links_renamed (inside.2.2.2.1 u h)
  rw [toList_flatMap_map_links fun e h => EnclosingMethod.links_renamed (enclosing e h),
    flatMap_map_of_mem fun u h => AnnotationUse.links_renamed (annotations u h),
    flatMap_map_of_mem component,
    flatMap_map_of_mem fun d h => Field.links_renamed (fields d h),
    flatMap_map_of_mem fun d h => Method.links_renamed (methods d h)]

end Pseudonym
