import Mathlib.Data.List.Forall2
import Pseudonym.Proofs.Class.Namings

/-!
# What a renamed class mentions

Where a class mentions something, the renamed class mentions what became of it (`Mention.Follows`),

    List.Forall₂ (Mention.Follows g c.name c.namings) c.mentions (c.renamed g).mentions.

A naming becomes the naming with the answer in it, and a signature the answer. A reference to a
member gets the new name, and its owner the answer for the owner as a class or as a type. The class
that such a reference is looked up in is named in a place of its own, which is among the namings of
the class. This is what tells a reference that was renamed from one that was not.
-/

namespace Pseudonym

/-- What becomes of a mention under answers `g`, in a class with the name `self` and the namings
`places`. The class that a member is looked up in is named in one of these places, or is the class
itself. -/
inductive Mention.Follows (g : Mention → String) (self : String) (places : List Naming) :
    Mention → Mention → Prop where
  | naming (p : Naming) (hp : p ∈ places) : Follows g self places p.mention (p.renamed g).mention
  | signature (s : String) : Follows g self places (.signature s) (.signature (g (.signature s)))
  | field {owner name d d' : String} (place : .type owner ∈ places) :
    Follows g self places (.field owner name d)
      (.field (g (.type owner)) (g (.field owner name d)) d')
  | method {owner name d d' : String} (place : .type owner ∈ places) :
    Follows g self places (.method owner name d)
      (.method (g (.type owner)) (g (.method owner name d)) d')
  | ownField {name d d' : String} :
    Follows g self places (.field self name d) (.field (g (.class self)) (g (.field self name d)) d')
  | ownMethod {name d d' : String} :
    Follows g self places (.method self name d)
      (.method (g (.class self)) (g (.method self name d)) d')
  | component {name d d' : String} :
    Follows g self places (.component self name d)
      (.component (g (.class self)) (g (.component self name d)) d')
  | attribute {d name : String} (place : .descriptor d ∈ places) :
    Follows g self places (.attribute d name)
      (.attribute (g (.descriptor d)) (g (.attribute d name)))
  | enumConstant {d name : String} (place : .descriptor d ∈ places) :
    Follows g self places (.enumConstant d name)
      (.enumConstant (g (.descriptor d)) (g (.enumConstant d name)))
  | variable {owner methodName methodDescriptor name d : String} {index : UInt16}
    {owner' methodName' methodDescriptor' name' d' : String} :
    Follows g self places (.variable owner methodName methodDescriptor name d index)
      (.variable owner' methodName' methodDescriptor' name' d' index)
  | callSite {name d : String} {bootstrap bootstrap' : Handle} {arguments arguments' : List Constant}
    (place : .methodDescriptor d ∈ places) :
    Follows g self places (.callSite name d bootstrap arguments)
      (.callSite (g (.callSite name d bootstrap arguments)) (g (.methodDescriptor d)) bootstrap'
        arguments')

namespace Mention.Follows

variable {g : Mention → String} {self : String} {places : List Naming} {α : Type}

theorem type {name : String} (h : .type name ∈ places) :
    Follows g self places (.type name) (.type (g (.type name))) :=
  naming (.type name) h

theorem descriptor {d : String} (h : .descriptor d ∈ places) :
    Follows g self places (.descriptor d) (.descriptor (g (.descriptor d))) :=
  naming (.descriptor d) h

theorem methodDescriptor {d : String} (h : .methodDescriptor d ∈ places) :
    Follows g self places (.methodDescriptor d) (.methodDescriptor (g (.methodDescriptor d))) :=
  naming (.methodDescriptor d) h

/-- The mentions of two lists of parts, one of which is the other renamed. -/
theorem flatMap {parts parts' : α → List Mention} {k : α → α} {xs : List α}
    (h : ∀ x ∈ xs, List.Forall₂ (Follows g self places) (parts x) (parts' (k x))) :
    List.Forall₂ (Follows g self places) (xs.flatMap parts) ((xs.map k).flatMap parts') := by
  induction xs with
  | nil => exact .nil
  | cons x xs ih =>
    rw [List.forall_mem_cons] at h
    exact List.rel_append h.1 (ih h.2)

/-- Texts that are mentioned one by one. -/
theorem each {q : String → Mention} {texts : List String}
    (h : ∀ s ∈ texts, Follows g self places (q s) (q (g (q s)))) :
    List.Forall₂ (Follows g self places) (texts.map q) ((texts.map (g <| q ·)).map q) := by
  rw [List.map_map, List.forall₂_map_left_iff, List.forall₂_map_right_iff, List.forall₂_same]
  exact h

/-- A text that may be missing. -/
theorem optional {q : String → Mention} {text : Option String}
    (h : ∀ s ∈ text.toList, Follows g self places (q s) (q (g (q s)))) :
    List.Forall₂ (Follows g self places) (text.toList.map q)
      ((text.map (g <| q ·)).toList.map q) := by
  rw [Option.toList_map]
  exact each h

/-- A part that may be missing. -/
theorem optionFlatMap {parts parts' : α → List Mention} {k : α → α} {part : Option α}
    (h : ∀ x ∈ part.toList, List.Forall₂ (Follows g self places) (parts x) (parts' (k x))) :
    List.Forall₂ (Follows g self places) (part.toList.flatMap parts)
      ((part.map k).toList.flatMap parts') := by
  rw [Option.toList_map]
  exact flatMap h

theorem exists_of_mem_left {qs qs' : List Mention}
    (h : List.Forall₂ (Follows g self places) qs qs') {q : Mention} (hq : q ∈ qs) :
    ∃ q' ∈ qs', q.Follows g self places q' := by
  induction h with
  | nil => cases hq
  | @cons a b qs qs' first _ ih =>
    rcases List.mem_cons.1 hq with rfl | hq
    · exact ⟨b, List.mem_cons_self, first⟩
    · obtain ⟨q', hq', follows⟩ := ih hq
      exact ⟨q', List.mem_cons_of_mem b hq', follows⟩

theorem exists_of_mem_right {qs qs' : List Mention}
    (h : List.Forall₂ (Follows g self places) qs qs') {q' : Mention} (hq : q' ∈ qs') :
    ∃ q ∈ qs, q.Follows g self places q' := by
  induction h with
  | nil => cases hq
  | @cons a b qs qs' first _ ih =>
    rcases List.mem_cons.1 hq with rfl | hq
    · exact ⟨a, List.mem_cons_self, first⟩
    · obtain ⟨q, hq, follows⟩ := ih hq
      exact ⟨q, List.mem_cons_of_mem a hq, follows⟩

end Mention.Follows

open Mention (Follows)
open Mention.Follows (flatMap each optional optionFlatMap)
open List (Forall₂)

variable {g : Mention → String} {self : String} {places : List Naming}

theorem Handle.follows (h : Handle) (hp : ∀ p ∈ h.namings, p ∈ places) :
    Forall₂ (Follows g self places) h.mentions (h.renamed g).mentions := by
  simp only [namings, List.forall_mem_cons, List.not_mem_nil, false_imp_iff, implies_true,
    and_true] at hp
  refine .cons ?_ (.cons (.type hp.1) (.cons (.descriptor hp.2) .nil))
  unfold renamed member
  dsimp only
  split
  · exact .field hp.1
  · exact .method hp.1

mutual

theorem Constant.follows : ∀ c : Constant, (∀ p ∈ c.namings, p ∈ places) →
    Forall₂ (Follows g self places) c.mentions (c.renamed g).mentions
  | .int _, _ | .long _, _ | .float _, _ | .double _, _ | .string _, _ => .nil
  | .type _, hp => .cons (.descriptor (hp _ List.mem_cons_self)) .nil
  | .methodType _, hp => .cons (.methodDescriptor (hp _ List.mem_cons_self)) .nil
  | .handle h, hp => h.follows hp
  | .dynamic _ d bootstrap arguments, hp => by
    rw [Constant.namings, List.forall_mem_cons, List.forall_mem_append] at hp
    exact List.rel_flatten (.cons (.cons (.descriptor hp.1) .nil) (.cons (bootstrap.follows hp.2.1)
      (.cons (Constant.followsList arguments hp.2.2) .nil)))

theorem Constant.followsList : ∀ cs : List Constant, (∀ p ∈ Constant.namingsList cs, p ∈ places) →
    Forall₂ (Follows g self places) (Constant.mentionsList cs)
      (Constant.mentionsList (Constant.renamedList g cs))
  | [], _ => .nil
  | c :: cs, hp => by
    rw [Constant.namingsList, List.forall_mem_append] at hp
    exact List.rel_append (Constant.follows c hp.1) (Constant.followsList cs hp.2)

end

mutual

theorem AnnotationValue.follows : ∀ v : AnnotationValue, (∀ p ∈ v.namings, p ∈ places) →
    Forall₂ (Follows g self places) v.mentions (v.renamed g).mentions
  | .const c, hp => c.follows hp
  | .enum _ _, hp =>
    have place := hp _ List.mem_cons_self
    .cons (.enumConstant place) (.cons (.descriptor place) .nil)
  | .type _, hp => .cons (.descriptor (hp _ List.mem_cons_self)) .nil
  | .nested a, hp => AnnotationUse.follows a hp
  | .array items, hp => AnnotationValue.followsList items hp

theorem AnnotationValue.followsList : ∀ vs : List AnnotationValue,
    (∀ p ∈ AnnotationValue.namingsList vs, p ∈ places) →
    Forall₂ (Follows g self places) (AnnotationValue.mentionsList vs)
      (AnnotationValue.mentionsList (AnnotationValue.renamedList g vs))
  | [], _ => .nil
  | v :: vs, hp => by
    rw [AnnotationValue.namingsList, List.forall_mem_append] at hp
    exact List.rel_append (AnnotationValue.follows v hp.1) (AnnotationValue.followsList vs hp.2)

theorem AnnotationUse.follows : ∀ u : AnnotationUse, (∀ p ∈ u.namings, p ∈ places) →
    Forall₂ (Follows g self places) u.mentions (u.renamed g).mentions
  | ⟨d, _, values⟩, hp => by
    rw [AnnotationUse.namings, List.forall_mem_cons] at hp
    exact List.rel_append (AnnotationUse.followsValues d values hp.1 hp.2)
      (.cons (.descriptor hp.1) .nil)

theorem AnnotationUse.followsValues (d : String) : ∀ values : List (String × AnnotationValue),
    .descriptor d ∈ places → (∀ p ∈ AnnotationUse.namingsValues values, p ∈ places) →
    Forall₂ (Follows g self places) (AnnotationUse.mentionsValues d values)
      (AnnotationUse.mentionsValues (g (.descriptor d)) (AnnotationUse.renamedValues g d values))
  | [], _, _ => .nil
  | (name, value) :: values, place, hp => by
    rw [AnnotationUse.namingsValues, List.forall_mem_append] at hp
    exact List.rel_flatten (.cons (.cons (.attribute place) .nil)
      (.cons (AnnotationValue.follows value hp.1)
        (.cons (AnnotationUse.followsValues d values place hp.2) .nil)))

end

theorem FrameValue.follows (v : FrameValue) (hp : ∀ p ∈ v.namings, p ∈ places) :
    Forall₂ (Follows g self places) v.mentions (v.renamed g).mentions := by
  cases v with
  | object name => exact .cons (.type (hp _ (by simp [namings]))) .nil
  | _ => exact .nil

theorem Instruction.follows (i : Instruction) (hp : ∀ p ∈ i.namings, p ∈ places) :
    Forall₂ (Follows g self places) i.mentions (i.renamed g).mentions := by
  cases i with
  | type opcode d => exact .cons (.type (hp _ (by simp [namings]))) .nil
  | field opcode owner name d =>
    have place := hp (.type owner) (by simp [namings])
    exact .cons (.field place) (.cons (.type place)
      (.cons (.descriptor (hp _ (by simp [namings]))) .nil))
  | method opcode owner name d isInterface =>
    have place := hp (.type owner) (by simp [namings])
    exact .cons (.method place) (.cons (.type place)
      (.cons (.methodDescriptor (hp _ (by simp [namings]))) .nil))
  | invokeDynamic name d bootstrap arguments =>
    rw [namings, List.forall_mem_cons, List.forall_mem_append] at hp
    exact List.rel_flatten (.cons (.cons (.callSite hp.1) .nil)
      (.cons (.cons (.methodDescriptor hp.1) .nil) (.cons (bootstrap.follows hp.2.1)
        (.cons (Constant.followsList arguments hp.2.2) .nil))))
  | ldc value => exact value.follows hp
  | multiANewArray d dimensions => exact .cons (.descriptor (hp _ (by simp [namings]))) .nil
  | frame locals stack =>
    rw [namings, List.forall_mem_append, List.forall_mem_flatMap, List.forall_mem_flatMap] at hp
    exact List.rel_flatten (.cons (flatMap fun v hv => v.follows (hp.1 v hv))
      (.cons (flatMap fun v hv => v.follows (hp.2 v hv)) .nil))
  | _ => exact .nil

theorem EnclosingMethod.follows (e : EnclosingMethod) (hp : ∀ p ∈ e.namings, p ∈ places) :
    Forall₂ (Follows g self places) e.mentions (e.renamed g).mentions := by
  obtain ⟨owner, methodName, methodDescriptor⟩ := e
  rw [namings, List.forall_mem_cons, List.forall_mem_map] at hp
  refine List.rel_flatten (.cons ?_ (.cons (.cons (.type hp.1) .nil)
    (.cons (optional fun d hd => .methodDescriptor (hp.2 d hd)) .nil)))
  cases methodName with
  | none => exact .nil
  | some name =>
    cases methodDescriptor with
    | none => exact .nil
    | some d => exact .cons (.method hp.1) .nil

theorem InnerClass.follows (i : InnerClass) (hp : ∀ p ∈ i.namings, p ∈ places) :
    Forall₂ (Follows g self places) i.mentions (i.renamed g).mentions := by
  rw [namings, List.forall_mem_cons, List.forall_mem_map] at hp
  exact List.rel_flatten (.cons (.cons (.type hp.1) .nil)
    (.cons (optional fun name hn => .type (hp.2 name hn)) .nil))

theorem RecordComponent.follows (c : RecordComponent) (hp : ∀ p ∈ c.namings, p ∈ places) :
    Forall₂ (Follows g self places) (c.mentions self)
      ((c.renamed g self).mentions (g (.class self))) := by
  rw [namings, List.forall_mem_cons, List.forall_mem_flatMap] at hp
  exact List.rel_flatten (.cons (.cons .component .nil) (.cons (.cons (.descriptor hp.1) .nil)
    (.cons (optional fun s _ => .signature s)
      (.cons (flatMap fun a ha => a.follows (hp.2 a ha)) .nil))))

theorem Field.follows (c : Field) (hp : ∀ p ∈ c.namings, p ∈ places) :
    Forall₂ (Follows g self places) (c.mentions self)
      ((c.renamed g self).mentions (g (.class self))) := by
  simp only [namings, List.forall_mem_cons, List.forall_mem_append, List.forall_mem_flatMap] at hp
  exact List.rel_flatten (.cons (.cons .ownField .nil) (.cons (.cons (.descriptor hp.1) .nil)
    (.cons (optional fun s _ => .signature s)
      (.cons (optionFlatMap fun v hv => v.follows (hp.2.1 v hv))
        (.cons (flatMap fun a ha => a.follows (hp.2.2 a ha)) .nil)))))

theorem LocalVariable.follows (methodName methodDescriptor methodName' methodDescriptor' : String)
    (v : LocalVariable) (hp : .descriptor v.descriptor ∈ places) :
    Forall₂ (Follows g self places) (v.mentions self methodName methodDescriptor)
      ((v.renamed g self methodName methodDescriptor).mentions (g (.class self)) methodName'
        methodDescriptor') :=
  List.rel_flatten (.cons (.cons .variable .nil) (.cons (.cons (.descriptor hp) .nil)
    (.cons (optional fun s _ => .signature s) .nil)))

theorem ExceptionHandler.follows (h : ExceptionHandler) (hp : ∀ p ∈ h.namings, p ∈ places) :
    Forall₂ (Follows g self places) h.mentions (h.renamed g).mentions := by
  rw [namings, List.forall_mem_map] at hp
  exact optional fun name hn => .type (hp name hn)

theorem Method.follows (c : Method) (hp : ∀ p ∈ c.namings, p ∈ places) :
    Forall₂ (Follows g self places) (c.mentions self)
      ((c.renamed g self).mentions (g (.class self))) := by
  simp only [namings, List.forall_mem_cons, List.forall_mem_flatten, List.not_mem_nil,
    false_imp_iff, implies_true, and_true, List.forall_mem_map, List.forall_mem_flatMap] at hp
  obtain ⟨descriptor, exceptions, annotations, annotationDefault, instructions, handlers, locals⟩ :=
    hp
  exact List.rel_flatten (.cons (flatMap fun v hv => v.follows _ _ _ _ (locals v hv))
    (.cons (.cons .ownMethod .nil) (.cons (.cons (.methodDescriptor descriptor) .nil)
      (.cons (optional fun s _ => .signature s)
        (.cons (each fun name hn => .type (exceptions name hn))
          (.cons (flatMap fun a ha => a.follows (annotations a ha))
            (.cons (optionFlatMap fun v hv => v.follows (annotationDefault v hv))
              (.cons (flatMap fun i hi => i.follows (instructions i hi))
                (.cons (flatMap fun h hh => h.follows (handlers h hh)) .nil)))))))))

theorem ClassFile.follows_of_places (c : ClassFile) (hp : ∀ p ∈ c.namings, p ∈ places) :
    Forall₂ (Follows g c.name places) c.mentions (c.renamed g).mentions := by
  simp only [namings, List.forall_mem_cons, List.forall_mem_flatten, List.not_mem_nil,
    false_imp_iff, implies_true, and_true, List.forall_mem_map, List.forall_mem_flatMap] at hp
  obtain ⟨name, superName, interfaces, enclosing, innerClasses, nestHost, nestMembers,
    permittedSubclasses, annotations, recordComponents, fields, methods⟩ := hp
  exact List.rel_flatten (.cons (optionFlatMap fun e he => e.follows (enclosing e he))
    (.cons (.cons (.naming (.class c.name) name) .nil)
      (.cons (optional fun s _ => .signature s)
        (.cons (optional fun name hn => .type (superName name hn))
          (.cons (each fun name hn => .type (interfaces name hn))
            (.cons (flatMap fun i hi => i.follows (innerClasses i hi))
              (.cons (optional fun name hn => .type (nestHost name hn))
                (.cons (each fun name hn => .type (nestMembers name hn))
                  (.cons (each fun name hn => .type (permittedSubclasses name hn))
                    (.cons (flatMap fun a ha => a.follows (annotations a ha))
                      (.cons (flatMap fun r hr => r.follows (recordComponents r hr))
                        (.cons (flatMap fun d hd => d.follows (fields d hd))
                          (.cons (flatMap fun d hd => d.follows (methods d hd)) .nil)))))))))))))

/-- **Place by place, a renamed class mentions what became of the mentions.** -/
theorem ClassFile.follows (c : ClassFile) :
    Forall₂ (Follows g c.name c.namings) c.mentions (c.renamed g).mentions :=
  c.follows_of_places fun _ hp => hp

end Pseudonym
