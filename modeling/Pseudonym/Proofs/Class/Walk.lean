import Pseudonym.Proofs.Asking
import Pseudonym.Proofs.Class.Mention

/-!
# A walk asks for the mentions of a class

Part by part, the walk of `Pseudonym.Class.Mention` asks for what the part mentions and puts the
answers in place. The statement for classes is `ClassFile.asks`, and `ClassFile.outcome_renameM`
says what it means for a class that is renamed: all of its mentions were answered, and the result
holds the answers. Everything that is proved about renamed classes starts from there.
-/

namespace Pseudonym

open Asks

variable {ω : Type} {f : Mention → Traced ω String} {g : Mention → String}

theorem Handle.asks (hg : Agrees f g) (h : Handle) :
    Asks f h.mentions (h.renamed g) (h.renameM f) :=
  (ask hg _).bind ((ask hg _).bind ((ask hg _).bind (result f _)))

mutual

theorem Constant.asks (hg : Agrees f g) : ∀ c : Constant,
    Asks f c.mentions (c.renamed g) (c.renameM f)
  | .int _ | .long _ | .float _ | .double _ | .string _ => result f _
  | .type _ | .methodType _ => (ask hg _).bind (result f _)
  | .handle h => by
    rw [Constant.renameM, ← List.append_nil (Constant.mentions _)]
    exact (h.asks hg).bind (result f _)
  | .dynamic _ _ bootstrap arguments => by
    rw [Constant.renameM]
    exact (ask hg _).bind <| (bootstrap.asks hg).bind <|
      (Constant.asksList hg arguments).bind (result f _)

theorem Constant.asksList (hg : Agrees f g) : ∀ cs : List Constant,
    Asks f (Constant.mentionsList cs) (Constant.renamedList g cs) (Constant.renameListM f cs)
  | [] => result f _
  | c :: cs => by
    rw [Constant.renameListM, Constant.mentionsList, ← List.append_nil (Constant.mentionsList cs)]
    exact (Constant.asks hg c).bind ((Constant.asksList hg cs).bind (result f _))

end

mutual

theorem AnnotationValue.asks (hg : Agrees f g) : ∀ v : AnnotationValue,
    Asks f v.mentions (v.renamed g) (v.renameM f)
  | .const c => by
    rw [AnnotationValue.renameM, ← List.append_nil (AnnotationValue.mentions _)]
    exact (c.asks hg).bind (result f _)
  | .enum _ _ => (ask hg _).bind ((ask hg _).bind (result f _))
  | .type _ => (ask hg _).bind (result f _)
  | .nested a => by
    rw [AnnotationValue.renameM, ← List.append_nil (AnnotationValue.mentions _)]
    exact (AnnotationUse.asks hg a).bind (result f _)
  | .array items => by
    rw [AnnotationValue.renameM, ← List.append_nil (AnnotationValue.mentions _)]
    exact (AnnotationValue.asksList hg items).bind (result f _)

theorem AnnotationValue.asksList (hg : Agrees f g) : ∀ vs : List AnnotationValue,
    Asks f (AnnotationValue.mentionsList vs) (AnnotationValue.renamedList g vs)
      (AnnotationValue.renameListM f vs)
  | [] => result f _
  | v :: vs => by
    rw [AnnotationValue.renameListM, AnnotationValue.mentionsList,
      ← List.append_nil (AnnotationValue.mentionsList vs)]
    exact (AnnotationValue.asks hg v).bind ((AnnotationValue.asksList hg vs).bind (result f _))

theorem AnnotationUse.asks (hg : Agrees f g) : ∀ a : AnnotationUse,
    Asks f a.mentions (a.renamed g) (a.renameM f)
  | ⟨d, visible, values⟩ => by
    rw [AnnotationUse.renameM]
    exact (AnnotationUse.asksValues hg d values).bind ((ask hg _).bind (result f _))

theorem AnnotationUse.asksValues (hg : Agrees f g) (d : String) :
    ∀ values : List (String × AnnotationValue),
    Asks f (AnnotationUse.mentionsValues d values)
      (AnnotationUse.renamedValues g d values) (AnnotationUse.renameValuesM f d values)
  | [] => result f _
  | (name, v) :: values => by
    rw [AnnotationUse.renameValuesM]
    exact (ask hg _).bind ((AnnotationValue.asks hg v).bind
      ((AnnotationUse.asksValues hg d values).bind (result f _)))

end

theorem FrameValue.asks (hg : Agrees f g) (v : FrameValue) :
    Asks f v.mentions (v.renamed g) (v.renameM f) := by
  cases v with
  | object name => exact (ask hg _).bind (result f _)
  | _ => exact result f _

theorem Instruction.asks (hg : Agrees f g) (i : Instruction) :
    Asks f i.mentions (i.renamed g) (i.renameM f) := by
  cases i with
  | type | multiANewArray => exact (ask hg _).bind (result f _)
  | field | method => exact (ask hg _).bind ((ask hg _).bind ((ask hg _).bind (result f _)))
  | invokeDynamic name d bootstrap arguments =>
    exact (ask hg _).bind ((ask hg _).bind ((bootstrap.asks hg).bind
      ((Constant.asksList hg arguments).bind (result f _))))
  | ldc value =>
    rw [Instruction.renameM, ← List.append_nil (Instruction.mentions _)]
    exact (value.asks hg).bind (result f _)
  | frame locals stack =>
    exact (mapM fun v _ => v.asks hg).bind ((mapM fun v _ => v.asks hg).bind (result f _))
  | _ => exact result f _

theorem EnclosingMethod.asks (hg : Agrees f g) (e : EnclosingMethod) :
    Asks f e.mentions (e.renamed g) (e.renameM f) := by
  obtain ⟨owner, methodName, methodDescriptor⟩ := e
  cases methodName with
  | none => exact (result f none).bind ((ask hg _).bind ((optional hg _ _).bind (result f _)))
  | some name =>
    cases methodDescriptor with
    | none => exact (result f _).bind ((ask hg _).bind ((optional hg _ _).bind (result f _)))
    | some d =>
      exact ((ask hg _).map some).bind ((ask hg _).bind ((optional hg _ _).bind (result f _)))

theorem InnerClass.asks (hg : Agrees f g) (i : InnerClass) :
    Asks f i.mentions (i.renamed g) (i.renameM f) :=
  (ask hg _).bind ((optional hg _ _).bind (result f _))

theorem RecordComponent.asks (hg : Agrees f g) (owner : String) (c : RecordComponent) :
    Asks f (c.mentions owner) (c.renamed g owner) (c.renameM f owner) :=
  (ask hg _).bind ((ask hg _).bind ((optional hg _ _).bind
    ((mapM fun a _ => a.asks hg).bind (result f _))))

theorem Field.asks (hg : Agrees f g) (owner : String) (c : Field) :
    Asks f (c.mentions owner) (c.renamed g owner) (c.renameM f owner) :=
  (ask hg _).bind ((ask hg _).bind ((optional hg _ _).bind
    ((optionMapM fun v _ => v.asks hg).bind ((mapM fun a _ => a.asks hg).bind (result f _)))))

theorem LocalVariable.asks (hg : Agrees f g) (owner methodName methodDescriptor : String)
    (v : LocalVariable) :
    Asks f (v.mentions owner methodName methodDescriptor)
      (v.renamed g owner methodName methodDescriptor)
      (v.renameM f owner methodName methodDescriptor) :=
  (ask hg _).bind ((ask hg _).bind ((optional hg _ _).bind (result f _)))

theorem ExceptionHandler.asks (hg : Agrees f g) (h : ExceptionHandler) :
    Asks f h.mentions (h.renamed g) (h.renameM f) := by
  rw [ExceptionHandler.renameM, ← List.append_nil (ExceptionHandler.mentions _)]
  exact (optional hg _ _).bind (result f _)

theorem Method.asks (hg : Agrees f g) (owner : String) (c : Method) :
    Asks f (c.mentions owner) (c.renamed g owner) (c.renameM f owner) :=
  (mapM fun v _ => v.asks hg owner c.name c.descriptor).bind ((ask hg _).bind ((ask hg _).bind
    ((optional hg _ _).bind ((each hg _ _).bind ((mapM fun a _ => a.asks hg).bind
      ((optionMapM fun v _ => v.asks hg).bind ((mapM fun i _ => i.asks hg).bind
        ((mapM fun h _ => h.asks hg).bind (result f _)))))))))

theorem ClassFile.asks (hg : Agrees f g) (c : ClassFile) :
    Asks f c.mentions (c.renamed g) (c.renameM f) :=
  (optionMapM fun e _ => e.asks hg).bind ((ask hg _).bind ((optional hg _ _).bind
    ((optional hg _ _).bind ((each hg _ _).bind ((mapM fun i _ => i.asks hg).bind
      ((optional hg _ _).bind ((each hg _ _).bind ((each hg _ _).bind
        ((mapM fun a _ => a.asks hg).bind ((mapM fun r _ => r.asks hg c.name).bind
          ((mapM fun d _ => d.asks hg c.name).bind ((mapM fun d _ => d.asks hg c.name).bind
            (result f _)))))))))))))

/-- **A class is renamed exactly if each of its mentions is answered**, and then it holds the
answers. -/
theorem ClassFile.outcome_renameM (hg : Agrees f g) {c result : ClassFile} :
    (c.renameM f).outcome = .ok result ↔
      (∀ q ∈ c.mentions, (f q).outcome = .ok (g q)) ∧ result = c.renamed g :=
  (c.asks hg).outcome hg

/-- Answers on which two functions agree; everything else is refused. -/
def agreed (g g' : Mention → String) (q : Mention) : Traced Mention String :=
  if g q = g' q then pure (g q) else .fail (.alreadyRenamed q.text)

/-- What is made of answers depends only on the answers to what is asked for. -/
theorem Asks.congr {α : Type} {qs : List Mention} {made : (Mention → String) → α}
    {walk : (Mention → Traced Mention String) → Traced Mention α}
    (asks : ∀ f g, Agrees f g → Asks f qs (made g) (walk f)) {g g' : Mention → String}
    (h : ∀ q ∈ qs, g q = g' q) : made g = made g' := by
  have agrees : Agrees (agreed g g') g := by
    intro q text found
    unfold agreed at found
    split at found
    · exact Except.ok.inj found
    · cases found
  have agrees' : Agrees (agreed g g') g' := by
    intro q text found
    rw [← agrees q text found]
    unfold agreed at found
    split at found
    · next same => exact same.symm
    · cases found
  have answered : ∀ q ∈ qs, (agreed g g' q).outcome = .ok (g q) := by
    intro q hq
    rw [agreed, if_pos (h q hq), Traced.outcome_pure]
  have walked := ((asks _ g agrees).outcome agrees).2 ⟨answered, rfl⟩
  exact (((asks _ g' agrees').outcome agrees').1 walked).2

/-- A class becomes the same under answers that agree on what it mentions. -/
theorem ClassFile.renamed_congr {g g' : Mention → String} {c : ClassFile}
    (h : ∀ q ∈ c.mentions, g q = g' q) : c.renamed g = c.renamed g' :=
  Asks.congr (fun _ _ hg => c.asks hg) h

end Pseudonym
