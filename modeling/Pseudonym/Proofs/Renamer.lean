import Pseudonym.Proofs.Class.Walk
import Pseudonym.Proofs.Descriptor
import Pseudonym.Remap

/-!
# A renamed class holds answers

`answer r q` is what a renamer puts in the place of a mention. A class that is renamed holds the
answers, and each of its mentions was answered (`of_remap`),

    r.remap c = .ok o  →  o.result = c.renamed r.answer.

Everything that is proved about renamed classes comes from what is said here about single mentions:
a name is looked up or kept (`outcome_replace`), and a descriptor gets answers for the classes that
it names (`outcome_typeDescriptor`, `outcome_methodDescriptor`).
-/

namespace Pseudonym

open Descriptor

/-- What a call site implements is a method of the class that its type returns. -/
theorem of_lambdaTarget? {d interface target : String} {bootstrap : Handle}
    {arguments : List Constant}
    (h : lambdaTarget? d bootstrap arguments = .ok (some (interface, target))) :
    ∃ t, MethodDescriptor.parse d = .ok t ∧ interface ∈ t.names := by
  have element {t : TypeDescriptor} {name : String} (h : t.internalName? = some name) :
      t.elementName? = some name := by
    unfold TypeDescriptor.internalName? at h
    split at h
    · exact h
    · cases h
  unfold lambdaTarget? at h
  split at h
  · obtain ⟨t, parsed, h⟩ := bind_eq_ok_iff.1 h
    refine ⟨t, parsed, ?_⟩
    split at h
    · next returned _ =>
      obtain ⟨rfl, rfl⟩ := Prod.mk.inj (Option.some.inj (pure_eq_ok_iff.1 h))
      exact List.mem_append_right _ (by rw [element returned]; simp)
    · cases h
  · cases h

namespace Renamer

variable (r : Renamer)

/-- What stands for a mention after renaming. A mention that is refused keeps its name. -/
def answer (q : Mention) : String := (r.rename q).outcome.toOption.getD q.text

theorem agrees_answer : Agrees r.rename r.answer := by
  intro q text h
  rw [answer, h]
  rfl

theorem agrees_className : Agrees r.className (r.answer <| .class ·) :=
  fun name => r.agrees_answer (.class name)

variable {r}

/-- **A renamed class holds the answers to its mentions.** -/
theorem of_remap {c : ClassFile} {o : Remapped} (h : r.remap c = .ok o) :
    (∀ q ∈ c.mentions, (r.rename q).outcome = .ok (r.answer q)) ∧
      o.result = c.renamed r.answer := by
  obtain ⟨result, walked, done⟩ := bind_eq_ok_iff.1 h
  obtain rfl := pure_eq_ok_iff.1 done
  exact (ClassFile.outcome_renameM r.agrees_answer).1 walked

/-- A class counts as modified as soon as one of its mentions is replaced. -/
theorem isModified_of_remap {c : ClassFile} {o : Remapped} (h : r.remap c = .ok o) {q : Mention}
    (hq : q ∈ c.mentions) (hl : (r.rename q).log ≠ []) : o.isModified = true := by
  have answered := (of_remap h).1
  obtain ⟨result, walked, done⟩ := bind_eq_ok_iff.1 h
  obtain rfl := pure_eq_ok_iff.1 done
  have log := (c.asks r.agrees_answer).log fun q hq => ⟨_, answered q hq⟩
  rw [Bool.not_eq_true', List.isEmpty_eq_false_iff, log]
  intro empty
  exact hl (List.flatMap_eq_nil_iff.1 empty q hq)

/-! ### Names -/

/-- A name becomes what was found for it, or else stays. -/
theorem outcome_replace (old : String) (found : Except Error (Option String)) :
    (replace old found).outcome = (·.getD old) <$> found := by
  rw [replace, Traced.outcome_bind, Traced.outcome_lift]
  cases found with
  | error e => rfl
  | ok found =>
    cases found with
    | none => rfl
    | some new =>
      by_cases same : new = old
      · simp [bind, Except.bind, same]
      · simp only [bind, Except.bind, if_neg same]
        rfl

theorem log_replace {old new : String} (h : new ≠ old) :
    (replace old (.ok (some new))).log = [⟨old, new⟩] := by
  have step : replace old (.ok (some new)) =
      if new = old then pure old else Traced.note ⟨old, new⟩ >>= fun _ => pure new := by
    rw [replace]
    rfl
  rw [step, if_neg h]
  rfl

/-! ### Descriptors -/

theorem outcome_typeDescriptor {d s : String} (hd : d.toList.head? ≠ some '(') :
    (r.rename (.descriptor d)).outcome = .ok s ↔
      ∃ t, TypeDescriptor.parse d = .ok t ∧
        (∀ name ∈ t.elementName?.toList,
          (r.className name).outcome = .ok (r.answer (.class name))) ∧
          s = String.ofList (t.renamed (r.answer <| .class ·)).toText := by
  rw [rename, descriptor, Descriptor.rename, if_neg hd]
  exact outcome_renameType r.agrees_className

theorem outcome_methodDescriptor {d s : String} :
    (r.rename (.methodDescriptor d)).outcome = .ok s ↔
      ∃ t : MethodDescriptor, (scanMethod d.toList).parameters = t.parameters ∧
        (scanMethod d.toList).ending = .ok t.result ∧
          (∀ name ∈ t.names, (r.className name).outcome = .ok (r.answer (.class name))) ∧
            s = String.ofList (t.renamed (r.answer <| .class ·)).toText :=
  outcome_renameMethod r.agrees_className

/-- Both places of a method descriptor get the same answer. -/
theorem rename_descriptor_of_head {d : String} (hd : d.toList.head? = some '(') :
    r.rename (.descriptor d) = r.rename (.methodDescriptor d) := by
  rw [rename, descriptor, Descriptor.rename, if_pos hd]
  rfl

theorem head_of_methodDescriptor {d s : String}
    (h : (r.rename (.methodDescriptor d)).outcome = .ok s) : d.toList.head? = some '(' := by
  obtain ⟨t, _, read, _⟩ := outcome_methodDescriptor.1 h
  rw [toText_of_scanMethod read]
  rfl

end Renamer

end Pseudonym
