import Pseudonym.Mapping.Table
import Pseudonym.Proofs.Renamer
import Pseudonym.Proofs.Signature

/-!
# What renaming fails with

A renaming fails because a descriptor or a signature is malformed, or because the mapping refuses a
name. Nothing else can go wrong, and nothing is caught on the way, so what is said of these failures
holds of all that come out (`FailsOnly`),

    mapping.FailsOnly P  →  FailsOnly P (r.remap c),

for every `P` that malformed descriptors have.
-/

namespace Pseudonym

/-- Whether an outcome, if it is a failure, has a property. -/
def FailsOnly (P : Error → Prop) {α : Type} (x : Except Error α) : Prop := ∀ e, x = .error e → P e

section

variable {P : Error → Prop} {α β : Type} {x : Except Error α}

theorem FailsOnly.of_ok {a : α} (h : x = .ok a) : FailsOnly P x := by
  rintro e rfl
  cases h

theorem FailsOnly.error {e : Error} (h : P e) : FailsOnly P (.error e : Except Error α) := by
  rintro _ ⟨⟩
  exact h

theorem FailsOnly.bind {k : α → Except Error β} (hx : FailsOnly P x)
    (hk : ∀ a, x = .ok a → FailsOnly P (k a)) : FailsOnly P (x >>= k) := by
  cases x with
  | error e => exact .error (hx e rfl)
  | ok a => exact hk a rfl

theorem FailsOnly.map (hx : FailsOnly P x) (f : α → β) : FailsOnly P (f <$> x) := by
  cases x with
  | error e => exact .error (hx e rfl)
  | ok a => exact .of_ok rfl

theorem Asks.failsOnly {κ ω : Type} {f : κ → Traced ω String} {qs : List κ} {a : α}
    {x : Traced ω α} (hx : Asks f qs a x) (h : ∀ q ∈ qs, FailsOnly P (f q).outcome) :
    FailsOnly P x.outcome := by
  intro e failed
  obtain ⟨q, hq, failed⟩ := exists_of_askAll_error (hx.outcome_eq_error_iff.1 failed)
  exact h q hq e failed

end

/-! ### Descriptors and signatures -/

section

variable {P : Error → Prop} (malformed : ∀ d fault, P (.malformedDescriptor d fault))

namespace Descriptor

include malformed

theorem failsOnly_located {α : Type} (d : String) (x : Except DescriptorFault α) :
    FailsOnly P (located d x) := by
  cases x with
  | error fault => exact .error (malformed d fault)
  | ok a => exact .of_ok rfl

theorem failsOnly_internalName (d : String) : FailsOnly P (internalName d) := by
  refine (failsOnly_located malformed d _).bind fun t _ => ?_
  split
  · exact .of_ok rfl
  · exact .error (malformed d _)

variable {ω : Type} {f : String → Traced ω String} {g : String → String} (hg : Agrees f g)
  (hf : ∀ name, FailsOnly P (f name).outcome)
include hg hf

theorem failsOnly_renameType (d : String) : FailsOnly P (renameType f d).outcome := by
  rw [renameType, Traced.outcome_bind]
  refine (failsOnly_located malformed d _).bind fun t _ => ?_
  rw [Traced.outcome_bind]
  exact ((t.asks hg).failsOnly fun name _ => hf name).bind fun _ _ => .of_ok rfl

theorem failsOnly_renameMethod (d : String) : FailsOnly P (renameMethod f d).outcome := by
  rw [renameMethod, Traced.outcome_bind]
  have parameters :=
    Asks.mapM fun p (_ : p ∈ (scanMethod d.toList).parameters) => FieldType.asks hg p
  refine (parameters.failsOnly fun name _ => hf name).bind fun renamed _ => ?_
  rw [Traced.outcome_bind]
  refine (failsOnly_located malformed d _).bind fun t _ => ?_
  rw [Traced.outcome_bind]
  refine ((t.asks hg).failsOnly fun name _ => hf name).bind fun _ _ => ?_
  split
  · exact .of_ok rfl
  · exact .of_ok rfl

end Descriptor

theorem Signature.failsOnly_rename (malformed : ∀ d fault, P (.malformedDescriptor d fault))
    {ω : Type} {f : String → Traced ω String} {g : String → String} (hg : Agrees f g)
    (hf : ∀ name, FailsOnly P (f name).outcome) (signature : String) :
    FailsOnly P (rename f signature).outcome := by
  rw [rename, Traced.outcome_bind]
  have pieces := asks_renamePieces hg (scan signature.toList).pieces []
  refine (pieces.failsOnly fun name _ => hf name).bind fun text _ => ?_
  split
  · exact .error (malformed _ _)
  · exact .of_ok rfl

end

/-! ### Mentions and classes -/

/-- Whether a mapping refuses symbols only for reasons that have a property. -/
structure Mapping.FailsOnly (P : Error → Prop) (mapping : Mapping) : Prop where
  className (name : String) : Pseudonym.FailsOnly P (mapping.className name)
  fieldName (owner name d : String) : Pseudonym.FailsOnly P (mapping.fieldName owner name d)
  methodName (owner name d : String) : Pseudonym.FailsOnly P (mapping.methodName owner name d)
  variableName (owner methodName methodDescriptor name d : String) (index : UInt16) :
    Pseudonym.FailsOnly P (mapping.variableName owner methodName methodDescriptor name d index)

theorem MappingTable.failsOnly_mapping (t : MappingTable) (P : Error → Prop) :
    t.mapping.FailsOnly P where
  className _ := .of_ok rfl
  fieldName _ _ _ := .of_ok rfl
  methodName _ _ _ := .of_ok rfl
  variableName _ _ _ _ _ _ := .of_ok rfl

namespace Renamer

variable {r : Renamer} {P : Error → Prop}

theorem failsOnly_replace {name : String} {found : Except Error (Option String)}
    (h : FailsOnly P found) : FailsOnly P (replace name found).outcome := by
  rw [outcome_replace]
  exact h.map _

section

variable (malformed : ∀ d fault, P (.malformedDescriptor d fault)) (hr : r.mapping.FailsOnly P)
include malformed hr

theorem failsOnly_descriptor (d : String) : FailsOnly P (r.descriptor d).outcome := by
  have classes (name : String) : FailsOnly P (r.className name).outcome :=
    failsOnly_replace (hr.className name)
  unfold descriptor Descriptor.rename
  split
  · exact (Descriptor.failsOnly_renameMethod malformed r.agrees_className classes d).map _
  · exact (Descriptor.failsOnly_renameType malformed r.agrees_className classes d).map _

/-- **A mention is refused because a descriptor is malformed or because the mapping refuses.** -/
theorem failsOnly_rename (q : Mention) : FailsOnly P (r.rename q).outcome := by
  have classes (name : String) : FailsOnly P (r.className name).outcome :=
    failsOnly_replace (hr.className name)
  cases q with
  | «class» name => exact classes name
  | type name =>
    rw [rename]
    split
    · exact failsOnly_descriptor malformed hr name
    · exact classes name
  | descriptor d => exact failsOnly_descriptor malformed hr d
  | methodDescriptor d =>
    exact (Descriptor.failsOnly_renameMethod malformed r.agrees_className classes d).map _
  | signature s => exact Signature.failsOnly_rename malformed r.agrees_className classes s
  | field => exact failsOnly_replace (hr.fieldName _ _ _)
  | method | component => exact failsOnly_replace (hr.methodName _ _ _)
  | «attribute» d name =>
    rw [rename, Traced.outcome_bind]
    refine (Descriptor.failsOnly_internalName malformed d).bind fun interface _ => ?_
    split
    · exact failsOnly_replace (hr.methodName _ _ _)
    · exact .of_ok rfl
  | enumConstant d name =>
    rw [rename, Traced.outcome_bind]
    exact (Descriptor.failsOnly_internalName malformed d).bind fun owner _ =>
      failsOnly_replace (hr.fieldName _ _ _)
  | «variable» => exact failsOnly_replace (hr.variableName _ _ _ _ _ _)
  | callSite name d bootstrap arguments =>
    have target : FailsOnly P (lambdaTarget? d bootstrap arguments) := by
      unfold lambdaTarget?
      split
      · refine (Descriptor.failsOnly_located malformed d _).bind fun callSite _ => ?_
        split
        · exact .of_ok rfl
        · exact .of_ok rfl
      · exact .of_ok rfl
    rw [rename, Traced.outcome_bind]
    refine target.bind fun found _ => ?_
    split
    · exact failsOnly_replace (hr.methodName _ _ _)
    · exact .of_ok rfl
  | package | «module» => exact .of_ok rfl

/-- **And so is a class.** -/
theorem failsOnly_remap (c : ClassFile) : FailsOnly P (r.remap c) :=
  ((c.asks r.agrees_answer).failsOnly fun q _ => failsOnly_rename malformed hr q).bind
    fun _ _ => .of_ok rfl

end

end Renamer

end Pseudonym
