import Pseudonym.Class.Constant

/-!
# Annotations

An annotation names its interface by a descriptor and gives values to attributes; a value may hold
further annotations and lists of values.
-/

namespace Pseudonym

mutual

/-- The value of an annotation attribute. -/
inductive AnnotationValue where
  /-- A primitive constant or a text. -/
  | const (constant : Constant)
  /-- An enum constant, by the descriptor of its class and its name. -/
  | enum (descriptor value : String)
  /-- A class literal, by its type descriptor. -/
  | type (descriptor : String)
  /-- An annotation inside an annotation. -/
  | nested (use : AnnotationUse)
  /-- A list of values. -/
  | array (items : List AnnotationValue)

structure AnnotationUse where
  /-- The descriptor of the annotation interface. -/
  descriptor : String
  /-- Whether the annotation is retained at run time. -/
  visible : Bool
  /-- The attributes that have a value, by name. -/
  values : List (String × AnnotationValue)

end

namespace AnnotationUse

/-- A visible annotation without values. -/
def ofDescriptor (descriptor : String) : AnnotationUse := ⟨descriptor, true, []⟩

/-- The annotation with one more attribute. -/
def push (a : AnnotationUse) (name : String) (value : AnnotationValue) : AnnotationUse :=
  { a with values := a.values ++ [(name, value)] }

end AnnotationUse

mutual

/-- Whether two values are equal. -/
def AnnotationValue.beq : AnnotationValue → AnnotationValue → Bool
  | .const a, .const b => a == b
  | .enum d v, .enum d' v' => d == d' && v == v'
  | .type d, .type d' => d == d'
  | .nested a, .nested b => a.beq b
  | .array as, .array bs => AnnotationValue.beqList as bs
  | _, _ => false

/-- Whether two lists of values are equal. -/
def AnnotationValue.beqList : List AnnotationValue → List AnnotationValue → Bool
  | [], [] => true
  | a :: as, b :: bs => a.beq b && AnnotationValue.beqList as bs
  | _, _ => false

/-- Whether two annotations are equal. -/
def AnnotationUse.beq : AnnotationUse → AnnotationUse → Bool
  | ⟨d, v, as⟩, ⟨d', v', bs⟩ => d == d' && v == v' && AnnotationUse.beqValues as bs

/-- Whether two lists of attributes are equal. -/
def AnnotationUse.beqValues :
    List (String × AnnotationValue) → List (String × AnnotationValue) → Bool
  | [], [] => true
  | (n, a) :: as, (n', b) :: bs => n == n' && a.beq b && AnnotationUse.beqValues as bs
  | _, _ => false

end

mutual

theorem AnnotationValue.beq_iff : ∀ (a b : AnnotationValue), a.beq b = true ↔ a = b
  | .const _, b | .enum _ _, b | .type _, b => by cases b <;> simp [AnnotationValue.beq]
  | .nested a, b => by cases b <;> simp [AnnotationValue.beq, AnnotationUse.beq_iff a]
  | .array as, b => by
    cases b <;> simp [AnnotationValue.beq, AnnotationValue.beqList_iff as]

theorem AnnotationValue.beqList_iff :
    ∀ (as bs : List AnnotationValue), AnnotationValue.beqList as bs = true ↔ as = bs
  | [], bs => by cases bs <;> simp [AnnotationValue.beqList]
  | a :: as, bs => by
    cases bs <;> simp [AnnotationValue.beqList, AnnotationValue.beq_iff a,
      AnnotationValue.beqList_iff as]

theorem AnnotationUse.beq_iff : ∀ (a b : AnnotationUse), a.beq b = true ↔ a = b
  | ⟨_, _, as⟩, ⟨_, _, bs⟩ => by
    simp [AnnotationUse.beq, AnnotationUse.beqValues_iff as, and_assoc]

theorem AnnotationUse.beqValues_iff :
    ∀ (as bs : List (String × AnnotationValue)), AnnotationUse.beqValues as bs = true ↔ as = bs
  | [], bs => by cases bs <;> simp [AnnotationUse.beqValues]
  | (_, a) :: as, bs => by
    cases bs with
    | nil => simp [AnnotationUse.beqValues]
    | cons b bs =>
      obtain ⟨_, b⟩ := b
      simp [AnnotationUse.beqValues, AnnotationValue.beq_iff a,
        AnnotationUse.beqValues_iff as]

end

instance : DecidableEq AnnotationValue :=
  fun _ _ => decidable_of_iff _ (AnnotationValue.beq_iff _ _)

instance : DecidableEq AnnotationUse := fun _ _ => decidable_of_iff _ (AnnotationUse.beq_iff _ _)

end Pseudonym
