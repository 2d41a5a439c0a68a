import Pseudonym.Proofs.Document.Class

/-!
# No document holds an infinite `double`

A number that is too large for a `double` is refused by the reader, so whatever is read has finite
`double` constants only (`HasFiniteDoubles`). A `float` is different: the number is read as a
`double` and then narrowed, and that may give an infinite one.

What is read stays with what was read: the bounds on `double` constants are collected along the
decoders (`Gives`), from the constants up to the class.
-/

namespace Pseudonym

/-- Whether all `double` constants among some constants are finite. -/
def HasFiniteDoubles (cs : List Constant) : Prop :=
  ∀ bits, Constant.double bits ∈ cs → Binary.double.IsFinite bits.toNat

/-- Whether all `float` constants among some constants are finite. -/
def HasFiniteSingles (cs : List Constant) : Prop :=
  ∀ bits, Constant.float bits ∈ cs → Binary.single.IsFinite bits.toNat

theorem allFinite_iff {cs : List Constant} :
    AllFinite cs ↔ HasFiniteSingles cs ∧ HasFiniteDoubles cs := by
  constructor
  · exact fun h => ⟨fun bits hb => h _ hb, fun bits hb => h _ hb⟩
  · rintro ⟨singles, doubles⟩ c hc
    cases c with
    | float bits => exact singles bits hc
    | double bits => exact doubles bits hc
    | _ => trivial

theorem hasFiniteDoubles_append {cs ds : List Constant} (hc : HasFiniteDoubles cs)
    (hd : HasFiniteDoubles ds) : HasFiniteDoubles (cs ++ ds) :=
  fun bits hb => (List.mem_append.1 hb).elim (hc bits) (hd bits)

theorem hasFiniteDoubles_flatMap {α : Type} {floating : α → List Constant} {xs : List α}
    (h : ∀ x ∈ xs, HasFiniteDoubles (floating x)) : HasFiniteDoubles (xs.flatMap floating) :=
  fun bits hb => have ⟨x, hx, hb⟩ := List.mem_flatMap.1 hb; h x hx bits hb

theorem hasFiniteDoubles_nil : HasFiniteDoubles [] := fun _ hb => nomatch hb

namespace Document

open Json Decoder

namespace Decoder

variable {α β : Type} {item : Decoder α} {P : α → Prop}

/-- Whether all that a decoder gives has a property. -/
def Gives (item : Decoder α) (P : α → Prop) : Prop := ∀ p v x, item p v = some x → P x

theorem Gives.list (h : Gives item P) : Gives (list item) fun xs => ∀ x ∈ xs, P x := by
  intro p v xs read x hx
  obtain ⟨q, -, reads⟩ := exists_of_list read
  obtain ⟨v, read⟩ := reads x hx
  exact h q v x read

theorem Gives.pair {second : Decoder β} {Q : β → Prop} (h : Gives second Q) :
    Gives (pair item second) fun entry => Q entry.2 := by
  intro p v entry read
  unfold Decoder.pair at read
  split at read
  · obtain ⟨q, -, read⟩ := Option.bind_eq_some_iff.1 read
    obtain ⟨a, -, read⟩ := Option.bind_eq_some_iff.1 read
    obtain ⟨b, found, read⟩ := Option.bind_eq_some_iff.1 read
    obtain rfl := Option.some.inj read
    exact h q _ b found
  · cases read

section

variable {r : Members} {name : String}

theorem Gives.get (h : Gives item P) {x : α} (read : r.get name item = some x) : P x := by
  obtain ⟨v, -, read⟩ := Option.bind_eq_some_iff.1 read
  exact h _ v x read

theorem Gives.get? (h : Gives item P) {o : Option α} (read : r.get? name item = some o) :
    ∀ x ∈ o.toList, P x := by
  intro x hx
  obtain rfl := Option.mem_toList.1 hx
  unfold Members.get? Members.getD at read
  split at read
  · unfold Decoder.optional at read
    split at read
    · cases read
    · obtain ⟨y, found, same⟩ := Option.map_eq_some_iff.1 read
      obtain rfl := Option.some.inj same
      exact h _ _ y found
  · cases read

theorem Gives.getList (h : Gives item P) {xs : List α} (read : r.getList name item = some xs) :
    ∀ x ∈ xs, P x := by
  unfold Members.getList Members.getD at read
  split at read
  · exact h.list _ _ xs read
  · obtain rfl := Option.some.inj read
    simp

end

theorem Gives.record {names : List String} {hasDefaults : Bool} {content : Members → Option α}
    (h : ∀ r x, content r = some x → P x) : Gives (record names hasDefaults content) P := by
  intro p v x read
  obtain ⟨r, -, read⟩ := exists_of_record read
  exact h r x read

end Decoder

/-! ### Constants and annotations -/

theorem finite_of_double {p : Position} {v : Value} {bits : UInt64}
    (read : double p v = some bits) : Binary.double.IsFinite bits.toNat := by
  unfold double at read
  split at read
  · exact Number.isFinite_of_toDouble? read
  · cases read

theorem gives_constantBelow (height : Nat) :
    Gives (constantBelow height) fun c => HasFiniteDoubles c.floating := by
  induction height with
  | zero => rintro p v c ⟨⟩
  | succ height ih =>
    intro p v c read
    obtain ⟨q, name, content, -, read⟩ := exists_of_variant read
    split at read
    case h_4 =>
      obtain ⟨bits, found, rfl⟩ := Option.map_eq_some_iff.1 read
      intro bits' hb
      obtain rfl := Constant.double.inj (List.mem_singleton.1 hb)
      exact finite_of_double found
    -- A dynamic constant, whose arguments nest less deep.
    case h_9 =>
      obtain ⟨r, -, read⟩ := exists_of_record read
      obtain ⟨name, -, read⟩ := Option.bind_eq_some_iff.1 read
      obtain ⟨descriptor, -, read⟩ := Option.bind_eq_some_iff.1 read
      obtain ⟨bootstrap, -, read⟩ := Option.bind_eq_some_iff.1 read
      obtain ⟨arguments, arguments_read, read⟩ := Option.bind_eq_some_iff.1 read
      obtain rfl := Option.some.inj read
      rw [Constant.floating, Constant.floatingList_eq_flatMap]
      exact hasFiniteDoubles_flatMap (ih.list.get arguments_read)
    case h_10 => cases read
    all_goals
      obtain ⟨value, -, rfl⟩ := Option.map_eq_some_iff.1 read
      rintro bits' hb
      simp [Constant.floating] at hb

theorem gives_constant : Gives constant fun c => HasFiniteDoubles c.floating :=
  fun p => gives_constantBelow p.levels p

theorem gives_annotationUseOf {value : Decoder AnnotationValue}
    (h : Gives value fun v => HasFiniteDoubles v.floating) :
    Gives (annotationUseOf value) fun a => HasFiniteDoubles a.floating := by
  refine Gives.record fun r a read => ?_
  obtain ⟨descriptor, -, read⟩ := Option.bind_eq_some_iff.1 read
  obtain ⟨visible, -, read⟩ := Option.bind_eq_some_iff.1 read
  obtain ⟨values, values_read, read⟩ := Option.bind_eq_some_iff.1 read
  obtain rfl := Option.some.inj read
  rw [AnnotationUse.floating, AnnotationUse.floatingValues_eq_flatMap]
  exact hasFiniteDoubles_flatMap ((Gives.pair h).getList values_read)

theorem gives_annotationValueBelow (height : Nat) :
    Gives (annotationValueBelow height) fun v => HasFiniteDoubles v.floating := by
  induction height with
  | zero => rintro p w v ⟨⟩
  | succ height ih =>
    intro p w v read
    obtain ⟨q, name, content, -, read⟩ := exists_of_variant read
    split at read
    · obtain ⟨c, found, rfl⟩ := Option.map_eq_some_iff.1 read
      exact gives_constant q content c found
    · obtain ⟨r, -, read⟩ := exists_of_record read
      obtain ⟨descriptor, -, read⟩ := Option.bind_eq_some_iff.1 read
      obtain ⟨value, -, read⟩ := Option.bind_eq_some_iff.1 read
      obtain rfl := Option.some.inj read
      exact hasFiniteDoubles_nil
    · obtain ⟨descriptor, -, rfl⟩ := Option.map_eq_some_iff.1 read
      exact hasFiniteDoubles_nil
    · obtain ⟨a, found, rfl⟩ := Option.map_eq_some_iff.1 read
      exact gives_annotationUseOf ih q content a found
    · obtain ⟨items, found, rfl⟩ := Option.map_eq_some_iff.1 read
      rw [AnnotationValue.floating, AnnotationValue.floatingList_eq_flatMap]
      exact hasFiniteDoubles_flatMap (ih.list q content items found)
    · cases read

theorem gives_annotationValue : Gives annotationValue fun v => HasFiniteDoubles v.floating :=
  fun p => gives_annotationValueBelow p.levels p

theorem gives_annotationUse : Gives annotationUse fun a => HasFiniteDoubles a.floating :=
  gives_annotationUseOf gives_annotationValue

/-! ### Members and classes -/

theorem gives_instruction : Gives instruction fun i => HasFiniteDoubles i.floating := by
  intro p v i read
  obtain ⟨kind, r, -, read⟩ := exists_of_tagged read
  cases i with
  | invokeDynamic name descriptor bootstrap arguments =>
    have arguments_read := (get_of_invokeDynamic read).2
    exact hasFiniteDoubles_flatMap (gives_constant.list.get arguments_read)
  | ldc value =>
    exact Gives.get (P := fun c : Constant => HasFiniteDoubles c.floating) gives_constant
      (get_of_ldc read)
  | _ => exact hasFiniteDoubles_nil

theorem gives_field : Gives field fun c => HasFiniteDoubles c.floating := by
  intro p v c read
  obtain ⟨r, -, value_read, annotations_read⟩ := exists_of_field read
  exact hasFiniteDoubles_append (hasFiniteDoubles_flatMap (gives_constant.get? value_read))
    (hasFiniteDoubles_flatMap (gives_annotationUse.getList annotations_read))

theorem gives_recordComponent : Gives recordComponent fun c => HasFiniteDoubles c.floating := by
  intro p v c read
  obtain ⟨r, -, annotations_read⟩ := exists_of_recordComponent read
  exact hasFiniteDoubles_flatMap (gives_annotationUse.getList annotations_read)

theorem gives_method : Gives method fun c => HasFiniteDoubles c.floating := by
  intro p v c read
  obtain ⟨r, -, annotations_read, default_read, instructions_read, -, -⟩ := exists_of_method read
  have annotations_finite :=
    hasFiniteDoubles_flatMap (gives_annotationUse.getList annotations_read)
  have default_finite := hasFiniteDoubles_flatMap (gives_annotationValue.get? default_read)
  have instructions_finite := hasFiniteDoubles_flatMap (gives_instruction.getList instructions_read)
  exact hasFiniteDoubles_append (hasFiniteDoubles_append annotations_finite default_finite)
    instructions_finite

/-- **A class that was read has finite `double` constants only.** -/
theorem gives_classFile : Gives classFile fun c => HasFiniteDoubles c.floating := by
  intro p v c read
  obtain ⟨r, -, -, -, annotations_read, components_read, fields_read, methods_read⟩ := exists_of_classFile read
  have annotations_finite :=
    hasFiniteDoubles_flatMap (gives_annotationUse.getList annotations_read)
  have components_finite :=
    hasFiniteDoubles_flatMap (gives_recordComponent.getList components_read)
  have fields_finite := hasFiniteDoubles_flatMap (gives_field.getList fields_read)
  have methods_finite := hasFiniteDoubles_flatMap (gives_method.getList methods_read)
  exact hasFiniteDoubles_append (hasFiniteDoubles_append
    (hasFiniteDoubles_append annotations_finite components_finite) fields_finite) methods_finite

end Document

end Pseudonym
