import Pseudonym.Proofs.Document.Constant

/-!
# Annotations as documents

Annotations are read again as they are written, but may be written with more levels than they were
read with. A document may leave out the values of an annotation, and then needs no level for them;
the annotation is written with an empty list of values, and that list takes one. So `bareDepths`
counts how deep the annotations without values stand. What holds one on the last level is refused
when it is read again, and nothing else is.
-/

namespace Pseudonym

/-! ### Floating point constants -/

mutual

/-- The floating point constants in an annotation value. -/
def AnnotationValue.floating : AnnotationValue → List Constant
  | .const c => c.floating
  | .nested a => a.floating
  | .array items => AnnotationValue.floatingList items
  | _ => []

/-- The floating point constants in several annotation values. -/
def AnnotationValue.floatingList : List AnnotationValue → List Constant
  | [] => []
  | v :: vs => v.floating ++ AnnotationValue.floatingList vs

/-- The floating point constants in the values of an annotation. -/
def AnnotationUse.floating : AnnotationUse → List Constant
  | ⟨_, _, values⟩ => AnnotationUse.floatingValues values

/-- The floating point constants in the values of attributes. -/
def AnnotationUse.floatingValues : List (String × AnnotationValue) → List Constant
  | [] => []
  | (_, v) :: values => v.floating ++ AnnotationUse.floatingValues values

end

theorem AnnotationValue.floatingList_eq_flatMap (vs : List AnnotationValue) :
    floatingList vs = vs.flatMap floating := by
  induction vs with
  | nil => rfl
  | cons v vs ih => rw [floatingList, ih, List.flatMap_cons]

theorem AnnotationUse.floatingValues_eq_flatMap (values : List (String × AnnotationValue)) :
    floatingValues values = values.flatMap fun entry => entry.2.floating := by
  induction values with
  | nil => rfl
  | cons entry values ih => rw [floatingValues, ih, List.flatMap_cons]

theorem AnnotationValue.allFinite_of_mem_items {items : List AnnotationValue}
    (h : AllFinite (array items).floating) {v : AnnotationValue} (hv : v ∈ items) :
    AllFinite v.floating := by
  rw [floating, floatingList_eq_flatMap] at h
  exact allFinite_flatMap_iff.1 h v hv

theorem AnnotationUse.allFinite_of_mem_values (a : AnnotationUse) (h : AllFinite a.floating)
    {entry : String × AnnotationValue} (hentry : entry ∈ a.values) :
    AllFinite entry.2.floating := by
  cases a
  rw [floating, floatingValues_eq_flatMap] at h
  exact allFinite_flatMap_iff.1 h entry hentry

mutual

/-- What stands for an annotation value once it was written and read. -/
def AnnotationValue.settled : AnnotationValue → AnnotationValue
  | .const c => .const c.settled
  | .enum descriptor value => .enum descriptor value
  | .type descriptor => .type descriptor
  | .nested a => .nested a.settled
  | .array items => .array (AnnotationValue.settledList items)

/-- What stands for several annotation values once they were written and read. -/
def AnnotationValue.settledList : List AnnotationValue → List AnnotationValue
  | [] => []
  | v :: vs => v.settled :: AnnotationValue.settledList vs

/-- What stands for an annotation once it was written and read. -/
def AnnotationUse.settled : AnnotationUse → AnnotationUse
  | ⟨descriptor, visible, values⟩ => ⟨descriptor, visible, AnnotationUse.settledValues values⟩

/-- What stands for the values of attributes once they were written and read. -/
def AnnotationUse.settledValues :
    List (String × AnnotationValue) → List (String × AnnotationValue)
  | [] => []
  | (name, v) :: values => (name, v.settled) :: AnnotationUse.settledValues values

end

theorem AnnotationValue.settledList_eq_map (vs : List AnnotationValue) :
    settledList vs = vs.map settled := by
  induction vs with
  | nil => rfl
  | cons v vs ih => rw [settledList, ih, List.map_cons]

theorem AnnotationUse.settledValues_eq_map (values : List (String × AnnotationValue)) :
    settledValues values = values.map fun entry => (entry.1, entry.2.settled) := by
  induction values with
  | nil => rfl
  | cons entry values ih => rw [settledValues, ih, List.map_cons]

mutual

theorem AnnotationValue.settled_of_plain :
    ∀ {v : AnnotationValue}, v.floating = [] → v.settled = v
  | .const _, h => by rw [AnnotationValue.settled, Constant.settled_of_plain h]
  | .enum _ _, _ | .type _, _ => rfl
  | .nested _, h => by rw [AnnotationValue.settled, AnnotationUse.settled_of_plain h]
  | .array _, h => by rw [AnnotationValue.settled, AnnotationValue.settledList_of_plain h]

theorem AnnotationValue.settledList_of_plain :
    ∀ {vs : List AnnotationValue},
      AnnotationValue.floatingList vs = [] → AnnotationValue.settledList vs = vs
  | [], _ => rfl
  | _ :: _, h =>
    have ⟨first, others⟩ := List.append_eq_nil_iff.1 h
    by rw [AnnotationValue.settledList, AnnotationValue.settled_of_plain first,
      AnnotationValue.settledList_of_plain others]

theorem AnnotationUse.settled_of_plain : ∀ {a : AnnotationUse}, a.floating = [] → a.settled = a
  | ⟨_, _, _⟩, h => by rw [AnnotationUse.settled, AnnotationUse.settledValues_of_plain h]

theorem AnnotationUse.settledValues_of_plain :
    ∀ {values : List (String × AnnotationValue)},
      AnnotationUse.floatingValues values = [] → AnnotationUse.settledValues values = values
  | [], _ => rfl
  | _ :: _, h =>
    have ⟨first, others⟩ := List.append_eq_nil_iff.1 h
    by rw [AnnotationUse.settledValues, AnnotationValue.settled_of_plain first,
      AnnotationUse.settledValues_of_plain others]

end

/-! ### Annotations without values -/

section

open Document (deeper)

mutual

/-- How deep the annotations without values stand in an annotation value, counting the arrays and
objects around each one and its own. -/
def AnnotationValue.bareDepths : AnnotationValue → List Nat
  | .nested a => deeper a.bareDepths
  | .array items => deeper (deeper (AnnotationValue.bareDepthsList items))
  | _ => []

/-- How deep the annotations without values stand in several annotation values. -/
def AnnotationValue.bareDepthsList : List AnnotationValue → List Nat
  | [] => []
  | v :: vs => v.bareDepths ++ AnnotationValue.bareDepthsList vs

/-- How deep the annotations without values stand in an annotation, which may be one itself. -/
def AnnotationUse.bareDepths : AnnotationUse → List Nat
  | ⟨_, _, []⟩ => [1]
  | ⟨_, _, entry :: values⟩ =>
    deeper (deeper (deeper (AnnotationUse.bareDepthsOfValues (entry :: values))))

/-- How deep the annotations without values stand in the values of attributes. -/
def AnnotationUse.bareDepthsOfValues : List (String × AnnotationValue) → List Nat
  | [] => []
  | (_, v) :: values => v.bareDepths ++ AnnotationUse.bareDepthsOfValues values

end

theorem AnnotationValue.bareDepthsList_eq_flatMap (vs : List AnnotationValue) :
    bareDepthsList vs = vs.flatMap bareDepths := by
  induction vs with
  | nil => rfl
  | cons v vs ih => rw [bareDepthsList, ih, List.flatMap_cons]

theorem AnnotationUse.bareDepthsOfValues_eq_flatMap (values : List (String × AnnotationValue)) :
    bareDepthsOfValues values = values.flatMap fun entry => entry.2.bareDepths := by
  induction values with
  | nil => rfl
  | cons entry values ih => rw [bareDepthsOfValues, ih, List.flatMap_cons]

end

namespace Document

open Json Decoder

/-! ### Written annotations -/

/-- The value of an attribute as a value. -/
def ofAttribute (entry : String × AnnotationValue) : Value :=
  .array [.text entry.1, ofAnnotationValue entry.2]

theorem ofAnnotationValues_eq_map (vs : List AnnotationValue) :
    ofAnnotationValues vs = vs.map ofAnnotationValue := by
  induction vs with
  | nil => rfl
  | cons v vs ih => rw [ofAnnotationValues, ih, List.map_cons]

theorem ofAttributes_eq_map (values : List (String × AnnotationValue)) :
    ofAttributes values = values.map ofAttribute := by
  induction values with
  | nil => rfl
  | cons entry values ih =>
    rw [ofAttributes, ih, List.map_cons]
    rfl

theorem ofAnnotationUse_eq (a : AnnotationUse) :
    ofAnnotationUse a = .record [("descriptor", .text a.descriptor), ("visible", .bool a.visible),
      ("values", .array (a.values.map ofAttribute))] := by
  cases a
  rw [ofAnnotationUse, ofAttributes_eq_map]

mutual

theorem isWritten_ofAnnotationValue : ∀ v : AnnotationValue, (ofAnnotationValue v).IsWritten
  | .const c => by simpa [ofAnnotationValue] using isWritten_ofConstant c
  | .enum _ _ | .type _ => by simp [ofAnnotationValue]
  | .nested a => by simpa [ofAnnotationValue] using isWritten_ofAnnotationUse a
  | .array items => by
    simpa [ofAnnotationValue, Value.areWritten_iff] using areWritten_ofAnnotationValues items

theorem areWritten_ofAnnotationValues :
    ∀ vs : List AnnotationValue, Value.AreWritten (ofAnnotationValues vs)
  | [] => trivial
  | v :: vs => ⟨isWritten_ofAnnotationValue v, areWritten_ofAnnotationValues vs⟩

theorem isWritten_ofAnnotationUse : ∀ a : AnnotationUse, (ofAnnotationUse a).IsWritten
  | ⟨_, _, values⟩ => by
    simpa [ofAnnotationUse, Value.areWritten_iff] using areWritten_ofAttributes values

theorem areWritten_ofAttributes :
    ∀ values : List (String × AnnotationValue), Value.AreWritten (ofAttributes values)
  | [] => trivial
  | (_, v) :: values =>
    ⟨by simpa using isWritten_ofAnnotationValue v, areWritten_ofAttributes values⟩

end

/-! ### Annotations over the decoder of their values -/

section

variable {value : Decoder AnnotationValue} {a : AnnotationUse} {p : Position}
  {entry : String × AnnotationValue}

theorem pair_ofAttribute (sound : isSound p.levels (ofAttribute entry) = true)
    (h : ∀ q : Position, p.levels = q.levels + 1 →
      isSound q.levels (ofAnnotationValue entry.2) = true →
        value q (ofAnnotationValue entry.2) = some entry.2.settled) :
    pair string value p (ofAttribute entry) = some (entry.1, entry.2.settled) := by
  obtain ⟨q, entered, levels, sound⟩ := exists_enter_of_array sound
  show (p.enter?.bind fun q => do
    return (← string q (.text entry.1), ← value q (ofAnnotationValue entry.2))) = _
  rw [entered]
  simp [h q levels (sound _ (by simp))]

/-- An annotation is read again if its values are. -/
theorem annotationUseOf_ofAnnotationUse (sound : isSound p.levels (ofAnnotationUse a) = true)
    (h : ∀ entry ∈ a.values, ∀ q : Position, q.levels < p.levels →
      isSound q.levels (ofAnnotationValue entry.2) = true →
        value q (ofAnnotationValue entry.2) = some entry.2.settled) :
    annotationUseOf value p (ofAnnotationUse a) = some a.settled := by
  rw [ofAnnotationUse_eq] at sound ⊢
  obtain ⟨r, inside, levels, sound⟩ := exists_enter_of_record sound
  simp only [List.forall_mem_cons] at sound
  obtain ⟨q, inner, levels', sound⟩ := exists_enter_of_array sound.2.2.1
  have each : ∀ entry ∈ a.values,
      pair string value q (ofAttribute entry) = some (entry.1, entry.2.settled) :=
    fun entry hentry => pair_ofAttribute (sound _ (List.mem_map_of_mem hentry))
      fun q' levels'' => h entry hentry q' (by omega)
  rw [annotationUseOf, record_record inside (by simp)]
  have values_read : list (pair string value) r (.array (a.values.map ofAttribute)) =
      some (a.values.map fun entry => (entry.1, entry.2.settled)) := list_array inner each
  cases a
  simp [Members.getList, Members.getD, List.lookup_cons, values_read, AnnotationUse.settled,
    AnnotationUse.settledValues_eq_map]

theorem staysSound_ofAttribute
    (h : StaysSound 0 entry.2.bareDepths value ofAnnotationValue entry.2) :
    StaysSound 0 (deeper entry.2.bareDepths) (pair string value) ofAttribute entry := by
  intro p v read _ free
  unfold pair at read
  split at read
  · obtain ⟨q, entered, read⟩ := Option.bind_eq_some_iff.1 read
    obtain ⟨name, -, read⟩ := Option.bind_eq_some_iff.1 read
    obtain ⟨v, found, read⟩ := Option.bind_eq_some_iff.1 read
    obtain rfl := Option.some.inj read
    have levels := (Position.enter?_eq_some_iff.1 entered).1
    rw [levels, succ_mem_deeper] at free
    have sound := h q _ found (Nat.zero_le _) free
    exact isSound_array_iff.2 ⟨_, levels, by simp [sound]⟩
  · cases read

/-- An annotation is written with sound values if they are sound wherever they were read from,
unless it is one without values on the last level. -/
theorem staysSound_annotationUseOf
    (h : ∀ entry ∈ a.values, StaysSound 0 entry.2.bareDepths value ofAnnotationValue entry.2) :
    StaysSound 0 a.bareDepths (annotationUseOf value) ofAnnotationUse a := by
  refine StaysSound.record (ofAnnotationUse_eq a) fun r read _ free => ?_
  obtain ⟨descriptor, -, read⟩ := Option.bind_eq_some_iff.1 read
  obtain ⟨visible, -, read⟩ := Option.bind_eq_some_iff.1 read
  obtain ⟨values, values_read, read⟩ := Option.bind_eq_some_iff.1 read
  obtain rfl := Option.some.inj read
  have values_sound : isSound r.position.levels (.array (values.map ofAttribute)) = true := by
    cases values with
    | nil =>
      have some_level : r.position.levels ≠ 0 := by simpa [AnnotationUse.bareDepths] using free
      exact isSound_array_iff.2 ⟨r.position.levels - 1, by omega, by simp⟩
    | cons first others =>
      rw [AnnotationUse.bareDepths, succ_mem_deeper, AnnotationUse.bareDepthsOfValues_eq_flatMap,
        deeper_flatMap] at free
      unfold Members.getList Members.getD at values_read
      split at values_read
      · exact StaysSound.list (fun entry hentry => staysSound_ofAttribute (h entry hentry))
          (Nat.zero_le _) _ _ values_read (Nat.le_refl _) free
      · cases values_read
  simp [values_sound]

/-- An annotation without values on the last level is refused, and so is what holds one. -/
theorem refuses_ofAttribute
    (h : Refuses entry.2.bareDepths value ofAnnotationValue entry.2) :
    Refuses (deeper entry.2.bareDepths) (pair string value) ofAttribute entry := by
  intro p hp
  obtain ⟨q, entered, hq⟩ := exists_enter_of_mem_deeper hp
  have refused := h q hq
  show (p.enter?.bind fun q => do
    return (← string q (.text entry.1), ← value q (ofAnnotationValue entry.2))) = none
  rw [entered]
  simp [refused]

theorem refuses_annotationUseOf
    (h : ∀ entry ∈ a.values, Refuses entry.2.bareDepths value ofAnnotationValue entry.2) :
    Refuses a.bareDepths (annotationUseOf value) ofAnnotationUse a := by
  obtain ⟨descriptor, visible, values⟩ := a
  cases values with
  | nil =>
    have refused : Refuses (deeper [0]) (annotationUseOf value) ofAnnotationUse
        ⟨descriptor, visible, []⟩ := by
      refine Refuses.record (ofAnnotationUse_eq _) (by simp) fun q hq => ?_
      have stuck : q.enter? = none := by
        rw [Position.enter?, List.mem_singleton.1 hq]
      simp [Members.getList, Members.getD, List.lookup_cons, list, stuck]
    exact refused
  | cons first others =>
    rw [AnnotationUse.bareDepths, AnnotationUse.bareDepthsOfValues_eq_flatMap]
    refine Refuses.record (ofAnnotationUse_eq _) (by simp) fun q hq => ?_
    rw [deeper_flatMap] at hq
    have refused := Refuses.list (fun entry hentry => refuses_ofAttribute (h entry hentry)) q hq
    simp only [List.map_cons] at refused
    simp [Members.getList, Members.getD, List.lookup_cons, refused]

end

/-! ### Annotation values and annotations -/

theorem annotationValueBelow_ofAnnotationValue {height : Nat} {v : AnnotationValue}
    (h : AllFinite v.floating) {p : Position} (enough : p.levels ≤ height)
    (sound : isSound p.levels (ofAnnotationValue v) = true) :
    annotationValueBelow height p (ofAnnotationValue v) = some v.settled := by
  induction height generalizing v p with
  | zero =>
    -- A variant takes a level, and there is none.
    cases v with
    | _ =>
      obtain ⟨q, -, levels, -⟩ := exists_enter_of_tag sound
      omega
  | succ height ih =>
    cases v with
    | const c =>
      obtain ⟨q, entered, -, sound⟩ := exists_enter_of_tag sound
      rw [annotationValueBelow, ofAnnotationValue, variant_tag entered]
      simp [Decoder.map, AnnotationValue.settled, rereadsAs_constant h q sound]
    | enum descriptor value =>
      obtain ⟨q, entered, -, sound⟩ := exists_enter_of_tag sound
      obtain ⟨r, inside, -⟩ := exists_enter_of_record sound
      rw [annotationValueBelow, ofAnnotationValue, variant_tag entered]
      show record _ _ _ q _ = _
      rw [record_record inside (by simp)]
      simp [Members.get, List.lookup_cons, AnnotationValue.settled]
    | type descriptor =>
      obtain ⟨q, entered, -⟩ := exists_enter_of_tag sound
      rw [annotationValueBelow, ofAnnotationValue, variant_tag entered]
      rfl
    | nested a =>
      obtain ⟨q, entered, levels, sound⟩ := exists_enter_of_tag sound
      have read := annotationUseOf_ofAnnotationUse sound fun entry hentry r levels' sound =>
        ih (a.allFinite_of_mem_values h hentry) (by omega) sound
      rw [annotationValueBelow, ofAnnotationValue, variant_tag entered]
      simp [Decoder.map, AnnotationValue.settled, read]
    | array items =>
      obtain ⟨q, entered, levels, sound⟩ := exists_enter_of_tag sound
      rw [ofAnnotationValues_eq_map] at sound
      obtain ⟨r, inner, levels', sound⟩ := exists_enter_of_array sound
      have each : ∀ v ∈ items,
          annotationValueBelow height r (ofAnnotationValue v) = some v.settled :=
        fun v hv => ih (AnnotationValue.allFinite_of_mem_items h hv) (by omega)
          (sound _ (List.mem_map_of_mem hv))
      rw [annotationValueBelow, ofAnnotationValue, variant_tag entered, ofAnnotationValues_eq_map]
      simp [Decoder.map, AnnotationValue.settled, AnnotationValue.settledList_eq_map,
        list_array inner each]

theorem staysSound_annotationValueBelow {height : Nat} (v : AnnotationValue) :
    StaysSound 0 v.bareDepths (annotationValueBelow height) ofAnnotationValue v := by
  induction height generalizing v with
  | zero => rintro p w ⟨⟩
  | succ height ih =>
    intro p w read _ free
    obtain ⟨q, name, content, levels, read⟩ := exists_of_variant read
    rw [levels] at free ⊢
    split at read
    · obtain ⟨c, found, rfl⟩ := Option.map_eq_some_iff.1 read
      have sound := staysSound_constant c q content found (Nat.zero_le _) (by simp)
      exact isSound_tag_iff.2 ⟨_, rfl, sound⟩
    · obtain ⟨r, inside, read⟩ := exists_of_record read
      obtain ⟨descriptor, -, read⟩ := Option.bind_eq_some_iff.1 read
      obtain ⟨value, -, read⟩ := Option.bind_eq_some_iff.1 read
      obtain rfl := Option.some.inj read
      exact isSound_tag_iff.2 ⟨_, rfl, isSound_record_iff.2 ⟨_, inside, by simp⟩⟩
    · obtain ⟨descriptor, -, rfl⟩ := Option.map_eq_some_iff.1 read
      exact isSound_tag_iff.2 ⟨_, rfl, isSound_text _⟩
    · obtain ⟨a, found, rfl⟩ := Option.map_eq_some_iff.1 read
      rw [AnnotationValue.bareDepths, succ_mem_deeper] at free
      have sound := staysSound_annotationUseOf (a := a) fun entry _ => ih entry.2
      exact isSound_tag_iff.2 ⟨_, rfl, sound q content found (Nat.zero_le _) free⟩
    · obtain ⟨items, found, rfl⟩ := Option.map_eq_some_iff.1 read
      rw [AnnotationValue.bareDepths, succ_mem_deeper,
        AnnotationValue.bareDepthsList_eq_flatMap] at free
      have sound :=
        StaysSound.list (fun v _ => ih v) (Nat.zero_le _) q content found (Nat.le_refl _) free
      rw [ofAnnotationValue, ofAnnotationValues_eq_map]
      exact isSound_tag_iff.2 ⟨_, rfl, sound⟩
    · cases read

theorem refuses_annotationValueBelow {height : Nat} (v : AnnotationValue) :
    Refuses v.bareDepths (annotationValueBelow height) ofAnnotationValue v := by
  induction height generalizing v with
  | zero => exact fun _ _ => rfl
  | succ height ih =>
    intro p hp
    cases v with
    | nested a =>
      rw [AnnotationValue.bareDepths] at hp
      obtain ⟨q, entered, hq⟩ := exists_enter_of_mem_deeper hp
      have refused := refuses_annotationUseOf (fun entry _ => ih entry.2) q hq
      rw [annotationValueBelow, ofAnnotationValue, variant_tag entered]
      simp [Decoder.map, refused]
    | array items =>
      rw [AnnotationValue.bareDepths, AnnotationValue.bareDepthsList_eq_flatMap] at hp
      obtain ⟨q, entered, hq⟩ := exists_enter_of_mem_deeper hp
      have refused := Refuses.list (fun v _ => ih v) q hq
      rw [annotationValueBelow, ofAnnotationValue, variant_tag entered, ofAnnotationValues_eq_map]
      simp [Decoder.map, refused]
    | _ => cases hp

theorem rereadsAs_annotationValue {v : AnnotationValue} (h : AllFinite v.floating) :
    RereadsAs annotationValue ofAnnotationValue v v.settled :=
  fun _ => annotationValueBelow_ofAnnotationValue h (Nat.le_refl _)

theorem staysSound_annotationValue (v : AnnotationValue) :
    StaysSound 0 v.bareDepths annotationValue ofAnnotationValue v :=
  fun p => staysSound_annotationValueBelow v p

theorem refuses_annotationValue (v : AnnotationValue) :
    Refuses v.bareDepths annotationValue ofAnnotationValue v :=
  fun p => refuses_annotationValueBelow v p

theorem rereadsAs_annotationUse {a : AnnotationUse} (h : AllFinite a.floating) :
    RereadsAs annotationUse ofAnnotationUse a a.settled :=
  fun _ sound => annotationUseOf_ofAnnotationUse sound fun _ hentry _ _ =>
    rereadsAs_annotationValue (a.allFinite_of_mem_values h hentry) _

theorem staysSound_annotationUse (a : AnnotationUse) :
    StaysSound 0 a.bareDepths annotationUse ofAnnotationUse a :=
  staysSound_annotationUseOf fun entry _ => staysSound_annotationValue entry.2

theorem refuses_annotationUse (a : AnnotationUse) :
    Refuses a.bareDepths annotationUse ofAnnotationUse a :=
  refuses_annotationUseOf fun entry _ => refuses_annotationValue entry.2

end Document

end Pseudonym
