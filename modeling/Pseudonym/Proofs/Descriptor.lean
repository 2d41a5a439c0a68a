import Mathlib.Data.List.Basic
import Pseudonym.Proofs.Asking
import Pseudonym.Proofs.Outcome
import Pseudonym.Descriptor.Renaming

/-!
# Descriptors are read to the end and renamed in place

A scanner that succeeds leaves what it did not read: the text in front of it is the type that it
found, written again (`append_of_scanField`). So a reader that accepts a descriptor has read all of
it, and renaming in a descriptor is renaming in the type that it spells,

    rename f d  is answered  ↔  d spells a type, and f answers each class that the type names,

where the answer spells the type with the answers in place (`outcome_renameType`,
`outcome_renameMethod`).
-/

namespace Pseudonym

open Descriptor Text

/-! ### What is read -/

/-- Whether the class that stands behind the brackets has a legal name, if there is one. -/
def ElementType.IsLegal : ElementType → Prop
  | primitive _ => True
  | object name => ∀ c ∈ name.toList, isIllegalInName c = false

def TypeDescriptor.IsLegal : TypeDescriptor → Prop
  | void => True
  | value t => t.element.IsLegal

namespace Descriptor

theorem letter_of_ofLetter? {c : Char} {kind : Primitive} (h : Primitive.ofLetter? c = some kind) :
    kind.letter = c := by
  unfold Primitive.ofLetter? at h
  split at h
  all_goals first
    | (obtain rfl := Option.some.inj h; rfl)
    | exact absurd h (by simp)

/-- What ends a stretch without semicolons is a semicolon. -/
theorem append_of_dropWhile_ne {c : Char} {text after : List Char}
    (h : text.dropWhile (· != ';') = c :: after) :
    text = text.takeWhile (· != ';') ++ ';' :: after := by
  have stop : (c != ';') = false := by
    have head := List.head?_dropWhile_not (· != ';') text
    rw [h] at head
    exact head
  obtain rfl : c = ';' := by simpa using stop
  rw [← h, List.takeWhile_append_dropWhile]

theorem append_of_scanElement {total dimensions : Nat} {text rest : List Char} {e : ElementType}
    (h : scanElement total dimensions text = .ok (e, rest)) :
    text = e.toText ++ rest ∧ e.IsLegal := by
  unfold scanElement at h
  split at h
  · exact absurd h (by simp)
  · next tail =>
    split at h
    · exact absurd h (by simp)
    · next c after stop =>
      simp only at h
      split at h
      · exact absurd h (by simp)
      · split at h
        · exact absurd h (by simp)
        · next legal =>
          obtain ⟨rfl, rfl⟩ := Prod.mk.inj (Except.ok.inj h)
          constructor
          · rw [ElementType.toText, String.toList_ofList, List.cons_append, List.cons_append,
              List.append_assoc, List.singleton_append, ← append_of_dropWhile_ne stop]
          · intro c hc
            rw [String.toList_ofList] at hc
            simpa using List.find?_eq_none.1 legal c hc
  · next c tail _ =>
    split at h
    · next kind found =>
      obtain ⟨rfl, rfl⟩ := Prod.mk.inj (Except.ok.inj h)
      refine ⟨?_, trivial⟩
      rw [ElementType.toText, letter_of_ofLetter? found, List.singleton_append]
    · exact absurd h (by simp)

theorem takeWhile_bracket (text : List Char) :
    text.takeWhile (· == '[') = List.replicate (text.takeWhile (· == '[')).length '[' := by
  rw [List.eq_replicate_iff]
  exact ⟨rfl, fun c hc => by simpa using List.all_eq_true.1 List.all_takeWhile c hc⟩

theorem append_of_scanField {total : Nat} {text rest : List Char} {t : FieldType}
    (h : scanField total text = .ok (t, rest)) :
    text = t.toText ++ rest ∧ t.element.IsLegal := by
  obtain ⟨⟨element, after⟩, scanned, done⟩ := bind_eq_ok_iff.1 h
  obtain ⟨rfl, rfl⟩ := Prod.mk.inj (pure_eq_ok_iff.1 done)
  obtain ⟨written, legal⟩ := append_of_scanElement scanned
  refine ⟨?_, legal⟩
  rw [FieldType.toText, ← takeWhile_bracket, List.append_assoc, ← written,
    List.takeWhile_append_dropWhile]

theorem append_of_scanType {total : Nat} {text rest : List Char} {t : TypeDescriptor}
    (h : scanType total text = .ok (t, rest)) : text = t.toText ++ rest ∧ t.IsLegal := by
  unfold scanType at h
  split at h
  · obtain ⟨rfl, rfl⟩ := Prod.mk.inj (Except.ok.inj h)
    exact ⟨rfl, trivial⟩
  · obtain ⟨⟨type, after⟩, scanned, done⟩ := bind_eq_ok_iff.1 h
    obtain ⟨rfl, rfl⟩ := Prod.mk.inj (pure_eq_ok_iff.1 done)
    exact append_of_scanField scanned

theorem toText_of_scanLast {total : Nat} {text : List Char} {t : TypeDescriptor}
    (h : scanLast total text = .ok t) : text = t.toText ∧ t.IsLegal := by
  obtain ⟨⟨type, rest⟩, scanned, done⟩ := bind_eq_ok_iff.1 h
  dsimp only at done
  split at done
  · next last =>
    obtain rfl := pure_eq_ok_iff.1 done
    obtain ⟨written, legal⟩ := append_of_scanType scanned
    rw [List.isEmpty_iff.1 last, List.append_nil] at written
    exact ⟨written, legal⟩
  · exact absurd done (by simp)

theorem append_of_scanParameters {total : Nat} {text : List Char} {result : TypeDescriptor}
    (h : (scanParameters total text).ending = .ok result) :
    text = (scanParameters total text).parameters.flatMap FieldType.toText ++
      ')' :: result.toText := by
  induction hn : text.length using Nat.strongRecOn generalizing text with
  | _ n ih =>
    rw [scanParameters.eq_def] at h ⊢
    split at h
    · exact absurd h (by simp)
    · next rest => rw [← (toText_of_scanLast h).1]; rfl
    · next c rest _ =>
      split at h
      · exact absurd h (by simp)
      · next type after scanned =>
        have shorter := length_scanField scanned
        have behind := ih after.length (by omega) h rfl
        simp only [List.flatMap_cons, List.append_assoc, ← behind]
        exact (append_of_scanField scanned).1

/-- **A method descriptor that is accepted is read to the end.** -/
theorem toText_of_scanMethod {text : List Char} {result : TypeDescriptor}
    (h : (scanMethod text).ending = .ok result) :
    text = (MethodDescriptor.mk (scanMethod text).parameters result).toText := by
  unfold scanMethod at h ⊢
  split at h
  · next rest =>
    rw [MethodDescriptor.toText, List.cons_append, ← append_of_scanParameters h]
  · exact absurd h (by simp)

theorem located_eq_ok_iff {α : Type} {descriptor : String} {a : α}
    {x : Except DescriptorFault α} : located descriptor x = .ok a ↔ x = .ok a := by
  cases x with
  | ok b => simp [located]
  | error fault => simp [located]

/-- **A type descriptor that is accepted is read to the end.** -/
theorem toText_of_parse {d : String} {t : TypeDescriptor} (h : TypeDescriptor.parse d = .ok t) :
    d.toList = t.toText ∧ t.IsLegal :=
  toText_of_scanLast (located_eq_ok_iff.1 h)

/-- The descriptor of a class is its name between `L` and `;`, and the name is a legal one. -/
theorem toList_of_internalName {d name : String} (h : internalName d = .ok name) :
    TypeDescriptor.parse d = .ok (.value ⟨0, .object name⟩) ∧
      d.toList = 'L' :: name.toList ++ [';'] ∧
      ∀ c ∈ name.toList, isIllegalInName c = false := by
  obtain ⟨t, parsed, found⟩ := bind_eq_ok_iff.1 h
  have shape : t = .value ⟨0, .object name⟩ := by
    split at found
    · next name' hn =>
      obtain rfl := Except.ok.inj found
      unfold TypeDescriptor.internalName? at hn
      split at hn
      · rw [Option.some.inj hn]
      · exact absurd hn (by simp)
    · exact absurd found (by simp [throw, throwThe, MonadExceptOf.throw])
  subst shape
  exact ⟨parsed, toText_of_parse parsed⟩

end Descriptor

/-! ### Names in a descriptor are part of its text -/

theorem ElementType.name_infix {e : ElementType} :
    ∀ name ∈ e.name?.toList, name.toList <:+: e.toText := by
  intro name h
  cases e with
  | primitive kind => exact absurd h (by simp [name?])
  | object name' =>
    obtain rfl : name = name' := by simpa [name?] using h
    exact ⟨['L'], [';'], rfl⟩

theorem FieldType.name_infix {t : FieldType} :
    ∀ name ∈ t.element.name?.toList, name.toList <:+: t.toText :=
  fun name h => (ElementType.name_infix name h).trans (List.suffix_append _ _).isInfix

theorem TypeDescriptor.name_infix {t : TypeDescriptor} :
    ∀ name ∈ t.elementName?.toList, name.toList <:+: t.toText := by
  cases t with
  | void => exact fun name h => absurd h (by simp [elementName?])
  | value t => exact FieldType.name_infix

theorem MethodDescriptor.name_infix {d : MethodDescriptor} :
    ∀ name ∈ d.names, name.toList <:+: d.toText := by
  intro name h
  rcases List.mem_append.1 h with parameter | result
  · obtain ⟨t, ht, hn⟩ := List.mem_filterMap.1 parameter
    have inside : t.toText <:+: d.parameters.flatMap FieldType.toText := by
      rw [List.flatMap_def]
      exact List.infix_of_mem_flatten (List.mem_map_of_mem ht)
    have around : d.parameters.flatMap FieldType.toText <:+: d.toText :=
      ⟨['('], ')' :: d.result.toText, rfl⟩
    exact ((FieldType.name_infix name (by simp [hn])).trans inside).trans around
  · have around : d.result.toText <:+: d.toText :=
      ⟨'(' :: d.parameters.flatMap FieldType.toText ++ [')'], [], by simp [toText]⟩
    exact (TypeDescriptor.name_infix name result).trans around

/-! ### Names in place -/

section

variable (g : String → String)

def ElementType.renamed : ElementType → ElementType
  | primitive kind => primitive kind
  | object name => object (g name)

def FieldType.renamed (t : FieldType) : FieldType := ⟨t.dimensions, t.element.renamed g⟩

def TypeDescriptor.renamed : TypeDescriptor → TypeDescriptor
  | void => void
  | value t => value (t.renamed g)

/-- A method type with given names in the places of its classes. -/
def MethodDescriptor.renamed (d : MethodDescriptor) : MethodDescriptor :=
  ⟨d.parameters.map (FieldType.renamed g), d.result.renamed g⟩

variable {g}

theorem ElementType.renamed_of_stay {e : ElementType} (h : ∀ name ∈ e.name?.toList, g name = name) :
    e.renamed g = e := by
  cases e with
  | primitive kind => rfl
  | object name => exact congrArg object (h name (by simp [name?]))

theorem FieldType.renamed_of_stay {t : FieldType}
    (h : ∀ name ∈ t.element.name?.toList, g name = name) : t.renamed g = t := by
  rw [renamed, ElementType.renamed_of_stay h]

theorem TypeDescriptor.eq_value_of_elementName? {t : TypeDescriptor} {name : String}
    (h : t.elementName? = some name) : ∃ n, t = .value ⟨n, .object name⟩ := by
  cases t with
  | void => exact absurd h (by simp [elementName?])
  | value t =>
    obtain ⟨n, element⟩ := t
    cases element with
    | primitive kind => exact absurd h (by simp [elementName?, ElementType.name?])
    | object name' => exact ⟨n, by rw [Option.some.inj h]⟩

theorem TypeDescriptor.renamed_of_stay {t : TypeDescriptor}
    (h : ∀ name ∈ t.elementName?.toList, g name = name) : t.renamed g = t := by
  cases t with
  | void => rfl
  | value t => rw [renamed, FieldType.renamed_of_stay h]

theorem MethodDescriptor.renamed_of_stay {d : MethodDescriptor}
    (h : ∀ name ∈ d.names, g name = name) : d.renamed g = d := by
  obtain ⟨parameters, result⟩ := d
  obtain ⟨in_parameters, in_result⟩ := List.forall_mem_append.1 h
  have same : parameters.map (FieldType.renamed g) = parameters.map id := by
    refine List.map_congr_left fun t ht => FieldType.renamed_of_stay fun name hn => ?_
    exact in_parameters name (List.mem_filterMap.2 ⟨t, ht, Option.mem_toList.1 hn⟩)
  rw [renamed, TypeDescriptor.renamed_of_stay in_result, same, List.map_id]

end

/-! ### What is asked -/

section

open Asks Traced

variable {ω : Type} {f : String → Traced ω String} {g : String → String}

theorem ElementType.asks (hg : Agrees f g) (e : ElementType) :
    Asks f e.name?.toList (e.renamed g) (e.renameM f) := by
  cases e with
  | primitive kind => exact result f _
  | object name => exact (ask hg name).map object

theorem FieldType.asks (hg : Agrees f g) (t : FieldType) :
    Asks f t.element.name?.toList (t.renamed g) (t.renameM f) :=
  (t.element.asks hg).map _

theorem TypeDescriptor.asks (hg : Agrees f g) (t : TypeDescriptor) :
    Asks f t.elementName?.toList (t.renamed g) (t.renameM f) := by
  cases t with
  | void => exact result f _
  | value t => exact (t.asks hg).map value

namespace Descriptor

/-- Renaming in a type descriptor asks for its class, and answers nothing if there is none. -/
theorem asks_answerType (hg : Agrees f g) {d : String} {t : TypeDescriptor}
    (parsed : TypeDescriptor.parse d = .ok t) :
    Asks f t.elementName?.toList (t.elementName?.map fun _ => String.ofList (t.renamed g).toText)
      (renameType f d) := by
  rw [renameType, parsed, ← List.append_nil (Option.toList _)]
  exact (result f t).bind ((t.asks hg).bind (result f _))

theorem asks_renameType (hg : Agrees f g) {d : String} {t : TypeDescriptor}
    (parsed : TypeDescriptor.parse d = .ok t) :
    Asks f t.elementName?.toList (String.ofList (t.renamed g).toText)
      ((·.getD d) <$> renameType f d) := by
  have answer : (t.elementName?.map fun _ => String.ofList (t.renamed g).toText).getD d =
      String.ofList (t.renamed g).toText := by
    cases named : t.elementName? with
    | none =>
      rw [TypeDescriptor.renamed_of_stay (by simp [named]), ← (toText_of_parse parsed).1,
        String.ofList_toList]
      rfl
    | some name => rfl
  exact answer ▸ (asks_answerType hg parsed).map (·.getD d)

/-- **Renaming in a type descriptor is renaming in the type.** -/
theorem outcome_renameType (hg : Agrees f g) {d s : String} :
    ((·.getD d) <$> renameType f d).outcome = .ok s ↔
      ∃ t, TypeDescriptor.parse d = .ok t ∧
        (∀ name ∈ t.elementName?.toList, (f name).outcome = .ok (g name)) ∧
          s = String.ofList (t.renamed g).toText := by
  constructor
  · intro h
    obtain ⟨found, walked, -⟩ := outcome_map_eq_ok_iff.1 h
    obtain ⟨t, parsed, -⟩ := outcome_bind_eq_ok_iff.1 walked
    exact ⟨t, parsed, ((asks_renameType hg parsed).outcome hg).1 h⟩
  · rintro ⟨t, parsed, answered⟩
    exact ((asks_renameType hg parsed).outcome hg).2 answered

/-- Renaming in a method descriptor asks for its classes, and answers nothing if there are none. -/
theorem asks_answerMethod (hg : Agrees f g) {d : String} {t : MethodDescriptor}
    (parameters : (scanMethod d.toList).parameters = t.parameters)
    (read : (scanMethod d.toList).ending = .ok t.result) :
    Asks f t.names (if t.names.isEmpty then none else some (String.ofList (t.renamed g).toText))
      (renameMethod f d) := by
  have walk : Asks f (t.parameters.flatMap (·.element.name?.toList) ++
      (t.result.elementName?.toList ++ []))
      (if t.names.isEmpty then none else some (String.ofList (t.renamed g).toText))
      (renameMethod f d) := by
    rw [renameMethod, parameters, read]
    refine (mapM fun p _ => FieldType.asks hg p).bind
      ((result f t.result).bind ((t.result.asks hg).bind ?_))
    rw [← apply_ite pure]
    exact result f _
  rwa [List.append_nil, ← List.filterMap_eq_flatMap_toList] at walk

theorem asks_renameMethod (hg : Agrees f g) {d : String} {t : MethodDescriptor}
    (parameters : (scanMethod d.toList).parameters = t.parameters)
    (read : (scanMethod d.toList).ending = .ok t.result) :
    Asks f t.names (String.ofList (t.renamed g).toText) ((·.getD d) <$> renameMethod f d) := by
  have answer : (if t.names.isEmpty then none else some (String.ofList (t.renamed g).toText)).getD
      d = String.ofList (t.renamed g).toText := by
    by_cases nameless : t.names = []
    · have written := toText_of_scanMethod read
      rw [parameters] at written
      rw [MethodDescriptor.renamed_of_stay (by simp [nameless]), ← written, String.ofList_toList,
        nameless]
      rfl
    · rw [if_neg (by simpa using nameless), Option.getD_some]
  exact answer ▸ (asks_answerMethod hg parameters read).map (·.getD d)

/-- **Renaming in a method descriptor is renaming in the method type.** -/
theorem outcome_renameMethod (hg : Agrees f g) {d s : String} :
    ((·.getD d) <$> renameMethod f d).outcome = .ok s ↔
      ∃ t : MethodDescriptor, (scanMethod d.toList).parameters = t.parameters ∧
        (scanMethod d.toList).ending = .ok t.result ∧
          (∀ name ∈ t.names, (f name).outcome = .ok (g name)) ∧
            s = String.ofList (t.renamed g).toText := by
  constructor
  · intro h
    obtain ⟨found, walked, -⟩ := outcome_map_eq_ok_iff.1 h
    obtain ⟨_, _, walked⟩ := outcome_bind_eq_ok_iff.1 walked
    obtain ⟨result, read, -⟩ := outcome_bind_eq_ok_iff.1 walked
    have read : (scanMethod d.toList).ending = .ok result := located_eq_ok_iff.1 read
    exact ⟨⟨_, result⟩, rfl, read, ((asks_renameMethod hg rfl read).outcome hg).1 h⟩
  · rintro ⟨t, parameters, read, answered⟩
    exact ((asks_renameMethod hg parameters read).outcome hg).2 answered

end Descriptor

end

end Pseudonym
