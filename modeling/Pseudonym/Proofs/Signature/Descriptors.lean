import Pseudonym.Proofs.Descriptor.Renaming
import Pseudonym.Proofs.Signature.Reads

/-!
# Descriptors are signatures

The text of a method descriptor is a signature too, and so is the text of a descriptor that names a
class or an array. The two readers have nothing in common: one looks for the semicolon behind a name
and keeps offsets, the other goes from character to character with a stack. Still renaming does the
same to such a text, whichever way it is read,

    Signature.rename f d = (·.getD d) <$> Descriptor.rename f d.

The reader of signatures is followed type by type. A `Stretch` is a part of a text that leads it
from one state to another, whatever stands behind, with the classes that it names and with what is
written for it under new names. Stretches can be laid end to end (`Stretch.append`), and a
descriptor is made of stretches of one character and of names.
-/

namespace Pseudonym.Signature

open Descriptor Text

/-- From `s` a text leads to `next`, whatever stands behind it. It names `names`, and `written g` is
written for it if `g` gives the new names. -/
def Stretch (s next : State) (text : List Char) (names : List String)
    (written : (String → String) → List Char) : Prop :=
  ∀ rest pieces, Reads next rest pieces → ∃ pieces', Reads s (text ++ rest) pieces' ∧
    pieceNames pieces' = names ++ pieceNames pieces ∧
    ∀ g around, renamedPieces g around pieces' = written g ++ renamedPieces g around pieces

namespace Stretch

variable {s next last : State} {text text' : List Char} {names names' : List String}
  {written written' : (String → String) → List Char}

theorem nil (s : State) : Stretch s s [] [] fun _ => [] :=
  fun _ pieces h => ⟨pieces, h, rfl, fun _ _ => rfl⟩

/-- Stretches are laid end to end. -/
theorem append (h : Stretch s next text names written)
    (h' : Stretch next last text' names' written') :
    Stretch s last (text ++ text') (names ++ names') fun g => written g ++ written' g := by
  intro rest pieces read
  obtain ⟨pieces', read', named', wrote'⟩ := h' rest pieces read
  obtain ⟨pieces'', read'', named'', wrote''⟩ := h _ pieces' read'
  refine ⟨pieces'', ?_, ?_, fun g around => ?_⟩
  · rwa [List.append_assoc]
  · rw [named'', named', List.append_assoc]
  · rw [wrote'', wrote', List.append_assoc]

theorem cons {c : Char} (h : Stretch s next [c] [] fun _ => [c])
    (h' : Stretch next last text names written) :
    Stretch s last (c :: text) names fun g => c :: written g := h.append h'

/-- A character that stays. -/
theorem char {c : Char} (outside : ∀ outer reversed, s.mode ≠ .segment outer reversed)
    (around : next.around = s.around) (stepped : ∀ place, step s c place = .ok (next, [.char c])) :
    Stretch s next [c] [] fun _ => [c] :=
  fun _ pieces read => ⟨.char c :: pieces, .char outside stepped around read, rfl, fun _ _ => rfl⟩

/-- A class type without type arguments, behind its `L`. -/
theorem name (s : State) {name : String} (h : IsClassName name) :
    Stretch (s.enter (.segment none [])) s.endType (name.toList ++ [';']) [name]
      fun g => (g name).toList ++ [';'] := by
  have letters : ∀ c ∈ name.toList, endsName c = false := by
    intro c hc
    rw [← Bool.not_eq_true]
    exact fun ends => h.notMem (isIllegalInName_of_endsName ends) hc
  intro rest pieces read
  have behind : Reads ⟨s.part, s.enclosing, .segment none []⟩ (name.toList ++ ';' :: rest)
      (segmentPiece none name.toList :: stopPiece ';' :: pieces) :=
    .name h.nonempty letters rfl read
  refine ⟨segmentPiece none name.toList :: .close :: pieces, ?_, ?_, fun g around => ?_⟩
  · rw [List.append_assoc]
    exact behind
  · rw [pieceNames_segmentPiece, nestedName, String.ofList_toList]
    rfl
  · rw [segmentPiece, nestedName, String.ofList_toList, renamedPieces, List.append_assoc]
    rfl

end Stretch

/-! ### Types -/

/-- A state that takes a character as the first one of a type. -/
structure Takes (s : State) (c : Char) : Prop where
  outside : ∀ outer reversed, s.mode ≠ .segment outer reversed
  around : s.around = s.enclosing
  stepped : ∀ place, step s c place = stepType s c place

theorem takes_type (s : State) (c : Char) : Takes (s.enter .type) c :=
  ⟨by simp [State.enter], rfl, fun _ => rfl⟩

section

open Stretch

variable {s : State}

/-- A character with which a longer type starts. -/
theorem Takes.opens {c : Char} {mode : Mode} (takes : Takes s c) (fresh : mode.current = [])
    (kept : ∀ place, stepType s c place = keep (s.enter mode) c) :
    Stretch s (s.enter mode) [c] [] fun _ => [c] := by
  refine char takes.outside ?_ fun place => (takes.stepped place).trans (kept place)
  rw [takes.around, State.around, State.enter, fresh, List.nil_append]

/-- A letter that is a type. -/
theorem stretch_letter {c : Char} (takes : Takes s c)
    (letter : c = 'V' ∨ (Primitive.ofLetter? c).isSome = true) :
    Stretch s s.endType [c] [] fun _ => [c] := by
  refine char takes.outside ((endType_spec s).1.trans takes.around.symm) fun place => ?_
  have alone : (c == 'V' || (Primitive.ofLetter? c).isSome) = true := by simpa using letter
  rw [takes.stepped, stepType, alone]
  rfl

theorem stretch_elementType {e : ElementType} (possible : ∀ name ∈ e.name?.toList, IsClassName name)
    (takes : ∀ c ∈ e.toText.head?, Takes s c) :
    Stretch s s.endType e.toText e.name?.toList fun g => (e.renamed g).toText := by
  cases e with
  | primitive kind => exact stretch_letter (takes _ rfl) (.inr (by cases kind <;> rfl))
  | object name =>
    exact ((takes 'L' rfl).opens rfl fun _ => rfl).cons
      (Stretch.name s (possible name (List.mem_singleton.2 rfl)))

theorem stretch_fieldType {t : FieldType}
    (possible : ∀ name ∈ t.element.name?.toList, IsClassName name)
    (takes : ∀ c ∈ t.toText.head?, Takes s c) :
    Stretch s s.endType t.toText t.element.name?.toList fun g => (t.renamed g).toText := by
  obtain ⟨dimensions, element⟩ := t
  induction dimensions generalizing s with
  | zero => exact stretch_elementType possible takes
  | succ dimensions ih =>
    have behind := ih (s := s.enter .type) possible fun c _ => takes_type s c
    rw [endType_enter] at behind
    exact ((takes '[' rfl).opens rfl fun _ => rfl).cons behind

theorem stretch_typeDescriptor {t : TypeDescriptor}
    (possible : ∀ name ∈ t.elementName?.toList, IsClassName name)
    (takes : ∀ c ∈ t.toText.head?, Takes s c) :
    Stretch s s.endType t.toText t.elementName?.toList fun g => (t.renamed g).toText := by
  cases t with
  | void => exact stretch_letter (takes 'V' rfl) (.inl rfl)
  | value t => exact stretch_fieldType possible takes

/-! ### Descriptors -/

/-- Between the parameters of a method. -/
def betweenParameters : State := ⟨.parameters, [], .next⟩

/-- Before the result of a method. -/
def beforeResult : State := ⟨.result, [], .type⟩

theorem takes_betweenParameters {c : Char} (h : c ≠ ')') : Takes betweenParameters c := by
  refine ⟨by simp [betweenParameters], rfl, fun place => ?_⟩
  show stepNext betweenParameters c place = stepType betweenParameters c place
  simp only [stepNext, betweenParameters]

theorem stretch_parameters {ts : List FieldType}
    (possible : ∀ name ∈ ts.filterMap (·.element.name?), IsClassName name) :
    Stretch betweenParameters betweenParameters (ts.flatMap FieldType.toText)
      (ts.filterMap (·.element.name?)) fun g =>
        (ts.map (FieldType.renamed g)).flatMap FieldType.toText := by
  rw [List.filterMap_eq_flatMap_toList] at possible ⊢
  induction ts with
  | nil => exact nil _
  | cons t ts ih =>
    rw [List.flatMap_cons, List.forall_mem_append] at possible
    refine (stretch_fieldType possible.1 ?_).append (ih possible.2)
    obtain ⟨c, tail, written, other⟩ := t.toText_eq_cons
    rw [written]
    intro first hf
    obtain rfl := Option.some.inj hf
    refine takes_betweenParameters ?_
    rintro rfl
    exact other (by decide)

/-- The text of a method type is a stretch with which a signature may end. -/
theorem stretch_methodDescriptor {t : MethodDescriptor}
    (possible : ∀ name ∈ t.names, IsClassName name) :
    Stretch .initial beforeResult.endType t.toText t.names fun g => (t.renamed g).toText := by
  rw [MethodDescriptor.names, List.forall_mem_append] at possible
  have opens : Stretch .initial betweenParameters ['('] [] fun _ => ['('] :=
    char (by simp [State.initial]) rfl fun _ => rfl
  have closes : Stretch betweenParameters beforeResult [')'] [] fun _ => [')'] :=
    char (by simp [betweenParameters]) rfl fun _ => rfl
  have result := stretch_typeDescriptor possible.2 fun c _ => takes_type beforeResult c
  exact opens.cons ((stretch_parameters possible.1).append (closes.cons result))

end

variable {ω : Type} {f : String → Traced ω String} {g : String → String}

/-- A stretch that is a whole signature says what is asked and what is written. -/
theorem Stretch.asks (hg : Agrees f g) {d : String} {last : State} {text : List Char}
    {names : List String} {written : (String → String) → List Char}
    (h : Stretch .initial last text names written) (may : last.faultAtEnd = none)
    (spelled : d.toList = text) : Asks f names (String.ofList (written g)) (rename f d) := by
  obtain ⟨pieces, read, named, wrote⟩ := h [] [] (.done may)
  rw [List.append_nil, ← spelled] at read
  have scanned : scan d.toList = ⟨pieces, none⟩ := read.scanFrom_eq 0
  have accepted : (scan d.toList).fault = none := by rw [scanned]
  have asked := asks_rename hg accepted
  rwa [scanned, named, pieceNames, List.append_nil, wrote, renamedPieces, List.append_nil] at asked

end Pseudonym.Signature

namespace Pseudonym

open Descriptor Signature

/-- What spells a class or an array starts with `L` or `[`. -/
theorem TypeDescriptor.head_of_isPrimitive {t : TypeDescriptor} (h : t.isPrimitive = false) :
    ∀ c ∈ t.toText.head?, c = 'L' ∨ c = '[' := by
  intro c hc
  obtain _ | ⟨_ | dimensions, kind | name⟩ := t
  · cases h
  · cases h
  · exact .inl (Option.some.inj hc).symm
  · exact .inr (Option.some.inj hc).symm
  · exact .inr (Option.some.inj hc).symm

/-- With such a character a signature may start. -/
theorem Signature.takes_initial {c : Char} (h : c = 'L' ∨ c = '[') : Takes .initial c := by
  refine ⟨by simp [State.initial], rfl, fun place => ?_⟩
  rcases h with rfl | rfl
  · rfl
  · rfl

/-- **A descriptor is renamed in the same way whether it is read as a descriptor or as a
signature**, if it spells a method type, an array or a class: the names go to the renaming in the
same order, and what comes back is the same text or the same failure. -/
theorem signature_rename_eq_descriptor_rename {ω : Type} (f : String → Traced ω String) {d : String}
    (h : (∃ t, MethodDescriptor.parse d = .ok t) ∨
      ∃ t, TypeDescriptor.parse d = .ok t ∧ t.isPrimitive = false) :
    Signature.rename f d = (·.getD d) <$> Descriptor.rename f d := by
  have agrees := agrees_answers f
  rcases h with ⟨t, parsed⟩ | ⟨t, parsed, reference⟩
  · obtain ⟨possible, rfl⟩ := MethodDescriptor.parse_eq_ok_iff_toText.1 parsed
    have read := MethodDescriptor.parse_eq_ok_iff.1 parsed
    have method : Descriptor.rename f (String.ofList t.toText) =
        renameMethod f (String.ofList t.toText) := by
      rw [Descriptor.rename, String.toList_ofList]
      rfl
    rw [method]
    exact ((stretch_methodDescriptor possible).asks agrees rfl String.toList_ofList).unique
      (asks_renameMethod agrees read.1 read.2)
  · obtain ⟨possible, rfl⟩ := TypeDescriptor.parse_eq_ok_iff_toText.1 parsed
    have starts := TypeDescriptor.head_of_isPrimitive reference
    have type : Descriptor.rename f (String.ofList t.toText) =
        renameType f (String.ofList t.toText) := by
      rw [Descriptor.rename, String.toList_ofList, if_neg]
      intro opens
      exact absurd (starts '(' opens) (by decide)
    rw [type]
    exact ((stretch_typeDescriptor possible fun c hc => takes_initial (starts c hc)).asks agrees rfl
      String.toList_ofList).unique (asks_renameType agrees parsed)

/-- A method with arrays of both kinds, one name of which is not answered, and an array without a
class. -/
theorem signature_rename_eq_descriptor_rename_arrays :
    let f := logged fun name =>
      if name = "c/D" then .error (.malformedDescriptor name .notAnObject) else .ok ("x/" ++ name)
    let method := "([[ILä/B;[Lc/D;)[J"
    let array := "[[I"
    (∃ t, MethodDescriptor.parse method = .ok t) ∧
      (∃ t, TypeDescriptor.parse array = .ok t ∧ t.isPrimitive = false) ∧
      Signature.rename f method = (·.getD method) <$> Descriptor.rename f method ∧
      (Signature.rename f method).log = ["ä/B", "c/D"] ∧
      (Signature.rename f method).outcome =
        .error (.malformedDescriptor "c/D" .notAnObject) ∧
      Signature.rename f array = (·.getD array) <$> Descriptor.rename f array ∧
      (Signature.rename f array).outcome = .ok array := by
  intro f method array
  have parsed : ∃ t, MethodDescriptor.parse method = .ok t :=
    ⟨⟨[⟨2, .primitive .int⟩, ⟨0, .object "ä/B"⟩, ⟨1, .object "c/D"⟩],
      .value ⟨1, .primitive .long⟩⟩,
      MethodDescriptor.parse_eq_ok_iff_toText.2 ⟨by decide, by decide⟩⟩
  have parsed' : ∃ t, TypeDescriptor.parse array = .ok t ∧ t.isPrimitive = false :=
    ⟨.value ⟨2, .primitive .int⟩, TypeDescriptor.parse_eq_ok_iff_toText.2 ⟨by decide, by decide⟩,
      rfl⟩
  exact ⟨parsed, parsed', signature_rename_eq_descriptor_rename f (.inl parsed), by decide,
    by decide, signature_rename_eq_descriptor_rename f (.inr parsed'), by decide⟩

end Pseudonym
