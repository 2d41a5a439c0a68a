import Pseudonym.Proofs.Descriptor

/-!
# What is written is read back

`Pseudonym.Proofs.Descriptor` says that a descriptor which is accepted is the type that it spells,
written again. Here is the way back: a type whose classes have possible names is read from its own
text,

    scanField total (t.toText ++ rest) = .ok (t, rest),

with any text behind it, so that parameters can be read one by one. Together the two say that a
descriptor and the type that it spells determine each other. They are what allows names inside a
descriptor to be exchanged: the new text spells the type with the new names, as long as these are
possible names as well (`TypeDescriptor.parse_renamed`, `MethodDescriptor.parse_renamed`).
-/

namespace Pseudonym

open Descriptor Text

/-- A name that a class can have in a descriptor. -/
structure IsClassName (name : String) : Prop where
  nonempty : name.toList ≠ []
  legal : ∀ c ∈ name.toList, isIllegalInName c = false

instance (name : String) : Decidable (IsClassName name) :=
  decidable_of_iff (name.toList ≠ [] ∧ name.toList.all (!isIllegalInName ·) = true)
    ⟨fun h => ⟨h.1, fun c hc => by simpa using List.all_eq_true.1 h.2 c hc⟩,
      fun h => ⟨h.nonempty, List.all_eq_true.2 fun c hc => by simp [h.legal c hc]⟩⟩

theorem IsClassName.notMem {name : String} (h : IsClassName name) {c : Char}
    (illegal : isIllegalInName c = true) : c ∉ name.toList := by
  intro hc
  exact absurd (h.legal c hc) (by simp [illegal])

/-! ### Where a type starts -/

/-- The first character of an element type is none of those that can stand in its place. -/
theorem ElementType.toText_eq_cons (e : ElementType) :
    ∃ c tail, e.toText = c :: tail ∧ c ∉ ['[', 'V', ')', '('] := by
  cases e with
  | primitive kind => exact ⟨kind.letter, [], rfl, by cases kind <;> decide⟩
  | object name => exact ⟨'L', name.toList ++ [';'], rfl, by decide⟩

theorem FieldType.toText_eq_cons (t : FieldType) :
    ∃ c tail, t.toText = c :: tail ∧ c ∉ ['V', ')', '('] := by
  obtain ⟨dimensions, element⟩ := t
  cases dimensions with
  | zero =>
    obtain ⟨c, tail, written, other⟩ := element.toText_eq_cons
    exact ⟨c, tail, written, fun h => other (List.mem_cons_of_mem _ h)⟩
  | succ n => exact ⟨'[', List.replicate n '[' ++ element.toText, rfl, by decide⟩

theorem MethodDescriptor.names_cons (t : FieldType) (ts : List FieldType)
    (result : TypeDescriptor) :
    (MethodDescriptor.mk (t :: ts) result).names =
      t.element.name?.toList ++ (MethodDescriptor.mk ts result).names := by
  simp only [names, List.filterMap_eq_flatMap_toList, List.flatMap_cons, List.append_assoc]

/-! ### Reading what was written -/

namespace Descriptor

theorem scanElement_toText {e : ElementType} (h : ∀ name ∈ e.name?.toList, IsClassName name)
    (total dimensions : Nat) (rest : List Char) :
    scanElement total dimensions (e.toText ++ rest) = .ok (e, rest) := by
  cases e with
  | primitive kind => cases kind <;> rfl
  | object name =>
    have possible : IsClassName name := h name (by simp [ElementType.name?])
    have inside : ∀ c ∈ name.toList, (c != ';') = true := by
      intro c hc
      exact bne_iff_ne.2 fun semicolon => possible.notMem (by decide) (semicolon ▸ hc)
    have after : (name.toList ++ ';' :: rest).dropWhile (· != ';') = ';' :: rest := by
      rw [List.dropWhile_append_of_pos inside]
      rfl
    have before : (name.toList ++ ';' :: rest).takeWhile (· != ';') = name.toList := by
      rw [List.takeWhile_append_of_pos inside]
      exact List.append_nil _
    have legal : name.toList.find? isIllegalInName = none := by
      rw [List.find?_eq_none]
      intro c hc
      simp [possible.legal c hc]
    have text : (ElementType.object name).toText ++ rest = 'L' :: (name.toList ++ ';' :: rest) := by
      simp [ElementType.toText]
    rw [text, scanElement, after]
    simp only [before, legal, String.ofList_toList, List.isEmpty_iff, possible.nonempty, if_false]

theorem scanField_toText {t : FieldType} (h : ∀ name ∈ t.element.name?.toList, IsClassName name)
    (total : Nat) (rest : List Char) : scanField total (t.toText ++ rest) = .ok (t, rest) := by
  obtain ⟨dimensions, element⟩ := t
  obtain ⟨c, tail, written, other⟩ := element.toText_eq_cons
  have brackets : ∀ b ∈ List.replicate dimensions '[', (b == '[') = true := by
    intro b hb
    rw [List.eq_of_mem_replicate hb]
    rfl
  have stop : (c == '[') = false := by
    rw [beq_eq_false_iff_ne]
    rintro rfl
    exact other List.mem_cons_self
  have inside : (FieldType.mk dimensions element).toText ++ rest =
      List.replicate dimensions '[' ++ (element.toText ++ rest) := List.append_assoc ..
  have counted : ((List.replicate dimensions '[' ++ (element.toText ++ rest)).takeWhile
      (· == '[')).length = dimensions := by
    rw [List.takeWhile_append_of_pos brackets, written, List.cons_append,
      List.takeWhile_cons_of_neg (by simp [stop]), List.append_nil, List.length_replicate]
  have behind : (List.replicate dimensions '[' ++ (element.toText ++ rest)).dropWhile (· == '[') =
      element.toText ++ rest := by
    rw [List.dropWhile_append_of_pos brackets, written, List.cons_append,
      List.dropWhile_cons_of_neg (by simp [stop])]
  rw [inside, scanField, counted, behind, scanElement_toText h]
  rfl

theorem scanType_toText {t : TypeDescriptor} (h : ∀ name ∈ t.elementName?.toList, IsClassName name)
    (total : Nat) (rest : List Char) : scanType total (t.toText ++ rest) = .ok (t, rest) := by
  cases t with
  | void => rfl
  | value t =>
    obtain ⟨c, tail, written, other⟩ := t.toText_eq_cons
    have read := scanField_toText (t := t) h total rest
    rw [TypeDescriptor.toText]
    unfold scanType
    split
    · next after same =>
      rw [written, List.cons_append] at same
      obtain ⟨rfl, _⟩ := List.cons.inj same
      exact absurd List.mem_cons_self other
    · rw [read]
      rfl

theorem scanLast_toText {t : TypeDescriptor} (h : ∀ name ∈ t.elementName?.toList, IsClassName name)
    (total : Nat) : scanLast total t.toText = .ok t := by
  have read := scanType_toText h total []
  rw [List.append_nil] at read
  rw [scanLast, read]
  rfl

theorem scanParameters_close (total : Nat) (rest : List Char) :
    scanParameters total (')' :: rest) = ⟨[], scanLast total rest⟩ := by
  rw [scanParameters.eq_def]
  rfl

section

variable {total : Nat} {c : Char} {rest after : List Char} {t : FieldType}
  {fault : DescriptorFault}

theorem scanParameters_of_error (other : c ≠ ')')
    (h : scanField total (c :: rest) = .error fault) :
    scanParameters total (c :: rest) = ⟨[], .error fault⟩ := by
  rw [scanParameters.eq_def]
  split
  · next same => cases same
  · next same => exact absurd (List.cons.inj same).1 other
  · next same =>
    obtain ⟨rfl, rfl⟩ := List.cons.inj same
    split
    · next found =>
      obtain rfl := Except.error.inj (h.symm.trans found)
      rfl
    · next found => cases h.symm.trans found

theorem scanParameters_of_ok (other : c ≠ ')')
    (h : scanField total (c :: rest) = .ok (t, after)) :
    scanParameters total (c :: rest) =
      ⟨t :: (scanParameters total after).parameters, (scanParameters total after).ending⟩ := by
  rw [scanParameters.eq_def]
  split
  · next same => cases same
  · next same => exact absurd (List.cons.inj same).1 other
  · next same =>
    obtain ⟨rfl, rfl⟩ := List.cons.inj same
    split
    · next found => cases h.symm.trans found
    · next found =>
      obtain ⟨rfl, rfl⟩ := Prod.mk.inj (Except.ok.inj (h.symm.trans found))
      rfl

end

/-- Parameters are read from their own texts, and then what stands behind them. -/
theorem scanParameters_append {ts : List FieldType}
    (h : ∀ name ∈ ts.filterMap (·.element.name?), IsClassName name) (total : Nat)
    (rest : List Char) :
    scanParameters total (ts.flatMap FieldType.toText ++ rest) =
      ⟨ts ++ (scanParameters total rest).parameters, (scanParameters total rest).ending⟩ := by
  induction ts with
  | nil => rfl
  | cons t ts ih =>
    rw [List.filterMap_eq_flatMap_toList, List.flatMap_cons, List.forall_mem_append,
      ← List.filterMap_eq_flatMap_toList] at h
    obtain ⟨c, tail, written, other⟩ := t.toText_eq_cons
    have read := scanField_toText h.1 total (ts.flatMap FieldType.toText ++ rest)
    have other' : c ≠ ')' := by
      rintro rfl
      exact other (by simp)
    rw [List.flatMap_cons, List.append_assoc]
    rw [written, List.cons_append] at read ⊢
    rw [scanParameters_of_ok other' read, ih h.2, List.cons_append]

theorem scanParameters_toText {ts : List FieldType} {result : TypeDescriptor}
    (h : ∀ name ∈ (MethodDescriptor.mk ts result).names, IsClassName name) (total : Nat) :
    scanParameters total (ts.flatMap FieldType.toText ++ ')' :: result.toText) =
      ⟨ts, .ok result⟩ := by
  obtain ⟨parameters, last⟩ := List.forall_mem_append.1 h
  rw [scanParameters_append parameters, scanParameters_close, scanLast_toText last, List.append_nil]

theorem scanMethod_toText {d : MethodDescriptor} (h : ∀ name ∈ d.names, IsClassName name) :
    scanMethod d.toText = ⟨d.parameters, .ok d.result⟩ :=
  scanParameters_toText h _

end Descriptor

theorem MethodDescriptor.parse_eq_ok_iff {d : String} {t : MethodDescriptor} :
    MethodDescriptor.parse d = .ok t ↔
      (scanMethod d.toList).parameters = t.parameters ∧
        (scanMethod d.toList).ending = .ok t.result := by
  obtain ⟨parameters, result⟩ := t
  rw [MethodDescriptor.parse, located_eq_ok_iff, MethodDescriptor.ofText]
  cases (scanMethod d.toList).ending with
  | error fault => simp [Except.map]
  | ok found => simp [Except.map]

/-- **A type is read from its own text.** -/
theorem TypeDescriptor.parse_toText {t : TypeDescriptor}
    (h : ∀ name ∈ t.elementName?.toList, IsClassName name) :
    TypeDescriptor.parse (String.ofList t.toText) = .ok t := by
  rw [TypeDescriptor.parse, located_eq_ok_iff, String.toList_ofList]
  exact scanLast_toText h _

/-- **A method type is read from its own text.** -/
theorem MethodDescriptor.parse_toText {t : MethodDescriptor}
    (h : ∀ name ∈ t.names, IsClassName name) :
    MethodDescriptor.parse (String.ofList t.toText) = .ok t := by
  rw [MethodDescriptor.parse_eq_ok_iff, String.toList_ofList, scanMethod_toText h]
  exact ⟨rfl, rfl⟩

/-! ### What was read can be written -/

namespace Descriptor

theorem isClassName_of_scanElement {total dimensions : Nat} {text rest : List Char}
    {e : ElementType} (h : scanElement total dimensions text = .ok (e, rest)) :
    ∀ name ∈ e.name?.toList, IsClassName name := by
  obtain ⟨rfl, legal⟩ := append_of_scanElement h
  intro name hn
  cases e with
  | primitive kind => exact absurd hn (by simp [ElementType.name?])
  | object name' =>
    obtain rfl : name = name' := by simpa [ElementType.name?] using hn
    refine ⟨fun empty => ?_, legal⟩
    rw [ElementType.toText, empty] at h
    exact absurd h (by simp [scanElement])

theorem isClassName_of_scanField {total : Nat} {text rest : List Char} {t : FieldType}
    (h : scanField total text = .ok (t, rest)) :
    ∀ name ∈ t.element.name?.toList, IsClassName name := by
  obtain ⟨⟨element, after⟩, scanned, done⟩ := bind_eq_ok_iff.1 h
  obtain ⟨rfl, rfl⟩ := Prod.mk.inj (pure_eq_ok_iff.1 done)
  exact isClassName_of_scanElement scanned

theorem isClassName_of_scanLast {total : Nat} {text : List Char} {t : TypeDescriptor}
    (h : scanLast total text = .ok t) : ∀ name ∈ t.elementName?.toList, IsClassName name := by
  obtain ⟨⟨type, rest⟩, scanned, done⟩ := bind_eq_ok_iff.1 h
  obtain rfl : type = t := by
    dsimp only at done
    split at done
    · exact pure_eq_ok_iff.1 done
    · exact absurd done (by simp)
  unfold scanType at scanned
  split at scanned
  · obtain ⟨rfl, _⟩ := Prod.mk.inj (Except.ok.inj scanned)
    exact fun name hn => absurd hn (by simp [TypeDescriptor.elementName?])
  · obtain ⟨⟨field, after⟩, found, made⟩ := bind_eq_ok_iff.1 scanned
    obtain ⟨rfl, _⟩ := Prod.mk.inj (pure_eq_ok_iff.1 made)
    exact isClassName_of_scanField found

/-- What was read of the parameters stands in front of what was not. -/
theorem exists_behind_parameters (total : Nat) (text : List Char) :
    ∃ behind, text = (scanParameters total text).parameters.flatMap FieldType.toText ++ behind ∧
      scanParameters total behind = ⟨[], (scanParameters total text).ending⟩ ∧
      ∀ name ∈ (scanParameters total text).parameters.filterMap (·.element.name?),
        IsClassName name := by
  induction hn : text.length using Nat.strongRecOn generalizing text with
  | _ n ih =>
    cases text with
    | nil => exact ⟨[], by rw [scanParameters.eq_def]; simp⟩
    | cons c rest =>
      by_cases close : c = ')'
      · subst close
        exact ⟨')' :: rest, by rw [scanParameters_close]; simp⟩
      · cases found : scanField total (c :: rest) with
        | error fault => exact ⟨c :: rest, by rw [scanParameters_of_error close found]; simp⟩
        | ok result =>
          obtain ⟨t, after⟩ := result
          have shorter := length_scanField found
          obtain ⟨behind, split, stops, possible⟩ := ih after.length (by omega) after rfl
          rw [scanParameters_of_ok close found]
          refine ⟨behind, ?_, stops, ?_⟩
          · rw [List.flatMap_cons, List.append_assoc, ← split]
            exact (append_of_scanField found).1
          · rw [List.filterMap_eq_flatMap_toList, List.flatMap_cons, List.forall_mem_append,
              ← List.filterMap_eq_flatMap_toList]
            exact ⟨isClassName_of_scanField found, possible⟩

theorem scanMethod_cases (text : List Char) :
    (∃ behind, text = '(' :: ((scanMethod text).parameters.flatMap FieldType.toText ++ behind) ∧
      ∀ name ∈ (scanMethod text).parameters.filterMap (·.element.name?), IsClassName name) ∨
      scanMethod text = ⟨[], .error .noParameters⟩ := by
  unfold scanMethod
  split
  · next rest =>
    obtain ⟨behind, split, -, possible⟩ := exists_behind_parameters (byteLength ('(' :: rest)) rest
    exact .inl ⟨behind, congrArg ('(' :: ·) split, possible⟩
  · exact .inr rfl

theorem scanLast_of_scanParameters {total : Nat} {text : List Char} {result : TypeDescriptor}
    (h : scanParameters total text = ⟨[], .ok result⟩) : ∃ rest, scanLast total rest = .ok result := by
  rw [scanParameters.eq_def] at h
  split at h
  · cases h
  · next rest => exact ⟨rest, congrArg MethodScan.ending h⟩
  · split at h
    · cases h
    · cases h

theorem isClassName_of_scanParameters {total : Nat} {text : List Char} {result : TypeDescriptor}
    (h : (scanParameters total text).ending = .ok result) :
    ∀ name ∈ (MethodDescriptor.mk (scanParameters total text).parameters result).names,
      IsClassName name := by
  obtain ⟨behind, -, stops, possible⟩ := exists_behind_parameters total text
  obtain ⟨rest, last⟩ := scanLast_of_scanParameters (stops.trans (by rw [h]))
  exact List.forall_mem_append.2 ⟨possible, isClassName_of_scanLast last⟩

end Descriptor

/-- The class of a type descriptor that is accepted has a possible name. -/
theorem TypeDescriptor.isClassName_of_parse {d : String} {t : TypeDescriptor}
    (h : TypeDescriptor.parse d = .ok t) : ∀ name ∈ t.elementName?.toList, IsClassName name :=
  isClassName_of_scanLast (located_eq_ok_iff.1 h)

/-- The classes of a method descriptor that is accepted have possible names. -/
theorem MethodDescriptor.isClassName_of_parse {d : String} {t : MethodDescriptor}
    (h : MethodDescriptor.parse d = .ok t) : ∀ name ∈ t.names, IsClassName name := by
  obtain ⟨parameters, result⟩ := t
  obtain ⟨rfl, read⟩ := MethodDescriptor.parse_eq_ok_iff.1 h
  unfold scanMethod at read ⊢
  split at read
  · exact isClassName_of_scanParameters read
  · exact absurd read (by simp)

/-- **A type descriptor is accepted exactly if it is the text of a type whose class has a possible
name.** -/
theorem TypeDescriptor.parse_eq_ok_iff_toText {d : String} {t : TypeDescriptor} :
    TypeDescriptor.parse d = .ok t ↔
      (∀ name ∈ t.elementName?.toList, IsClassName name) ∧ d = String.ofList t.toText := by
  constructor
  · intro parsed
    exact ⟨isClassName_of_parse parsed, by rw [← (toText_of_parse parsed).1, String.ofList_toList]⟩
  · rintro ⟨possible, rfl⟩
    exact parse_toText possible

/-- **A method descriptor is accepted exactly if it is the text of a method type whose classes have
possible names.** -/
theorem MethodDescriptor.parse_eq_ok_iff_toText {d : String} {t : MethodDescriptor} :
    MethodDescriptor.parse d = .ok t ↔
      (∀ name ∈ t.names, IsClassName name) ∧ d = String.ofList t.toText := by
  constructor
  · intro parsed
    refine ⟨isClassName_of_parse parsed, ?_⟩
    obtain ⟨parameters, result⟩ := t
    obtain ⟨rfl, read⟩ := parse_eq_ok_iff.1 parsed
    rw [← toText_of_scanMethod read, String.ofList_toList]
  · rintro ⟨possible, rfl⟩
    exact parse_toText possible

/-! ### Other names in place -/

section

variable {g : String → String}

theorem ElementType.name?_renamed (e : ElementType) : (e.renamed g).name? = e.name?.map g := by
  cases e with
  | primitive kind => rfl
  | object name => rfl

theorem TypeDescriptor.elementName?_renamed (t : TypeDescriptor) :
    (t.renamed g).elementName? = t.elementName?.map g := by
  cases t with
  | void => rfl
  | value t => exact t.element.name?_renamed

theorem MethodDescriptor.names_renamed (d : MethodDescriptor) :
    (d.renamed g).names = d.names.map g := by
  obtain ⟨parameters, result⟩ := d
  induction parameters with
  | nil =>
    have last := congrArg Option.toList (result.elementName?_renamed (g := g))
    rwa [Option.toList_map] at last
  | cons t ts ih =>
    have first := congrArg Option.toList (t.element.name?_renamed (g := g))
    rw [Option.toList_map] at first
    rw [MethodDescriptor.names_cons, List.map_append, ← ih, ← first]
    exact names_cons (t.renamed g) (ts.map (FieldType.renamed g)) (result.renamed g)

/-- Exchanging names keeps types apart if it keeps their names apart. -/
theorem ElementType.renamed_inj {e e' : ElementType}
    (hg : ∀ a ∈ e.name?.toList, ∀ b ∈ e'.name?.toList, g a = g b → a = b)
    (h : e.renamed g = e'.renamed g) : e = e' := by
  cases e with
  | primitive kind =>
    cases e' with
    | primitive kind' => exact h
    | object name' => exact absurd h (by simp [renamed])
  | object name =>
    cases e' with
    | primitive kind' => exact absurd h (by simp [renamed])
    | object name' =>
      have same : name = name' :=
        hg name (by simp [name?]) name' (by simp [name?]) (object.inj h)
      rw [same]

theorem FieldType.renamed_inj {t t' : FieldType}
    (hg : ∀ a ∈ t.element.name?.toList, ∀ b ∈ t'.element.name?.toList, g a = g b → a = b)
    (h : t.renamed g = t'.renamed g) : t = t' := by
  obtain ⟨dimensions, element⟩ := t
  obtain ⟨dimensions', element'⟩ := t'
  obtain ⟨brackets, same⟩ := FieldType.mk.inj h
  have brackets : dimensions = dimensions' := brackets
  have elements : element = element' := ElementType.renamed_inj hg same
  rw [brackets, elements]

theorem TypeDescriptor.renamed_inj {t t' : TypeDescriptor}
    (hg : ∀ a ∈ t.elementName?.toList, ∀ b ∈ t'.elementName?.toList, g a = g b → a = b)
    (h : t.renamed g = t'.renamed g) : t = t' := by
  cases t with
  | void =>
    cases t' with
    | void => rfl
    | value t' => exact absurd h (by simp [renamed])
  | value t =>
    cases t' with
    | void => exact absurd h (by simp [renamed])
    | value t' => rw [FieldType.renamed_inj hg (value.inj h)]

theorem MethodDescriptor.renamed_inj {d d' : MethodDescriptor}
    (hg : ∀ a ∈ d.names, ∀ b ∈ d'.names, g a = g b → a = b) (h : d.renamed g = d'.renamed g) :
    d = d' := by
  obtain ⟨parameters, result⟩ := d
  obtain ⟨parameters', result'⟩ := d'
  obtain ⟨sameParameters, sameResult⟩ := MethodDescriptor.mk.inj h
  clear h
  dsimp only at sameParameters sameResult
  induction parameters generalizing parameters' with
  | nil =>
    obtain rfl := List.map_eq_nil_iff.1 sameParameters.symm
    have last : result = result' := TypeDescriptor.renamed_inj hg sameResult
    rw [last]
  | cons t ts ih =>
    obtain ⟨t', ts', rfl, first, others⟩ := List.map_eq_cons_iff.1 sameParameters.symm
    simp only [names_cons] at hg
    have heads : t = t' := FieldType.renamed_inj
      (fun a ha b hb => hg a (List.mem_append_left _ ha) b (List.mem_append_left _ hb)) first.symm
    have tails := ih ts'
      (fun a ha b hb => hg a (List.mem_append_right _ ha) b (List.mem_append_right _ hb))
      others.symm
    obtain ⟨rfl, rfl⟩ := MethodDescriptor.mk.inj tails
    rw [heads]

/-- With possible names in place, the text spells the type with these names. -/
theorem TypeDescriptor.parse_renamed {t : TypeDescriptor}
    (h : ∀ name ∈ t.elementName?.toList, IsClassName (g name)) :
    TypeDescriptor.parse (String.ofList (t.renamed g).toText) = .ok (t.renamed g) := by
  refine TypeDescriptor.parse_toText ?_
  rw [TypeDescriptor.elementName?_renamed, Option.toList_map, List.forall_mem_map]
  exact h

/-- With possible names in place, the text spells the method type with these names. -/
theorem MethodDescriptor.parse_renamed {t : MethodDescriptor}
    (h : ∀ name ∈ t.names, IsClassName (g name)) :
    MethodDescriptor.parse (String.ofList (t.renamed g).toText) = .ok (t.renamed g) := by
  refine MethodDescriptor.parse_toText ?_
  rw [MethodDescriptor.names_renamed, List.forall_mem_map]
  exact h

end

end Pseudonym
