import Pseudonym.Proofs.Class.Undoing
import Pseudonym.Proofs.Generated
import Pseudonym.Proofs.Restore

/-!
# Generated names are taken back

Renaming a class by generated names and restoring every text of the result gives the class again, up
to signatures. The reason is the same at every place of the class: what stands there is the old
text, a token, or a descriptor with tokens between `L` and `;`. Restoring goes through such a
descriptor from left to right,

    restoreText ((t.renamed g).toText ++ rest) = t.toText ++ restoreText rest,

where a letter or bracket stays because no opening marker begins there, and what stands for a class
gives way to its name and leaves the semicolon behind it alone (`Reverts`). Letters stay only
because a salted marker begins with none of the letters that descriptors use.
-/

namespace Pseudonym

open Descriptor Text

namespace Markers

variable {m : Markers}

/-- Restoring turns a text into a name, alone as well as in front of a character that no marker
holds. -/
structure Reverts (m : Markers) (text name : List Char) : Prop where
  alone : m.restoreText text = name
  before : ∀ {c : Char}, c ∉ m.opening → ∀ rest,
    m.restoreText (text ++ c :: rest) = name ++ c :: m.restoreText rest

theorem reverts_self {name : List Char} (h : ¬ m.opening <:+: name) : m.Reverts name name :=
  ⟨m.restoreText_of_not_infix h, fun hc _ => m.restoreText_append_cons h hc⟩

theorem reverts_encodeText (isClass : Bool) (name : List Char) :
    m.Reverts (m.encodeText isClass name) name := by
  constructor
  · have whole := m.restoreText_encodeText isClass name []
    rwa [List.append_nil, restoreText_nil, List.append_nil] at whole
  · intro c hc rest
    rw [restoreText_encodeText, m.restoreText_cons_of_notMem hc]

theorem reverts_encode {name token : String} {isClass : Bool}
    (h : m.encode name isClass = .ok token) : m.Reverts token.toList name.toList := by
  obtain ⟨_, rfl⟩ := encode_eq_ok_iff.1 h
  rw [String.toList_ofList]
  exact reverts_encodeText isClass name.toList

/-- What keeps its name or gets a token is taken back. -/
theorem reverts_of_eq_or_encode {name text : String} {isClass : Bool}
    (h : text = name ∨ m.encode name isClass = .ok text) (clean : ¬ m.opening <:+: name.toList) :
    m.Reverts text.toList name.toList := by
  rcases h with rfl | encoded
  · exact reverts_self clean
  · exact reverts_encode encoded

theorem restoreText_cons_of_ne {first c : Char} (hf : m.opening.head? = some first) (hc : c ≠ first)
    (rest : List Char) : m.restoreText (c :: rest) = c :: m.restoreText rest := by
  refine m.restoreText_cons fun hp => ?_
  obtain ⟨tail, opens⟩ : ∃ tail, m.opening = first :: tail := List.head?_eq_some_iff.1 hf
  rw [opens, List.cons_prefix_cons] at hp
  exact hc hp.1.symm

/-! ### Along a descriptor -/

section

variable {g : String → String} (hv : m.opening.head? = some 'v')
include hv

theorem restoreText_element {e : ElementType}
    (he : ∀ name ∈ e.name?.toList, m.Reverts (g name).toList name.toList) (rest : List Char) :
    m.restoreText ((e.renamed g).toText ++ rest) = e.toText ++ m.restoreText rest := by
  cases e with
  | primitive kind =>
    refine restoreText_cons_of_ne hv ?_ rest
    cases kind <;> decide
  | object name =>
    have stands := (he name (by simp [ElementType.name?])).before
      (m.not_mem_opening (c := ';') (by decide)) rest
    simp only [ElementType.renamed, ElementType.toText, List.cons_append, List.append_assoc,
      List.nil_append]
    rw [restoreText_cons_of_ne hv (by decide), stands]

theorem restoreText_field {t : FieldType}
    (ht : ∀ name ∈ t.element.name?.toList, m.Reverts (g name).toList name.toList)
    (rest : List Char) :
    m.restoreText ((t.renamed g).toText ++ rest) = t.toText ++ m.restoreText rest := by
  obtain ⟨dimensions, element⟩ := t
  induction dimensions with
  | zero => exact restoreText_element hv ht rest
  | succ n ih =>
    have bracket := restoreText_cons_of_ne hv (c := '[') (by decide)
      ((FieldType.renamed g ⟨n, element⟩).toText ++ rest)
    rw [ih ht] at bracket
    exact bracket

theorem restoreText_type {t : TypeDescriptor}
    (ht : ∀ name ∈ t.elementName?.toList, m.Reverts (g name).toList name.toList) :
    m.restoreText (t.renamed g).toText = t.toText := by
  cases t with
  | void =>
    rw [TypeDescriptor.renamed, TypeDescriptor.toText, restoreText_cons_of_ne hv (by decide),
      restoreText_nil]
  | value t =>
    have whole := restoreText_field hv ht []
    rwa [List.append_nil, restoreText_nil, List.append_nil] at whole

theorem restoreText_parameters {ts : List FieldType}
    (ht : ∀ name ∈ ts.filterMap (·.element.name?), m.Reverts (g name).toList name.toList)
    (rest : List Char) :
    m.restoreText ((ts.map (FieldType.renamed g)).flatMap FieldType.toText ++ rest) =
      ts.flatMap FieldType.toText ++ m.restoreText rest := by
  rw [List.filterMap_eq_flatMap_toList] at ht
  induction ts with
  | nil => rfl
  | cons t ts ih =>
    rw [List.flatMap_cons, List.forall_mem_append] at ht
    rw [List.map_cons, List.flatMap_cons, List.flatMap_cons, List.append_assoc,
      restoreText_field hv ht.1, ih ht.2, List.append_assoc]

/-- **Restoring takes back the renaming of a method descriptor.** -/
theorem restoreText_methodDescriptor {d : MethodDescriptor}
    (hd : ∀ name ∈ d.names, m.Reverts (g name).toList name.toList) :
    m.restoreText (d.renamed g).toText = d.toText := by
  rw [MethodDescriptor.names, List.forall_mem_append] at hd
  simp only [MethodDescriptor.renamed, MethodDescriptor.toText, List.cons_append]
  rw [restoreText_cons_of_ne hv (by decide), restoreText_parameters hv hd.1,
    restoreText_cons_of_ne hv (by decide), restoreText_type hv hd.2]

end

end Markers

/-! ### What stands for a mention -/

namespace Renamer

open Markers

variable {m : Markers} {symbols : SymbolSource} {reserved : List String} {src : Option SymbolSource}

theorem restore_eq_of_restoreText {s text : String} (h : m.restoreText s.toList = text.toList) :
    m.restore s = text :=
  String.toList_inj.1 ((m.toList_restore s).trans h)

theorem restore_self {name : String} (clean : ¬ m.opening <:+: name.toList) :
    m.restore name = name :=
  restore_eq_of_restoreText (reverts_self clean).alone

theorem restore_eq_or_encode {name s : String} {isClass : Bool}
    (h : s = name ∨ m.encode name isClass = .ok s) (clean : ¬ m.opening <:+: name.toList) :
    m.restore s = name :=
  restore_eq_of_restoreText (reverts_of_eq_or_encode h clean).alone

theorem restore_typeDescriptor (hv : m.opening.head? = some 'v') {d s : String}
    (hd : d.toList.head? ≠ some '(')
    (h : ((generated symbols m reserved src).rename (.descriptor d)).outcome = .ok s)
    (clean : ¬ m.opening <:+: d.toList) : m.restore s = d := by
  obtain ⟨t, parsed, answered, rfl⟩ := (outcome_typeDescriptor hd).1 h
  have written := (toText_of_parse parsed).1
  apply restore_eq_of_restoreText
  rw [String.toList_ofList, written]
  refine restoreText_type hv fun name hn =>
    reverts_of_eq_or_encode (eq_or_encode_of_className (answered name hn)) ?_
  exact fun hp => clean (written ▸ hp.trans (TypeDescriptor.name_infix name hn))

theorem restore_methodDescriptor (hv : m.opening.head? = some 'v') {d s : String}
    (h : ((generated symbols m reserved src).rename (.methodDescriptor d)).outcome = .ok s)
    (clean : ¬ m.opening <:+: d.toList) : m.restore s = d := by
  obtain ⟨t, parameters, read, answered, rfl⟩ := outcome_methodDescriptor.1 h
  have written : d.toList = t.toText := by
    have whole := toText_of_scanMethod read
    rwa [parameters] at whole
  apply restore_eq_of_restoreText
  rw [String.toList_ofList, written]
  refine restoreText_methodDescriptor hv fun name hn =>
    reverts_of_eq_or_encode (eq_or_encode_of_className (answered name hn)) ?_
  exact fun hp => clean (written ▸ hp.trans (MethodDescriptor.name_infix name hn))

theorem restore_descriptor (hv : m.opening.head? = some 'v') {d s : String}
    (h : ((generated symbols m reserved src).rename (.descriptor d)).outcome = .ok s)
    (clean : ¬ m.opening <:+: d.toList) : m.restore s = d := by
  by_cases hd : d.toList.head? = some '('
  · rw [rename_descriptor_of_head hd] at h
    exact restore_methodDescriptor hv h clean
  · exact restore_typeDescriptor hv hd h clean

/-- **What stands for a mention is restored to the name that stood there.** -/
theorem undone_of_rename (hv : m.opening.head? = some 'v') {q : Mention}
    (h : ((generated symbols m reserved src).rename q).outcome =
      .ok ((generated symbols m reserved src).answer q))
    (clean : ¬ m.opening <:+: q.text.toList) :
    q.Undone m.restore (generated symbols m reserved src).answer := by
  have kept {name s : String} (h : (pure name : Traced Replacement String).outcome = .ok s)
      (clean : ¬ m.opening <:+: name.toList) : m.restore s = name :=
    Except.ok.inj h ▸ restore_self clean
  match q, h, clean with
  | .class name, h, clean => exact restore_eq_or_encode (eq_or_encode_of_className h) clean
  | .type name, h, clean =>
    show m.restore _ = name
    rw [rename] at h
    split at h
    · exact restore_descriptor hv h clean
    · exact restore_eq_or_encode (eq_or_encode_of_className h) clean
  | .descriptor d, h, clean => exact restore_descriptor hv h clean
  | .methodDescriptor d, h, clean =>
    have hd := head_of_methodDescriptor h
    rw [← rename_descriptor_of_head hd] at h
    exact restore_descriptor hv h clean
  | .signature s, _, _ => trivial
  | .field owner name d, h, clean => exact restore_eq_or_encode (eq_or_encode_of_fieldName h) clean
  | .method owner name d, h, clean | .component owner name d, h, clean =>
    exact restore_eq_or_encode (eq_or_encode_of_methodName h) clean
  | .attribute d name, h, clean =>
    obtain ⟨interface, _, found⟩ := Traced.outcome_bind_eq_ok_iff.1 h
    dsimp only at found
    split at found
    · exact restore_eq_or_encode (eq_or_encode_of_methodName found) clean
    · exact kept found clean
  | .enumConstant d name, h, clean =>
    obtain ⟨owner, _, found⟩ := Traced.outcome_bind_eq_ok_iff.1 h
    exact restore_eq_or_encode (eq_or_encode_of_fieldName found) clean
  | .variable owner methodName methodDescriptor name d index, h, clean => exact kept h clean
  | .callSite name d bootstrap arguments, h, clean =>
    obtain ⟨target, _, found⟩ := Traced.outcome_bind_eq_ok_iff.1 h
    split at found
    · exact restore_eq_or_encode (eq_or_encode_of_methodName found) clean
    · exact kept found clean
  | .package name, h, clean | .module name, h, clean => exact kept h clean

/-! ### Simple names -/

theorem simpleNameAfter_eq_self {old renamed : String} (h : renamed = old ∨ '$' ∉ renamed.toList)
    (simple : String) : simpleNameAfter old renamed simple = simple := by
  have uncut (free : '$' ∉ renamed.toList) : cutLast? (· == '$') renamed.toList = none :=
    cutLast?_eq_none (forall_beq_eq_false_iff.2 free)
  unfold simpleNameAfter
  rcases h with rfl | free
  · rw [if_pos rfl]
  · simp [uncut free]

/-- A type that is renamed at all names a token, in which no nested class is told apart. -/
theorem eq_or_dollar_notMem_type {name s : String}
    (h : ((generated symbols m reserved src).rename (.type name)).outcome = .ok s) :
    s = name ∨ '$' ∉ s.toList := by
  rw [rename] at h
  split at h
  · next array =>
    have hd : name.toList.head? ≠ some '(' := by simp [array]
    obtain ⟨t, parsed, answered, rfl⟩ := (outcome_typeDescriptor hd).1 h
    have written := (toText_of_parse parsed).1
    have kept {t' : TypeDescriptor} (same : t' = t) : String.ofList t'.toText = name := by
      rw [same, ← written, String.ofList_toList]
    cases named : t.elementName? with
    | none => exact Or.inl (kept (TypeDescriptor.renamed_of_stay (by simp [named])))
    | some old =>
      obtain ⟨n, rfl⟩ := TypeDescriptor.eq_value_of_elementName? named
      rcases eq_or_encode_of_className (answered old (by simp [named])) with same | encoded
      · refine Or.inl (kept ?_)
        rw [TypeDescriptor.renamed, FieldType.renamed, ElementType.renamed, same]
      · refine Or.inr ?_
        have dollar := notMem_encode (d := '$') (by decide) (by decide) encoded
        rw [String.toList_ofList, TypeDescriptor.renamed, FieldType.renamed, ElementType.renamed]
        simp [TypeDescriptor.toText, FieldType.toText, ElementType.toText, dollar]
  · rcases eq_or_encode_of_className h with same | encoded
    · exact Or.inl same
    · exact Or.inr (notMem_encode (by decide) (by decide) encoded)

/-! ### Whole classes -/

open StripConfig (signaturesOnly) in
/-- **A class under generated names is restored text by text**, and so as a whole.  Salted markers
begin with `v`, which begins no type, so restoring finds the tokens in descriptors too.  Nothing is
said of generic signatures, which stand for nested classes by simple names alone. -/
theorem strip_restore_remap (front : Markers.Salt 7) (back : Markers.Salt 5)
    (symbols : SymbolSource) (reserved : List String) (src : Option SymbolSource) {c : ClassFile}
    {o : Remapped}
    (clean : ∀ text ∈ c.texts, ¬ (salted front back).opening <:+: text.toList)
    (h : (generated symbols (salted front back) reserved src).remap c = .ok o) :
    (signaturesOnly.strip o.result).texts.map (salted front back).restore =
        (signaturesOnly.strip c).texts ∧
      signaturesOnly.strip (o.result.mapTexts (salted front back).restore) =
        signaturesOnly.strip c := by
  have hv : (salted front back).opening.head? = some 'v' := rfl
  obtain ⟨answered, same⟩ := of_remap h
  have whole : signaturesOnly.strip (o.result.mapTexts (salted front back).restore) =
      signaturesOnly.strip c := by
    rw [same]
    refine ClassFile.strip_mapTexts_renamed ?_ ?_ ?_
    · intro q hq
      exact undone_of_rename hv (answered q hq) (clean _ (ClassFile.text_mem_texts hq))
    · intro text ht
      exact restore_self (clean text ht)
    · intro i hi
      have asked : Mention.type i.name ∈ c.mentions :=
        InnerClass.mem_mentions hi (by simp [InnerClass.mentions])
      exact simpleNameAfter_eq_self (eq_or_dollar_notMem_type (answered _ asked))
  exact ⟨by rw [← ClassFile.texts_strip_mapTexts, whole], whole⟩

open StripConfig (signaturesOnly) in
/-- A class that mentions itself in descriptors, beside a class that it holds and a library. -/
theorem strip_restore_remap_nested :
    let symbols : SymbolSource :=
      { find? := fun _ => none
        isPrimary := fun name => name == "a/B" || name == "a/B$C"
        names := ["a/B", "a/B$C"] }
    let c : ClassFile :=
      { name := "a/B"
        superName := some "java/lang/Object"
        innerClasses := [⟨"a/B$C", some "a/B", some "C", 0⟩]
        fields := [{ name := "next", descriptor := "[La/B$C;" }]
        methods := [
          { name := "run"
            descriptor := "(La/B;I)Ljava/lang/String;"
            instructions := [
              .method 0xb6 "a/B" "run" "(La/B;I)Ljava/lang/String;" false,
              .ldc (.string "veil")] }] }
    ∃ o, (generated symbols sample defaultReserved none).remap c = .ok o ∧ o.isModified = true ∧
      (signaturesOnly.strip o.result).texts.map sample.restore = (signaturesOnly.strip c).texts ∧
      signaturesOnly.strip (o.result.mapTexts sample.restore) = signaturesOnly.strip c := by
  intro symbols c
  have modified : ((generated symbols sample defaultReserved none).remap c).toOption.map
      (·.isModified) = some true := by decide +kernel
  obtain ⟨o, renamed, modified⟩ := Option.map_eq_some_iff.1 modified
  have h := toOption_eq_some_iff.1 renamed
  have clean : ∀ text ∈ c.texts, ¬ sample.opening <:+: text.toList := by decide +kernel
  exact ⟨o, h, modified, strip_restore_remap _ _ symbols defaultReserved none clean h⟩

end Renamer

end Pseudonym
