import Pseudonym.Proofs.Class.Follows
import Pseudonym.Proofs.Class.Texts
import Pseudonym.Proofs.Failures
import Pseudonym.Proofs.Generated
import Pseudonym.Proofs.Inherited

/-!
# A class fails for its own faults

Renaming a class can fail because something in it is malformed, or because the mapping refuses a
name. A mapping that refuses nothing leaves the first reason, and the first fault in the order of
the walk is a matter of the class alone (`ClassFile.fault?`),

    r.remap c = .error e  ↔  c.fault? = some e.

A table never refuses a name. Generated names are refused for names that carry markers, and a class
that holds no marker asks for no such name (`answers_generated`): a name that is looked up is a text
of the class or inherits from one (`Inherited`).
-/

namespace Pseudonym

open Descriptor Signature Text Traced

section

variable {α β : Type}

theorem error?_map (k : α → β) (x : Except Error α) : error? (k <$> x) = error? x := by
  cases x with
  | error e => rfl
  | ok a => rfl

/-- What does not fail leaves the failure in front of it. -/
theorem error?_bind {x : Except Error α} {k : α → Except Error β}
    (h : ∀ a, x = .ok a → error? (k a) = none) : error? (x >>= k) = error? x := by
  cases x with
  | error e => rfl
  | ok a => exact h a rfl

/-- The questions fail with the first failure. -/
theorem error?_askAll {κ ω : Type} (f : κ → Traced ω String) (qs : List κ) :
    error? (askAll f qs).outcome = qs.findSome? fun q => error? (f q).outcome := by
  induction qs with
  | nil => rfl
  | cons q qs ih =>
    rw [askAll, outcome_bind, List.findSome?_cons]
    cases (f q).outcome with
    | error e => rfl
    | ok text => exact ih

theorem Asks.error? {κ ω : Type} {f : κ → Traced ω String} {qs : List κ} {a : α} {x : Traced ω α}
    (hx : Asks f qs a x) :
    Pseudonym.error? x.outcome = qs.findSome? fun q => Pseudonym.error? (f q).outcome := by
  rw [hx, outcome_bind, error?_bind fun _ _ => rfl, error?_askAll]

end

/-! ### Faults -/

/-- Why a descriptor is malformed, if it is. -/
def Descriptor.fault? (d : String) : Option Error :=
  if d.toList.head? = some '(' then error? (MethodDescriptor.parse d)
  else error? (TypeDescriptor.parse d)

/-- Why a mention is malformed, if it is. -/
def Mention.fault? : Mention → Option Error
  | .type name => if name.toList.head? = some '[' then Descriptor.fault? name else none
  | .descriptor d => Descriptor.fault? d
  | .methodDescriptor d => error? (MethodDescriptor.parse d)
  | .signature s => Signature.fault? s
  | .attribute d _ | .enumConstant d _ => error? (internalName d)
  | .callSite _ d bootstrap arguments => error? (lambdaTarget? d bootstrap arguments)
  | .class _ | .field _ _ _ | .method _ _ _ | .component _ _ _ | .variable _ _ _ _ _ _
  | .package _ | .module _ => none

/-- The first fault of a class, in the order in which its mentions are visited. -/
def ClassFile.fault? (c : ClassFile) : Option Error := c.mentions.findSome? Mention.fault?

/-! ### Mappings that answer -/

/-- A mapping that refuses no symbol, as long as its owner and its name have a property. -/
structure Mapping.Answers (P : String → Prop) (mapping : Mapping) : Prop where
  className {name : String} (h : P name) : ∃ found, mapping.className name = .ok found
  fieldName {owner name : String} (h : P owner) (h' : P name) (d : String) :
    ∃ found, mapping.fieldName owner name d = .ok found
  methodName {owner name : String} (h : P owner) (h' : P name) (d : String) :
    ∃ found, mapping.methodName owner name d = .ok found
  variableName (owner methodName methodDescriptor name d : String) (index : UInt16) :
    ∃ found, mapping.variableName owner methodName methodDescriptor name d index = .ok found

theorem MappingTable.answers (t : MappingTable) : t.mapping.Answers fun _ => True :=
  ⟨fun _ => ⟨_, rfl⟩, fun _ _ _ => ⟨_, rfl⟩, fun _ _ _ => ⟨_, rfl⟩,
    fun _ _ _ _ _ _ => ⟨_, rfl⟩⟩

theorem Markers.carries_of_unmarked {m : Markers} {name : String} (h : m.Unmarked name) :
    m.carries name = false := by
  rw [← Bool.not_eq_true, carries]
  simp only [Bool.or_eq_true]
  rintro ((opens | closes) | meets)
  · exact h.1 (List.isPrefixOf_iff_prefix.1 opens).isInfix
  · exact h.2 (List.isSuffixOf_iff_suffix.1 closes).isInfix
  · obtain ⟨before, after, split⟩ := exists_of_contains meets
    exact h.2 ⟨before, '/' :: m.opening ++ after, by simp [split, boundary]⟩

section

variable {symbols : SymbolSource} {m : Markers} {owner name : String}

theorem Markers.exists_encode (h : m.Unmarked name) (isClass : Bool) :
    ∃ token, m.encode name isClass = .ok token := by
  rw [encode, carries_of_unmarked h]
  exact ⟨_, rfl⟩

variable (symbols) in
theorem Mapping.inScope_of_unmarked (h : m.Unmarked owner) :
    inScope symbols m owner = .ok (symbols.isPrimary owner) := by
  refine inScope_eq_ok_iff.2 ⟨rfl, .inr ?_⟩
  rw [← Bool.not_eq_true]
  intro encoded
  have carried := Markers.carries_of_isEncoded encoded
  rw [Markers.carries_of_unmarked h] at carried
  cases carried

theorem Mapping.exists_tokenIn (h : m.Unmarked owner) (h' : m.Unmarked name) (isClass : Bool) :
    ∃ found, tokenIn symbols m owner name isClass = .ok found := by
  obtain ⟨token, encoded⟩ := Markers.exists_encode h' isClass
  rw [tokenIn, inScope_of_unmarked symbols h]
  cases symbols.isPrimary owner with
  | true => exact ⟨some token, by rw [encoded]; rfl⟩
  | false => exact ⟨none, rfl⟩

end

/-- Names without markers are never refused. -/
theorem answers_generated (symbols : SymbolSource) (m : Markers) (reserved : List String) :
    (Mapping.generated symbols m reserved).Answers m.Unmarked where
  className h := Mapping.exists_tokenIn h h true
  fieldName h h' _ := Mapping.exists_tokenIn h h' false
  methodName {owner name} h h' _ := by
    obtain ⟨token, encoded⟩ := Markers.exists_encode h' false
    show ∃ found, (Mapping.inScope symbols m owner >>= _) = .ok found
    rw [Mapping.inScope_of_unmarked symbols h]
    cases symbols.isPrimary owner with
    | false => exact ⟨none, rfl⟩
    | true =>
      show ∃ found, (if reserved.contains name then _ else _) = Except.ok found
      split
      · exact ⟨none, rfl⟩
      · exact ⟨some token, by rw [encoded]; rfl⟩
  variableName _ _ _ _ _ _ := ⟨none, rfl⟩

/-! ### Descriptors and signatures -/

section

variable {ω : Type} {f : String → Traced ω String} {P : String → Prop} (hP : Inherited P)
  (hf : ∀ {name}, P name → ∃ new, (f name).outcome = .ok new) {d : String}

include hf in
/-- Once all names are answered, what follows decides. -/
theorem outcome_askAll_bind {α : Type} {names : List String} (h : ∀ name ∈ names, P name)
    (rest : Traced ω α) : (askAll f names >>= fun _ => rest).outcome = rest.outcome := by
  have answered : (askAll f names).outcome = .ok () := by
    refine (outcome_askAll (agrees_answers f)).2 fun name hn => ?_
    obtain ⟨new, answered⟩ := hf (h name hn)
    rw [answered, agrees_answers f name new answered]
  rw [outcome_bind, answered]
  rfl

include hP hf

theorem Descriptor.error?_renameMethod (hd : P d) :
    error? (renameMethod f d).outcome = error? (MethodDescriptor.parse d) := by
  cases parsed : MethodDescriptor.parse d with
  | error e =>
    obtain ⟨fault, stops, rfl⟩ := exists_fault_of_parse parsed
    rw [renameMethod_of_error f stops, outcome_askAll_bind hf (hP.parameterNames hd)]
    rfl
  | ok t =>
    have read := MethodDescriptor.parse_eq_ok_iff.1 parsed
    have asks := asks_answerMethod (agrees_answers f) read.1 read.2
    rw [asks, outcome_askAll_bind hf (hP.methodNames hd parsed)]
    rfl

theorem Descriptor.error?_renameType (hd : P d) :
    error? (renameType f d).outcome = error? (TypeDescriptor.parse d) := by
  cases parsed : TypeDescriptor.parse d with
  | error e =>
    rw [renameType, parsed]
    rfl
  | ok t =>
    have asks := asks_answerType (agrees_answers f) parsed
    rw [asks, outcome_askAll_bind hf (hP.typeNames hd parsed)]
    rfl

theorem Descriptor.error?_rename (hd : P d) :
    error? (Descriptor.rename f d).outcome = Descriptor.fault? d := by
  unfold Descriptor.rename Descriptor.fault?
  split
  · exact error?_renameMethod hP hf hd
  · exact error?_renameType hP hf hd

theorem Signature.error?_rename {s : String} (hs : P s) :
    error? (Signature.rename f s).outcome = Signature.fault? s := by
  rw [rename_eq_askAll (agrees_answers f), outcome_askAll_bind hf (hP.signatureNames hs)]
  cases Signature.fault? s with
  | none => rfl
  | some e => rfl

end

/-! ### Mentions -/

/-- Whether the texts that decide what a mention means have a property. -/
def Mention.Within (P : String → Prop) : Mention → Prop
  | .class name | .type name => P name
  | .descriptor text | .methodDescriptor text | .signature text => P text
  | .field owner name _ | .method owner name _ | .component owner name _ => P owner ∧ P name
  | .attribute d name | .enumConstant d name | .callSite name d _ _ => P d ∧ P name
  | .variable _ _ _ _ _ _ | .package _ | .module _ => True

theorem Mention.Within.mono {P Q : String → Prop} (h : ∀ text, P text → Q text) {q : Mention}
    (hq : q.Within P) : q.Within Q := by
  cases q with
  | «class» | type | descriptor | methodDescriptor | signature => exact h _ hq
  | field | method | component | «attribute» | enumConstant | callSite =>
    exact ⟨h _ hq.1, h _ hq.2⟩
  | «variable» | package | «module» => trivial

/-- **What a class mentions is decided by its texts.** -/
theorem ClassFile.within_texts (c : ClassFile) {q : Mention} (hq : q ∈ c.mentions) :
    q.Within (· ∈ c.texts) := by
  have here := text_mem_texts hq
  have named {p : Naming} (hp : p ∈ c.namings) : p.mention.text ∈ c.texts :=
    text_mem_texts (mention_mem_mentions hp)
  obtain ⟨q', -, follows⟩ := Mention.Follows.exists_of_mem_left (c.follows (g := Mention.text)) hq
  cases follows with
  | naming p hp => cases p <;> exact here
  | signature s => exact here
  | field place | method place | «attribute» place | enumConstant place | callSite place =>
    exact ⟨named place, here⟩
  | ownField | ownMethod | component => exact ⟨named (p := .class c.name) List.mem_cons_self, here⟩
  | «variable» => trivial

namespace Renamer

variable {r : Renamer} {P : String → Prop}

theorem error?_replace {name : String} {found : Except Error (Option String)}
    (h : ∃ new, found = .ok new) : error? (replace name found).outcome = none := by
  obtain ⟨new, rfl⟩ := h
  rw [outcome_replace]
  rfl

theorem exists_className (hr : r.mapping.Answers P) {name : String} (h : P name) :
    ∃ new, (r.className name).outcome = .ok new := by
  obtain ⟨found, looked⟩ := hr.className h
  rw [className, outcome_replace, looked]
  exact ⟨_, rfl⟩

theorem error?_descriptor (hP : Inherited P) (hr : r.mapping.Answers P) {d : String} (hd : P d) :
    error? (r.descriptor d).outcome = Descriptor.fault? d := by
  rw [descriptor, outcome_map, error?_map]
  exact Descriptor.error?_rename hP (exists_className hr) hd

/-- **A mention fails for its own fault**, if the mapping answers. -/
theorem error?_rename (hP : Inherited P) (hr : r.mapping.Answers P) {q : Mention}
    (hq : q.Within P) : error? (r.rename q).outcome = q.fault? := by
  cases q with
  | «class» name => exact error?_replace (hr.className hq)
  | type name =>
    rw [rename, Mention.fault?]
    split
    · exact error?_descriptor hP hr hq
    · exact error?_replace (hr.className hq)
  | descriptor d => exact error?_descriptor hP hr hq
  | methodDescriptor d =>
    rw [rename, outcome_map, error?_map]
    exact Descriptor.error?_renameMethod hP (exists_className hr) hq
  | signature s => exact Signature.error?_rename hP (exists_className hr) hq
  | field owner name d => exact error?_replace (hr.fieldName hq.1 hq.2 d)
  | method owner name d | component owner name d => exact error?_replace (hr.methodName hq.1 hq.2 d)
  | «attribute» d name =>
    rw [rename, outcome_bind]
    refine error?_bind fun interface known => ?_
    split
    · exact error?_replace (hr.methodName (hP.internalName hq.1 known) hq.2 _)
    · rfl
  | enumConstant d name =>
    rw [rename, outcome_bind]
    exact error?_bind fun owner known =>
      error?_replace (hr.fieldName (hP.internalName hq.1 known) hq.2 d)
  | «variable» => exact error?_replace (hr.variableName _ _ _ _ _ _)
  | callSite name d bootstrap arguments =>
    rw [rename, outcome_bind]
    refine error?_bind fun target known => ?_
    split
    · next interface implemented =>
      obtain ⟨t, parsed, named⟩ := of_lambdaTarget? known
      exact error?_replace (hr.methodName (hP.methodNames hq.1 parsed interface named) hq.2 _)
    · rfl
  | package | «module» => rfl

/-- **A class fails for its first fault**, if the mapping answers. -/
theorem error?_remap (hP : Inherited P) (hr : r.mapping.Answers P) {c : ClassFile}
    (hc : ∀ text ∈ c.texts, P text) : error? (r.remap c) = c.fault? := by
  have mention (q : Mention) (hq : q ∈ c.mentions) :
      error? (r.rename q).outcome = q.fault? :=
    error?_rename hP hr ((c.within_texts hq).mono hc)
  rw [remap, error?_bind fun _ _ => rfl, (c.asks r.agrees_answer).error?, ClassFile.fault?]
  generalize c.mentions = qs at mention
  induction qs with
  | nil => rfl
  | cons q qs ih =>
    rw [List.forall_mem_cons] at mention
    rw [List.findSome?_cons, List.findSome?_cons, mention.1, ih mention.2]

end Renamer

/-! ### What is malformed -/

/-- What a malformed text with a property is refused with. -/
def Malformed (P : String → Prop) (e : Error) : Prop :=
  ∃ d, P d ∧ ∃ fault, e = .malformedDescriptor d fault

section

variable {P : String → Prop} {d : String} {e : Error}

theorem malformed_of_located {α : Type} (hd : P d) {x : Except DescriptorFault α}
    (h : error? (located d x) = some e) : Malformed P e := by
  cases x with
  | error fault => exact ⟨d, hd, fault, (Option.some.inj h).symm⟩
  | ok a => cases h

theorem Descriptor.malformed_of_fault? (hd : P d) (h : Descriptor.fault? d = some e) :
    Malformed P e := by
  unfold Descriptor.fault? at h
  split at h
  · exact malformed_of_located hd h
  · exact malformed_of_located hd h

theorem Descriptor.malformed_of_internalName (hd : P d)
    (h : error? (Descriptor.internalName d) = some e) : Malformed P e := by
  unfold Descriptor.internalName at h
  cases parsed : TypeDescriptor.parse d with
  | error e' =>
    rw [parsed] at h
    exact malformed_of_located hd (error?_eq_some_iff.2 (parsed.trans (error?_eq_some_iff.1 h)))
  | ok t =>
    rw [parsed] at h
    simp only [bind, Except.bind] at h
    split at h
    · cases h
    · exact ⟨d, hd, .notAnObject, (Option.some.inj h).symm⟩

theorem malformed_of_lambdaTarget? (hd : P d) {bootstrap : Handle} {arguments : List Constant}
    (h : error? (lambdaTarget? d bootstrap arguments) = some e) : Malformed P e := by
  unfold lambdaTarget? at h
  split at h
  · rw [error?_bind] at h
    · exact malformed_of_located hd h
    · intro callSite _
      split
      · rfl
      · rfl
  · cases h

/-- The fault of a mention is in one of the texts that decide what it means. -/
theorem Mention.malformed_of_fault? {q : Mention} (hq : q.Within P) (h : q.fault? = some e) :
    Malformed P e := by
  cases q with
  | type name =>
    rw [Mention.fault?] at h
    split at h
    · exact Descriptor.malformed_of_fault? hq h
    · cases h
  | descriptor d => exact Descriptor.malformed_of_fault? hq h
  | methodDescriptor d => exact malformed_of_located hq h
  | signature s =>
    obtain ⟨fault, -, rfl⟩ := Option.map_eq_some_iff.1 h
    exact ⟨s, hq, fault, rfl⟩
  | «attribute» d name | enumConstant d name => exact Descriptor.malformed_of_internalName hq.1 h
  | callSite name d bootstrap arguments => exact malformed_of_lambdaTarget? hq.1 h
  | «class» | field | method | component | «variable» | package | «module» => cases h

end

/-- **Whether a class can be renamed, and what it fails with, does not depend on the new names.**
All tables agree, with any source of annotation interfaces, and what they fail with is that a text
of the class is malformed. Generated names agree with them on a class without markers. -/
theorem remap_failure_is_independent (c : ClassFile) :
    (∀ (t t' : MappingTable) (src src' : Option SymbolSource) (e : Error),
      (Renamer.mk t.mapping src).remap c = .error e ↔
        (Renamer.mk t'.mapping src').remap c = .error e) ∧
    (∀ (t : MappingTable) (src : Option SymbolSource) (e : Error),
      (Renamer.mk t.mapping src).remap c = .error e →
        ∃ d ∈ c.texts, ∃ fault, e = .malformedDescriptor d fault) ∧
    ∀ m : Markers,
      (∀ text ∈ c.texts, ¬ m.opening <:+: text.toList ∧ ¬ m.closing <:+: text.toList) →
      ∀ (symbols : SymbolSource) (reserved : List String) (src src' : Option SymbolSource)
        (e : Error),
        (Renamer.generated symbols m reserved src).remap c = .error e ↔
          (Renamer.mk (MappingTable.mapping {}) src').remap c = .error e := by
  have table (t : MappingTable) (src : Option SymbolSource) :
      error? ((Renamer.mk t.mapping src).remap c) = c.fault? :=
    Renamer.error?_remap inherited_true t.answers fun _ _ => trivial
  refine ⟨fun t t' src src' e => ?_, fun t src e failed => ?_,
    fun m free symbols reserved src src' e => ?_⟩
  · rw [← error?_eq_some_iff, ← error?_eq_some_iff, table, table]
  · rw [← error?_eq_some_iff, table] at failed
    obtain ⟨q, hq, fault⟩ := List.exists_of_findSome?_eq_some failed
    exact Mention.malformed_of_fault? (c.within_texts hq) fault
  · have generated : error? ((Renamer.generated symbols m reserved src).remap c) = c.fault? :=
      Renamer.error?_remap (inherited_unmarked m) (answers_generated symbols m reserved) free
    rw [← error?_eq_some_iff, ← error?_eq_some_iff, table, generated]

/-- A signature that breaks off, behind two names: under a table that renames the first one, and
under generated names for a class of the workspace. -/
theorem remap_failure_is_independent_cut_off :
    let c : ClassFile := { name := "a/A", signature := some "La/A<Lb/B;>.C;Ld" }
    let t : MappingTable := .ofEntries [.class "a/A" "x/Y", .class "a/A$C" "z"]
    let symbols : SymbolSource := ⟨fun _ => none, (· == "a/A"), ["a/A"]⟩
    let m := Markers.sample
    let e : Error := .malformedDescriptor "La/A<Lb/B;>.C;Ld" .unterminatedClassType
    (∀ text ∈ c.texts, ¬ m.opening <:+: text.toList ∧ ¬ m.closing <:+: text.toList) ∧
      (Renamer.mk (MappingTable.mapping {}) none).remap c = .error e ∧
      (∃ d ∈ c.texts, ∃ fault, e = .malformedDescriptor d fault) ∧
      (Renamer.mk t.mapping (some symbols)).remap c = .error e ∧
      (Renamer.generated symbols m [] none).remap c = .error e := by
  intro c t symbols m e
  have free : ∀ text ∈ c.texts, ¬ m.opening <:+: text.toList ∧ ¬ m.closing <:+: text.toList := by
    decide +kernel
  have fails : (Renamer.mk (MappingTable.mapping {}) none).remap c = .error e := by
    rw [← error?_eq_some_iff]
    decide +kernel
  obtain ⟨tables, malformed, generated⟩ := remap_failure_is_independent c
  exact ⟨free, fails, malformed {} none e fails, (tables {} t none (some symbols) e).1 fails,
    (generated m free symbols [] none none e).2 fails⟩

end Pseudonym
