import Pseudonym.Proofs.Guarded
import Pseudonym.Proofs.Signature.Reread
import Pseudonym.Proofs.Unmodified

/-!
# A class is not renamed twice

Generated names carry markers, and a class or a member whose name carries them is refused. So when a
class was changed by a renaming, the next one with the same mapping fails, and fails for this reason
(`second_renaming_is_refused`),

    r.remap c = .ok o, o.isModified  →  ∃ e, r.remap o.result = .error e, e.isIntegrityViolation.

The reason is found place by place. Where a class was replaced its token stands, and tokens are
refused (`naming_refused`). Where a member was replaced, the class that it was looked up in is a
primary one, and it is named in another place of the class (`Mention.Follows`). Either it was
replaced there, or it keeps its name and the member is looked up in it once more, as a token.

A signature is the exception. The class types in it are renamed inside out, and where an outer class
keeps its name but a nested one does not, the new signature may spell the old class behind the old
one (`Signature.StartsPrimary` excludes this). A class that is primary itself is refused before its
signature is read (`refused_of_primary`).
-/

namespace Pseudonym

open Descriptor

namespace Renamer

variable {r : Renamer}

/-! ### What was replaced is refused -/

/-- A replaced name was found in the mapping. -/
theorem exists_of_log_replace {old : String} {found : Except Error (Option String)}
    (h : (replace old found).log ≠ []) : ∃ new, found = .ok (some new) ∧ new ≠ old := by
  match found, h with
  | .error _, h => exact absurd rfl h
  | .ok none, h => exact absurd rfl h
  | .ok (some new), h =>
    refine ⟨new, rfl, ?_⟩
    rintro rfl
    refine h ?_
    rw [replace]
    simp [Traced.lift, bind, Traced.bind]

theorem exists_error_of_asks {α : Type} {names : List String} {text : α} {x : Traced Replacement α}
    (hx : Asks r.className names text x) {name : String} (hn : name ∈ names) {e : Error}
    (refused : (r.className name).outcome = .error e) : ∃ e, x.outcome = .error e := by
  obtain ⟨before, after, rfl⟩ := List.append_of_mem hn
  obtain ⟨_, _, e', _, failed⟩ := exists_error_of_askAll refused before after
  exact ⟨e', hx.outcome_eq_error_iff.2 failed⟩

theorem exists_log_of_asks {names : List String} {text s : String} {x : Traced Replacement String}
    (hx : Asks r.className names text x) (answered : x.outcome = .ok s) (log : x.log ≠ []) :
    ∃ name ∈ names, (r.className name).log ≠ [] := by
  by_contra silent
  push Not at silent
  have answers := ((hx.outcome r.agrees_className).1 answered).1
  rw [hx.log fun name hn => ⟨_, answers name hn⟩] at log
  exact log (List.flatMap_eq_nil_iff.2 silent)

end Renamer

theorem Markers.ne_of_encode {m : Markers} {name token : String} {isClass : Bool}
    (h : m.encode name isClass = .ok token) : token ≠ name := by
  rintro rfl
  rw [encode_of_isEncoded (isEncoded_of_encode h)] at h
  cases h

/-- Whether the class types of a signature that name primary classes start with primary ones. -/
def Signature.StartsPrimary (symbols : SymbolSource) (signature : String) : Prop :=
  ∀ e ∈ nestings [] (scan signature.toList).pieces,
    symbols.isPrimary e.2 = true → symbols.isPrimary e.1 = true

instance (symbols : SymbolSource) (signature : String) :
    Decidable (Signature.StartsPrimary symbols signature) :=
  inferInstanceAs (Decidable (∀ e ∈ _, _ → _))

/-- No primary class is named like an array, or else no reserved name is a token. Without either, a
method that was looked up in such an array could have a token that is left alone from then on. -/
def Separates (symbols : SymbolSource) (m : Markers) (reserved : List String) : Prop :=
  (∀ name, symbols.isPrimary name = true → name.toList.head? ≠ some '[') ∨
    ∀ name token, m.encode name false = .ok token → token ∉ reserved

/-- Reserved names without the opening marker are no tokens. -/
theorem separates_of_isEncoded {symbols : SymbolSource} {m : Markers} {reserved : List String}
    (h : ∀ name ∈ reserved, m.isEncoded name = false) : Separates symbols m reserved := by
  refine Or.inr fun name token encoded listed => ?_
  have free := h token listed
  rw [Markers.isEncoded_of_encode encoded] at free
  cases free

theorem Mapping.isPrimary_of_fieldName {symbols : SymbolSource} {m : Markers}
    {reserved : List String} {owner name d new : String}
    (h : (generated symbols m reserved).fieldName owner name d = .ok (some new)) :
    symbols.isPrimary owner = true := by
  rcases tokenIn_eq_ok_iff.1 h with ⟨primary, _⟩ | ⟨_, _, none⟩
  · exact primary
  · cases none

theorem Mapping.isPrimary_of_methodName {symbols : SymbolSource} {m : Markers}
    {reserved : List String} {owner name d new : String}
    (h : (generated symbols m reserved).methodName owner name d = .ok (some new)) :
    symbols.isPrimary owner = true := by
  obtain ⟨scope, asked, h⟩ := bind_eq_ok_iff.1 h
  cases scope with
  | true => exact (inScope_eq_ok_iff.1 asked).1
  | false => cases h

theorem Naming.read_descriptor_of_internalName {d owner : String} (h : internalName d = .ok owner) :
    (Naming.descriptor d).read = .ok (.type (.value ⟨0, .object owner⟩)) := by
  obtain ⟨parsed, written, -⟩ := toList_of_internalName h
  rw [Naming.read, if_neg (by simp [written]), parsed]
  rfl

theorem EnclosingMethod.signature_notMem_mentions (e : EnclosingMethod) (s : String) :
    .signature s ∉ e.mentions := by
  unfold mentions method?
  split <;> simp

namespace Renamer

variable {symbols : SymbolSource} {m : Markers} {reserved : List String} {r : Renamer}
  (hr : r.mapping = .generated symbols m reserved)

/-- Whether a naming is refused once it was renamed. -/
def Refuses (r : Renamer) (p : Naming) : Prop :=
  ∃ e, (r.rename (p.renamed r.answer).mention).outcome = .error e

include hr

/-! ### Single names -/

theorem isGuarded_of_generated : r.mapping.IsGuarded := hr ▸ Mapping.isGuarded_generated

theorem isLegal_of_generated : r.mapping.IsLegal := hr ▸ Mapping.isLegal_generated

theorem refused_of_isEncoded {name : String} (h : m.isEncoded name = true) :
    ∃ e, (r.className name).outcome = .error e := by
  rw [className, hr, Mapping.className_of_isEncoded h, outcome_replace]
  exact ⟨_, rfl⟩

/-- A class that was replaced is a primary one and became its token. -/
theorem of_log_className {name : String} (h : (r.className name).log ≠ []) :
    symbols.isPrimary name = true ∧ m.encode name true = .ok (r.answer (.class name)) := by
  obtain ⟨new, found, _⟩ := exists_of_log_replace h
  rw [answer_class, Mapping.classAfter, found]
  rw [hr] at found
  rcases Mapping.tokenIn_eq_ok_iff.1 found with ⟨primary, token, encoded, same⟩ | ⟨_, _, none⟩
  · obtain rfl := Option.some.inj same
    exact ⟨primary, encoded⟩
  · cases none

/-- A primary class that was answered was replaced. -/
theorem log_className {name s : String} (primary : symbols.isPrimary name = true)
    (answered : (r.className name).outcome = .ok s) : (r.className name).log ≠ [] := by
  rw [className, hr] at answered ⊢
  rw [outcome_replace] at answered
  obtain ⟨found, looked, -⟩ := map_eq_ok_iff.1 answered
  rcases Mapping.tokenIn_eq_ok_iff.1 looked with ⟨_, token, encoded, rfl⟩ | ⟨foreign, _, _⟩
  · rw [looked, log_replace (Markers.ne_of_encode encoded)]
    simp
  · rw [primary] at foreign
    cases foreign

/-- A field that was replaced belongs to a primary class and became its token. -/
theorem of_log_field {owner name d : String} (h : (r.rename (.field owner name d)).log ≠ []) :
    symbols.isPrimary owner = true ∧
      m.encode name false = .ok (r.answer (.field owner name d)) := by
  obtain ⟨new, found, _⟩ := exists_of_log_replace h
  have answer : r.answer (.field owner name d) = new :=
    r.agrees_answer _ _ (by rw [rename, fieldName, outcome_replace, found]; rfl)
  rw [hr] at found
  rw [answer]
  exact ⟨Mapping.isPrimary_of_fieldName found, Mapping.encode_of_tokenIn found⟩

/-- A method that was replaced belongs to a primary class and became its token. -/
theorem of_log_method {owner name d : String} (h : (r.rename (.method owner name d)).log ≠ []) :
    symbols.isPrimary owner = true ∧
      m.encode name false = .ok (r.answer (.method owner name d)) := by
  obtain ⟨new, found, _⟩ := exists_of_log_replace h
  have answer : r.answer (.method owner name d) = new :=
    r.agrees_answer _ _ (by rw [rename, methodName, outcome_replace, found]; rfl)
  rw [hr] at found
  rw [answer]
  exact ⟨Mapping.isPrimary_of_methodName found, Mapping.encode_of_methodName found⟩

/-- A token is no name for a field of a primary class. -/
theorem field_refused {owner token d : String} (primary : symbols.isPrimary owner = true)
    (encoded : m.isEncoded token = true) :
    ∃ e, (r.rename (.field owner token d)).outcome = .error e := by
  have refused : r.mapping.fieldName owner token d = .error (.alreadyEncoded token) := by
    rw [hr]
    show Mapping.tokenIn symbols m owner token false = _
    simp [Mapping.tokenIn, Mapping.inScope, primary, Markers.encode_of_isEncoded encoded, bind,
      Except.bind]
  rw [rename, fieldName, refused, outcome_replace]
  exact ⟨_, rfl⟩

/-- A token is no name for a method of a primary class, unless the token is a reserved name. -/
theorem method_refused {owner token d : String} (primary : symbols.isPrimary owner = true)
    (encoded : m.isEncoded token = true) (free : token ∉ reserved) :
    ∃ e, (r.rename (.method owner token d)).outcome = .error e := by
  have refused : r.mapping.methodName owner token d = .error (.alreadyEncoded token) := by
    rw [hr]
    simp [Mapping.generated, Mapping.inScope, primary, free, Markers.encode_of_isEncoded encoded,
      bind, Except.bind]
  rw [rename, methodName, refused, outcome_replace]
  exact ⟨_, rfl⟩

/-! ### Places where classes are named -/

/-- **A naming with a replaced class in it is refused.** -/
theorem naming_refused {p : Naming}
    (answered : (r.rename p.mention).outcome = .ok (r.answer p.mention))
    (log : (r.rename p.mention).log ≠ []) : r.Refuses p := by
  obtain ⟨u, read, _, read'⟩ := read_answer (isLegal_of_generated hr) answered
  obtain ⟨text, asks⟩ := asks_naming (r := r) read
  obtain ⟨text', asks'⟩ := asks_naming (r := r) read'
  obtain ⟨name, hn, log⟩ := exists_log_of_asks asks answered log
  obtain ⟨_, encoded⟩ := of_log_className hr log
  rw [answer_class] at encoded
  obtain ⟨e, refused⟩ := refused_of_isEncoded hr (Markers.isEncoded_of_encode encoded)
  refine exists_error_of_asks asks' ?_ refused
  rw [Reading.names_renamed]
  exact List.mem_map_of_mem hn

/-- A naming that was answered is refused from then on if it names a primary class. -/
theorem refuses_of_primary {p : Naming} {u : Reading} {name : String} (read : p.read = .ok u)
    (hn : name ∈ u.names) (primary : symbols.isPrimary name = true)
    (answered : (r.rename p.mention).outcome = .ok (r.answer p.mention)) : r.Refuses p := by
  refine naming_refused hr answered fun silent => ?_
  obtain ⟨text, asks⟩ := asks_naming (r := r) read
  have answers := ((asks.outcome r.agrees_className).1 answered).1
  rw [asks.log fun name hn => ⟨_, answers name hn⟩] at silent
  exact log_className hr primary (answers name hn) (List.flatMap_eq_nil_iff.1 silent name hn)

/-- The class of a member either was replaced where it is named, or keeps its name. -/
theorem refuses_or_keeps {owner : String}
    (answered : (r.rename (.type owner)).outcome = .ok (r.answer (.type owner))) :
    r.Refuses (.type owner) ∨
      (r.rename (.type owner)).log = [] ∧ r.answer (.type owner) = owner := by
  by_cases silent : (r.rename (.type owner)).log = []
  · exact Or.inr ⟨silent, keeps_rename (.type owner) _ answered silent⟩
  · exact Or.inl (naming_refused hr answered silent)

/-! ### Signatures -/

/-- An answer that is another name was logged, and any other was not. -/
theorem answer_ne_iff_log {name : String}
    (answered : (r.className name).outcome = .ok (r.answer (.class name))) :
    r.answer (.class name) ≠ name ↔ (r.className name).log ≠ [] := by
  refine ⟨fun changed silent => changed (keeps_className name _ answered silent), fun log => ?_⟩
  exact Markers.ne_of_encode (of_log_className hr log).2

/-- Where class types with primary classes start with one, the new names can be read again. -/
theorem exposed_of_startsPrimary {s : String} (starts : Signature.StartsPrimary symbols s)
    (answers : ∀ name ∈ Signature.pieceNames (Signature.scan s.toList).pieces,
      (r.className name).outcome = .ok (r.answer (.class name))) :
    Signature.Exposed (r.answer <| .class ·) [] (Signature.scan s.toList).pieces := by
  refine ⟨by simp, fun e he start => ?_, fun name hn changed => ?_⟩
  · by_contra changed
    have nested := answers e.2 (Signature.snd_mem_of_mem_nestings he)
    have outer := answers e.1 ((Signature.fst_mem_of_mem_nestings he).resolve_left (by simp))
    have primary := (of_log_className hr ((answer_ne_iff_log hr nested).1 changed)).1
    have replaced := log_className hr (starts e he primary) outer
    exact (answer_ne_iff_log hr outer).2 replaced start
  · have encoded := (of_log_className hr ((answer_ne_iff_log hr (answers name hn)).1 changed)).2
    have legal := Markers.isClassName_of_encode encoded
    refine ⟨fun empty => legal.nonempty (by rw [empty]; rfl), fun c hc => ?_⟩
    rw [← Bool.not_eq_true]
    exact fun ends => legal.notMem (Signature.isIllegalInName_of_endsName ends) hc

/-- **A signature with a replaced class in it is refused**, where class types with primary classes
start with one. -/
theorem signature_refused {s : String} (starts : Signature.StartsPrimary symbols s)
    (answered : (r.rename (.signature s)).outcome = .ok (r.answer (.signature s)))
    (log : (r.rename (.signature s)).log ≠ []) :
    ∃ e, e.isIntegrityViolation = true ∧
      (r.rename (.signature (r.answer (.signature s)))).outcome = .error e := by
  have sound := Signature.fault_of_rename answered
  have asks := Signature.asks_rename r.agrees_className sound
  obtain ⟨answers, text⟩ := (asks.outcome r.agrees_className).1 answered
  obtain ⟨name, hn, log⟩ := exists_log_of_asks asks answered log
  have replaced := (answer_ne_iff_log hr (answers name hn)).2 log
  obtain ⟨a, ha, changed, again⟩ := (Signature.reads_scan sound).exists_reread rfl
    (exposed_of_startsPrimary hr starts answers) hn replaced 0
  have logged := (answer_ne_iff_log hr (answers a ha)).1 changed
  obtain ⟨_, encoded⟩ := of_log_className hr logged
  obtain ⟨e, refused⟩ := refused_of_isEncoded hr (Markers.isEncoded_of_encode encoded)
  have written : (r.answer (.signature s)).toList =
      Signature.renamedPieces (r.answer <| .class ·) [] (Signature.scan s.toList).pieces := by
    rw [text, String.toList_ofList]
  have named : r.answer (.class a) ∈ Signature.pieceNames
      (Signature.scan (r.answer (.signature s)).toList).pieces := by
    rw [written]
    exact again
  have asks' := Signature.asks_renamePieces r.agrees_className
    (Signature.scan (r.answer (.signature s)).toList).pieces []
  obtain ⟨e', failed⟩ := exists_error_of_asks asks' named refused
  refine ⟨e', ?_, ?_⟩
  · exact asks'.guarded
      (fun name _ => guarded_replace ((isGuarded_of_generated hr).className name)) e' failed
  · rw [rename, Signature.rename, Traced.outcome_bind, failed]
    rfl

/-- A renamed signature fails at most because a name was replaced before. -/
theorem guarded_signature {s : String} (starts : Signature.StartsPrimary symbols s)
    (answered : (r.rename (.signature s)).outcome = .ok (r.answer (.signature s))) :
    Guarded (r.rename (.signature (r.answer (.signature s)))).outcome := by
  by_cases silent : (r.rename (.signature s)).log = []
  · have kept : r.answer (.signature s) = s := keeps_rename (.signature s) _ answered silent
    rw [kept] at answered ⊢
    exact guarded_of_ok answered
  · obtain ⟨e, violation, refused⟩ := signature_refused hr starts answered silent
    rw [refused]
    exact guarded_error violation

/-! ### One mention that was replaced -/

/-- **What was replaced once is refused the second time**, in its own place or in one that names the
class that it was looked up in. -/
theorem refused_of_follows (apart : Separates symbols m reserved) {self : String}
    {places : List Naming} (own : .class self ∈ places)
    (hp : ∀ p ∈ places, (r.rename p.mention).outcome = .ok (r.answer p.mention)) {q q' : Mention}
    (h : q.Follows r.answer self places q') (hq : (r.rename q).outcome = .ok (r.answer q))
    (log : (r.rename q).log ≠ [])
    (hs : ∀ s, q = .signature s → Signature.StartsPrimary symbols s) :
    (∃ e, (r.rename q').outcome = .error e) ∨ ∃ p ∈ places, r.Refuses p := by
  -- A place is refused as soon as the class that a member was looked up in is named there.
  have elsewhere {p : Naming} {u : Reading} {name : String} (place : p ∈ places)
      (read : p.read = .ok u) (hn : name ∈ u.names) (primary : symbols.isPrimary name = true) :
      ∃ p ∈ places, r.Refuses p :=
    ⟨p, place, refuses_of_primary hr read hn primary (hp p place)⟩
  cases h with
  | naming p place => exact Or.inr ⟨p, place, naming_refused hr hq log⟩
  | signature s =>
    obtain ⟨e, _, refused⟩ := signature_refused hr (hs s rfl) hq log
    exact Or.inl ⟨e, refused⟩
  | field place =>
    obtain ⟨primary, encoded⟩ := of_log_field hr log
    rcases refuses_or_keeps hr (hp _ place) with refused | ⟨_, kept⟩
    · exact Or.inr ⟨_, place, refused⟩
    · rw [kept]
      exact Or.inl (field_refused hr primary (Markers.isEncoded_of_encode encoded))
  | @method owner name d d' place =>
    obtain ⟨primary, encoded⟩ := of_log_method hr log
    rcases refuses_or_keeps hr (hp _ place) with refused | ⟨silent, kept⟩
    · exact Or.inr ⟨_, place, refused⟩
    · rw [kept]
      refine Or.inl (method_refused hr primary (Markers.isEncoded_of_encode encoded) ?_)
      rcases apart with single | free
      · have answered := hp _ place
        rw [Naming.mention, rename, if_neg (single owner primary)] at answered
        rw [rename, if_neg (single owner primary)] at silent
        exact absurd silent (log_className hr primary answered)
      · exact free name _ encoded
  | ownField =>
    exact Or.inr (elsewhere own rfl (List.mem_singleton_self self) (of_log_field hr log).1)
  | ownMethod | component =>
    exact Or.inr (elsewhere own rfl (List.mem_singleton_self self) (of_log_method hr log).1)
  | «attribute» place =>
    obtain ⟨owner, named, _⟩ := Traced.outcome_bind_eq_ok_iff.1 hq
    rw [rename_attribute named] at log
    split at log
    · exact Or.inr (elsewhere place (Naming.read_descriptor_of_internalName named)
        (List.mem_singleton_self owner) (of_log_method hr log).1)
    · exact absurd rfl log
  | enumConstant place =>
    obtain ⟨owner, named, _⟩ := Traced.outcome_bind_eq_ok_iff.1 hq
    rw [rename_enumConstant named] at log
    exact Or.inr (elsewhere place (Naming.read_descriptor_of_internalName named)
      (List.mem_singleton_self owner) (of_log_field hr log).1)
  | «variable» =>
    obtain ⟨new, found, _⟩ := exists_of_log_replace log
    rw [hr] at found
    cases found
  | callSite place =>
    obtain ⟨target, implemented, _⟩ := Traced.outcome_bind_eq_ok_iff.1 hq
    rw [Traced.outcome_lift] at implemented
    rw [rename, implemented] at log
    rcases target with _ | ⟨interface, d⟩
    · exact absurd rfl log
    · obtain ⟨t, parsed, named⟩ := of_lambdaTarget? implemented
      exact Or.inr (elsewhere place (by rw [Naming.read, parsed]; rfl) named
        (of_log_method hr log).1)

omit hr

/-! ### Whole classes -/

theorem remap_eq_error_of_outcome {c : ClassFile} {e : Error}
    (h : (c.renameM r.rename).outcome = .error e) : r.remap c = .error e := by
  rw [remap, h]
  rfl

/-- A class counts as modified only if one of its mentions was replaced. -/
theorem exists_replaced {c : ClassFile} {o : Remapped} (h : r.remap c = .ok o)
    (modified : o.isModified = true) : ∃ q ∈ c.mentions, (r.rename q).log ≠ [] := by
  have answered := (of_remap h).1
  obtain ⟨result, walked, done⟩ := bind_eq_ok_iff.1 h
  obtain rfl := pure_eq_ok_iff.1 done
  by_contra silent
  push Not at silent
  rw [Bool.not_eq_true', List.isEmpty_eq_false_iff,
    (c.asks r.agrees_answer).log fun q hq => ⟨_, answered q hq⟩] at modified
  exact modified (List.flatMap_eq_nil_iff.2 silent)

theorem outcome_namings {c : ClassFile} {o : Remapped} (h : r.remap c = .ok o) :
    ∀ p ∈ c.namings, (r.rename p.mention).outcome = .ok (r.answer p.mention) :=
  fun _ hp => (of_remap h).1 _ (ClassFile.mention_mem_mentions hp)

/-- A class with a refused mention is refused, for this mention or for one before it. -/
theorem exists_error_of_mention {c : ClassFile} {before after : List Mention} {q : Mention}
    (split : c.mentions = before ++ q :: after) (refused : ∃ e, (r.rename q).outcome = .error e)
    (guarded : ∀ q' ∈ before ++ [q], Guarded (r.rename q').outcome) :
    ∃ e, r.remap c = .error e ∧ e.isIntegrityViolation = true := by
  obtain ⟨e, refused⟩ := refused
  obtain ⟨q', hq', e', failed, all⟩ := exists_error_of_askAll refused before after
  rw [← split] at all
  exact ⟨e', remap_eq_error_of_outcome ((c.asks r.agrees_answer).outcome_eq_error_iff.2 all),
    guarded q' hq' e' failed⟩

include hr

theorem guarded_mention {c : ClassFile} {o : Remapped} (h : r.remap c = .ok o) {q q' : Mention}
    (hq : q ∈ c.mentions) (follows : q.Follows r.answer c.name c.namings q')
    (starts : ∀ s, q = .signature s → Signature.StartsPrimary symbols s) :
    Guarded (r.rename q').outcome := by
  have answered := (of_remap h).1 q hq
  refine guarded_of_follows (isLegal_of_generated hr) (isGuarded_of_generated hr)
    (outcome_namings h) follows answered ?_
  rintro s rfl
  exact guarded_signature hr (starts s rfl) answered

/-- What encloses a renamed class names no signature. -/
theorem guarded_enclosing {c : ClassFile} {o : Remapped} (h : r.remap c = .ok o) :
    ∀ q' ∈ o.result.enclosing.toList.flatMap EnclosingMethod.mentions,
      Guarded (r.rename q').outcome := by
  have follows : List.Forall₂ (Mention.Follows r.answer c.name c.namings)
      (c.enclosing.toList.flatMap EnclosingMethod.mentions)
      (o.result.enclosing.toList.flatMap EnclosingMethod.mentions) := by
    rw [(of_remap h).2]
    refine Mention.Follows.optionFlatMap fun e he => e.follows fun p hp => ?_
    simp only [ClassFile.namings, List.mem_cons, List.mem_flatten]
    exact Or.inr ⟨_, Or.inr (Or.inr (Or.inl rfl)), List.mem_flatMap.2 ⟨e, he, hp⟩⟩
  intro q' hq'
  obtain ⟨q, hq, q_follows⟩ := Mention.Follows.exists_of_mem_right follows hq'
  refine guarded_mention hr h ?_ q_follows ?_
  · exact List.mem_flatten.2 ⟨_, List.mem_cons_self, hq⟩
  · rintro s rfl
    obtain ⟨e, _, impossible⟩ := List.mem_flatMap.1 hq
    exact absurd impossible (e.signature_notMem_mentions s)

/-- A primary class is refused by its new name, or for what encloses it. -/
theorem refused_of_primary {c : ClassFile} {o : Remapped} (h : r.remap c = .ok o)
    (primary : symbols.isPrimary c.name = true) :
    ∃ e, r.remap o.result = .error e ∧ e.isIntegrityViolation = true := by
  have own := outcome_namings h (.class c.name) List.mem_cons_self
  have refused := refuses_of_primary hr rfl (List.mem_singleton_self c.name) primary own
  have name : (Naming.class c.name).renamed r.answer = .class o.result.name := by
    rw [(of_remap h).2]
    rfl
  rw [Refuses, name] at refused
  refine exists_error_of_mention (q := .class o.result.name) rfl refused fun q' hq' => ?_
  rcases List.mem_append.1 hq' with enclosing | own
  · exact guarded_enclosing hr h q' enclosing
  · rw [List.mem_singleton.1 own]
    exact guarded_replace ((isGuarded_of_generated hr).className _)

/-- A class that was renamed in part is refused for what was renamed in it. -/
theorem refused_of_modified {c : ClassFile} {o : Remapped} (h : r.remap c = .ok o)
    (modified : o.isModified = true) (apart : Separates symbols m reserved)
    (starts : ∀ s, .signature s ∈ c.mentions → Signature.StartsPrimary symbols s) :
    ∃ e, r.remap o.result = .error e ∧ e.isIntegrityViolation = true := by
  obtain ⟨answered, same⟩ := of_remap h
  have follows : List.Forall₂ (Mention.Follows r.answer c.name c.namings) c.mentions
      o.result.mentions := by
    rw [same]
    exact c.follows
  obtain ⟨q', hq', refused⟩ : ∃ q' ∈ o.result.mentions, ∃ e, (r.rename q').outcome = .error e := by
    obtain ⟨q, hq, replaced⟩ := exists_replaced h modified
    obtain ⟨q', hq', q_follows⟩ := Mention.Follows.exists_of_mem_left follows hq
    have found := refused_of_follows hr apart List.mem_cons_self (outcome_namings h) q_follows
      (answered q hq) replaced fun s same => starts s (same ▸ hq)
    rcases found with refused | ⟨p, hp, refused⟩
    · exact ⟨q', hq', refused⟩
    · refine ⟨_, ClassFile.mention_mem_mentions ?_, refused⟩
      rw [same, ClassFile.namings_renamed]
      exact List.mem_map_of_mem hp
  obtain ⟨before, after, split⟩ := List.append_of_mem hq'
  refine exists_error_of_mention split refused fun q'' hq'' => ?_
  have mentioned : q'' ∈ o.result.mentions := by
    rw [split]
    simp only [List.mem_append, List.mem_cons, List.not_mem_nil, or_false] at hq'' ⊢
    exact hq''.imp_right Or.inl
  obtain ⟨q, hq, q_follows⟩ := Mention.Follows.exists_of_mem_right follows mentioned
  exact guarded_mention hr h hq q_follows fun s same => starts s (same ▸ hq)

omit hr

/-- **A class is not renamed twice.** Where a renaming with generated names modified a class, the
same renaming of the result fails because of what was renamed before, and for no other reason. This
holds of every primary class. Of other classes it holds where each class type of a signature that
names a primary class starts with one, and unless there are both primary classes named like arrays
and reserved names that are tokens. -/
theorem second_renaming_is_refused {symbols : SymbolSource} {m : Markers} {reserved : List String}
    {src : Option SymbolSource} {c : ClassFile} {o : Remapped}
    (h : (generated symbols m reserved src).remap c = .ok o) (modified : o.isModified = true)
    (detected : symbols.isPrimary c.name = true ∨
      (∀ s, .signature s ∈ c.mentions → Signature.StartsPrimary symbols s) ∧
        Separates symbols m reserved) :
    ∃ e, (generated symbols m reserved src).remap o.result = .error e ∧
      e.isIntegrityViolation = true := by
  rcases detected with primary | ⟨starts, apart⟩
  · exact refused_of_primary rfl h primary
  · exact refused_of_modified rfl h modified apart starts

/-- A class that extends a nested class of a generic one and calls a method of it. -/
theorem second_renaming_is_refused_generic :
    let w : Workspace :=
      [⟨"a/Box", .empty, [], []⟩, ⟨"a/Box$Item", .empty, [], []⟩].foldl .addPrimary {}
    let c : ClassFile :=
      { name := "b/User"
        signature := some "La/Box<TT;>.Item;"
        methods := [
          { name := "run"
            descriptor := "()V"
            instructions := [.method 0xb6 "a/Box$Item" "take" "()I" false] }] }
    let r := generated w.symbols .sample defaultReserved none
    ∃ o, r.remap c = .ok o ∧ o.isModified = true ∧ w.symbols.isPrimary c.name = false ∧
      Signature.StartsPrimary w.symbols "La/Box<TT;>.Item;" ∧
        ∃ e, r.remap o.result = .error e ∧ e.isIntegrityViolation = true := by
  intro w c r
  have modified : (r.remap c).toOption.map (·.isModified) = some true := by decide +kernel
  have starts : Signature.StartsPrimary w.symbols "La/Box<TT;>.Item;" := by decide +kernel
  obtain ⟨o, remapped, modified⟩ := Option.map_eq_some_iff.1 modified
  have h := toOption_eq_some_iff.1 remapped
  refine ⟨o, h, modified, by decide +kernel, starts, ?_⟩
  refine second_renaming_is_refused h modified (Or.inr ⟨?_, separates_of_isEncoded (by decide)⟩)
  intro s hs
  obtain rfl : s = "La/Box<TT;>.Item;" := by
    simpa [c, ClassFile.mentions, Method.mentions, Instruction.mentions] using hs
  exact starts

/-- A class that was renamed and can be renamed again, without anything left to replace. -/
theorem undetected_of_runs {r : Renamer} {c : ClassFile}
    (h : ((r.remap c).toOption.bind fun o => (r.remap o.result).toOption.map fun o' =>
      (o.isModified, o'.isModified)) = some (true, false)) :
    ∃ o o', r.remap c = .ok o ∧ o.isModified = true ∧ r.remap o.result = .ok o' ∧
      o'.isModified = false := by
  obtain ⟨o, first, h⟩ := Option.bind_eq_some_iff.1 h
  obtain ⟨o', second, h⟩ := Option.map_eq_some_iff.1 h
  obtain ⟨modified, kept⟩ := Prod.mk.inj h
  exact ⟨o, o', toOption_eq_some_iff.1 first, modified, toOption_eq_some_iff.1 second, kept⟩

/-- Two classes that are renamed and not refused the second time. The first one has a nested class
of a class that keeps its name in its signature, and the token behind the name of the outer class is
no token any more. The second one calls a method of a class that is named like an array, and the
token of the method is a reserved name. -/
theorem second_renaming_succeeds :
    let nested : Workspace := Workspace.addPrimary {} ⟨"a/Outer$Inner", .empty, [], []⟩
    let c : ClassFile := { name := "b/User", signature := some "La/Outer<TT;>.Inner;" }
    let r := generated nested.symbols .sample defaultReserved none
    let array : Workspace := Workspace.addPrimary {} ⟨"[Lx;", .empty, [], []⟩
    let d : ClassFile :=
      { name := "b/User"
        methods := [
          { name := "m"
            descriptor := "()V"
            instructions := [.method 0xb6 "[Lx;" "run" "()V" false] }] }
    let s := generated array.symbols .sample ["veil_Ab3xY7q_run__Zk2Pw_mask"] none
    (∃ o o', r.remap c = .ok o ∧ o.isModified = true ∧ r.remap o.result = .ok o' ∧
      o'.isModified = false) ∧
    ∃ o o', s.remap d = .ok o ∧ o.isModified = true ∧ s.remap o.result = .ok o' ∧
      o'.isModified = false := by
  intro nested c r array d s
  exact ⟨undetected_of_runs (by decide +kernel), undetected_of_runs (by decide +kernel)⟩

end Renamer

end Pseudonym
