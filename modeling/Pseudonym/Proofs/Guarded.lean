import Pseudonym.Proofs.Class.Follows
import Pseudonym.Proofs.Failures
import Pseudonym.Proofs.Linking

/-!
# Failures that tell of a renaming before

A renaming with generated names refuses names that carry markers, and nothing else. What can fail
besides is reading: a descriptor may be malformed. But what a renamed class spells can be read, since
the class was read before and tokens are legal names (`read_answer`). So where a mention was
answered, what became of it can only fail because of its names (`Renamer.guarded_of_follows`),

    q.Follows r.answer self places q'  →  Guarded (r.rename q').outcome.
-/

namespace Pseudonym

open Descriptor

/-- An outcome that is a failure at most because a name was replaced before. -/
def Guarded {α : Type} (x : Except Error α) : Prop :=
  ∀ e, x = .error e → e.isIntegrityViolation = true

section

variable {α β : Type} {x : Except Error α}

theorem guarded_of_ok {a : α} (h : x = .ok a) : Guarded x := FailsOnly.of_ok h

theorem guarded_error {e : Error} (h : e.isIntegrityViolation = true) :
    Guarded (.error e : Except Error α) :=
  FailsOnly.error (P := (·.isIntegrityViolation = true)) h

theorem Guarded.bind {k : α → Except Error β} (hx : Guarded x)
    (hk : ∀ a, x = .ok a → Guarded (k a)) : Guarded (x >>= k) :=
  FailsOnly.bind hx hk

theorem Guarded.map (hx : Guarded x) (f : α → β) : Guarded (f <$> x) := FailsOnly.map hx f

theorem Asks.guarded {κ ω : Type} {f : κ → Traced ω String} {qs : List κ} {a : α} {x : Traced ω α}
    (hx : Asks f qs a x) (h : ∀ q ∈ qs, Guarded (f q).outcome) : Guarded x.outcome :=
  hx.failsOnly h

end

namespace Mapping

variable {symbols : SymbolSource} {m : Markers} {reserved : List String}

theorem guarded_encode (name : String) (isClass : Bool) : Guarded (m.encode name isClass) := by
  unfold Markers.encode
  split
  · exact guarded_error rfl
  · exact guarded_of_ok rfl

theorem guarded_inScope (owner : String) : Guarded (inScope symbols m owner) := by
  unfold inScope
  split
  · exact guarded_of_ok rfl
  · split
    · exact guarded_error rfl
    · exact guarded_of_ok rfl

theorem guarded_tokenIn (owner name : String) (isClass : Bool) :
    Guarded (tokenIn symbols m owner name isClass) := by
  refine (guarded_inScope owner).bind fun scope _ => ?_
  cases scope with
  | true => exact (guarded_encode name isClass).bind fun _ _ => guarded_of_ok rfl
  | false => exact guarded_of_ok rfl

theorem guarded_methodName (owner name d : String) :
    Guarded ((generated symbols m reserved).methodName owner name d) := by
  refine (guarded_inScope owner).bind fun scope _ => ?_
  cases scope with
  | true =>
    rw [if_pos rfl]
    split
    · exact guarded_of_ok rfl
    · exact (guarded_encode name false).bind fun _ _ => guarded_of_ok rfl
  | false => exact guarded_of_ok rfl

/-- A mapping that refuses a symbol at most because a name was replaced before. -/
structure IsGuarded (mapping : Mapping) : Prop where
  className (name : String) : Guarded (mapping.className name)
  fieldName (owner name d : String) : Guarded (mapping.fieldName owner name d)
  methodName (owner name d : String) : Guarded (mapping.methodName owner name d)
  variableName (owner methodName methodDescriptor name d : String) (index : UInt16) :
    Guarded (mapping.variableName owner methodName methodDescriptor name d index)

theorem IsGuarded.failsOnly {mapping : Mapping} (h : mapping.IsGuarded) {P : Error → Prop}
    (hP : ∀ e : Error, e.isIntegrityViolation = true → P e) : mapping.FailsOnly P where
  className name e failed := hP e (h.className name e failed)
  fieldName owner name d e failed := hP e (h.fieldName owner name d e failed)
  methodName owner name d e failed := hP e (h.methodName owner name d e failed)
  variableName owner methodName methodDescriptor name d index e failed :=
    hP e (h.variableName owner methodName methodDescriptor name d index e failed)

theorem isGuarded_generated : (generated symbols m reserved).IsGuarded where
  className name := guarded_tokenIn name name true
  fieldName owner name _ := guarded_tokenIn owner name false
  methodName := guarded_methodName
  variableName _ _ _ _ _ _ := guarded_of_ok rfl

end Mapping

namespace Renamer

variable {r : Renamer}

/-! ### What is asked about a class that was renamed -/

theorem guarded_replace {name : String} {found : Except Error (Option String)} (h : Guarded found) :
    Guarded (replace name found).outcome := by
  rw [outcome_replace]
  exact h.map _

/-- A naming that can be read is answered by answers for the classes that it names. -/
theorem asks_naming {p : Naming} {u : Reading} (h : p.read = .ok u) :
    ∃ text, Asks r.className u.names text (r.rename p.mention) := by
  have type {d : String} {u : Reading} (hd : d.toList.head? ≠ some '(')
      (h : Reading.type <$> TypeDescriptor.parse d = .ok u) :
      ∃ text, Asks r.className u.names text (r.rename (.descriptor d)) := by
    obtain ⟨t, parsed, rfl⟩ := map_eq_ok_iff.1 h
    rw [rename, descriptor, Descriptor.rename, if_neg hd]
    exact ⟨_, asks_renameType r.agrees_className parsed⟩
  have method {d : String} {u : Reading}
      (h : Reading.method <$> MethodDescriptor.parse d = .ok u) :
      ∃ text, Asks r.className u.names text (r.rename (.methodDescriptor d)) := by
    obtain ⟨t, parsed, rfl⟩ := map_eq_ok_iff.1 h
    obtain ⟨parameters, ending⟩ := MethodDescriptor.parse_eq_ok_iff.1 parsed
    exact ⟨_, asks_renameMethod r.agrees_className parameters ending⟩
  cases p with
  | «class» name =>
    obtain rfl := Except.ok.inj h
    exact ⟨_, .ask r.agrees_className name⟩
  | type name =>
    rw [Naming.read] at h
    rw [Naming.mention, rename]
    split at h
    · next array =>
      rw [if_pos array]
      exact type (by simp [array]) h
    · next single =>
      obtain rfl := Except.ok.inj h
      rw [if_neg single]
      exact ⟨_, .ask r.agrees_className name⟩
  | descriptor d =>
    rw [Naming.read] at h
    split at h
    · next head =>
      rw [Naming.mention, rename_descriptor_of_head head]
      exact method h
    · next head => exact type head h
  | methodDescriptor d => exact method h

theorem guarded_naming (hr : r.mapping.IsGuarded) {p : Naming} {u : Reading} (h : p.read = .ok u) :
    Guarded (r.rename p.mention).outcome := by
  obtain ⟨text, asks⟩ := asks_naming (r := r) h
  exact asks.guarded fun name _ => guarded_replace (hr.className name)

theorem guarded_attribute (hr : r.mapping.IsGuarded) {d owner : String}
    (h : internalName d = .ok owner) (name : String) :
    Guarded (r.rename (.attribute d name)).outcome := by
  rw [rename_attribute h]
  split
  · exact guarded_replace (hr.methodName _ _ _)
  · exact guarded_of_ok rfl

theorem guarded_enumConstant (hr : r.mapping.IsGuarded) {d owner : String}
    (h : internalName d = .ok owner) (name : String) :
    Guarded (r.rename (.enumConstant d name)).outcome := by
  rw [rename_enumConstant h]
  exact guarded_replace (hr.fieldName _ _ _)

theorem guarded_callSite (hr : r.mapping.IsGuarded) {d : String} {t : MethodDescriptor}
    (h : MethodDescriptor.parse d = .ok t) (name : String) (bootstrap : Handle)
    (arguments : List Constant) :
    Guarded (r.rename (.callSite name d bootstrap arguments)).outcome := by
  have target : Guarded (lambdaTarget? d bootstrap arguments) := by
    unfold lambdaTarget?
    split
    · rw [h]
      refine Guarded.bind (guarded_of_ok rfl) fun callSite _ => ?_
      split
      · exact guarded_of_ok rfl
      · exact guarded_of_ok rfl
    · exact guarded_of_ok rfl
  rw [rename, Traced.outcome_bind, Traced.outcome_lift]
  refine target.bind fun found _ => ?_
  cases found with
  | none => exact guarded_of_ok rfl
  | some target => exact guarded_replace (hr.methodName _ _ _)

/-- The descriptor of a class stays the descriptor of a class. -/
theorem internalName_answer (hm : r.mapping.IsLegal) {d owner : String}
    (h : internalName d = .ok owner)
    (answered : (r.rename (.descriptor d)).outcome = .ok (r.answer (.descriptor d))) :
    internalName (r.answer (.descriptor d)) = .ok (r.mapping.classAfter owner) := by
  obtain ⟨parsed, written, -⟩ := toList_of_internalName h
  have head : d.toList.head? ≠ some '(' := by simp [written]
  obtain ⟨u, read, -, read'⟩ := read_answer hm (p := .descriptor d) answered
  rw [Naming.read, if_neg head, parsed] at read
  obtain rfl := Except.ok.inj read
  rw [Naming.withText, Naming.read] at read'
  split at read'
  · obtain ⟨t, _, wrong⟩ := map_eq_ok_iff.1 read'
    cases wrong
  · obtain ⟨t, parsed', same⟩ := map_eq_ok_iff.1 read'
    obtain rfl := Reading.type.inj same
    rw [internalName, parsed']
    rfl

/-- The mentions of a renamed class fail at most because a name was replaced before. Signatures are
left to be looked at. -/
theorem guarded_of_follows (hm : r.mapping.IsLegal) (hr : r.mapping.IsGuarded) {self : String}
    {places : List Naming}
    (hp : ∀ p ∈ places, (r.rename p.mention).outcome = .ok (r.answer p.mention))
    {q q' : Mention} (h : q.Follows r.answer self places q')
    (hq : (r.rename q).outcome = .ok (r.answer q))
    (hs : ∀ s, q = .signature s → Guarded (r.rename (.signature (r.answer (.signature s)))).outcome) :
    Guarded (r.rename q').outcome := by
  cases h with
  | naming p place =>
    obtain ⟨u, _, _, read⟩ := read_answer hm (hp p place)
    exact guarded_naming hr read
  | signature s => exact hs s rfl
  | field | ownField => exact guarded_replace (hr.fieldName _ _ _)
  | method | ownMethod | component => exact guarded_replace (hr.methodName _ _ _)
  | «attribute» place =>
    obtain ⟨owner, named, _⟩ := Traced.outcome_bind_eq_ok_iff.1 hq
    exact guarded_attribute hr (internalName_answer hm named (hp _ place)) _
  | enumConstant place =>
    obtain ⟨owner, named, _⟩ := Traced.outcome_bind_eq_ok_iff.1 hq
    exact guarded_enumConstant hr (internalName_answer hm named (hp _ place)) _
  | «variable» => exact guarded_replace (hr.variableName _ _ _ _ _ _)
  | callSite place =>
    obtain ⟨u, _, _, read⟩ := read_answer hm (hp _ place)
    obtain ⟨t, parsed, _⟩ := map_eq_ok_iff.1 read
    exact guarded_callSite hr parsed _ _ _

end Renamer

end Pseudonym
