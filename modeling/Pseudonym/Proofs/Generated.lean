import Pseudonym.Mapping.Generated
import Pseudonym.Proofs.Renamer
import Pseudonym.Proofs.Token

/-!
# Generated names are tokens

The generated mapping answers with the token of the name that it is asked for, or not at all. So
what a renamer puts in the place of a name is the name itself or its token, whatever the name refers
to (`eq_or_encode_of_replace`).
-/

namespace Pseudonym

namespace Mapping

variable {symbols : SymbolSource} {m : Markers} {reserved : List String}

theorem inScope_eq_ok_iff {owner : String} {b : Bool} :
    inScope symbols m owner = .ok b ↔
      symbols.isPrimary owner = b ∧ (b = true ∨ m.isEncoded owner = false) := by
  unfold inScope
  split
  · next primary => cases b <;> simp [primary]
  · next foreign =>
    split
    · next encoded => cases b <;> simp [foreign, encoded]
    · next free => cases b <;> simp [foreign, free]

theorem tokenIn_eq_ok_iff {owner name : String} {isClass : Bool} {found : Option String} :
    tokenIn symbols m owner name isClass = .ok found ↔
      (symbols.isPrimary owner = true ∧
          ∃ token, m.encode name isClass = .ok token ∧ found = some token) ∨
        (symbols.isPrimary owner = false ∧ m.isEncoded owner = false ∧ found = none) := by
  unfold tokenIn
  rw [bind_eq_ok_iff, Bool.exists_bool]
  simp only [inScope_eq_ok_iff, Bool.false_eq_true, if_false, if_true, false_or, true_or, and_true,
    bind_eq_ok_iff, pure_eq_ok_iff]
  constructor
  · rintro (⟨⟨foreign, free⟩, rfl⟩ | ⟨primary, token, encoded, rfl⟩)
    · exact Or.inr ⟨foreign, free, rfl⟩
    · exact Or.inl ⟨primary, token, encoded, rfl⟩
  · rintro (⟨primary, token, encoded, rfl⟩ | ⟨foreign, free, rfl⟩)
    · exact Or.inr ⟨primary, token, encoded, rfl⟩
    · exact Or.inl ⟨⟨foreign, free⟩, rfl⟩

/-- The name of a class that starts as a token does is refused. -/
theorem className_of_isEncoded {name : String} (h : m.isEncoded name = true) :
    (generated symbols m reserved).className name =
      .error (if symbols.isPrimary name then .alreadyEncoded name else .alreadyRenamed name) := by
  show tokenIn symbols m name name true = _
  unfold tokenIn inScope
  cases symbols.isPrimary name with
  | true => simp [Markers.encode_of_isEncoded h, bind, Except.bind]
  | false => simp [h, bind, Except.bind]

theorem encode_of_tokenIn {owner name token : String} {isClass : Bool}
    (h : tokenIn symbols m owner name isClass = .ok (some token)) :
    m.encode name isClass = .ok token := by
  rcases tokenIn_eq_ok_iff.1 h with ⟨_, token', encoded, same⟩ | ⟨_, _, none⟩
  · rw [Option.some.inj same, encoded]
  · exact absurd none (by simp)

theorem encode_of_methodName {owner name d token : String}
    (h : (generated symbols m reserved).methodName owner name d = .ok (some token)) :
    m.encode name false = .ok token := by
  obtain ⟨scope, _, h⟩ := bind_eq_ok_iff.1 h
  split at h
  · split at h
    · exact absurd (pure_eq_ok_iff.1 h) (by simp)
    · obtain ⟨token', encoded, done⟩ := bind_eq_ok_iff.1 h
      rw [← Option.some.inj (pure_eq_ok_iff.1 done), encoded]
  · exact absurd (pure_eq_ok_iff.1 h) (by simp)

end Mapping

namespace Renamer

variable {symbols : SymbolSource} {m : Markers} {reserved : List String} {src : Option SymbolSource}

theorem eq_or_encode_of_replace {name s : String} {found : Except Error (Option String)}
    {isClass : Bool} (h : (replace name found).outcome = .ok s)
    (hf : ∀ token, found = .ok (some token) → m.encode name isClass = .ok token) :
    s = name ∨ m.encode name isClass = .ok s := by
  rw [outcome_replace] at h
  obtain ⟨new, rfl, rfl⟩ := map_eq_ok_iff.1 h
  cases new with
  | none => exact Or.inl rfl
  | some token => exact Or.inr (hf token rfl)

/-- The renamer of a generated mapping. -/
abbrev generated (symbols : SymbolSource) (m : Markers) (reserved : List String)
    (src : Option SymbolSource) : Renamer :=
  mk (.generated symbols m reserved) src

theorem eq_or_encode_of_className {name s : String}
    (h : ((generated symbols m reserved src).className name).outcome = .ok s) :
    s = name ∨ m.encode name true = .ok s :=
  eq_or_encode_of_replace h fun _ => Mapping.encode_of_tokenIn

theorem eq_or_encode_of_fieldName {owner name d s : String}
    (h : ((generated symbols m reserved src).fieldName owner name d).outcome = .ok s) :
    s = name ∨ m.encode name false = .ok s :=
  eq_or_encode_of_replace h fun _ => Mapping.encode_of_tokenIn

theorem eq_or_encode_of_methodName {owner name d s : String}
    (h : ((generated symbols m reserved src).methodName owner name d).outcome = .ok s) :
    s = name ∨ m.encode name false = .ok s :=
  eq_or_encode_of_replace h fun _ => Mapping.encode_of_methodName

end Renamer

end Pseudonym
