import Pseudonym.Error
import Pseudonym.Text.Cut

/-!
# Markers

A token is framed by an opening and a closing marker, and the two meet around a `/` where a token
stands for a class with packages. `Markers` carries what the frame must satisfy: both markers are
made of token characters, the closing one starts with the delimiter `__` and has more to it, and
neither occurs in the other. `Markers.ofTexts` checks a pair of texts, and `Markers.salted` builds a
pair from random letters that satisfies the rules for every choice of them.
-/

namespace Pseudonym

open Text

/-- The characters of tokens: ASCII letters, digits and the underscore. -/
def isTokenChar (c : Char) : Bool := c.isAlphanum || c == '_'

/-- The two characters that every closing marker starts with. An escape is an underscore and a
hexadecimal digit, so inside a token two underscores can only start a closing marker. -/
def delimiter : List Char := ['_', '_']

/-- What a frame must satisfy. -/
structure Markers.WellFormed (opening closing : List Char) : Prop where
  opening_ne_nil : opening ≠ []
  opening_chars : ∀ c ∈ opening, isTokenChar c = true
  delimiter_closing : ∃ tail, tail ≠ [] ∧ closing = delimiter ++ tail
  closing_chars : ∀ c ∈ closing, isTokenChar c = true
  not_closing_in_opening : contains closing opening = false
  not_opening_in_closing : contains opening closing = false

/-- The pair of texts that frames every token. -/
structure Markers where
  /-- Opens a token, and every package segment of a class token. -/
  opening : List Char
  /-- Closes a token, and every package segment of a class token. -/
  closing : List Char
  /-- The rules for frames. -/
  wellFormed : Markers.WellFormed opening closing
deriving DecidableEq

namespace Markers

/-- What stands for a package separator: a closing marker, the separator, an opening marker. -/
def boundary (m : Markers) : List Char := m.closing ++ '/' :: m.opening

/-- The rule for opening markers that concerns the marker alone. -/
def opens (text : List Char) : Bool := !text.isEmpty && text.all isTokenChar

/-- The rules for closing markers that concern the marker alone. -/
def closes (text : List Char) : Bool :=
  match delimiter.isPrefixOf? text with
  | some tail => !tail.isEmpty && text.all isTokenChar
  | none => false

theorem wellFormed_of_checks {opening closing : List Char} (ho : opens opening = true)
    (hc : closes closing = true) (h : contains closing opening = false)
    (h' : contains opening closing = false) : WellFormed opening closing := by
  simp only [opens, Bool.and_eq_true, Bool.not_eq_true', List.isEmpty_eq_false_iff,
    List.all_eq_true] at ho
  simp only [closes] at hc
  split at hc
  · next tail ht =>
    simp only [Bool.and_eq_true, Bool.not_eq_true', List.isEmpty_eq_false_iff,
      List.all_eq_true] at hc
    exact ⟨ho.1, ho.2, ⟨tail, hc.1, (append_of_isPrefixOf? ht).symm⟩, hc.2, h, h'⟩
  · simp at hc

/-- Markers from two texts, or the first rule that they break. -/
def ofTexts (opening closing : String) : Except Error Markers :=
  if ho : opens opening.toList = false then
    .error (.invalidMarkers (.badOpening opening))
  else if hc : closes closing.toList = false then
    .error (.invalidMarkers (.badClosing closing))
  else if h : contains closing.toList opening.toList = true ∨
      contains opening.toList closing.toList = true then
    .error (.invalidMarkers .nested)
  else
    .ok ⟨opening.toList, closing.toList,
      wellFormed_of_checks (by simpa using ho) (by simpa using hc) (by simp_all) (by simp_all)⟩

/-! ### Salted markers -/

/-- The letters that a salt may hold: ASCII letters and digits. -/
abbrev Salt (length : Nat) := { letters : List Char //
  letters.length = length ∧ ∀ c ∈ letters, c.isAlphanum = true }

instance (length : Nat) : Inhabited (Salt length) :=
  ⟨List.replicate length 'A', by simp, fun c h => by
    rw [List.eq_of_mem_replicate h]
    decide⟩

/-- The opening marker of a salt. -/
def saltedOpening (salt : List Char) : List Char := ['v', 'e', 'i', 'l', '_'] ++ salt ++ ['_']

/-- The closing marker of a salt. -/
def saltedClosing (salt : List Char) : List Char :=
  delimiter ++ salt ++ ['_', 'm', 'a', 's', 'k']

theorem isTokenChar_of_isAlphanum {c : Char} (h : c.isAlphanum = true) : isTokenChar c = true := by
  simp [isTokenChar, h]

theorem ne_underscore_of_isAlphanum {c : Char} (h : c.isAlphanum = true) : c ≠ '_' := by
  rintro rfl
  exact absurd h (by decide)

/-- A salted opening marker has two underscores: behind `veil` and at its end. -/
theorem place_of_underscore {salt : List Char} (single : ∀ c ∈ salt, c ≠ '_') {i : Nat}
    (h : (saltedOpening salt)[i]? = some '_') : i = 4 ∨ i = 5 + salt.length := by
  rw [saltedOpening, List.append_assoc] at h
  rcases Nat.lt_or_ge i 5 with front | behind
  · rw [List.getElem?_append_left front] at h
    have : ∀ i < 5, ['v', 'e', 'i', 'l', '_'][i]? = some '_' → i = 4 := by decide
    exact .inl (this i front h)
  · rw [List.getElem?_append_right behind] at h
    simp only [List.length_cons, List.length_nil] at h
    rcases Nat.lt_or_ge (i - 5) salt.length with inside | last
    · rw [List.getElem?_append_left inside] at h
      exact absurd rfl (single '_' (List.mem_of_getElem? h))
    · rw [List.getElem?_append_right last] at h
      obtain ⟨within, _⟩ := List.getElem?_eq_some_iff.1 h
      simp only [List.length_cons, List.length_nil] at within
      exact .inr (by omega)

/-- Two underscores in a row do not occur in a salted opening marker. -/
theorem saltedOpening_ne {salt : Salt 7} {before after : List Char} :
    saltedOpening salt.1 ≠ before ++ '_' :: '_' :: after := by
  intro he
  have single : ∀ c ∈ salt.1, c ≠ '_' := fun c hc => ne_underscore_of_isAlphanum (salt.2.2 c hc)
  have first : (saltedOpening salt.1)[before.length]? = some '_' := by simp [he]
  have second : (saltedOpening salt.1)[before.length + 1]? = some '_' := by
    rw [he, List.getElem?_append_right (by omega)]
    simp
  have size := salt.2.1
  have here := place_of_underscore single first
  have next := place_of_underscore single second
  omega

theorem wellFormed_salted (front : Salt 7) (back : Salt 5) :
    WellFormed (saltedOpening front.1) (saltedClosing back.1) := by
  obtain ⟨front, hf, hfc⟩ := front
  obtain ⟨back, hb, hbc⟩ := back
  refine ⟨by simp [saltedOpening], ?_, ⟨back ++ ['_', 'm', 'a', 's', 'k'], by simp, by
    simp [saltedClosing]⟩, ?_, ?_, ?_⟩
  · intro c hc
    simp only [saltedOpening, List.mem_append] at hc
    rcases hc with (hc | hc) | hc
    · exact List.all_eq_true.1 (by decide) c hc
    · exact isTokenChar_of_isAlphanum (hfc c hc)
    · simp only [List.mem_singleton] at hc
      subst hc
      decide
  · intro c hc
    simp only [saltedClosing, delimiter, List.mem_append] at hc
    rcases hc with (hc | hc) | hc
    · exact List.all_eq_true.1 (by decide) c hc
    · exact isTokenChar_of_isAlphanum (hbc c hc)
    · exact List.all_eq_true.1 (by decide) c hc
  · rw [← Bool.not_eq_true]
    intro found
    obtain ⟨before, after, he⟩ := exists_of_contains found
    have hd : saltedOpening front =
        before ++ '_' :: '_' :: (back ++ ['_', 'm', 'a', 's', 'k'] ++ after) := by
      simpa [saltedClosing, delimiter] using he
    exact @saltedOpening_ne ⟨front, hf, hfc⟩ _ _ hd
  · rw [← Bool.not_eq_true]
    intro found
    obtain ⟨before, after, he⟩ := exists_of_contains found
    have := congrArg List.length he
    simp [saltedClosing, saltedOpening, delimiter, hf, hb] at this
    omega

/-- The markers of two salts. -/
def salted (front : Salt 7) (back : Salt 5) : Markers :=
  ⟨saltedOpening front.1, saltedClosing back.1, wellFormed_salted front back⟩

/-! ### The markers of a process -/

/-- Installs the markers that a whole process shares. They can be chosen once: names that are
tokens already would not decode under others. -/
def install (installed : Option Markers) (m : Markers) : Except Error Markers :=
  match installed with
  | some _ => .error .markersInstalled
  | none => .ok m

end Markers

end Pseudonym
