import Mathlib.Data.List.Forall2
import Pseudonym.Proofs.Outcome
import Pseudonym.Proofs.Restore

/-!
# Texts made of tokens

A text about renamed classes is made of passages: words that nobody renamed, tokens of members, and
tokens of classes, which source code shows with points for their separators. This file says what
becomes of such a text,

    restore (t₁ ++ ⋯ ++ tₙ) = y₁ ++ ⋯ ++ yₙ,

where each `tᵢ` is how a passage is written and `yᵢ` is what it stands for. The words must not
bring forth an opening marker of their own, be it with the help of what follows them; of the names
behind the tokens, and of the markers, nothing is asked. Restoring goes passage by passage, so one
step says what happens to a passage in front of any text (`restoreText_passage`).
-/

namespace Pseudonym.Markers

/-- A passage of a text about renamed classes. -/
inductive Passage where
  /-- Words that hold no token. -/
  | plain (text : String)
  /-- The token of a member. -/
  | member (name : String)
  /-- The token of a class. -/
  | class (name : String)
  /-- The token of a class with points for its separators. -/
  | dottedClass (name : String)
deriving DecidableEq, Repr

namespace Passage

/-- What the text shows for a passage. -/
def written (m : Markers) : Passage → Except Error String
  | plain text => .ok text
  | member name => m.encode name false
  | .class name => m.encode name true
  | dottedClass name =>
    (fun token => String.ofList (separated '.' token.toList)) <$> m.encode name true

/-- What a passage stands for. -/
def restored : Passage → String
  | plain text => text
  | member name | .class name => name
  | dottedClass name => String.ofList (separated '.' name.toList)

end Passage

/-- No opening marker begins in a stretch of a text, of which `rest` is what follows. -/
def Clear (m : Markers) (stretch rest : List Char) : Prop :=
  ∀ before after, stretch = before ++ after → after ≠ [] → ¬ m.opening <+: after ++ rest

variable {m : Markers}

theorem clear_of_notMem {first : Char} {stretch : List Char}
    (opens : m.opening.head? = some first) (h : first ∉ stretch) (rest : List Char) :
    m.Clear stretch rest := by
  rintro before after rfl nonempty hp
  obtain ⟨tail, opening⟩ := List.head?_eq_some_iff.1 opens
  obtain ⟨c, after, rfl⟩ := List.exists_cons_of_ne_nil nonempty
  rw [opening, List.cons_append, List.cons_prefix_cons] at hp
  obtain ⟨rfl, _⟩ := hp
  exact h (List.mem_append_right before List.mem_cons_self)

/-- A passage gives way to what it stands for, and restoring goes on behind it. -/
theorem restoreText_passage {p : Passage} {text : String} {rest : List Char}
    (written : p.written m = .ok text)
    (clear : ∀ words, p = .plain words → m.Clear words.toList rest) :
    m.restoreText (text.toList ++ rest) = p.restored.toList ++ m.restoreText rest := by
  cases p with
  | plain words =>
    obtain rfl : words = text := Except.ok.inj written
    exact m.restoreText_append (clear words rfl)
  | member name =>
    obtain ⟨_, rfl⟩ := encode_eq_ok_iff.1 written
    rw [String.toList_ofList]
    exact m.restoreText_encode name.toList rest
  | «class» name =>
    obtain ⟨_, rfl⟩ := encode_eq_ok_iff.1 written
    rw [String.toList_ofList]
    exact m.restoreText_encodeClass name.toList rest
  | dottedClass name =>
    obtain ⟨token, encoded, rfl⟩ := map_eq_ok_iff.1 written
    obtain ⟨_, rfl⟩ := encode_eq_ok_iff.1 encoded
    have point : '.' ∉ m.opening := m.not_mem_opening (by decide)
    rw [Passage.restored, String.toList_ofList, String.toList_ofList, String.toList_ofList]
    exact m.restoreText_separated point name.toList rest

theorem restoreText_passages {passages : List Passage} {texts : List String}
    (written : List.Forall₂ (fun p text => p.written m = .ok text) passages texts)
    (clear : ∀ (i : Nat) words, passages[i]? = some (.plain words) →
      m.Clear words.toList ((texts.drop (i + 1)).flatMap String.toList)) :
    m.restoreText (texts.flatMap String.toList) =
      (passages.map Passage.restored).flatMap String.toList := by
  -- What follows the first passage is again a text of this form, with all positions one less.
  induction written with
  | nil => exact m.restoreText_nil
  | @cons p text passages texts first _ ih =>
    have behind := ih fun i words at_i => clear (i + 1) words at_i
    have here : ∀ words, p = .plain words →
        m.Clear words.toList (texts.flatMap String.toList) :=
      fun words same => clear 0 words (congrArg some same)
    rw [List.flatMap_cons, List.map_cons, List.flatMap_cons, restoreText_passage first here, behind]

/-- **A text made of tokens is restored passage by passage.**  For all markers: tokens give way to
the names that they stand for, those of classes with separators as the text shows them, and the
words between them stay, provided that no opening marker begins inside the words. -/
theorem restore_passages (m : Markers) {passages : List Passage} {texts : List String}
    (written : List.Forall₂ (fun p text => p.written m = .ok text) passages texts)
    (clear : ∀ (i : Nat) words, passages[i]? = some (.plain words) →
      m.Clear words.toList ((texts.drop (i + 1)).flatMap String.toList)) :
    m.restore (String.join texts) = String.join (passages.map Passage.restored) := by
  have whole := restoreText_passages written clear
  rw [← String.toList_inj, toList_restore, String.toList_join, whole, String.toList_join]

/-- Markers of which the opening one ends in an underscore and occurs inside the tokens. -/
theorem restore_passages_overlapping :
    ∃ m : Markers, Markers.ofTexts "a_" "__b" = .ok m ∧
      let passages : List Passage :=
        [.plain "new ", .dottedClass "xa_/a", .plain "(", .class "xa_/a", .member "xa_", .plain ")"]
      let texts :=
        ["new ", "a_xa_005f__b.a_a__b", "(", "a_xa_005f__b/a_a__b", "a_xa_005f__b", ")"]
      List.Forall₂ (fun p text => p.written m = .ok text) passages texts ∧
        (∀ (i : Nat) words, passages[i]? = some (.plain words) →
          m.Clear words.toList ((texts.drop (i + 1)).flatMap String.toList)) ∧
        m.restore (String.join texts) = "new xa_.a(xa_/axa_)" := by
  let m : Markers := ⟨['a', '_'], ['_', '_', 'b'], wellFormed_of_checks (by decide) (by decide)
    (by decide) (by decide)⟩
  refine ⟨m, toOption_eq_some_iff.1 (by decide +kernel), ?_⟩
  intro passages texts
  have written : List.Forall₂ (fun p text => (p.written m).toOption = some text) passages
      texts := by
    decide +kernel
  have written := written.imp fun _ _ => toOption_eq_some_iff.1
  have free : ∀ words, Passage.plain words ∈ passages → 'a' ∉ words.toList := by
    simp [passages]
  have clear : ∀ (i : Nat) words, passages[i]? = some (.plain words) →
      m.Clear words.toList ((texts.drop (i + 1)).flatMap String.toList) := fun i words at_i =>
    clear_of_notMem rfl (free words (List.mem_of_getElem? at_i)) _
  exact ⟨written, clear, restore_passages m written clear⟩

end Pseudonym.Markers
