/-!
# Cutting text

Texts are taken apart as lists of characters. `cut?` splits at the first occurrence of a part,
`cutLast?` at the last character of a kind. Neither loses anything: what it returns joins up to the
text again.
-/

namespace Pseudonym.Text

/-- The text before and after the first occurrence of `part`. -/
def cut? (part : List Char) : List Char → Option (List Char × List Char)
  | [] => if part = [] then some ([], []) else none
  | c :: rest =>
    match part.isPrefixOf? (c :: rest) with
    | some after => some ([], after)
    | none => (cut? part rest).map fun halves => (c :: halves.1, halves.2)

/-- Whether `part` occurs anywhere in the text. -/
def contains (part text : List Char) : Bool := (cut? part text).isSome

/-- The text before and after the last character that `stop` accepts. -/
def cutLast? (stop : Char → Bool) : List Char → Option (List Char × List Char)
  | [] => none
  | c :: rest =>
    match cutLast? stop rest with
    | some halves => some (c :: halves.1, halves.2)
    | none => if stop c then some ([], rest) else none

/-- What `List.isPrefixOf?` leaves is the rest of the text. The searches of tokens end by this, and
they run on core alone, which has no lemma about it. -/
theorem append_of_isPrefixOf? {part text after : List Char}
    (h : part.isPrefixOf? text = some after) : part ++ after = text := by
  induction part generalizing text with
  | nil => exact (Option.some.inj h).symm
  | cons p part ih =>
    cases text with
    | nil => cases h
    | cons c rest =>
      obtain ⟨same, rest⟩ := Option.ite_none_right_eq_some.1 h
      rw [List.cons_append, beq_iff_eq.1 same, ih rest]

theorem append_of_cut? {part text before after : List Char}
    (h : cut? part text = some (before, after)) : text = before ++ part ++ after := by
  induction text generalizing before with
  | nil =>
    simp only [cut?] at h
    split at h <;> simp_all
  | cons c rest ih =>
    simp only [cut?] at h
    split at h
    · next found hp =>
      obtain ⟨rfl, rfl⟩ := Prod.mk.inj (Option.some.inj h)
      exact (append_of_isPrefixOf? hp).symm
    · obtain ⟨halves, hh, he⟩ := Option.map_eq_some_iff.1 h
      obtain ⟨rfl, rfl⟩ := Prod.mk.inj he
      simp [ih hh]

theorem length_of_cut? {part text before after : List Char}
    (h : cut? part text = some (before, after)) :
    text.length = before.length + part.length + after.length := by
  simp [append_of_cut? h, Nat.add_assoc]

theorem exists_of_contains {part text : List Char} (h : contains part text = true) :
    ∃ before after, text = before ++ part ++ after := by
  obtain ⟨⟨before, after⟩, found⟩ := Option.isSome_iff_exists.1 h
  exact ⟨before, after, append_of_cut? found⟩

theorem append_of_cutLast? {stop : Char → Bool} {text before after : List Char}
    (h : cutLast? stop text = some (before, after)) :
    ∃ c, stop c = true ∧ text = before ++ c :: after := by
  induction text generalizing before with
  | nil => simp [cutLast?] at h
  | cons d rest ih =>
    simp only [cutLast?] at h
    split at h
    · next halves hh =>
      obtain ⟨rfl, rfl⟩ := Prod.mk.inj (Option.some.inj h)
      obtain ⟨c, hc, hr⟩ := ih hh
      exact ⟨c, hc, by simp [hr]⟩
    · split at h
      · next hd =>
        obtain ⟨rfl, rfl⟩ := Prod.mk.inj (Option.some.inj h)
        exact ⟨d, hd, rfl⟩
      · simp at h

end Pseudonym.Text
