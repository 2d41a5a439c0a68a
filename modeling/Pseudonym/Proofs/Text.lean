import Mathlib.Data.List.Basic
import Pseudonym.Text.Cut
import Pseudonym.Text.Hex
import Pseudonym.Text.Utf16

/-!
# Texts read back

What the rest of the theory needs of plain texts. `ofUnits?_flatMap_units` says that UTF-16 loses
nothing: the units of a text are read as that text. Cutting at a part is `List.dropInfix?`
(`cut?_eq_dropInfix?`), so no occurrence lies before the first one (`length_le_of_cut?`). The search
goes on one character at a time: a character at which the part does not begin belongs to what stands
before the occurrence (`cut?_cons`), and at the part itself the search is over (`cut?_append_self`).
-/

namespace Pseudonym.Text

/-! ### UTF-16 -/

theorem isLeadingSurrogate_iff (u : UInt16) :
    isLeadingSurrogate u = true ↔ 0xD800 ≤ u.toNat ∧ u.toNat < 0xDC00 := by
  simp [isLeadingSurrogate, UInt16.le_iff_toNat_le, UInt16.lt_iff_toNat_lt]

theorem isTrailingSurrogate_iff (u : UInt16) :
    isTrailingSurrogate u = true ↔ 0xDC00 ≤ u.toNat ∧ u.toNat < 0xE000 := by
  simp [isTrailingSurrogate, UInt16.le_iff_toNat_le, UInt16.lt_iff_toNat_lt]

/-- A unit outside the surrogates is a character of its own. -/
theorem ofUnits?_cons {u : UInt16} (hl : isLeadingSurrogate u = false)
    (ht : isTrailingSurrogate u = false) (rest : List UInt16) :
    ofUnits? (u :: rest) = (ofUnits? rest).map (Char.ofNat u.toNat :: ·) := by
  cases rest with
  | nil => simp [ofUnits?, hl, ht]
  | cons v rest => simp [ofUnits?, hl, ht]

/-- Two surrogates that belong together are one character. -/
theorem ofUnits?_pair {u v : UInt16} (hl : isLeadingSurrogate u = true)
    (ht : isTrailingSurrogate v = true) (rest : List UInt16) :
    ofUnits? (u :: v :: rest) = (ofUnits? rest).map (ofSurrogates u v :: ·) := by
  rw [ofUnits?.eq_3, if_pos hl, if_pos ht]

/-- Characters are code points outside the surrogates. -/
theorem toNat_lt_or (c : Char) : c.toNat < 0xD800 ∨ 0xDFFF < c.toNat ∧ c.toNat < 0x110000 :=
  c.valid

/-- The units of a character are read as that character, whatever follows. -/
theorem ofUnits?_units_append (c : Char) (rest : List UInt16) :
    ofUnits? (units c ++ rest) = (ofUnits? rest).map (c :: ·) := by
  have range := toNat_lt_or c
  by_cases basic : c.toNat < 0x10000
  · have value : (UInt16.ofNat c.toNat).toNat = c.toNat := by
      rw [UInt16.toNat_ofNat']
      exact Nat.mod_eq_of_lt basic
    have plain : units c = [UInt16.ofNat c.toNat] := if_pos basic
    rw [plain, List.singleton_append, ofUnits?_cons, value, Char.ofNat_toNat]
    · rw [← Bool.not_eq_true, isLeadingSurrogate_iff, value]
      omega
    · rw [← Bool.not_eq_true, isTrailingSurrogate_iff, value]
      omega
  · have leading : (UInt16.ofNat (0xD800 + (c.toNat - 0x10000) / 0x400)).toNat =
        0xD800 + (c.toNat - 0x10000) / 0x400 := by
      rw [UInt16.toNat_ofNat']
      exact Nat.mod_eq_of_lt (by omega)
    have trailing : (UInt16.ofNat (0xDC00 + (c.toNat - 0x10000) % 0x400)).toNat =
        0xDC00 + (c.toNat - 0x10000) % 0x400 := by
      rw [UInt16.toNat_ofNat']
      exact Nat.mod_eq_of_lt (by omega)
    have pair : units c = [UInt16.ofNat (0xD800 + (c.toNat - 0x10000) / 0x400),
        UInt16.ofNat (0xDC00 + (c.toNat - 0x10000) % 0x400)] := if_neg basic
    have joined : ofSurrogates (UInt16.ofNat (0xD800 + (c.toNat - 0x10000) / 0x400))
        (UInt16.ofNat (0xDC00 + (c.toNat - 0x10000) % 0x400)) = c := by
      rw [ofSurrogates, leading, trailing,
        show 0x10000 + (0xD800 + (c.toNat - 0x10000) / 0x400 - 0xD800) * 0x400 +
          (0xDC00 + (c.toNat - 0x10000) % 0x400 - 0xDC00) = c.toNat by omega, Char.ofNat_toNat]
    rw [pair, List.cons_append, List.singleton_append, ofUnits?_pair, joined]
    · rw [isLeadingSurrogate_iff, leading]
      omega
    · rw [isTrailingSurrogate_iff, trailing]
      omega

/-- **UTF-16 loses nothing.** -/
theorem ofUnits?_flatMap_units (text : List Char) : ofUnits? (text.flatMap units) = some text := by
  induction text with
  | nil => rfl
  | cons c rest ih => rw [List.flatMap_cons, ofUnits?_units_append, ih, Option.map_some]

/-! ### Parts of a text -/

theorem isPrefixOf?_eq_none_iff {part text : List Char} :
    part.isPrefixOf? text = none ↔ ¬ part <+: text := by
  rw [← List.isPrefixOf_iff_prefix, ← List.isSome_isPrefixOf?_eq_isPrefixOf,
    Option.not_isSome_iff_eq_none]

theorem dropPrefix?_eq_isPrefixOf? (part text : List Char) :
    text.dropPrefix? part = part.isPrefixOf? text := by
  ext after
  rw [List.dropPrefix?_eq_some_iff, List.isPrefixOf?_eq_some_iff_append_eq]
  constructor
  · rintro ⟨part', rfl, same⟩
    rw [eq_of_beq same]
  · rintro rfl
    exact ⟨part, rfl, beq_self_eq_true part⟩

theorem dropInfix?_go_eq (part text before : List Char) :
    List.dropInfix?.go part text before =
      (cut? part text).map fun halves => (before.reverse ++ halves.1, halves.2) := by
  induction text generalizing before with
  | nil =>
    cases part with
    | nil => simp [List.dropInfix?.go, cut?]
    | cons p part => simp [List.dropInfix?.go, cut?]
  | cons c rest ih =>
    rw [List.dropInfix?.go, cut?, dropPrefix?_eq_isPrefixOf?]
    cases part.isPrefixOf? (c :: rest) with
    | none => simp [ih, Function.comp_def]
    | some after => simp

/-- Cutting at a part is taking the part out, as the library does it. -/
theorem cut?_eq_dropInfix? (part text : List Char) : cut? part text = text.dropInfix? part := by
  rw [List.dropInfix?, dropInfix?_go_eq]
  simp

theorem cut?_append_self (part after : List Char) :
    cut? part (part ++ after) = some ([], after) := by
  rw [cut?_eq_dropInfix?, List.dropInfix?_eq_some_iff]
  exact ⟨⟨part, rfl, beq_self_eq_true part⟩, fun _ _ _ _ _ => Nat.zero_le _⟩

theorem cut?_cons {part : List Char} {c : Char} {rest : List Char} (h : ¬ part <+: c :: rest) :
    cut? part (c :: rest) = (cut? part rest).map fun halves => (c :: halves.1, halves.2) := by
  rw [cut?, isPrefixOf?_eq_none_iff.2 h]

/-- Before the first occurrence of a part there is none. -/
theorem length_le_of_cut? {part text before after before' after' : List Char}
    (h : cut? part text = some (before, after)) (found : text = before' ++ part ++ after') :
    before.length ≤ before'.length := by
  rw [cut?_eq_dropInfix?, List.dropInfix?_eq_some_iff] at h
  exact h.2 before' part after' found (beq_self_eq_true part)

theorem cut?_eq_none_iff {part text : List Char} : cut? part text = none ↔ ¬ part <:+: text := by
  induction text with
  | nil => simp [cut?]
  | cons c rest ih =>
    by_cases start : part <+: c :: rest
    · obtain ⟨after, same⟩ := start
      have inside : part <:+: c :: rest := same ▸ (List.prefix_append part after).isInfix
      rw [← same, cut?_append_self, same]
      simp [inside]
    · rw [cut?_cons start, Option.map_eq_none_iff, ih, List.infix_cons_iff]
      simp [start]

theorem contains_iff_infix {part text : List Char} :
    contains part text = true ↔ part <:+: text := by
  rw [contains, Option.isSome_iff_ne_none, ne_eq, cut?_eq_none_iff, not_not]
theorem cutLast?_eq_none {stop : Char → Bool} {text : List Char} (h : ∀ c ∈ text, stop c = false) :
    cutLast? stop text = none := by
  rw [Option.eq_none_iff_forall_ne_some]
  rintro ⟨before, after⟩ found
  obtain ⟨c, stops, rfl⟩ := append_of_cutLast? found
  exact absurd (h c (by simp)) (by simp [stops])

/-- A text is cut at a character that `stop` accepts if it accepts none behind it. -/
theorem cutLast?_append_cons {stop : Char → Bool} {c : Char} (hc : stop c = true)
    (before : List Char) {after : List Char} (fresh : ∀ d ∈ after, stop d = false) :
    cutLast? stop (before ++ c :: after) = some (before, after) := by
  induction before with
  | nil => rw [List.nil_append, cutLast?, cutLast?_eq_none fresh, if_pos hc]
  | cons d before ih => rw [List.cons_append, cutLast?, ih]

/-- A text in which `stop` accepts some character has a last one. -/
theorem exists_last_stop (stop : Char → Bool) (text : List Char) :
    (∀ c ∈ text, stop c = false) ∨ ∃ before c after, text = before ++ c :: after ∧
      stop c = true ∧ ∀ d ∈ after, stop d = false := by
  induction text with
  | nil => exact Or.inl (by simp)
  | cons c text ih =>
    rcases ih with fresh | ⟨before, d, after, rfl, stops, fresh⟩
    · cases hc : stop c with
      | false => exact Or.inl (List.forall_mem_cons.2 ⟨hc, fresh⟩)
      | true => exact Or.inr ⟨[], c, text, rfl, hc, fresh⟩
    · exact Or.inr ⟨c :: before, d, after, rfl, stops, fresh⟩

theorem forall_beq_eq_false_iff {c : Char} {text : List Char} :
    (∀ d ∈ text, (d == c) = false) ↔ c ∉ text := by
  simp only [beq_eq_false_iff_ne]
  exact ⟨fun h hc => h c hc rfl, fun h d hd same => h (same ▸ hd)⟩

/-- A text is cut at the last occurrence of a character. -/
theorem cutLast?_eq_some_iff {c : Char} {text before after : List Char} :
    cutLast? (· == c) text = some (before, after) ↔ text = before ++ c :: after ∧ c ∉ after := by
  constructor
  · intro cut
    rcases exists_last_stop (· == c) text with fresh | ⟨front, d, rest, rfl, stops, fresh⟩
    · rw [cutLast?_eq_none fresh] at cut
      cases cut
    · obtain rfl : d = c := beq_iff_eq.1 stops
      rw [cutLast?_append_cons (by simp) front fresh] at cut
      obtain ⟨rfl, rfl⟩ := Prod.mk.inj (Option.some.inj cut)
      exact ⟨rfl, forall_beq_eq_false_iff.1 fresh⟩
  · rintro ⟨rfl, fresh⟩
    exact cutLast?_append_cons (by simp) before (forall_beq_eq_false_iff.2 fresh)

/-- What stands behind the last character that `stop` accepts, or all of a text without one. -/
def behindLast (stop : Char → Bool) (text : List Char) : List Char :=
  match cutLast? stop text with
  | some (_, after) => after
  | none => text

theorem behindLast_of_forall {stop : Char → Bool} {text : List Char}
    (fresh : ∀ c ∈ text, stop c = false) : behindLast stop text = text := by
  rw [behindLast, cutLast?_eq_none fresh]

theorem behindLast_append_cons {stop : Char → Bool} {c : Char} (hc : stop c = true)
    (before after : List Char) : behindLast stop (before ++ c :: after) = behindLast stop after := by
  rcases exists_last_stop stop after with fresh | ⟨middle, d, last, rfl, stops, fresh⟩
  · rw [behindLast_of_forall fresh, behindLast, cutLast?_append_cons hc before fresh]
  · rw [behindLast, behindLast, cutLast?_append_cons stops middle fresh, ← List.cons_append,
      ← List.append_assoc, cutLast?_append_cons stops (before ++ c :: middle) fresh]

/-- It is an end of the text, and no such character is in it. -/
theorem behindLast_spec (stop : Char → Bool) (text : List Char) :
    behindLast stop text <:+ text ∧ ∀ c ∈ behindLast stop text, stop c = false := by
  rcases exists_last_stop stop text with fresh | ⟨before, c, last, rfl, stops, fresh⟩
  · rw [behindLast_of_forall fresh]
    exact ⟨List.suffix_refl text, fresh⟩
  · rw [behindLast_append_cons stops, behindLast_of_forall fresh]
    exact ⟨(List.suffix_cons c last).trans (List.suffix_append before _), fresh⟩

/-- A part without some character lies on one side of that character. -/
theorem prefix_of_notMem {c : Char} : ∀ {part text : List Char} {rest : List Char}, c ∉ part →
    part <+: text ++ c :: rest → part <+: text := by
  intro part text rest
  induction text generalizing part with
  | nil =>
    intro hc h
    cases part with
    | nil => exact List.nil_prefix
    | cons p part =>
      rw [List.nil_append, List.cons_prefix_cons] at h
      exact absurd (h.1 ▸ List.mem_cons_self) hc
  | cons d text ih =>
    intro hc h
    cases part with
    | nil => exact List.nil_prefix
    | cons p part =>
      rw [List.cons_append, List.cons_prefix_cons] at h
      rw [List.cons_prefix_cons]
      exact ⟨h.1, ih (fun hm => hc (List.mem_cons_of_mem p hm)) h.2⟩

/-- A text with a stop behind it is cut at the stop in one way only. -/
theorem append_cons_inj {stop : Char → Bool} {c : Char} (hc : stop c = true)
    {before before' after after' : List Char} (fresh : ∀ d ∈ before, stop d = false)
    (fresh' : ∀ d ∈ before', stop d = false) :
    before ++ c :: after = before' ++ c :: after' ↔ before = before' ∧ after = after' := by
  induction before generalizing before' with
  | nil =>
    cases before' with
    | nil => simp
    | cons d before' =>
      simp only [List.nil_append, List.cons_append, List.cons.injEq, reduceCtorEq, false_and,
        iff_false, not_and]
      rintro rfl
      exact absurd hc (by simp [fresh' c])
  | cons d before ih =>
    cases before' with
    | nil =>
      simp only [List.nil_append, List.cons_append, List.cons.injEq, reduceCtorEq, false_and,
        iff_false, not_and]
      rintro rfl
      exact absurd hc (by simp [fresh d])
    | cons d' before' =>
      rw [List.forall_mem_cons] at fresh fresh'
      simp only [List.cons_append, List.cons.injEq, ih fresh.2 fresh'.2, and_assoc]

/-- A text with a character behind it that is not in it is cut at the character in one way only. -/
theorem append_cons_inj_of_notMem {c : Char} {before before' after after' : List Char}
    (fresh : c ∉ before) (fresh' : c ∉ before') :
    before ++ c :: after = before' ++ c :: after' ↔ before = before' ∧ after = after' :=
  @append_cons_inj (· == c) c (beq_self_eq_true c) _ _ _ _ (forall_beq_eq_false_iff.2 fresh)
    (forall_beq_eq_false_iff.2 fresh')

/-! ### Digits -/

theorem hexDigit_ne_underscore : ∀ n < 16, hexDigit n ≠ '_' := by decide

theorem isAlphanum_hexDigit : ∀ n < 16, (hexDigit n).isAlphanum = true := by decide

end Pseudonym.Text
