import Pseudonym.Proofs.Text

/-!
# Units that spell a text

The units of a text are read as that text (`ofUnits?_flatMap_units`). This file adds that no other
units are: a list of units spells a text exactly if it is the units of that text,

    ofUnits? us = some text  ↔  us = text.flatMap units.

A character never begins with the closing half of a surrogate pair, so what stands in front of a text
is read apart from it (`ofUnits?_append_flatMap_units`). The same is said of the digits of a unit:
four digits spell it exactly if they are the digits that it is written with.
-/

namespace Pseudonym.Text

/-! ### One character -/

/-- A unit outside the surrogates is all there is of its character. -/
theorem units_ofNat {u : UInt16} (hl : isLeadingSurrogate u = false)
    (ht : isTrailingSurrogate u = false) : units (Char.ofNat u.toNat) = [u] := by
  have bound : u.toNat < 65536 := u.toNat_lt
  rw [← Bool.not_eq_true, isLeadingSurrogate_iff] at hl
  rw [← Bool.not_eq_true, isTrailingSurrogate_iff] at ht
  have value : (Char.ofNat u.toNat).toNat = u.toNat := by
    rw [Char.ofNat, dif_pos (by unfold Nat.isValidChar; omega)]
    rfl
  rw [units, value, if_pos bound, UInt16.ofNat_toNat]

/-- A pair of surrogates is all there is of its character. -/
theorem units_ofSurrogates {u v : UInt16} (hl : isLeadingSurrogate u = true)
    (ht : isTrailingSurrogate v = true) : units (ofSurrogates u v) = [u, v] := by
  rw [isLeadingSurrogate_iff] at hl
  rw [isTrailingSurrogate_iff] at ht
  have value : (ofSurrogates u v).toNat =
      0x10000 + (u.toNat - 0xD800) * 0x400 + (v.toNat - 0xDC00) := by
    rw [ofSurrogates, Char.ofNat, dif_pos (by unfold Nat.isValidChar; omega)]
    rfl
  have leading : 0xD800 + (0x10000 + (u.toNat - 0xD800) * 0x400 + (v.toNat - 0xDC00) - 0x10000) /
      0x400 = u.toNat := by omega
  have trailing : 0xDC00 + (0x10000 + (u.toNat - 0xD800) * 0x400 + (v.toNat - 0xDC00) - 0x10000) %
      0x400 = v.toNat := by omega
  rw [units, value, if_neg (by omega), leading, trailing, UInt16.ofNat_toNat, UInt16.ofNat_toNat]

/-- The first unit of a character closes no pair. -/
theorem exists_units_eq_cons (c : Char) :
    ∃ u us, units c = u :: us ∧ isTrailingSurrogate u = false := by
  have range := toNat_lt_or c
  by_cases basic : c.toNat < 0x10000
  · refine ⟨_, [], if_pos basic, ?_⟩
    rw [← Bool.not_eq_true, isTrailingSurrogate_iff, UInt16.toNat_ofNat']
    omega
  · refine ⟨_, _, if_neg basic, ?_⟩
    rw [← Bool.not_eq_true, isTrailingSurrogate_iff, UInt16.toNat_ofNat']
    omega

/-! ### Texts -/

/-- **Units spell a text exactly if they are the units of that text.** -/
theorem ofUnits?_eq_some_iff {us : List UInt16} {text : List Char} :
    ofUnits? us = some text ↔ us = text.flatMap units := by
  constructor
  · intro h
    fun_induction ofUnits? us generalizing text with
    | case1 =>
      obtain rfl := Option.some.inj h
      rfl
    | case2 => cases h
    | case3 u single =>
      obtain rfl := Option.some.inj h
      rw [Bool.or_eq_true, not_or, Bool.not_eq_true, Bool.not_eq_true] at single
      rw [List.flatMap_singleton, units_ofNat single.1 single.2]
    | case4 u v rest leading trailing ih =>
      obtain ⟨text, read, rfl⟩ := Option.map_eq_some_iff.1 h
      rw [List.flatMap_cons, units_ofSurrogates leading trailing, ih read]
      rfl
    | case5 | case6 => cases h
    | case7 u v rest leading trailing ih =>
      obtain ⟨text, read, rfl⟩ := Option.map_eq_some_iff.1 h
      rw [List.flatMap_cons, units_ofNat (by simpa using leading) (by simpa using trailing),
        ← ih read]
      rfl
  · rintro rfl
    exact ofUnits?_flatMap_units text

/-- A surrogate does not go together with a text behind it. -/
theorem ofUnits?_cons_flatMap_units {u : UInt16}
    (h : isLeadingSurrogate u = true ∨ isTrailingSurrogate u = true) (text : List Char) :
    ofUnits? (u :: text.flatMap units) = none := by
  cases text with
  | nil => rcases h with h | h <;> simp [ofUnits?, h]
  | cons c text =>
    obtain ⟨v, us, first, trailing⟩ := exists_units_eq_cons c
    rw [List.flatMap_cons, first, List.cons_append, ofUnits?]
    rcases h with h | h <;> simp [h, trailing]

/-- What stands in front of the units of a text is read apart from it. -/
theorem ofUnits?_append_flatMap_units (us : List UInt16) (text : List Char) :
    ofUnits? (us ++ text.flatMap units) = (ofUnits? us).map (· ++ text) := by
  fun_induction ofUnits? us with
  | case1 => exact ofUnits?_flatMap_units text
  | case2 u surrogate =>
    exact ofUnits?_cons_flatMap_units (by simpa using surrogate) text
  | case3 u single =>
    rw [Bool.or_eq_true, not_or, Bool.not_eq_true, Bool.not_eq_true] at single
    rw [List.singleton_append, ofUnits?_cons single.1 single.2, ofUnits?_flatMap_units]
    rfl
  | case4 u v rest leading trailing ih =>
    rw [List.cons_append, List.cons_append, ofUnits?_pair leading trailing, ih]
    simp only [Option.map_map, Function.comp_def, List.cons_append]
  | case5 u v rest leading trailing =>
    rw [List.cons_append, List.cons_append, ofUnits?, if_pos leading, if_neg trailing]
    rfl
  | case6 u v rest leading trailing =>
    rw [List.cons_append, List.cons_append, ofUnits?, if_neg leading, if_pos trailing]
    rfl
  | case7 u v rest leading trailing ih =>
    rw [List.cons_append, ofUnits?_cons (by simpa using leading) (by simpa using trailing), ih]
    simp only [Option.map_map, Function.comp_def, List.cons_append]

/-! ### Digits -/

theorem lowerHexValue?_eq_some_iff {c : Char} {n : Nat} :
    lowerHexValue? c = some n ↔ n < 16 ∧ c = hexDigit n := by
  constructor
  · intro h
    unfold lowerHexValue? at h
    split at h
    · next digit =>
      obtain rfl := Option.some.inj h
      have low : 48 ≤ c.toNat := digit.1
      have high : c.toNat ≤ 57 := digit.2
      refine ⟨by omega, Char.toNat_inj.1 ?_⟩
      rw [Nat.toNat_digitChar_of_lt_ten (by omega)]
      omega
    · split at h
      · next letter =>
        obtain rfl := Option.some.inj h
        have low : 97 ≤ c.toNat := letter.1
        have high : c.toNat ≤ 102 := letter.2
        have value : ∀ k < 16, 10 ≤ k → (hexDigit k).toNat = 87 + k := by decide
        refine ⟨by omega, Char.toNat_inj.1 ?_⟩
        rw [value _ (by omega) (by omega)]
        omega
      · cases h
  · rintro ⟨small, rfl⟩
    exact lowerHexValue?_hexDigit n small

/-- **Four digits spell a unit exactly if it is written with them.** -/
theorem wordOfHex?_eq_some_iff {a b c d : Char} {u : UInt16} :
    wordOfHex? lowerHexValue? a b c d = some u ↔ hexWord u = [a, b, c, d] := by
  constructor
  · intro h
    unfold wordOfHex? at h
    split at h
    · next i j k l hi hj hk hl =>
      obtain rfl := Option.some.inj h
      obtain ⟨_, rfl⟩ := lowerHexValue?_eq_some_iff.1 hi
      obtain ⟨_, rfl⟩ := lowerHexValue?_eq_some_iff.1 hj
      obtain ⟨_, rfl⟩ := lowerHexValue?_eq_some_iff.1 hk
      obtain ⟨_, rfl⟩ := lowerHexValue?_eq_some_iff.1 hl
      have value : (UInt16.ofNat (((i * 16 + j) * 16 + k) * 16 + l)).toNat =
          ((i * 16 + j) * 16 + k) * 16 + l := by
        rw [UInt16.toNat_ofNat']
        exact Nat.mod_eq_of_lt (by omega)
      rw [hexWord, value, show (((i * 16 + j) * 16 + k) * 16 + l) / 4096 % 16 = i by omega,
        show (((i * 16 + j) * 16 + k) * 16 + l) / 256 % 16 = j by omega,
        show (((i * 16 + j) * 16 + k) * 16 + l) / 16 % 16 = k by omega,
        show (((i * 16 + j) * 16 + k) * 16 + l) % 16 = l by omega]
    · cases h
  · intro h
    simp only [hexWord, List.cons.injEq, and_true] at h
    obtain ⟨rfl, rfl, rfl, rfl⟩ := h
    exact wordOfHex?_hexWord lowerHexValue?_hexDigit u

end Pseudonym.Text
