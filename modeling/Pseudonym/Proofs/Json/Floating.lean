import Mathlib.Algebra.Order.Field.Power
import Mathlib.Algebra.Order.Field.Rat
import Mathlib.Tactic.NormNum
import Mathlib.Tactic.Positivity
import Pseudonym.Proofs.Binary.Shortest
import Pseudonym.Proofs.Json.Number

/-!
# Floating point numbers are read as numbers

What is written for a finite pattern is a number again, and what is read for it is finite. The
pattern need not come back: digits are read as one product of two rounded numbers, a significand and
a power of ten, and the product is rounded once more.

Whether a product is finite is decided at the ends of the ranges. A number up to a limit is read as

    significand * 10 ^ exponent,   significand ≤ limit / 10 ^ exponent,

and rounding keeps the order, so it is enough to look at the greatest significand for every exponent
(`Covers`). Shortest decimals lie between midpoints, which leaves only the greatest pattern of a
format to be looked at for itself.
-/

namespace Pseudonym.Json

open Binary

/-! ### Digits -/

theorem foldl_digits (n : Nat) (ds : List Nat) :
    ds.foldl (fun n d => n * 10 + d) n = n * 10 ^ ds.length + digitsValue ds := by
  induction ds generalizing n with
  | nil => simp [digitsValue]
  | cons d ds ih =>
    have first : digitsValue (d :: ds) = d * 10 ^ ds.length + digitsValue ds := by
      rw [digitsValue, List.foldl_cons, ih]
      simp
    rw [List.foldl_cons, ih, first, List.length_cons]
    ring

theorem digitsValue_append (ds es : List Nat) :
    digitsValue (ds ++ es) = digitsValue ds * 10 ^ es.length + digitsValue es := by
  rw [digitsValue, List.foldl_append, foldl_digits]
  rfl

@[simp] theorem digitsValue_replicate_zero (k : Nat) :
    digitsValue (List.replicate k 0) = 0 := by
  induction k with
  | zero => rfl
  | succ k ih => rw [List.replicate_succ', digitsValue_append, ih]; simp [digitsValue]

theorem digitsValue_lt {ds : List Nat} (h : ∀ d ∈ ds, d < 10) :
    digitsValue ds < 10 ^ ds.length := by
  induction ds with
  | nil => simp [digitsValue]
  | cons d ds ih =>
    rw [List.forall_mem_cons] at h
    have rest := ih h.2
    have first : digitsValue (d :: ds) = d * 10 ^ ds.length + digitsValue ds := by
      rw [← List.singleton_append, digitsValue_append]
      simp [digitsValue]
    have digit : (d + 1) * 10 ^ ds.length ≤ 10 * 10 ^ ds.length := Nat.mul_le_mul_right _ h.1
    rw [first, List.length_cons, Nat.pow_succ]
    nlinarith

/-- The digits that fit are the first ones, and they fit. -/
theorem takeDigits_spec (n : Nat) (ds : List Nat) :
    ∃ taken, ds = taken ++ (takeDigits n ds).2 ∧
      (takeDigits n ds).1 = n * 10 ^ taken.length + digitsValue taken ∧
      (n ≤ maxWord → (takeDigits n ds).1 ≤ maxWord) := by
  induction ds generalizing n with
  | nil => exact ⟨[], rfl, by simp [takeDigits, digitsValue], fun h => h⟩
  | cons d ds ih =>
    rw [takeDigits]
    split
    · next fits =>
      obtain ⟨taken, split, value, word⟩ := ih (n * 10 + d)
      refine ⟨d :: taken, by rw [List.cons_append, ← split], ?_, fun _ => word fits⟩
      rw [value, ← foldl_digits, ← foldl_digits, List.foldl_cons]
    · exact ⟨[], rfl, by simp [digitsValue], fun h => h⟩

theorem takeDigits_of_le {n : Nat} {ds : List Nat}
    (h : n * 10 ^ ds.length + digitsValue ds ≤ maxWord) :
    takeDigits n ds = (n * 10 ^ ds.length + digitsValue ds, []) := by
  rw [← foldl_digits] at h ⊢
  induction ds generalizing n with
  | nil => rfl
  | cons d ds ih =>
    rw [List.foldl_cons] at h ⊢
    have first : n * 10 + d ≤ maxWord := by
      rw [foldl_digits] at h
      have := Nat.le_mul_of_pos_right (n * 10 + d) (Nat.pow_pos (n := ds.length) (show 0 < 10 by decide))
      omega
    rw [takeDigits, if_pos first, ih h]

/-! ### Products and quotients -/

/-- The greatest significand, rounded. -/
def wordPattern : Nat := double.round maxWord 1

theorem round_le_wordPattern {n : Nat} (h : n ≤ maxWord) : double.round n 1 ≤ wordPattern :=
  double.round_mono (by decide) (by decide) (by omega)

/-- How zero, one and the greatest word are rounded. -/
theorem rounded_constants :
    double.round 0 1 = 0 ∧ double.units 0 = 0 ∧
      double.units (double.round 1 1) = 2 ^ double.depth ∧
        double.round (double.units wordPattern) (2 ^ double.depth) ≤ wordPattern ∧
          wordPattern < double.infinity := by decide +kernel

/-- Powers of ten are one or more. -/
theorem one_le_tenPower (k : Nat) :
    2 ^ double.depth ≤ double.units (double.round (Nat.pow 10 k) 1) := by
  rw [← rounded_constants.2.2.1]
  have power : 1 ≤ Nat.pow 10 k := Nat.pow_pos (by decide)
  exact double.units_mono (double.round_mono (by decide) (by decide) (by omega))

theorem div_tenPower_le {bits : Nat} (h : bits ≤ wordPattern) (k : Nat) :
    double.div bits (double.round (Nat.pow 10 k) 1) ≤ wordPattern :=
  Nat.le_trans (double.div_le h (one_le_tenPower k)) rounded_constants.2.2.2.1

/-- A small power of ten is divided off in a step. -/
theorem exists_scale_step {bits : Nat} {e : Int} (hb : bits ≠ 0) (he : e < -308) :
    ∃ k, scale bits e = scale (double.div bits (double.round (Nat.pow 10 k) 1)) (e + 308) := by
  rw [scale, if_neg (by omega), if_neg hb, if_neg (by omega)]
  exact ⟨_, rfl⟩

/-- Dividing by a power of ten always succeeds. -/
theorem exists_scale_of_neg {bits : Nat} {e : Int} (h : bits ≤ wordPattern) (negative : e < 0) :
    ∃ r, scale bits e = some r ∧ r ≤ wordPattern := by
  induction n : e.natAbs using Nat.strongRecOn generalizing bits e with
  | ind n ih =>
    subst n
    by_cases small : e.natAbs ≤ 308
    · rw [scale, if_pos small, if_neg (by omega)]
      exact ⟨_, rfl, div_tenPower_le h _⟩
    · by_cases zero : bits = 0
      · rw [scale, if_neg small, if_pos zero]
        exact ⟨0, rfl, Nat.zero_le _⟩
      · obtain ⟨k, step⟩ := exists_scale_step zero (show e < -308 by omega)
        rw [step]
        exact ih (e + 308).natAbs (by omega) (div_tenPower_le h k) (by omega) rfl

theorem scale_natCast {bits k : Nat} (h : k ≤ 308) :
    scale bits k =
      if double.mul bits (double.round (10 ^ k) 1) < double.infinity then
        some (double.mul bits (double.round (10 ^ k) 1))
      else none := by
  rw [scale, if_pos (by simpa using h), if_pos (by omega)]
  rfl

/-- What is scaled is finite. -/
theorem lt_of_scale {bits r : Nat} {e : Int} (h : bits ≤ wordPattern) (hr : scale bits e = some r) :
    r < double.infinity := by
  by_cases negative : e < 0
  · obtain ⟨r', scaled, below⟩ := exists_scale_of_neg h negative
    rw [hr] at scaled
    obtain rfl := Option.some.inj scaled
    exact Nat.lt_of_le_of_lt below rounded_constants.2.2.2.2
  · rw [scale] at hr
    split at hr
    · rw [if_pos (by omega)] at hr
      dsimp only at hr
      split at hr
      · next finite =>
        obtain rfl := Option.some.inj hr
        exact finite
      · cases hr
    · split at hr
      · obtain rfl := Option.some.inj hr
        decide
      · rw [if_pos (by omega)] at hr
        cases hr

theorem mul_zero_le (b top : Nat) : double.mul (double.round 0 1) b ≤ top := by
  obtain ⟨zero, nothing, -⟩ := rounded_constants
  rw [zero, Format.mul, nothing, Nat.zero_mul, Format.round_eq, Nat.zero_mul, Format.roundUnits,
    Nat.zero_div]
  simp [Format.shift, divNearest]

/-- Whether numbers up to a limit are read as patterns up to `top`. With the powers of ten up to
`small` this is so for all significands. From there to `large` it is looked at for the greatest
significand of every power, and no power from `large` on comes into question. -/
structure Covers (limit top small large : Nat) : Prop where
  finite : top < double.infinity
  words : double.mul wordPattern (double.round (10 ^ small) 1) ≤ top
  products : ∀ i < large - small,
    double.mul (double.round (limit / 10 ^ (small + i)) 1) (double.round (10 ^ (small + i)) 1) ≤ top
  bounded : limit < 10 ^ large
  reach : large ≤ 309
  word : wordPattern ≤ top

section

variable {limit top small large : Nat}

/-- No number up to the limit is a multiple of a power of ten that does not come into question. -/
theorem Covers.eq_zero (h : Covers limit top small large) {n k : Nat} (many : large ≤ k)
    (below : n * 10 ^ k ≤ limit) : n = 0 := by
  by_contra positive
  refine Nat.not_le_of_lt h.bounded (Nat.le_trans ?_ below)
  refine Nat.le_trans (Nat.pow_le_pow_right (by decide) many) ?_
  exact Nat.le_mul_of_pos_left _ (Nat.pos_of_ne_zero positive)

theorem Covers.mul_le (h : Covers limit top small large) {n k : Nat} (word : n ≤ maxWord)
    (below : n * 10 ^ k ≤ limit) :
    double.mul (double.round n 1) (double.round (10 ^ k) 1) ≤ top := by
  by_cases few : k ≤ small
  · have power : double.round (10 ^ k) 1 ≤ double.round (10 ^ small) 1 :=
      double.round_mono (by decide) (by decide)
        (Nat.mul_le_mul_right 1 (Nat.pow_le_pow_right (by decide) few))
    exact Nat.le_trans (double.mul_mono (round_le_wordPattern word) power) h.words
  · by_cases many : k < large
    · have greatest : n ≤ limit / 10 ^ k :=
        (Nat.le_div_iff_mul_le (Nat.pow_pos (by decide))).2 below
      have rounded : double.round n 1 ≤ double.round (limit / 10 ^ k) 1 :=
        double.round_mono (by decide) (by decide) (by omega)
      have product := h.products (k - small) (by omega)
      rw [show small + (k - small) = k by omega] at product
      exact Nat.le_trans (double.mul_mono rounded (Nat.le_refl _)) product
    · rw [h.eq_zero (Nat.le_of_not_lt many) below]
      exact mul_zero_le _ _

theorem Covers.exists_scale (h : Covers limit top small large) {n : Nat} {e : Int}
    (word : n ≤ maxWord) (below : (n : ℚ) * 10 ^ e ≤ limit) :
    ∃ r, scale (double.round n 1) e = some r ∧ r ≤ top := by
  by_cases negative : e < 0
  · obtain ⟨r, scaled, below⟩ := exists_scale_of_neg (round_le_wordPattern word) negative
    exact ⟨r, scaled, Nat.le_trans below h.word⟩
  · obtain ⟨k, rfl⟩ := Int.eq_ofNat_of_zero_le (show 0 ≤ e by omega)
    have below : n * 10 ^ k ≤ limit := by
      rw [zpow_natCast] at below
      exact_mod_cast below
    by_cases reach : k ≤ 308
    · have product := h.mul_le word below
      rw [scale_natCast reach, if_pos (Nat.lt_of_le_of_lt product h.finite)]
      exact ⟨_, rfl, product⟩
    · obtain rfl := h.eq_zero (Nat.le_trans h.reach (Nat.lt_of_not_le reach)) below
      rw [scale, if_neg (show ¬((k : Int).natAbs ≤ 308) by omega), if_pos rounded_constants.1]
      exact ⟨0, rfl, Nat.zero_le _⟩

end

/-! ### The meaning of numbers -/

namespace Number

/-- The value of a number without its sign. -/
def value (n : Number) : ℚ :=
  digitsValue (n.whole ++ n.fraction) * 10 ^ (n.exponent.getD 0 - n.fraction.length)

/-- The leading digits of a number that fit, and the digits left over. -/
def leadingDigits (n : Number) : Nat × List Nat := takeDigits (digitsValue n.whole) n.fraction

/-- The power of ten of the leading digits. -/
def leadingPower (n : Number) : Int :=
  n.exponent.getD 0 - (n.fraction.length - n.leadingDigits.2.length : Nat)

/-- A number whose digits in front of the point fit is read from its leading digits. -/
theorem doubleMagnitude?_eq {n : Number} (whole : digitsValue n.whole ≤ maxWord)
    (broken : n.isInteger = false) :
    n.doubleMagnitude? = scale (double.round n.leadingDigits.1 1) n.leadingPower := by
  have front : takeDigits 0 n.whole = (digitsValue n.whole, []) := by
    rw [takeDigits_of_le (by simpa using whole), Nat.zero_mul, Nat.zero_add]
  rw [doubleMagnitude?, broken, Bool.false_and, if_neg (by decide), front]
  show scale (double.round n.leadingDigits.1 1)
    (n.exponent.getD 0 + 0 - (n.fraction.length - n.leadingDigits.2.length : Nat)) = _
  rw [Int.add_zero]
  rfl

/-- The leading digits come to no more than the number. -/
theorem leadingDigits_le (n : Number) :
    (n.leadingDigits.1 : ℚ) * 10 ^ n.leadingPower ≤ n.value := by
  obtain ⟨taken, split, value, -⟩ := takeDigits_spec (digitsValue n.whole) n.fraction
  rw [Number.value, leadingPower, leadingDigits, value]
  generalize (takeDigits (digitsValue n.whole) n.fraction).2 = rest at split
  rw [split, ← List.append_assoc, digitsValue_append (n.whole ++ taken) rest,
    digitsValue_append n.whole taken, List.length_append]
  generalize digitsValue n.whole * 10 ^ taken.length + digitsValue taken = significand
  have power : (10 : ℚ) ^ (n.exponent.getD 0 -
      ((taken.length + rest.length - rest.length : Nat) : Int)) =
        10 ^ rest.length * 10 ^ (n.exponent.getD 0 - ((taken.length + rest.length : Nat) : Int)) := by
    rw [← zpow_natCast (10 : ℚ) rest.length, ← zpow_add₀ (by norm_num)]
    congr 1
    omega
  rw [power, ← mul_assoc]
  refine mul_le_mul_of_nonneg_right ?_ (by positivity)
  push_cast
  linarith [show (0 : ℚ) ≤ digitsValue rest from Nat.cast_nonneg _]

theorem exists_doubleMagnitude? {limit top small large : Nat}
    (covers : Covers limit top small large) {n : Number}
    (whole : digitsValue n.whole ≤ maxWord) (broken : n.isInteger = false)
    (small : n.value ≤ limit) : ∃ r, n.doubleMagnitude? = some r ∧ r ≤ top := by
  obtain ⟨_, _, _, word⟩ := takeDigits_spec (digitsValue n.whole) n.fraction
  rw [doubleMagnitude?_eq whole broken]
  exact covers.exists_scale (word whole) (le_trans n.leadingDigits_le small)

/-- **Every number that is read is finite.** -/
theorem lt_of_doubleMagnitude? {n : Number} {r : Nat} (h : n.doubleMagnitude? = some r) :
    r < double.infinity := by
  unfold doubleMagnitude? at h
  split at h
  · next word =>
    simp only [Bool.and_eq_true, decide_eq_true_eq] at word
    obtain rfl := Option.some.inj h
    exact Nat.lt_of_le_of_lt (round_le_wordPattern word.2) rounded_constants.2.2.2.2
  · obtain ⟨_, _, _, front⟩ := takeDigits_spec 0 n.whole
    obtain ⟨_, _, _, word⟩ := takeDigits_spec (takeDigits 0 n.whole).1 n.fraction
    exact lt_of_scale (round_le_wordPattern (word (front (Nat.zero_le _)))) h

/-! ### Decimals -/

section

variable (s : Style) (isNegative : Bool) (d : Decimal)

/-- The three ways to write a decimal: with an exponent, behind zeros, and with a point among its
digits or behind them. -/
theorem ofDecimal_eq :
    let digits := digitsOf d.digits
    ofDecimal s isNegative d =
        ⟨isNegative, digits.take 1, digits.drop 1, some (d.exponent + digits.length - 1)⟩ ∨
      (∃ zeros : Nat, d.exponent = -(zeros + digits.length) ∧
        ofDecimal s isNegative d =
          ⟨isNegative, [0], List.replicate zeros 0 ++ digits, none⟩) ∨
      ∃ whole zeros : Nat, 0 < whole ∧ (whole : Int) = d.exponent + digits.length ∧
        whole ≤ s.highest + 1 ∧ zeros = whole + 1 - digits.length ∧
        ofDecimal s isNegative d =
          ⟨isNegative, (digits ++ List.replicate zeros 0).take whole,
            (digits ++ List.replicate zeros 0).drop whole, none⟩ := by
  intro digits
  have written : ofDecimal s isNegative d =
      let leading := d.exponent + digits.length - 1
      if leading < s.lowest || s.highest < leading then
        ⟨isNegative, digits.take 1, digits.drop 1, some leading⟩
      else if leading < 0 then
        ⟨isNegative, [0], List.replicate (leading.natAbs - 1) 0 ++ digits, none⟩
      else
        let whole := leading.natAbs + 1
        let padded := digits ++ List.replicate (whole + 1 - digits.length) 0
        ⟨isNegative, padded.take whole, padded.drop whole, none⟩ := rfl
  rw [written]
  dsimp only
  split
  · exact Or.inl rfl
  · next inside =>
    simp only [Bool.or_eq_true, decide_eq_true_eq, not_or] at inside
    split
    · exact Or.inr (Or.inl ⟨_, by omega, rfl⟩)
    · exact Or.inr (Or.inr ⟨_, _, by omega, by omega, by omega, rfl, rfl⟩)

theorem isInteger_ofDecimal : (ofDecimal s isNegative d).isInteger = false := by
  have nonempty := (isWhole_digitsOf d.digits).nonempty
  rcases ofDecimal_eq s isNegative d with written | ⟨zeros, -, written⟩ |
    ⟨whole, zeros, -, -, -, padding, written⟩
  · rw [written]
    exact Bool.and_false _
  · rw [written]
    simp [isInteger, nonempty]
  · rw [written]
    simp only [isInteger, Option.isNone_none, Bool.and_true, List.isEmpty_eq_false_iff]
    refine List.ne_nil_of_length_pos ?_
    rw [List.length_drop, List.length_append, List.length_replicate]
    omega

/-- A decimal is written with its value. -/
theorem value_ofDecimal : (ofDecimal s isNegative d).value = d.digits * 10 ^ d.exponent := by
  have nonempty := List.length_pos_of_ne_nil (isWhole_digitsOf d.digits).nonempty
  rcases ofDecimal_eq s isNegative d with written | ⟨zeros, shift, written⟩ |
    ⟨whole, zeros, -, shift, -, padding, written⟩
  · rw [written, value]
    dsimp only
    rw [List.take_append_drop, digitsValue_digitsOf, List.length_drop]
    congr 2
    show d.exponent + (digitsOf d.digits).length - 1 - _ = _
    omega
  · rw [written, value]
    dsimp only
    rw [digitsValue_append, digitsValue_append, digitsValue_digitsOf, digitsValue_replicate_zero,
      List.length_append, List.length_replicate, shift]
    simp [digitsValue]
  · rw [written, value]
    dsimp only
    rw [List.take_append_drop, digitsValue_append, digitsValue_digitsOf,
      digitsValue_replicate_zero, List.length_drop, List.length_append, List.length_replicate]
    have power : (10 : ℚ) ^ d.exponent = 10 ^ zeros *
        10 ^ ((0 : Int) - ((digitsOf d.digits).length + zeros - whole : Nat)) := by
      rw [← zpow_natCast (10 : ℚ) zeros, ← zpow_add₀ (by norm_num)]
      congr 1
      omega
    rw [power]
    push_cast
    rw [add_zero, mul_assoc]
    rfl

/-- The digits in front of the point fit, if a style does not ask for too many of them. -/
theorem whole_ofDecimal_le (few : s.highest < 18) :
    digitsValue (ofDecimal s isNegative d).whole ≤ maxWord := by
  have digits := (isWhole_digitsOf d.digits).below_ten
  have fits {front : List Nat} (tens : ∀ e ∈ front, e < 10) (short : front.length ≤ 18) :
      digitsValue front ≤ maxWord := by
    have below := digitsValue_lt tens
    have word : 10 ^ front.length ≤ maxWord :=
      Nat.le_trans (Nat.pow_le_pow_right (by decide) short) (by decide)
    omega
  rcases ofDecimal_eq s isNegative d with written | ⟨zeros, -, written⟩ |
    ⟨whole, zeros, -, -, reach, padding, written⟩
  · rw [written]
    exact fits (fun e he => digits e (List.mem_of_mem_take he)) (by simp)
  · rw [written]
    exact Nat.zero_le maxWord
  · rw [written]
    refine fits (fun e he => ?_) (by simp; omega)
    rcases List.mem_append.1 (List.mem_of_mem_take he) with he | he
    · exact digits e he
    · rw [(List.mem_replicate.1 he).2]
      decide

/-- A positive decimal is written with no zero in front. -/
theorem isWritten_ofDecimal (positive : 0 < d.digits) : (ofDecimal s isNegative d).IsWritten := by
  obtain ⟨nonempty, digits, no_zero⟩ := isWhole_digitsOf d.digits
  obtain ⟨first, others, spelled⟩ := List.exists_cons_of_ne_nil nonempty
  have lead : first ≠ 0 := by
    rintro rfl
    have value := digitsValue_digitsOf d.digits
    rw [no_zero (by rw [spelled]; rfl)] at value
    exact absurd value (Nat.ne_of_lt positive)
  rw [spelled, List.forall_mem_cons] at digits
  have padded (zeros : Nat) : ∀ e ∈ others ++ List.replicate zeros 0, e < 10 := by
    intro e he
    rcases List.mem_append.1 he with he | he
    · exact digits.2 e he
    · rw [(List.mem_replicate.1 he).2]
      decide
  have front (rest : List Nat) (below : ∀ e ∈ rest, e < 10) : IsWhole (first :: rest) :=
    ⟨by simp, List.forall_mem_cons.2 ⟨digits.1, below⟩,
      fun zero => absurd (Option.some.inj zero) lead⟩
  rcases ofDecimal_eq s isNegative d with written | ⟨zeros, -, written⟩ |
    ⟨whole, zeros, some_whole, -, -, -, written⟩
  · rw [written, spelled]
    exact ⟨front [] (by simp), digits.2⟩
  · rw [written, spelled]
    refine ⟨⟨by simp, by simp, fun _ => rfl⟩, fun e he => ?_⟩
    rcases List.mem_append.1 he with he | he
    · rw [(List.mem_replicate.1 he).2]
      decide
    · exact (List.forall_mem_cons (p := (· < 10))).2 digits e he
  · rw [written, spelled]
    obtain ⟨more, rfl⟩ := Nat.exists_eq_add_of_lt some_whole
    rw [Nat.zero_add, List.cons_append, List.take_succ_cons, List.drop_succ_cons]
    exact ⟨front _ fun e he => padded zeros e (List.mem_of_mem_take he),
      fun e he => padded zeros e (List.mem_of_mem_drop he)⟩

end

/-! ### Patterns -/

/-- How a style is read again: what its format reaches is covered, and so is its greatest number,
which is looked at for itself. -/
structure Readable (s : Style) (limit top : Nat) : Prop where
  covers : ∃ small large, Covers limit top small large
  few : s.highest < 18
  range : s.format.grains (s.format.infinity - 2) + s.format.grains (s.format.infinity - 1) ≤
    2 * limit * 10 ^ s.format.depth
  greatest : ∀ isNegative, ∃ r,
    (ofDecimal s isNegative (s.format.shortest (s.format.infinity - 1))).doubleMagnitude? = some r ∧
      r ≤ top

theorem value_shortest_le {f : Format} {limit bits digits level : Nat}
    (range : f.grains (f.infinity - 2) + f.grains (f.infinity - 1) ≤ 2 * limit * 10 ^ f.depth)
    (h : bits + 1 < f.infinity) (between : f.Between bits (digits * 10 ^ level)) :
    (digits : ℚ) * 10 ^ ((level : Int) - f.depth) ≤ limit := by
  have lower := f.grains_mono (show bits ≤ f.infinity - 2 by omega)
  have upper := f.grains_mono (show bits + 1 ≤ f.infinity - 1 by omega)
  have grains : digits * 10 ^ level ≤ limit * 10 ^ f.depth := by
    have high := between.2
    have spread : 2 * limit * 10 ^ f.depth = 2 * (limit * 10 ^ f.depth) := Nat.mul_assoc ..
    omega
  rw [zpow_sub₀ (by norm_num), zpow_natCast, zpow_natCast, ← mul_div_assoc,
    div_le_iff₀ (by positivity)]
  exact_mod_cast grains

/-- **What is written for a pattern is a number, and is read as a finite one.** -/
theorem Readable.of_ofPattern? {s : Style} {limit top : Nat} (h : Readable s limit top) {bits : Nat}
    {n : Number} (written : ofPattern? s bits = some n) :
    n.IsWritten ∧ n.isInteger = false ∧ ∃ r, n.doubleMagnitude? = some r ∧ r ≤ top := by
  obtain ⟨small, large, covers⟩ := h.covers
  unfold ofPattern? at written
  dsimp only at written
  split at written
  · cases written
  · next finite =>
    split at written
    · obtain rfl := Option.some.inj written
      have zero : digitsValue [0] ≤ maxWord := Nat.zero_le _
      refine ⟨⟨⟨by simp, by simp, fun _ => rfl⟩, by simp⟩, rfl,
        exists_doubleMagnitude? covers zero rfl ?_⟩
      simp [value, digitsValue]
    · next positive =>
      obtain rfl := Option.some.inj written
      obtain ⟨digits, level, decimal, between⟩ :=
        s.format.shortest_between (bits % s.format.signWeight)
      have digits_pos : 0 < digits := by
        by_contra none
        have low := between.1
        have := s.format.grains_pos (Nat.pos_of_ne_zero positive)
        rw [show digits = 0 by omega] at low
        omega
      refine ⟨isWritten_ofDecimal _ _ _ (by rw [decimal]; exact digits_pos),
        isInteger_ofDecimal .., ?_⟩
      by_cases last : bits % s.format.signWeight + 1 < s.format.infinity
      · refine exists_doubleMagnitude? covers (whole_ofDecimal_le _ _ _ h.few)
          (isInteger_ofDecimal ..) ?_
        rw [value_ofDecimal, decimal]
        exact value_shortest_le h.range last between
      · rw [show bits % s.format.signWeight = s.format.infinity - 1 by omega]
        exact h.greatest _

theorem shortest_greatest_single :
    single.shortest (single.infinity - 1) = ⟨34028235, 31⟩ := by decide +kernel

theorem shortest_greatest_double :
    double.shortest (double.infinity - 1) = ⟨17976931348623157, 292⟩ := by decide +kernel

/-- The greatest pattern of a `double` that is read as a finite `float`. -/
def greatestSingle : Nat := double.round ((2 ^ 25 - 1) * 2 ^ 103) 1 - 1

/-- A decimal whose digits are all taken is read as their product with a power of ten. -/
theorem exists_doubleMagnitude?_ofDecimal {s : Style} {isNegative : Bool} {d : Decimal}
    {top significand k : Nat} (few : s.highest < 18)
    (read : (ofDecimal s isNegative d).leadingDigits.1 = significand ∧
      (ofDecimal s isNegative d).leadingPower = k)
    (reach : k ≤ 308) (finite : top < double.infinity)
    (below : double.mul (double.round significand 1) (double.round (10 ^ k) 1) ≤ top) :
    ∃ r, (ofDecimal s isNegative d).doubleMagnitude? = some r ∧ r ≤ top := by
  rw [doubleMagnitude?_eq (whole_ofDecimal_le _ _ _ few) (isInteger_ofDecimal ..), read.1, read.2,
    scale_natCast reach, if_pos (Nat.lt_of_le_of_lt below finite)]
  exact ⟨_, rfl, below⟩

theorem readable_single : Readable singleStyle ((2 ^ 25 - 3) * 2 ^ 103) greatestSingle := by
  refine ⟨⟨19, 39, by decide +kernel, by decide +kernel, by decide +kernel, by decide +kernel,
    by decide, by decide +kernel⟩, by decide, by decide +kernel, fun isNegative => ?_⟩
  show ∃ r, (ofDecimal _ _ (single.shortest (single.infinity - 1))).doubleMagnitude? = _ ∧ _
  rw [shortest_greatest_single]
  have read : (ofDecimal singleStyle isNegative ⟨34028235, 31⟩).leadingDigits.1 = 34028235 ∧
      (ofDecimal singleStyle isNegative ⟨34028235, 31⟩).leadingPower = (31 : Nat) := by
    cases isNegative <;> decide +kernel
  exact exists_doubleMagnitude?_ofDecimal (by decide) read (by decide) (by decide +kernel)
    (by decide +kernel)

theorem readable_double : Readable doubleStyle ((2 ^ 54 - 3) * 2 ^ 970) (double.infinity - 1) := by
  refine ⟨⟨288, 309, by decide +kernel, by decide +kernel, by decide +kernel, by decide +kernel,
    by decide, by decide +kernel⟩, by decide, by decide +kernel, fun isNegative => ?_⟩
  show ∃ r, (ofDecimal _ _ (double.shortest (double.infinity - 1))).doubleMagnitude? = _ ∧ _
  rw [shortest_greatest_double]
  have read :
      (ofDecimal doubleStyle isNegative ⟨17976931348623157, 292⟩).leadingDigits.1 =
        17976931348623157 ∧
      (ofDecimal doubleStyle isNegative ⟨17976931348623157, 292⟩).leadingPower = (292 : Nat) := by
    cases isNegative <;> decide +kernel
  exact exists_doubleMagnitude?_ofDecimal (by decide) read (by decide) (by decide +kernel)
    (by decide +kernel)

/-! ### Patterns with signs -/

/-- Whatever is read as a `double` is finite. -/
theorem isFinite_of_toDouble? {n : Number} {bits : UInt64} (h : n.toDouble? = some bits) :
    double.IsFinite bits.toNat := by
  obtain ⟨r, read, rfl⟩ := Option.map_eq_some_iff.1 h
  have finite := lt_of_doubleMagnitude? read
  have small : double.withSign n.isNegative r < 2 ^ 64 := Format.withSign_lt finite n.isNegative
  rw [Format.IsFinite, UInt64.toNat_ofNat_of_lt' small, Format.withSign_mod finite]
  exact finite

variable {s : Style} {limit top bits : Nat} {n : Number}

theorem Readable.exists_toDouble? (h : Readable s limit top) (written : ofPattern? s bits = some n) :
    ∃ r, n.toDouble? = some r := by
  obtain ⟨-, -, r, read, -⟩ := h.of_ofPattern? written
  exact ⟨_, by rw [toDouble?, read]; rfl⟩

/-- A `float` that was written is read as a finite one. -/
theorem exists_toSingle? (written : ofPattern? singleStyle bits = some n) :
    ∃ r, n.toSingle? = some r ∧ single.IsFinite r.toNat := by
  obtain ⟨-, broken, r, read, below⟩ := readable_single.of_ofPattern? written
  have finite : narrow r < single.infinity :=
    Nat.lt_of_le_of_lt (narrow_mono below) (by decide +kernel)
  have small : single.withSign n.isNegative (narrow r) < 2 ^ 32 :=
    Format.withSign_lt finite n.isNegative
  refine ⟨.ofNat (single.withSign n.isNegative (narrow r)), ?_, ?_⟩
  · rw [toSingle?, broken, read]
    rfl
  · rw [Format.IsFinite, UInt32.toNat_ofNat_of_lt' small, Format.withSign_mod finite]
    exact finite

theorem exists_of_isFinite (h : s.format.IsFinite bits) : ∃ n, ofPattern? s bits = some n := by
  unfold ofPattern?
  dsimp only
  rw [if_neg (Nat.not_le_of_lt h)]
  split
  · exact ⟨_, rfl⟩
  · exact ⟨_, rfl⟩

end Number

end Pseudonym.Json
