import Mathlib.Algebra.Order.Ring.Nat
import Mathlib.Tactic.Linarith
import Mathlib.Tactic.Ring
import Pseudonym.Binary.Format

/-!
# Rounding keeps the order

A greater number has no smaller pattern, and a greater pattern stands for no smaller number,

    n / d ≤ n' / d'  →  round n d ≤ round n' d',      a ≤ b  →  units a ≤ units b.

So everything that is computed from patterns keeps the order as well: products, quotients and the
change to the narrower format. What is known of the end of a range is known of all of it: a product
is finite if the greatest one that it may be is.
-/

namespace Pseudonym.Binary

/-! ### Nearest integers -/

/-- The nearest integer is at most one half away, and is even if it is exactly one half away. -/
theorem divNearest_spec (num : Nat) {den : Nat} (hd : 0 < den) :
    2 * (divNearest num den * den) ≤ 2 * num + den ∧
      2 * num ≤ 2 * (divNearest num den * den) + den ∧
      (2 * (divNearest num den * den) = 2 * num + den ∨
        2 * num = 2 * (divNearest num den * den) + den → divNearest num den % 2 = 0) := by
  have split : num / den * den + num % den = num := Nat.div_add_mod' num den
  have rest : num % den < den := Nat.mod_lt num hd
  have next : (num / den + 1) * den = num / den * den + den := Nat.succ_mul ..
  simp only [divNearest]
  split
  · exact ⟨by omega, by omega, by omega⟩
  · split
    · rw [next]
      exact ⟨by omega, by omega, by omega⟩
    · rcases Nat.mod_two_eq_zero_or_one (num / den) with even | odd
      · rw [even, Nat.add_zero]
        exact ⟨by omega, by omega, fun _ => even⟩
      · rw [odd, next]
        exact ⟨by omega, by omega, fun _ => by omega⟩

theorem divNearest_mono {num den num' den' : Nat} (hd : 0 < den) (hd' : 0 < den')
    (h : num * den' ≤ num' * den) : divNearest num den ≤ divNearest num' den' := by
  obtain ⟨low, -, even⟩ := divNearest_spec num hd
  obtain ⟨-, high, even'⟩ := divNearest_spec num' hd'
  generalize divNearest num den = q at *
  generalize divNearest num' den' = q' at *
  by_contra above
  -- Both are one half away from the fractions, so both are even, and there is one between them.
  have positive : 0 < den * den' := Nat.mul_pos hd hd'
  have apart : (q' + 1) * (den * den') ≤ q * (den * den') := Nat.mul_le_mul_right _ (by omega)
  have low' : 2 * (q * den) * den' ≤ (2 * num + den) * den' := Nat.mul_le_mul_right _ low
  have high' : 2 * num' * den ≤ (2 * (q' * den') + den') * den := Nat.mul_le_mul_right _ high
  have next : q = q' + 1 := by nlinarith
  have tie : 2 * (q * den) = 2 * num + den := by
    refine Nat.le_antisymm low (Nat.le_of_mul_le_mul_right ?_ hd')
    nlinarith
  have tie' : 2 * num' = 2 * (q' * den') + den' := by
    refine Nat.le_antisymm high (Nat.le_of_mul_le_mul_right ?_ hd)
    nlinarith
  have := even (Or.inl tie)
  have := even' (Or.inr tie')
  omega

theorem divNearest_le {num den k : Nat} (hd : 0 < den) (h : num ≤ k * den) :
    divNearest num den ≤ k := by
  have whole : divNearest (k * den) den = k := by
    have two : 0 < den := hd
    simp only [divNearest, Nat.mul_div_cancel k hd, Nat.mul_mod_left]
    rw [if_pos (by omega)]
  rw [← whole]
  exact divNearest_mono hd hd (Nat.mul_le_mul_right _ h)

theorem le_divNearest {num den k : Nat} (hd : 0 < den) (h : k * den ≤ num) :
    k ≤ divNearest num den := by
  refine Nat.le_trans ((Nat.le_div_iff_mul_le hd).2 h) ?_
  simp only [divNearest]
  split
  · exact Nat.le_refl _
  · split
    · exact Nat.le_succ _
    · exact Nat.le_add_right _ _

namespace Format

variable (f : Format)

/-! ### Rounding -/

/-- How far a number is shifted to the right before it is rounded. -/
def shift (n : Nat) : Nat := n.log2 - f.fractionBits

/-- What is shifted fits into the fraction with its hidden bit. -/
theorem lt_shift (n : Nat) : n < 2 * 2 ^ f.fractionBits * 2 ^ f.shift n := by
  have below : n < 2 ^ (n.log2 + 1) := Nat.lt_log2_self
  refine Nat.lt_of_lt_of_le below ?_
  rw [shift, ← Nat.pow_succ', ← Nat.pow_add]
  exact Nat.pow_le_pow_right (by decide) (by omega)

/-- What is shifted fills the fraction with its hidden bit. -/
theorem shift_le {n : Nat} (h : 0 < f.shift n) : 2 ^ f.fractionBits * 2 ^ f.shift n ≤ n := by
  have positive : n ≠ 0 := by
    rintro rfl
    simp [shift] at h
  rw [← Nat.pow_add, show f.fractionBits + f.shift n = n.log2 by unfold shift at *; omega]
  exact Nat.log2_self_le positive

theorem shift_mono {n n' : Nat} (h : n ≤ n') : f.shift n ≤ f.shift n' := by
  rcases Nat.eq_zero_or_pos n with rfl | positive
  · simp [shift]
  · have := (Nat.le_log2 (by omega)).2 (Nat.le_trans (Nat.log2_self_le (by omega)) h)
    unfold shift
    omega

/-- A fraction of units in the format, before the patterns are cut off at the infinity. -/
def roundUnits (num den : Nat) : Nat :=
  f.shift (num / den) * 2 ^ f.fractionBits + divNearest num (den * 2 ^ f.shift (num / den))

theorem round_eq (num den : Nat) :
    f.round num den = min f.infinity (f.roundUnits (num * 2 ^ f.depth) den) := rfl

theorem roundUnits_mono {num den num' den' : Nat} (hd : 0 < den) (hd' : 0 < den')
    (h : num * den' ≤ num' * den) : f.roundUnits num den ≤ f.roundUnits num' den' := by
  have quotients : num / den ≤ num' / den' := by
    rw [Nat.le_div_iff_mul_le hd']
    refine Nat.le_of_mul_le_mul_right ?_ hd
    calc num / den * den' * den = num / den * den * den' := by ring
      _ ≤ num * den' := Nat.mul_le_mul_right _ (Nat.div_mul_le_self num den)
      _ ≤ num' * den := h
  have shifts := f.shift_mono quotients
  have scaled : 0 < den * 2 ^ f.shift (num / den) := Nat.mul_pos hd (Nat.two_pow_pos _)
  have scaled' : 0 < den' * 2 ^ f.shift (num' / den') := Nat.mul_pos hd' (Nat.two_pow_pos _)
  unfold roundUnits
  rcases Nat.eq_or_lt_of_le shifts with same | less
  · rw [← same] at scaled' ⊢
    refine Nat.add_le_add_left (divNearest_mono scaled scaled' ?_) _
    calc num * (den' * 2 ^ f.shift (num / den)) = num * den' * 2 ^ f.shift (num / den) := by ring
      _ ≤ num' * den * 2 ^ f.shift (num / den) := Nat.mul_le_mul_right _ h
      _ = num' * (den * 2 ^ f.shift (num / den)) := by ring
  · -- The lower fraction is rounded to twice the hidden bit at most, the higher one to the hidden
    -- bit at least.
    have below : divNearest num (den * 2 ^ f.shift (num / den)) ≤ 2 * 2 ^ f.fractionBits := by
      refine divNearest_le scaled ?_
      calc num ≤ (num / den + 1) * den := Nat.le_of_lt (Nat.lt_mul_of_div_lt (Nat.lt_succ_self _) hd)
        _ ≤ 2 * 2 ^ f.fractionBits * 2 ^ f.shift (num / den) * den :=
          Nat.mul_le_mul_right _ (f.lt_shift _)
        _ = 2 * 2 ^ f.fractionBits * (den * 2 ^ f.shift (num / den)) := by ring
    have above : 2 ^ f.fractionBits ≤ divNearest num' (den' * 2 ^ f.shift (num' / den')) := by
      refine le_divNearest scaled' ?_
      calc 2 ^ f.fractionBits * (den' * 2 ^ f.shift (num' / den'))
          = 2 ^ f.fractionBits * 2 ^ f.shift (num' / den') * den' := by ring
        _ ≤ num' / den' * den' := Nat.mul_le_mul_right _ (f.shift_le (by omega))
        _ ≤ num' := Nat.div_mul_le_self num' den'
    have steps : (f.shift (num / den) + 1) * 2 ^ f.fractionBits ≤
        f.shift (num' / den') * 2 ^ f.fractionBits := Nat.mul_le_mul_right _ less
    rw [Nat.succ_mul] at steps
    omega

/-- **Rounding keeps the order.** -/
theorem round_mono {num den num' den' : Nat} (hd : 0 < den) (hd' : 0 < den')
    (h : num * den' ≤ num' * den) : f.round num den ≤ f.round num' den' := by
  rw [round_eq, round_eq]
  have scaled : num * 2 ^ f.depth * den' ≤ num' * 2 ^ f.depth * den := by
    calc num * 2 ^ f.depth * den' = num * den' * 2 ^ f.depth := by ring
      _ ≤ num' * den * 2 ^ f.depth := Nat.mul_le_mul_right _ h
      _ = num' * 2 ^ f.depth * den := by ring
  have := f.roundUnits_mono hd hd' scaled
  omega

/-! ### Values -/

theorem units_eq (bits : Nat) : f.units bits =
    if bits / 2 ^ f.fractionBits = 0 then bits
    else (bits % 2 ^ f.fractionBits + 2 ^ f.fractionBits) *
      2 ^ (bits / 2 ^ f.fractionBits - 1) := rfl

theorem units_mono {a b : Nat} (h : a ≤ b) : f.units a ≤ f.units b := by
  rw [units_eq, units_eq]
  have positive : 0 < 2 ^ f.fractionBits := Nat.two_pow_pos _
  have scales : a / 2 ^ f.fractionBits ≤ b / 2 ^ f.fractionBits := Nat.div_le_div_right h
  have split_a := Nat.div_add_mod a (2 ^ f.fractionBits)
  have split_b := Nat.div_add_mod b (2 ^ f.fractionBits)
  have rest : a % 2 ^ f.fractionBits < 2 ^ f.fractionBits := Nat.mod_lt a positive
  generalize 2 ^ f.fractionBits = hidden at *
  generalize a / hidden = scale at *
  generalize b / hidden = scale' at *
  rcases Nat.eq_or_lt_of_le scales with same | less
  · rw [← same] at split_b ⊢
    split
    · exact h
    · exact Nat.mul_le_mul_right _ (by omega)
  · -- The lower value is below the next power of two, which the higher one reaches.
    rw [if_neg (show scale' ≠ 0 by omega)]
    have reached : hidden * 2 ^ (scale' - 1) ≤ (b % hidden + hidden) * 2 ^ (scale' - 1) :=
      Nat.mul_le_mul_right _ (by omega)
    refine Nat.le_trans ?_ reached
    split
    · next subnormal =>
      rw [subnormal] at split_a
      calc a ≤ hidden * 1 := by omega
        _ ≤ hidden * 2 ^ (scale' - 1) := Nat.mul_le_mul_left _ (Nat.two_pow_pos _)
    · calc (a % hidden + hidden) * 2 ^ (scale - 1)
          ≤ (2 * hidden) * 2 ^ (scale - 1) := Nat.mul_le_mul_right _ (by omega)
        _ = hidden * 2 ^ (scale - 1 + 1) := by rw [Nat.pow_succ]; ring
        _ ≤ hidden * 2 ^ (scale' - 1) :=
          Nat.mul_le_mul_left _ (Nat.pow_le_pow_right (by decide) (by omega))

theorem units_pos {bits : Nat} (h : 0 < bits) : 0 < f.units bits := by
  rw [units_eq]
  split
  · exact h
  · exact Nat.mul_pos (Nat.add_pos_right _ (Nat.two_pow_pos _)) (Nat.two_pow_pos _)

/-! ### Arithmetic -/

theorem one_pos : 0 < Nat.pow 2 f.depth := Nat.two_pow_pos _

theorem mul_mono {a b a' b' : Nat} (ha : a ≤ a') (hb : b ≤ b') : f.mul a b ≤ f.mul a' b' := by
  have positive : 0 < Nat.pow 2 (2 * f.depth) := Nat.two_pow_pos _
  refine f.round_mono positive positive (Nat.mul_le_mul_right _ ?_)
  exact Nat.mul_le_mul (f.units_mono ha) (f.units_mono hb)

/-- A quotient by one or more is no greater than what is divided. -/
theorem div_le {a b c : Nat} (h : a ≤ c) (hb : 2 ^ f.depth ≤ f.units b) :
    f.div a b ≤ f.round (f.units c) (2 ^ f.depth) :=
  f.round_mono (Nat.lt_of_lt_of_le f.one_pos hb) f.one_pos
    (Nat.mul_le_mul (f.units_mono h) hb)

/-! ### Signs -/

/-- Whether a pattern stands for a number, whatever its sign. -/
def IsFinite (bits : Nat) : Prop := bits % f.signWeight < f.infinity

instance (bits : Nat) : Decidable (f.IsFinite bits) := inferInstanceAs (Decidable (_ < _))

theorem infinity_lt_signWeight : f.infinity < f.signWeight := by
  show (2 ^ f.exponentBits - 1) * 2 ^ f.fractionBits < 2 ^ (f.exponentBits + f.fractionBits)
  rw [Nat.pow_add]
  exact Nat.mul_lt_mul_of_pos_right (Nat.sub_lt (Nat.two_pow_pos _) Nat.one_pos)
    (Nat.two_pow_pos _)

variable {f}

theorem withSign_mod {bits : Nat} (h : bits < f.infinity) (isNegative : Bool) :
    f.withSign isNegative bits % f.signWeight = bits := by
  have small := Nat.lt_trans h f.infinity_lt_signWeight
  cases isNegative with
  | true =>
    show (f.signWeight + bits) % f.signWeight = bits
    rw [Nat.add_mod_left, Nat.mod_eq_of_lt small]
  | false => exact Nat.mod_eq_of_lt small

theorem withSign_lt {bits : Nat} (h : bits < f.infinity) (isNegative : Bool) :
    f.withSign isNegative bits < 2 * f.signWeight := by
  have small := Nat.lt_trans h f.infinity_lt_signWeight
  unfold withSign
  split
  · omega
  · omega

end Format

theorem narrow_mono {a b : Nat} (h : a ≤ b) : narrow a ≤ narrow b := by
  unfold narrow
  split
  · rw [if_pos (by omega)]
  · split
    · exact Nat.min_le_left _ _
    · exact single.round_mono double.one_pos double.one_pos
        (Nat.mul_le_mul_right _ (double.units_mono h))

end Pseudonym.Binary
