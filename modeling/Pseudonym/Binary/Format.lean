/-!
# Binary floating point

The formats of `float` and `double`. The numbers of a format are multiples of its unit, the smallest
positive number, and a bit pattern without its sign counts them upwards: `Format.units` says how
many units a pattern stands for. `Format.round` finds the pattern of a fraction, with ties to the
even pattern. Everything is computed on natural numbers.
-/

namespace Pseudonym.Binary

/-- A floating point format, by the widths of its two fields. -/
structure Format where
  /-- The number of exponent bits. -/
  exponentBits : Nat
  /-- The number of fraction bits. -/
  fractionBits : Nat

/-- The format of `float`. -/
def single : Format := ⟨8, 23⟩

/-- The format of `double`. -/
def double : Format := ⟨11, 52⟩

/-- The quotient rounded to the nearest integer, with ties to the even one. -/
def divNearest (num den : Nat) : Nat :=
  let q := num / den
  let r := num % den
  if 2 * r < den then q
  else if den < 2 * r then q + 1
  else q + q % 2

namespace Format

variable (f : Format)

/-- The unit is two to the power of minus `depth`. -/
def depth : Nat := Nat.pow 2 (f.exponentBits - 1) - 2 + f.fractionBits

/-- The pattern of the infinity. All patterns below are numbers. -/
def infinity : Nat := (Nat.pow 2 f.exponentBits - 1) * Nat.pow 2 f.fractionBits

/-- The weight of the sign bit. -/
def signWeight : Nat := Nat.pow 2 (f.exponentBits + f.fractionBits)

/-- The value of a pattern in units. -/
def units (bits : Nat) : Nat :=
  let hidden := Nat.pow 2 f.fractionBits
  let scale := bits / hidden
  if scale = 0 then bits else (bits % hidden + hidden) * Nat.pow 2 (scale - 1)

/-- The pattern nearest to a fraction. Fractions beyond all numbers become the infinity. -/
def round (num den : Nat) : Nat :=
  let scaled := num * Nat.pow 2 f.depth
  let shift := (scaled / den).log2 - f.fractionBits
  min f.infinity (shift * Nat.pow 2 f.fractionBits + divNearest scaled (den * Nat.pow 2 shift))

/-- The pattern of the product of two numbers. -/
def mul (a b : Nat) : Nat := f.round (f.units a * f.units b) (Nat.pow 2 (2 * f.depth))

/-- The pattern of the quotient of two numbers. -/
def div (a b : Nat) : Nat := f.round (f.units a) (f.units b)

/-- The pattern with a sign. -/
def withSign (isNegative : Bool) (bits : Nat) : Nat :=
  if isNegative then f.signWeight + bits else bits

end Format

/-- The `float` pattern nearest to a `double` pattern. -/
def narrow (bits : Nat) : Nat :=
  if double.infinity ≤ bits then single.infinity
  else single.round (double.units bits) (Nat.pow 2 double.depth)

end Pseudonym.Binary
