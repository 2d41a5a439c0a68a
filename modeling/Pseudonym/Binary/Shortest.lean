import Pseudonym.Binary.Format

/-!
# Shortest decimals

The decimal for a floating point number is the shortest one that reads back to it, and among the
shortest ones the nearest, with ties to the even digit. A decimal reads back to a number if it lies
between the midpoints to the neighbours, midpoints included for even patterns. One unit is a
multiple of ten to the power of minus `depth`, so all these decimals are found among natural
numbers: the coarsest power of ten that has a multiple between the midpoints gives the fewest
digits.
-/

namespace Pseudonym.Binary

/-- A decimal: some digits times a power of ten. -/
structure Decimal where
  /-- The digits as a number. -/
  digits : Nat
  /-- The power of ten. -/
  exponent : Int
deriving DecidableEq, Repr

namespace Format

variable (f : Format)

/-- The value of a pattern in multiples of ten to the power of minus `depth`. -/
def grains (bits : Nat) : Nat := f.units bits * Nat.pow 5 f.depth

/-- Whether a number of grains reads back to a positive pattern. -/
def readsBack (bits grains : Nat) : Bool :=
  let low := f.grains (bits - 1) + f.grains bits
  let high := f.grains bits + f.grains (bits + 1)
  if bits % 2 = 0 then low ≤ 2 * grains && 2 * grains ≤ high
  else low < 2 * grains && 2 * grains < high

/-- Of the two multiples of ten to the power of `level` around a pattern the nearer one that reads
back, divided by that power. -/
def nearest? (bits level : Nat) : Option Nat :=
  let step := Nat.pow 10 level
  let below := f.grains bits / step
  let rest := f.grains bits % step
  match f.readsBack bits (below * step), f.readsBack bits ((below + 1) * step) with
  | true, true =>
    if 2 * rest < step then some below
    else if step < 2 * rest then some (below + 1)
    else some (below + below % 2)
  | true, false => some below
  | false, true => some (below + 1)
  | false, false => none

/-- The coarsest level up to the given one that has a multiple that reads back, and the multiple. -/
def coarsest (bits : Nat) : Nat → Nat × Nat
  | 0 => (f.grains bits, 0)
  | level + 1 =>
    match f.nearest? bits (level + 1) with
    | some digits => (digits, level + 1)
    | none => coarsest bits level

/-- The shortest decimal of a positive pattern. -/
def shortest (bits : Nat) : Decimal :=
  let (digits, level) := f.coarsest bits ((f.grains bits).log2 / 3 + 1)
  ⟨digits, level - f.depth⟩

end Format

end Pseudonym.Binary
