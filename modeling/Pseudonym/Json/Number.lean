import Pseudonym.Binary.Shortest
import Pseudonym.Json.Value

/-!
# The meaning of JSON numbers

A number without point and exponent is an integer. Every number also has a floating point value:
integers of up to 64 bits are rounded once; of other numbers the leading digits that fit into 64
bits are rounded, and then the result is multiplied or divided by powers of ten. That is not always
the nearest number, but it is the value that all readers of a class agree on. Written numbers are
shortest decimals; a `Style` says which ones are written with a point.
-/

namespace Pseudonym.Json

open Binary

/-- The digits of a number, most significant first. -/
def digitsOf (n : Nat) : List Nat := (Nat.toDigits 10 n).map fun c => c.toNat - '0'.toNat

/-- The largest number of 64 bits. -/
def maxWord : Nat := 0xFFFFFFFFFFFFFFFF

/-- Appends digits to a number as long as it fits into 64 bits, and gives the digits left over. -/
def takeDigits (n : Nat) : List Nat → Nat × List Nat
  | [] => (n, [])
  | d :: ds => if n * 10 + d ≤ maxWord then takeDigits (n * 10 + d) ds else (n, d :: ds)

/-- A magnitude times a power of ten, or `none` beyond all finite numbers. Powers beyond the largest
one that is finite are divided off in steps. -/
def scale (bits : Nat) (exponent : Int) : Option Nat :=
  if exponent.natAbs ≤ 308 then
    let power := double.round (Nat.pow 10 exponent.natAbs) 1
    if 0 ≤ exponent then
      let product := double.mul bits power
      if product < double.infinity then some product else none
    else some (double.div bits power)
  else if bits = 0 then some 0
  else if 0 ≤ exponent then none
  else scale (double.div bits (double.round (Nat.pow 10 308) 1)) (exponent + 308)
termination_by exponent.natAbs

/-- How floating point numbers are written: with a point if their first digit counts powers of ten
from `lowest` to `highest`, with an exponent otherwise. -/
structure Style where
  /-- The format of the numbers. -/
  format : Format
  /-- The least power of ten of a first digit that is written with a point. -/
  lowest : Int
  /-- The greatest one. -/
  highest : Int

/-- A `float` is written with a point from `0.000001` up to thirteen digits in front of it. -/
def singleStyle : Style := ⟨single, -6, 12⟩

/-- A `double` is written with a point from `0.00001` up to sixteen digits in front of the point. -/
def doubleStyle : Style := ⟨double, -5, 15⟩

namespace Number

/-- Whether the number is written as an integer. -/
def isInteger (n : Number) : Bool := n.fraction.isEmpty && n.exponent.isNone

/-- The magnitude of an integer. -/
def magnitude (n : Number) : Nat := digitsValue n.whole

/-- The integer that is written, if it is one and no negative zero. -/
def toInt? (n : Number) : Option Int :=
  if n.isInteger then
    if n.isNegative then
      if n.magnitude = 0 then none else some (-n.magnitude)
    else some n.magnitude
  else none

/-- The `double` pattern of the magnitude, if it is finite. -/
def doubleMagnitude? (n : Number) : Option Nat :=
  if n.isInteger && n.magnitude ≤ maxWord then some (double.round n.magnitude 1)
  else
    let (whole, dropped) := takeDigits 0 n.whole
    let (significand, rest) := takeDigits whole n.fraction
    let taken := n.fraction.length - rest.length
    scale (double.round significand 1) (n.exponent.getD 0 + dropped.length - taken)

/-- The `double` that a number stands for, by its bits. -/
def toDouble? (n : Number) : Option UInt64 :=
  n.doubleMagnitude?.map fun bits => .ofNat (double.withSign n.isNegative bits)

/-- The `float` that a number stands for, by its bits. Integers of 64 bits are rounded once, other
numbers are read as a `double` first. -/
def toSingle? (n : Number) : Option UInt32 :=
  let limit := if n.isNegative then 0x8000000000000000 else maxWord
  let bits :=
    if n.isInteger && n.magnitude ≤ limit then some (single.round n.magnitude 1)
    else n.doubleMagnitude?.map narrow
  bits.map fun bits => .ofNat (single.withSign n.isNegative bits)

/-- The number of an integer. -/
def ofInt (i : Int) : Number := ⟨i < 0, digitsOf i.natAbs, [], none⟩

/-- The number of a decimal with a sign. -/
def ofDecimal (s : Style) (isNegative : Bool) (d : Decimal) : Number :=
  let digits := digitsOf d.digits
  let leading := d.exponent + digits.length - 1
  if leading < s.lowest || s.highest < leading then
    ⟨isNegative, digits.take 1, digits.drop 1, some leading⟩
  else if leading < 0 then
    ⟨isNegative, [0], List.replicate (leading.natAbs - 1) 0 ++ digits, none⟩
  else
    let whole := leading.natAbs + 1
    let padded := digits ++ List.replicate (whole + 1 - digits.length) 0
    ⟨isNegative, padded.take whole, padded.drop whole, none⟩

/-- The number of a floating point pattern, unless it is infinite or not a number. -/
def ofPattern? (s : Style) (bits : Nat) : Option Number :=
  let isNegative := s.format.signWeight ≤ bits
  let magnitude := bits % s.format.signWeight
  if s.format.infinity ≤ magnitude then none
  else if magnitude = 0 then some ⟨isNegative, [0], [0], none⟩
  else some (ofDecimal s isNegative (s.format.shortest magnitude))

end Number

end Pseudonym.Json
