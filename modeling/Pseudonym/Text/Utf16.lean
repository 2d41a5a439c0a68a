/-!
# UTF-16 code units

A character is one 16-bit unit, or a pair of surrogates if it lies beyond the basic plane. Reading
units back refuses a surrogate that has no partner.
-/

namespace Pseudonym.Text

/-- The units of a character. -/
def units (c : Char) : List UInt16 :=
  let n := c.toNat
  if n < 0x10000 then [UInt16.ofNat n]
  else [UInt16.ofNat (0xD800 + (n - 0x10000) / 0x400), UInt16.ofNat (0xDC00 + (n - 0x10000) % 0x400)]

/-- Whether a unit opens a surrogate pair. -/
def isLeadingSurrogate (u : UInt16) : Bool := 0xD800 ≤ u && u < 0xDC00

/-- Whether a unit closes a surrogate pair. -/
def isTrailingSurrogate (u : UInt16) : Bool := 0xDC00 ≤ u && u < 0xE000

/-- The character of a surrogate pair. -/
def ofSurrogates (leading trailing : UInt16) : Char :=
  Char.ofNat (0x10000 + (leading.toNat - 0xD800) * 0x400 + (trailing.toNat - 0xDC00))

/-- The text that a list of units spells, unless a surrogate stands alone. -/
def ofUnits? : List UInt16 → Option (List Char)
  | [] => some []
  | [u] =>
    if isLeadingSurrogate u || isTrailingSurrogate u then none else some [Char.ofNat u.toNat]
  | u :: v :: rest =>
    if isLeadingSurrogate u then
      if isTrailingSurrogate v then (ofUnits? rest).map (ofSurrogates u v :: ·) else none
    else if isTrailingSurrogate u then none
    else (ofUnits? (v :: rest)).map (Char.ofNat u.toNat :: ·)

end Pseudonym.Text
