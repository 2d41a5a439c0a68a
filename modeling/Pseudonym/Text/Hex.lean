/-!
# Hexadecimal digits

Escapes spell a 16-bit word with four hexadecimal digits. Tokens know the lower case digits only;
class documents read both cases and write the lower one.
-/

namespace Pseudonym.Text

/-- The digit of a value below sixteen, in lower case. -/
abbrev hexDigit (n : Nat) : Char := n.digitChar

/-- The value of a lower case digit. -/
def lowerHexValue? (c : Char) : Option Nat :=
  if '0' ≤ c ∧ c ≤ '9' then some (c.toNat - 48)
  else if 'a' ≤ c ∧ c ≤ 'f' then some (c.toNat - 87)
  else none

/-- The value of a digit of either case. -/
def hexValue? (c : Char) : Option Nat :=
  if 'A' ≤ c ∧ c ≤ 'F' then some (c.toNat - 55) else lowerHexValue? c

/-- The four digits of a 16-bit word. -/
def hexWord (w : UInt16) : List Char :=
  let n := w.toNat
  [hexDigit (n / 4096 % 16), hexDigit (n / 256 % 16), hexDigit (n / 16 % 16), hexDigit (n % 16)]

/-- The word that four digits spell, each read by `value?`. -/
def wordOfHex? (value? : Char → Option Nat) (a b c d : Char) : Option UInt16 :=
  match value? a, value? b, value? c, value? d with
  | some i, some j, some k, some l => some (UInt16.ofNat (((i * 16 + j) * 16 + k) * 16 + l))
  | _, _, _, _ => none

theorem lowerHexValue?_hexDigit : ∀ n < 16, lowerHexValue? (hexDigit n) = some n := by decide

theorem hexValue?_hexDigit : ∀ n < 16, hexValue? (hexDigit n) = some n := by decide

theorem wordOfHex?_hexWord {value? : Char → Option Nat}
    (h : ∀ n < 16, value? (hexDigit n) = some n) (w : UInt16) :
    wordOfHex? value? (hexDigit (w.toNat / 4096 % 16)) (hexDigit (w.toNat / 256 % 16))
      (hexDigit (w.toNat / 16 % 16)) (hexDigit (w.toNat % 16)) = some w := by
  have hw : w.toNat < 65536 := w.toNat_lt
  simp only [wordOfHex?, h _ (Nat.mod_lt _ (by decide : 16 > 0))]
  have : ((w.toNat / 4096 % 16 * 16 + w.toNat / 256 % 16) * 16 + w.toNat / 16 % 16) * 16 +
      w.toNat % 16 = w.toNat := by omega
  simp [this]

end Pseudonym.Text
