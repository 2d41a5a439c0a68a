import Mathlib.Data.String.Basic
import Pseudonym.Proofs.Utf8

/-!
# The order of texts

Texts are sorted by their characters. Sorting them by their bytes gives the same order: of two
different characters the lesser one is written in lesser bytes, and what follows them makes no
difference (`utf8EncodeChar_append_lt`), so

    utf8 text < utf8 text'  ↔  text < text'.
-/

namespace Pseudonym.Text

variable {c d : Char} {text text' : List Char} {a b : String}

/-- **A lesser character is written in lesser bytes**, whatever comes after it. -/
theorem utf8EncodeChar_append_lt (h : c < d) (rest rest' : List UInt8) :
    String.utf8EncodeChar c ++ rest < String.utf8EncodeChar d ++ rest' := by
  have less : c.val.toNat < d.val.toNat := h
  have bound : d.val.toNat < 0x110000 := by
    rcases d.valid with low | ⟨-, high⟩
    · exact Nat.lt_trans low (by decide)
    · exact high
  unfold String.utf8EncodeChar
  generalize c.val.toNat = m at less ⊢
  generalize d.val.toNat = n at less bound ⊢
  have digits (k : Nat) : k / 4096 = k / 64 / 64 ∧ k / 262144 = k / 64 / 64 / 64 := by
    simp only [Nat.div_div_eq_div_mul, and_self]
  -- The first byte tells how many there are, and more bytes make a greater first byte.
  dsimp only
  simp only [digits]
  split_ifs <;>
    simp only [List.cons_append, List.nil_append, List.cons_lt_cons_iff, UInt8.lt_iff_toNat_lt,
      ← UInt8.toNat_inj, UInt8.toNat_ofNat'] <;>
    omega

theorem utf8_lt_of_lt (h : text < text') : utf8 text < utf8 text' := by
  induction h with
  | nil =>
    obtain ⟨b, others, written⟩ := exists_utf8EncodeChar ‹_›
    rw [utf8_cons, written]
    exact List.nil_lt_cons _ _
  | cons _ ih =>
    rw [utf8_cons, utf8_cons]
    exact List.append_left_lt ih
  | rel h =>
    rw [utf8_cons, utf8_cons]
    exact utf8EncodeChar_append_lt h _ _

/-- **Bytes are ordered like characters.** -/
theorem utf8_lt_iff : utf8 text < utf8 text' ↔ text < text' := by
  refine ⟨fun h => ?_, utf8_lt_of_lt⟩
  rcases lt_trichotomy text text' with less | rfl | greater
  · exact less
  · exact absurd h (List.lt_irrefl _)
  · exact absurd h (List.lt_asymm (utf8_lt_of_lt greater))

/-- Whether a text comes before another one, byte by byte. -/
def Before (a b : String) : Prop := utf8 a.toList < utf8 b.toList

theorem before_iff : Before a b ↔ a < b := utf8_lt_iff.trans String.lt_iff_toList_lt.symm

theorem compare_eq_lt_iff_before : compare a b = .lt ↔ Before a b :=
  compare_lt_iff_lt.trans before_iff.symm

end Pseudonym.Text
