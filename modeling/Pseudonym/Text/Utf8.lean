/-!
# UTF-8

Offsets in messages count bytes, and class documents arrive as bytes. A document is read as a list
of symbols: the characters it spells, and `none` for each byte that belongs to no character.
-/

namespace Pseudonym.Text

/-- The number of bytes of a text. -/
def byteLength (text : List Char) : Nat := text.foldr (fun c n => c.utf8Size + n) 0

@[simp] theorem byteLength_nil : byteLength [] = 0 := rfl

@[simp] theorem byteLength_cons (c : Char) (text : List Char) :
    byteLength (c :: text) = c.utf8Size + byteLength text := rfl

@[simp] theorem byteLength_append (a b : List Char) :
    byteLength (a ++ b) = byteLength a + byteLength b := by
  induction a with
  | nil => simp
  | cons c a ih => rw [List.cons_append, byteLength_cons, byteLength_cons, ih, Nat.add_assoc]

/-- A character, or a byte that belongs to none. -/
abbrev Symbol := Option Char

/-- The symbols from position `at` on, character by character; a byte that starts no character
counts alone. -/
def symbolsFrom (bytes : ByteArray) (start : Nat) : List Symbol :=
  if _h : start < bytes.size then
    match bytes.utf8DecodeChar? start with
    | some c => some c :: symbolsFrom bytes (start + c.utf8Size)
    | none => none :: symbolsFrom bytes (start + 1)
  else []
termination_by bytes.size - start
decreasing_by
  · have := c.utf8Size_pos
    omega
  · omega

/-- The symbols of a byte string. -/
def symbols (bytes : ByteArray) : List Symbol :=
  match String.fromUTF8? bytes with
  | some text => text.toList.map some
  | none => symbolsFrom bytes 0

end Pseudonym.Text
