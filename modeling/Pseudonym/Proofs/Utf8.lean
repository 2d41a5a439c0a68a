import Mathlib.Data.List.Basic
import Pseudonym.Text.Utf8

/-!
# Texts as bytes

A reader that looks at bytes sees the same as one that looks at characters, as long as it looks for
ASCII characters only: no byte of any other character is the byte of an ASCII character
(`reflects_beq`). So a test of bytes that reflects a test of characters takes as much from the bytes
of a text as the test of characters takes from the text (`takeWhile_utf8`, `find?_utf8`).

Offsets count bytes. A text can be cut at an offset only if the offset is that of a character
(`cutAt`), which is what the standard library calls a valid position (`isSome_cutAt_iff`).
-/

namespace Pseudonym.Text

/-! ### Bytes -/

/-- The bytes of a text. -/
def utf8 (text : List Char) : List UInt8 := text.flatMap String.utf8EncodeChar

theorem toByteArray_utf8 (text : List Char) :
    (utf8 text).toByteArray = (String.ofList text).toUTF8 :=
  String.toByteArray_ofList.symm

theorem utf8ByteSize_ofList (text : List Char) :
    (String.ofList text).utf8ByteSize = byteLength text := by
  induction text with
  | nil => rfl
  | cons c text ih =>
    rw [← List.singleton_append, String.ofList_append, String.utf8ByteSize_append, ih,
      ← String.singleton_eq_ofList, String.utf8ByteSize_singleton]
    rfl

@[simp] theorem utf8_nil : utf8 [] = [] := rfl

@[simp] theorem utf8_cons (c : Char) (text : List Char) :
    utf8 (c :: text) = String.utf8EncodeChar c ++ utf8 text := List.flatMap_cons

@[simp] theorem utf8_append (text rest : List Char) : utf8 (text ++ rest) = utf8 text ++ utf8 rest :=
  List.flatMap_append

@[simp] theorem length_utf8 (text : List Char) : (utf8 text).length = byteLength text := by
  induction text with
  | nil => rfl
  | cons c text ih => rw [utf8_cons, List.length_append, String.length_utf8EncodeChar, ih]; rfl

theorem byteLength_eq_zero_iff {text : List Char} : byteLength text = 0 ↔ text = [] := by
  cases text with
  | nil => simp
  | cons c text =>
    have positive := c.utf8Size_pos
    simp only [byteLength_cons, reduceCtorEq, iff_false]
    omega

theorem drop_utf8 (before rest : List Char) :
    (utf8 (before ++ rest)).drop (byteLength before) = utf8 rest := by
  rw [utf8_append, ← length_utf8 before, List.drop_left]

theorem getElem?_utf8 (before rest : List Char) :
    (utf8 (before ++ rest))[byteLength before]? = (utf8 rest).head? := by
  rw [← drop_utf8 before rest, List.head?_drop]

/-! ### ASCII -/

theorem utf8EncodeChar_of_ascii {c : Char} (h : c.toNat < 128) :
    String.utf8EncodeChar c = [c.toUInt8] :=
  if_pos (Nat.le_of_lt_succ h)

theorem toNat_toUInt8 {c : Char} (h : c.toNat < 128) : c.toUInt8.toNat = c.toNat := by
  have small : c.toNat < 256 := by omega
  rw [Char.toUInt8, UInt32.toNat_toUInt8]
  exact Nat.mod_eq_of_lt small

/-- The other characters are written in bytes from 128 on. -/
theorem le_of_mem_utf8EncodeChar {c : Char} {b : UInt8} (h : 128 ≤ c.toNat)
    (hb : b ∈ String.utf8EncodeChar c) : 128 ≤ b.toNat := by
  have large : ¬ c.val.toNat ≤ 127 := Nat.not_le.2 h
  unfold String.utf8EncodeChar at hb
  dsimp only at hb
  rw [if_neg large] at hb
  split at hb
  · simp only [List.mem_cons, List.not_mem_nil, or_false] at hb
    rcases hb with rfl | rfl <;> rw [UInt8.toNat_ofNat'] <;> omega
  · split at hb
    · simp only [List.mem_cons, List.not_mem_nil, or_false] at hb
      rcases hb with rfl | rfl | rfl <;> rw [UInt8.toNat_ofNat'] <;> omega
    · simp only [List.mem_cons, List.not_mem_nil, or_false] at hb
      rcases hb with rfl | rfl | rfl | rfl <;> rw [UInt8.toNat_ofNat'] <;> omega

/-- The byte of an ASCII character belongs to no other character. -/
theorem mem_utf8EncodeChar_iff {a c : Char} (h : a.toNat < 128) :
    a.toUInt8 ∈ String.utf8EncodeChar c ↔ c = a := by
  constructor
  · intro inside
    by_cases hc : c.toNat < 128
    · rw [utf8EncodeChar_of_ascii hc, List.mem_singleton] at inside
      have same := congrArg UInt8.toNat inside
      rw [toNat_toUInt8 h, toNat_toUInt8 hc] at same
      exact (Char.toNat_inj.1 same).symm
    · have large := le_of_mem_utf8EncodeChar (Nat.le_of_not_lt hc) inside
      rw [toNat_toUInt8 h] at large
      omega
  · rintro rfl
    rw [utf8EncodeChar_of_ascii h]
    exact List.mem_singleton_self _

/-- A test of bytes that says of each byte of a character what a test of characters says of it. -/
def Reflects (q : UInt8 → Bool) (p : Char → Bool) : Prop :=
  ∀ c, ∀ b ∈ String.utf8EncodeChar c, q b = p c

section

variable {q : UInt8 → Bool} {p : Char → Bool}

theorem reflects_beq {a : Char} (h : a.toNat < 128) : Reflects (· == a.toUInt8) (· == a) := by
  intro c b hb
  rw [Bool.eq_iff_iff, beq_iff_eq, beq_iff_eq]
  constructor
  · rintro rfl
    exact (mem_utf8EncodeChar_iff h).1 hb
  · rintro rfl
    rw [utf8EncodeChar_of_ascii h] at hb
    exact List.mem_singleton.1 hb

/-- The bytes of ASCII characters. -/
theorem reflects_any {letters : List Char} (h : ∀ a ∈ letters, a.toNat < 128) :
    Reflects (fun b => letters.any (b == ·.toUInt8)) (fun c => letters.any (c == ·)) := by
  intro c b hb
  induction letters with
  | nil => rfl
  | cons a letters ih =>
    rw [List.forall_mem_cons] at h
    have first : (b == a.toUInt8) = (c == a) := reflects_beq h.1 c b hb
    have others := ih h.2
    dsimp only at others ⊢
    rw [List.any_cons, List.any_cons, first, others]

theorem exists_utf8EncodeChar (c : Char) : ∃ b others, String.utf8EncodeChar c = b :: others :=
  List.exists_cons_of_ne_nil String.utf8EncodeChar_ne_nil

theorem head?_utf8_cons (c : Char) (text : List Char) :
    ∃ b ∈ String.utf8EncodeChar c, (utf8 (c :: text)).head? = some b := by
  obtain ⟨b, others, bytes⟩ := exists_utf8EncodeChar c
  refine ⟨b, by simp [bytes], ?_⟩
  rw [utf8_cons, bytes, List.cons_append, List.head?_cons]

theorem takeWhile_utf8 (h : Reflects q p) (text : List Char) :
    (utf8 text).takeWhile q = utf8 (text.takeWhile p) := by
  induction text with
  | nil => rfl
  | cons c text ih =>
    cases hc : p c with
    | true =>
      rw [List.takeWhile_cons_of_pos hc, utf8_cons, utf8_cons, ← ih]
      exact List.takeWhile_append_of_pos fun b hb => (h c b hb).trans hc
    | false =>
      obtain ⟨b, others, bytes⟩ := exists_utf8EncodeChar c
      have stops : q b = false := (h c b (by simp [bytes])).trans hc
      rw [List.takeWhile_cons_of_neg (by simp [hc]), utf8_cons, bytes, List.cons_append,
        List.takeWhile_cons_of_neg (by simp [stops]), utf8_nil]

/-- The first byte that is found is where the first character is found. -/
theorem findIdx?_utf8 (h : Reflects q p) (text : List Char) :
    (utf8 text).findIdx? q =
      if text.dropWhile (!p ·) = [] then none else some (byteLength (text.takeWhile (!p ·))) := by
  induction text with
  | nil => rfl
  | cons c text ih =>
    cases hc : p c with
    | true =>
      obtain ⟨b, others, bytes⟩ := exists_utf8EncodeChar c
      have found : q b = true := (h c b (by simp [bytes])).trans hc
      rw [utf8_cons, bytes, List.cons_append, List.findIdx?_cons, if_pos found]
      simp [hc]
    | false =>
      have passed : (String.utf8EncodeChar c).findIdx? q = none :=
        List.findIdx?_eq_none_iff.2 fun b hb => (h c b hb).trans hc
      rw [utf8_cons, List.findIdx?_append, passed, Option.none_or, ih, String.length_utf8EncodeChar]
      by_cases last : text.dropWhile (!p ·) = []
      · simp [hc, last]
      · simp [hc, last, Nat.add_comm]

/-- What is found among bytes is the byte of the character that is found, if this is ASCII. -/
theorem find?_utf8 (h : Reflects q p) (ascii : ∀ c, p c = true → c.toNat < 128)
    (text : List Char) : (utf8 text).find? q = (text.find? p).map Char.toUInt8 := by
  induction text with
  | nil => rfl
  | cons c text ih =>
    cases hc : p c with
    | true =>
      have found : q c.toUInt8 = true :=
        (h c _ (by simp [utf8EncodeChar_of_ascii (ascii c hc)])).trans hc
      rw [List.find?_cons_of_pos hc, utf8_cons, utf8EncodeChar_of_ascii (ascii c hc),
        List.singleton_append, List.find?_cons_of_pos found, Option.map_some]
    | false =>
      have passed : (String.utf8EncodeChar c).find? q = none :=
        List.find?_eq_none.2 fun b hb => by simp [(h c b hb).trans hc]
      rw [List.find?_cons_of_neg (by simp [hc]), utf8_cons, List.find?_append, passed,
        Option.none_or, ih]

end

/-! ### Offsets of characters -/

/-- Cuts a text at an offset, which must be that of a character or of the end. -/
def cutAt : Nat → List Char → Option (List Char × List Char)
  | 0, text => some ([], text)
  | _ + 1, [] => none
  | n + 1, c :: text =>
    if c.utf8Size ≤ n + 1 then
      (cutAt (n + 1 - c.utf8Size) text).map fun halves => (c :: halves.1, halves.2)
    else none

theorem cutAt_eq_some_iff {place : Nat} {text before after : List Char} :
    cutAt place text = some (before, after) ↔
      text = before ++ after ∧ byteLength before = place := by
  fun_induction cutAt place text generalizing before with
  | case1 text =>
    constructor
    · intro h
      obtain ⟨rfl, rfl⟩ := Prod.mk.inj (Option.some.inj h)
      exact ⟨rfl, rfl⟩
    · rintro ⟨rfl, empty⟩
      rw [byteLength_eq_zero_iff.1 empty, List.nil_append]
  | case2 n =>
    simp only [reduceCtorEq, false_iff, not_and, List.nil_eq_append_iff, and_imp]
    rintro rfl - same
    cases same
  | case3 n c text fits ih =>
    constructor
    · intro h
      obtain ⟨⟨before', after'⟩, cut, same⟩ := Option.map_eq_some_iff.1 h
      obtain ⟨rfl, rfl⟩ := Prod.mk.inj same
      obtain ⟨rfl, length⟩ := ih.1 cut
      refine ⟨rfl, ?_⟩
      rw [byteLength_cons, length]
      omega
    · rintro ⟨same, length⟩
      cases before with
      | nil => cases length
      | cons d before =>
        obtain ⟨rfl, rfl⟩ := List.cons.inj same
        rw [byteLength_cons] at length
        rw [ih.2 ⟨rfl, by omega⟩, Option.map_some]
  | case4 n c text exceeds =>
    simp only [reduceCtorEq, false_iff, not_and]
    intro same length
    cases before with
    | nil => cases length
    | cons d before =>
      obtain ⟨rfl, -⟩ := List.cons.inj same
      rw [byteLength_cons] at length
      omega

theorem cutAt_append (before after : List Char) :
    cutAt (byteLength before) (before ++ after) = some (before, after) :=
  cutAt_eq_some_iff.2 ⟨rfl, rfl⟩

/-- The offsets of characters are the valid positions. -/
theorem isSome_cutAt_iff {place : Nat} {text : List Char} :
    (cutAt place text).isSome = true ↔ (⟨place⟩ : String.Pos.Raw).IsValid (String.ofList text) := by
  rw [String.Pos.Raw.isValid_iff_exists_append, Option.isSome_iff_exists]
  constructor
  · rintro ⟨⟨before, after⟩, cut⟩
    obtain ⟨rfl, rfl⟩ := cutAt_eq_some_iff.1 cut
    refine ⟨String.ofList before, String.ofList after, String.ofList_append, ?_⟩
    rw [String.Pos.Raw.ext_iff]
    exact (utf8ByteSize_ofList before).symm
  · rintro ⟨before, after, same, length⟩
    refine ⟨⟨before.toList, after.toList⟩, cutAt_eq_some_iff.2 ⟨?_, ?_⟩⟩
    · simpa using congrArg String.toList same
    · rw [← utf8ByteSize_ofList, String.ofList_toList]
      exact (congrArg String.Pos.Raw.byteIdx length).symm

/-- The part of a text between two offsets, which must be offsets of characters, in order. -/
def slice (start stop : Nat) (text : List Char) : Option (List Char) :=
  if start ≤ stop then do
    let (_, rest) ← cutAt start text
    let (part, _) ← cutAt (stop - start) rest
    return part
  else none

theorem slice_append (before part after : List Char) :
    slice (byteLength before) (byteLength before + byteLength part) (before ++ (part ++ after)) =
      some part := by
  rw [slice, if_pos (Nat.le_add_right _ _), cutAt_append, Nat.add_sub_cancel_left]
  simp [cutAt_append]

end Pseudonym.Text
