import Mathlib.Data.List.Basic
import Pseudonym.Json.Number
import Pseudonym.Json.Printer
import Pseudonym.Json.Reader

/-!
# Numbers are read as they are written

A number is put down digit by digit, and what is read are digits again: so nothing but the shape of
a number matters for reading it back, whatever it means (`Number.IsWritten`),

    n.IsWritten  →  readNumber (n.toText ++ rest) = some (n, rest),

where the text behind must not go on with the number. The numbers of integers have this shape, and
they mean the integers that they were made of (`Number.toInt?_ofInt`).
-/

namespace Pseudonym.Json

open Text

/-! ### Digits -/

/-- Whether digits can stand in front of a point: there are some, and no zero stands in front of
others. -/
structure IsWhole (digits : List Nat) : Prop where
  nonempty : digits ≠ []
  below_ten : ∀ d ∈ digits, d < 10
  no_zero : digits.head? = some 0 → digits = [0]

theorem value_digitChar {d : Nat} (h : d < 10) : (Nat.digitChar d).toNat - '0'.toNat = d :=
  Nat.toNat_digitChar_sub_48_of_lt_ten h

theorem digitChar_value {c : Char} (h : c.isDigit = true) :
    Nat.digitChar (c.toNat - '0'.toNat) = c := by
  have bounds : 48 ≤ c.toNat ∧ c.toNat ≤ 57 := by
    simpa [Char.isDigit, UInt32.le_iff_toNat_le] using h
  have all : ∀ n ≤ 57, 48 ≤ n → Nat.digitChar (n - 48) = Char.ofNat n := by decide
  rw [show '0'.toNat = 48 from rfl, all c.toNat bounds.2 bounds.1, Char.ofNat_toNat]

theorem digitChars_digitsOf (n : Nat) : digitChars (digitsOf n) = Nat.toDigits 10 n := by
  rw [digitChars, digitsOf, List.map_map, List.map_congr_left, List.map_id]
  intro c hc
  exact digitChar_value (Nat.isDigit_of_mem_toDigits (by decide) (by decide) hc)

@[simp] theorem digitsValue_digitsOf (n : Nat) : digitsValue (digitsOf n) = n := by
  have read : Nat.ofDigitChars 10 (Nat.toDigits 10 n) 0 = n := Nat.ofDigitChars_ten_toDigits
  rw [Nat.ofDigitChars_eq_foldl] at read
  rw [digitsValue, digitsOf, List.foldl_map]
  simpa only [Nat.mul_comm 10] using read

theorem digitsOf_of_lt {n : Nat} (h : n < 10) : digitsOf n = [n] := by
  rw [digitsOf, Nat.toDigits_of_lt_base h, List.map_singleton, value_digitChar h]

theorem digitsOf_of_le {n : Nat} (h : 10 ≤ n) : digitsOf n = digitsOf (n / 10) ++ [n % 10] := by
  rw [digitsOf, Nat.toDigits_of_base_le (by decide) h, List.map_append, List.map_singleton,
    value_digitChar (Nat.mod_lt n (by decide)), digitsOf]

theorem isWhole_digitsOf (n : Nat) : IsWhole (digitsOf n) := by
  induction n using Nat.strongRecOn with
  | ind n ih =>
    by_cases small : n < 10
    · rw [digitsOf_of_lt small]
      exact ⟨by simp, by simpa using small, fun zero => by simpa using zero⟩
    · rw [digitsOf_of_le (by omega)]
      have rest := ih (n / 10) (by omega)
      refine ⟨by simp, fun d hd => ?_, fun zero => ?_⟩
      · rcases List.mem_append.1 hd with front | last
        · exact rest.below_ten d front
        · rw [List.mem_singleton.1 last]
          exact Nat.mod_lt n (by decide)
      · rw [List.head?_append_of_ne_nil _ rest.nonempty] at zero
        have value := digitsValue_digitsOf (n / 10)
        rw [rest.no_zero zero] at value
        simp only [digitsValue, List.foldl_cons, List.foldl_nil] at value
        omega

/-! ### Reading digits -/

/-- Whether a text does not go on with a character of a kind. -/
def Stops (kind : Char → Bool) (rest : List Symbol) : Prop :=
  ∀ c, rest.head? = some (some c) → kind c = false

/-- What digits in front of a point may go on with. -/
def followsWhole (c : Char) : Bool := c.isDigit || c == '.'

/-- What a number may go on with. -/
def followsNumber (c : Char) : Bool := followsWhole c || c == 'e' || c == 'E'

theorem Stops.imp {kind kind' : Char → Bool} {rest : List Symbol} (h : Stops kind rest)
    (hk : ∀ c, kind' c = true → kind c = true) : Stops kind' rest := by
  intro c hc
  rw [← Bool.not_eq_true]
  intro wrong
  have stopped := h c hc
  rw [hk c wrong] at stopped
  cases stopped

theorem stops_cons {kind : Char → Bool} {c : Char} (h : kind c = false) (rest : List Symbol) :
    Stops kind (some c :: rest) := by
  rintro _ ⟨⟩
  exact h

theorem readDigits_of_stops {rest : List Symbol} (h : Stops Char.isDigit rest) :
    readDigits rest = ([], rest) := by
  match rest, h with
  | [], _ => rfl
  | none :: _, _ => rfl
  | some c :: rest, h => rw [readDigits, h c rfl, if_neg (by decide)]

theorem readDigits_digitChars {digits : List Nat} (h : ∀ d ∈ digits, d < 10) {rest : List Symbol}
    (hr : Stops Char.isDigit rest) :
    readDigits ((digitChars digits).map some ++ rest) = (digits, rest) := by
  induction digits with
  | nil => exact readDigits_of_stops hr
  | cons d digits ih =>
    rw [List.forall_mem_cons] at h
    show readDigits (some (Nat.digitChar d) :: ((digitChars digits).map some ++ rest)) = _
    rw [readDigits, if_pos (by simp [h.1]), ih h.2]
    dsimp only
    rw [value_digitChar h.1]

/-! ### Reading numbers -/

/-- Whether a number has the shape of a written one. -/
structure Number.IsWritten (n : Number) : Prop where
  whole : IsWhole n.whole
  fraction : ∀ d ∈ n.fraction, d < 10

/-- The characters of a number behind its sign and the digits in front of the point. -/
def fractionText (fraction : List Nat) : List Char :=
  if fraction.isEmpty then [] else '.' :: digitChars fraction

def exponentText : Option Int → List Char
  | some e => 'e' :: (if e < 0 then '-' else '+') :: Nat.toDigits 10 e.natAbs
  | none => []

theorem Number.toText_eq (n : Number) :
    n.toText = (if n.isNegative then ['-'] else []) ++ digitChars n.whole ++
      fractionText n.fraction ++ exponentText n.exponent := by
  unfold toText
  cases n.exponent with
  | none => rfl
  | some e => rfl

theorem readWhole_digitChars {digits : List Nat} (h : IsWhole digits) {rest : List Symbol}
    (hr : Stops Char.isDigit rest) :
    readWhole ((digitChars digits).map some ++ rest) = some (digits, rest) := by
  rw [readWhole, readDigits_digitChars h.below_ten hr]
  split
  · next empty => exact absurd (Prod.mk.inj empty).1 h.nonempty
  · next second others _ superfluous =>
    obtain ⟨rfl, -⟩ := Prod.mk.inj superfluous
    exact absurd (h.no_zero rfl) (by simp)
  · rfl

theorem readFraction_fractionText {digits : List Nat} (h : ∀ d ∈ digits, d < 10)
    {rest : List Symbol} (hr : Stops followsWhole rest) :
    readFraction ((fractionText digits).map some ++ rest) = some (digits, rest) := by
  cases digits with
  | nil =>
    match rest, hr with
    | [], _ => rfl
    | none :: _, _ => rfl
    | some c :: rest, hr =>
      have point : c ≠ '.' := by
        rintro rfl
        exact absurd (hr '.' rfl) (by decide)
      show readFraction (some c :: rest) = _
      unfold readFraction
      split
      · next same => exact absurd (Option.some.inj (List.cons.inj same).1) point
      · rfl
  | cons d digits =>
    show readFraction (some '.' :: ((digitChars (d :: digits)).map some ++ rest)) = _
    rw [readFraction, readDigits_digitChars h (hr.imp fun c digit => by simp [followsWhole, digit])]

theorem readPower_toDigits (isNegative : Bool) (n : Nat) {rest : List Symbol}
    (hr : Stops Char.isDigit rest) :
    readPower isNegative ((Nat.toDigits 10 n).map some ++ rest) =
      some (some (if isNegative then -(n : Int) else n), rest) := by
  have whole := isWhole_digitsOf n
  unfold readPower
  rw [← digitChars_digitsOf, readDigits_digitChars whole.below_ten hr]
  split
  · next empty => exact absurd (Prod.mk.inj empty).1 whole.nonempty
  · next digits rest' _ same =>
    obtain ⟨rfl, rfl⟩ := Prod.mk.inj same
    rw [digitsValue_digitsOf]

theorem readExponent_exponentText (exponent : Option Int) {rest : List Symbol}
    (hr : Stops followsNumber rest) :
    readExponent ((exponentText exponent).map some ++ rest) = some (exponent, rest) := by
  have digits : Stops Char.isDigit rest :=
    hr.imp fun c digit => by simp [followsNumber, followsWhole, digit]
  cases exponent with
  | none =>
    match rest, hr with
    | [], _ => rfl
    | none :: _, _ => rfl
    | some c :: rest, hr =>
      have free : ¬(c = 'e' ∨ c = 'E') := by
        rintro (rfl | rfl)
        · exact absurd (hr _ rfl) (by decide)
        · exact absurd (hr _ rfl) (by decide)
      show (if c = 'e' ∨ c = 'E' then _ else some (none, some c :: rest)) = _
      rw [if_neg free]
  | some e =>
    by_cases negative : e < 0
    · simp only [exponentText, if_pos negative]
      show readPower true ((Nat.toDigits 10 e.natAbs).map some ++ rest) = _
      rw [readPower_toDigits true _ digits, if_pos rfl, show -(e.natAbs : Int) = e by omega]
    · simp only [exponentText, if_neg negative]
      show readPower false ((Nat.toDigits 10 e.natAbs).map some ++ rest) = _
      rw [readPower_toDigits false _ digits, if_neg (by decide), show (e.natAbs : Int) = e by omega]

theorem stops_exponentText (exponent : Option Int) {rest : List Symbol}
    (hr : Stops followsNumber rest) :
    Stops followsWhole ((exponentText exponent).map some ++ rest) := by
  cases exponent with
  | none => exact hr.imp fun c follows => by simp [followsNumber, follows]
  | some e => exact stops_cons (by decide) _

theorem stops_fractionText (fraction : List Nat) {rest : List Symbol}
    (hr : Stops followsWhole rest) :
    Stops Char.isDigit ((fractionText fraction).map some ++ rest) := by
  cases fraction with
  | nil => exact hr.imp fun c digit => by simp [followsWhole, digit]
  | cons d digits => exact stops_cons (by decide) _

/-- **A number is read as it was written**, if the text behind does not go on with it. -/
theorem readUnsigned_toText {n : Number} (h : n.IsWritten) {rest : List Symbol}
    (hr : Stops followsNumber rest) :
    readUnsigned n.isNegative ((digitChars n.whole ++ fractionText n.fraction ++
      exponentText n.exponent).map some ++ rest) = some (n, rest) := by
  have exponent := stops_exponentText n.exponent hr
  have fraction := stops_fractionText n.fraction exponent
  rw [readUnsigned, List.map_append, List.map_append, List.append_assoc, List.append_assoc,
    readWhole_digitChars h.whole fraction]
  simp only [bind, Option.bind, readFraction_fractionText h.fraction exponent,
    readExponent_exponentText n.exponent hr]
  rfl

/-- A number starts with a sign or a digit. -/
theorem Number.toText_eq_cons {n : Number} (h : n.IsWritten) :
    ∃ c more, n.toText = c :: more ∧ (n.isNegative = true ∧ c = '-' ∨
      n.isNegative = false ∧ c.isDigit = true) := by
  obtain ⟨d, digits, whole⟩ := List.exists_cons_of_ne_nil h.whole.nonempty
  rw [Number.toText_eq, whole]
  cases n.isNegative with
  | true => exact ⟨_, _, rfl, Or.inl ⟨rfl, rfl⟩⟩
  | false =>
    have digit : (Nat.digitChar d).isDigit = true := by
      simpa using h.whole.below_ten d (by simp [whole])
    exact ⟨_, _, rfl, Or.inr ⟨rfl, digit⟩⟩

theorem readNumber_toText {n : Number} (h : n.IsWritten) {rest : List Symbol}
    (hr : Stops followsNumber rest) : readNumber (n.toText.map some ++ rest) = some (n, rest) := by
  have unsigned := readUnsigned_toText h hr
  obtain ⟨c, more, text, start⟩ := n.toText_eq_cons h
  cases sign : n.isNegative with
  | true =>
    rw [Number.toText_eq, sign, if_pos rfl]
    rw [sign] at unsigned
    exact unsigned
  | false =>
    rw [sign] at unsigned start
    have digit : c.isDigit = true := by simpa using start
    have same : n.toText = digitChars n.whole ++ fractionText n.fraction ++
        exponentText n.exponent := by
      rw [Number.toText_eq, sign]
      rfl
    rw [← same, text] at unsigned
    rw [text]
    show readNumber (some c :: (more.map some ++ rest)) = _
    unfold readNumber
    split
    · next signed =>
      obtain rfl := Option.some.inj (List.cons.inj signed).1
      exact absurd digit (by decide)
    · exact unsigned

/-! ### Integers -/

theorem isWritten_ofInt (i : Int) : (Number.ofInt i).IsWritten :=
  ⟨isWhole_digitsOf _, by simp [Number.ofInt]⟩

@[simp] theorem magnitude_ofInt (i : Int) : (Number.ofInt i).magnitude = i.natAbs :=
  digitsValue_digitsOf _

/-- The number of an integer means the integer. -/
@[simp] theorem toInt?_ofInt (i : Int) : (Number.ofInt i).toInt? = some i := by
  have integer : (Number.ofInt i).isInteger = true := rfl
  rw [Number.toInt?, if_pos integer, magnitude_ofInt]
  by_cases negative : i < 0
  · have sign : (Number.ofInt i).isNegative = true := by simpa [Number.ofInt] using negative
    rw [if_pos sign, if_neg (by omega), show -(i.natAbs : Int) = i by omega]
  · have sign : ¬(Number.ofInt i).isNegative = true := by simpa [Number.ofInt] using negative
    rw [if_neg sign, show (i.natAbs : Int) = i by omega]

/-- An integer of 64 bits is finite. -/
theorem toDouble?_ofInt {i : Int} (h : i.natAbs ≤ maxWord) :
    (Number.ofInt i).toDouble?.isSome = true := by
  have integer : ((Number.ofInt i).isInteger && decide ((Number.ofInt i).magnitude ≤ maxWord)) =
      true := by
    rw [magnitude_ofInt, decide_eq_true h]
    rfl
  rw [Number.toDouble?, Number.doubleMagnitude?, if_pos integer]
  rfl

end Pseudonym.Json
