import Pseudonym.Proofs.Outcome
import Pseudonym.Proofs.Restore
import Pseudonym.Proofs.Token.Slices

/-!
# What reads as a token

`Spells m body us` is the grammar of token bodies, said without the reader: a body is a sequence of
items, and the UTF-16 units of the items, put together, are what it spells. Items are letters of any
script, escapes, boundaries, and bare separators, which take an opening marker behind them along.
The reader follows the grammar item by item (`spells_iff`),

    Spells m body us  ↔  bodyUnits body = .ok us,

so no body spells two things. Whether surrogates pair up is seen at the end only: the halves of a
character may stand in different items.
-/

namespace Pseudonym.Markers

open Text

/-- The body of a token, item by item, and the UTF-16 units that it spells. -/
inductive Spells (m : Markers) : List Char → List UInt16 → Prop where
  | nil : Spells m [] []
  /-- A character that is neither an underscore nor a separator stands for itself. -/
  | letter {c : Char} {rest : List Char} {us : List UInt16} (underscore : c ≠ '_') (slash : c ≠ '/')
      (behind : Spells m rest us) : Spells m (c :: rest) (units c ++ us)
  /-- An underscore and four lower case hexadecimal digits stand for a unit. -/
  | escape {a b c d : Char} {u : UInt16} {rest : List Char} {us : List UInt16}
      (digits : hexWord u = [a, b, c, d]) (behind : Spells m rest us) :
      Spells m ('_' :: a :: b :: c :: d :: rest) (u :: us)
  /-- A closing marker, a separator and an opening marker stand for a separator. -/
  | boundary {rest : List Char} {us : List UInt16} (behind : Spells m rest us) :
      Spells m (m.boundary ++ rest) (separatorUnit :: us)
  /-- A bare separator takes an opening marker behind it along. -/
  | separatorOpening {rest : List Char} {us : List UInt16} (behind : Spells m rest us) :
      Spells m ('/' :: (m.opening ++ rest)) (separatorUnit :: us)
  /-- A bare separator without an opening marker behind it. -/
  | separator {rest : List Char} {us : List UInt16} (alone : ¬ m.opening <+: rest)
      (behind : Spells m rest us) : Spells m ('/' :: rest) (separatorUnit :: us)

variable {m : Markers}

/-! ### The reader follows the grammar -/

theorem ne_underscore_of_hexWord {a b c d : Char} {u : UInt16} (h : hexWord u = [a, b, c, d]) :
    a ≠ '_' := by
  obtain ⟨rfl, _⟩ := List.cons.inj h
  exact hexDigit_ne_underscore _ (Nat.mod_lt _ (by decide))

/-- What the grammar derives is read. -/
theorem Spells.bodyUnits_eq {body : List Char} {us : List UInt16} (h : m.Spells body us) :
    m.bodyUnits body = .ok us := by
  induction h with
  | nil => exact m.bodyUnits_nil
  | letter underscore slash _ ih =>
    rw [m.bodyUnits_cons underscore slash, ih]
    rfl
  | escape digits _ ih =>
    rw [m.bodyUnits_escape (ne_underscore_of_hexWord digits) (wordOfHex?_eq_some_iff.2 digits), ih]
    rfl
  | boundary _ ih =>
    rw [bodyUnits_boundary, ih]
    rfl
  | separatorOpening _ ih =>
    rw [bodyUnits_slash_opening, ih]
    rfl
  | separator alone _ ih =>
    rw [m.bodyUnits_slash alone, ih]
    rfl

/-- What is read is derived by the grammar. -/
theorem spells_of_bodyUnits {body : List Char} {us : List UInt16}
    (h : m.bodyUnits body = .ok us) : m.Spells body us := by
  fun_induction bodyUnits m body generalizing us with
  | case1 =>
    obtain rfl := Except.ok.inj h
    exact .nil
  | case2 behind _ after found ih =>
    obtain ⟨us, read, same⟩ := bind_eq_ok_iff.1 h
    obtain rfl := pure_eq_ok_iff.1 same
    rw [← List.append_eq_of_isPrefixOf?_eq_some found]
    exact .boundary (ih read)
  | case3 => cases h
  | case4 a b c d after u word plain ih =>
    obtain ⟨us, read, same⟩ := bind_eq_ok_iff.1 h
    obtain rfl := pure_eq_ok_iff.1 same
    exact .escape (wordOfHex?_eq_some_iff.1 word) (ih read)
  | case5 | case6 => cases h
  | case7 rest after found ih =>
    obtain ⟨us, read, same⟩ := bind_eq_ok_iff.1 h
    obtain rfl := pure_eq_ok_iff.1 same
    rw [← List.append_eq_of_isPrefixOf?_eq_some found]
    exact .separatorOpening (ih read)
  | case8 rest alone ih =>
    obtain ⟨us, read, same⟩ := bind_eq_ok_iff.1 h
    obtain rfl := pure_eq_ok_iff.1 same
    exact .separator (isPrefixOf?_eq_none_iff.1 alone) (ih read)
  | case9 c behind underscore slash ih =>
    obtain ⟨us, read, same⟩ := bind_eq_ok_iff.1 h
    obtain rfl := pure_eq_ok_iff.1 same
    exact .letter underscore slash (ih read)

/-- **The reader follows the grammar.** -/
theorem spells_iff {body : List Char} {us : List UInt16} :
    m.Spells body us ↔ m.bodyUnits body = .ok us :=
  ⟨Spells.bodyUnits_eq, spells_of_bodyUnits⟩

theorem decodeBody_eq_ok_iff {body name : List Char} :
    m.decodeBody body = .ok name ↔ m.Spells body (name.flatMap units) := by
  rw [spells_iff, decodeBody, bind_eq_ok_iff]
  constructor
  · rintro ⟨us, read, found⟩
    split at found
    · next text spelled =>
      obtain rfl := Except.ok.inj found
      rw [read, ofUnits?_eq_some_iff.1 spelled]
    · cases found
  · intro read
    exact ⟨_, read, by rw [ofUnits?_flatMap_units]⟩

/-- Frames are unique, so the body of a token is. -/
theorem decodeText_append {body : List Char} :
    m.decodeText (m.opening ++ body ++ m.closing) = m.decodeBody body := by
  have opened : m.opening.isPrefixOf? (m.opening ++ body ++ m.closing) = some (body ++ m.closing) :=
    List.isPrefixOf?_eq_some_iff_append_eq.2 (List.append_assoc ..).symm
  have closed : m.closing.isSuffixOf? (body ++ m.closing) = some body :=
    List.isSuffixOf?_eq_some_iff_append_eq.2 rfl
  rw [decodeText, opened]
  simp only [closed]

theorem decodeText_eq_ok_iff {token name : List Char} :
    m.decodeText token = .ok name ↔
      ∃ body, token = m.opening ++ body ++ m.closing ∧ m.Spells body (name.flatMap units) := by
  constructor
  · intro h
    unfold decodeText at h
    split at h
    · cases h
    · next framed opened =>
      split at h
      · cases h
      · next body closed =>
        refine ⟨body, ?_, decodeBody_eq_ok_iff.1 h⟩
        rw [← List.append_eq_of_isPrefixOf?_eq_some opened,
          ← List.append_eq_of_isSuffixOf?_eq_some closed, List.append_assoc]
  · rintro ⟨body, rfl, spelled⟩
    rw [decodeText_append]
    exact decodeBody_eq_ok_iff.2 spelled

theorem decode_eq_ok_iff {token name : String} :
    m.decode token = .ok name ↔ m.decodeText token.toList = .ok name.toList := by
  unfold decode
  cases m.decodeText token.toList with
  | error fault => simp
  | ok text =>
    simp only [Except.ok.injEq]
    rw [← String.toList_inj, String.toList_ofList]

/-! ### Tokens without separators -/

/-- A token of letters, digits and underscores, by its body, and the name that it stands for. -/
structure IsToken (m : Markers) (body name : List Char) : Prop where
  letters : ∀ c ∈ body, isTokenChar c = true
  decodes : m.decode (String.ofList (m.opening ++ body ++ m.closing)) = .ok (String.ofList name)

theorem isToken_iff {body name : List Char} :
    m.IsToken body name ↔
      (∀ c ∈ body, isTokenChar c = true) ∧ m.Spells body (name.flatMap units) := by
  have read : m.decode (String.ofList (m.opening ++ body ++ m.closing)) = .ok (String.ofList name) ↔
      m.Spells body (name.flatMap units) := by
    rw [decode_eq_ok_iff, String.toList_ofList, String.toList_ofList, decodeText_append,
      decodeBody_eq_ok_iff]
  exact ⟨fun h => ⟨h.letters, read.1 h.decodes⟩, fun h => ⟨h.1, read.2 h.2⟩⟩

theorem name?_eq_some_iff {body name : List Char} :
    m.name? body = some name ↔ m.IsToken body name := by
  rw [isToken_iff, name?]
  split
  · next letters =>
    rw [toOption_eq_some_iff, decodeBody_eq_ok_iff]
    exact ⟨fun h => ⟨List.all_eq_true.1 letters, h⟩, And.right⟩
  · next letters =>
    simp only [reduceCtorEq, false_iff]
    exact fun h => letters (List.all_eq_true.2 h.1)

/-- What is written for a name is the body of a token of it. -/
theorem isToken_encode (m : Markers) (name : List Char) :
    m.IsToken (name.flatMap (m.encodeChar false)) name :=
  name?_eq_some_iff.1 (m.name?_encode name)

/-- **Exactly the grammar is read.**  For all markers and every text: the text is read as a name
exactly if it is a body in the frame of the markers and the body spells the UTF-16 units of the
name; else it is refused as malformed. A program that reads the bytes of the text by slices gives the
same answer and never slices inside a character. -/
theorem decode_accepts_grammar (m : Markers) (token : String) :
    (∀ name, m.decode token = .ok name ↔
      ∃ body, token.toList = m.opening ++ body ++ m.closing ∧
        m.Spells body (name.toList.flatMap units)) ∧
      ((∃ name, m.decode token = .ok name) ∨
        ∃ fault, m.decode token = .error (.malformedToken token fault)) ∧
      m.slicedDecode? token.toList = some (m.decodeText token.toList) := by
  refine ⟨fun name => ?_, ?_, m.slicedDecode?_eq token.toList⟩
  · rw [decode_eq_ok_iff, decodeText_eq_ok_iff]
  · cases read : m.decodeText token.toList with
    | ok name => exact .inl ⟨String.ofList name, by rw [decode, read]⟩
    | error fault => exact .inr ⟨fault, by rw [decode, read]⟩

end Pseudonym.Markers
