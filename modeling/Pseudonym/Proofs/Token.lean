import Pseudonym.Proofs.Text
import Pseudonym.Token

/-!
# Tokens stand for one name

A token is read by one forward pass, and this file follows that pass. What `encodeChar` writes for a
character is one of three things, and the reader tells them apart by what follows an underscore: a
letter or digit stands for itself (`bodyUnits_cons`), an underscore with a hexadecimal digit behind
it opens an escape (`bodyUnits_escape`), two underscores open a boundary (`bodyUnits_boundary`). In
all three cases the reader stops exactly where the writer did, so

    bodyUnits (encodeChar c ++ rest) = units c ++ bodyUnits rest,

and the rest is UTF-16. This needs two things of the markers: the closing one starts with two
underscores, and no hexadecimal digit is an underscore.
-/

namespace Pseudonym.Markers

open Text

variable (m : Markers)

/-! ### What the reader does with each piece -/

theorem bodyUnits_nil : m.bodyUnits [] = .ok [] := by rw [bodyUnits.eq_def]

theorem bodyUnits_cons {c : Char} (hu : c ≠ '_') (hs : c ≠ '/') (rest : List Char) :
    m.bodyUnits (c :: rest) = (units c ++ ·) <$> m.bodyUnits rest := by
  rw [bodyUnits.eq_def]
  split
  · contradiction
  · next h => exact absurd (List.cons.inj h).1 hu
  · next h => exact absurd (List.cons.inj h).1 hs
  · next h =>
    obtain ⟨rfl, rfl⟩ := List.cons.inj h
    cases m.bodyUnits rest <;> rfl

theorem bodyUnits_escape {a b c d : Char} {u : UInt16} (ha : a ≠ '_')
    (hw : wordOfHex? lowerHexValue? a b c d = some u) (rest : List Char) :
    m.bodyUnits ('_' :: a :: b :: c :: d :: rest) = (u :: ·) <$> m.bodyUnits rest := by
  rw [bodyUnits.eq_def]
  simp only [List.head?_cons, Option.some.injEq, if_neg ha, hw]
  cases m.bodyUnits rest <;> rfl

theorem bodyUnits_boundary (rest : List Char) :
    m.bodyUnits (m.boundary ++ rest) = (separatorUnit :: ·) <$> m.bodyUnits rest := by
  obtain ⟨tail, _, hc⟩ := m.wellFormed.delimiter_closing
  have shape : m.boundary ++ rest = '_' :: '_' :: (tail ++ '/' :: m.opening ++ rest) := by
    simp [boundary, hc, delimiter]
  have found : m.boundary.isPrefixOf? (m.boundary ++ rest) = some rest :=
    List.isPrefixOf?_eq_some_iff_append_eq.2 rfl
  rw [shape] at found ⊢
  rw [bodyUnits.eq_def]
  simp only [List.head?_cons, if_true]
  split
  · next after h =>
    obtain rfl : rest = after := Option.some.inj (found.symm.trans h)
    cases m.bodyUnits rest <;> rfl
  · next h => exact absurd (found.symm.trans h) (by simp)

theorem bodyUnits_broken {rest : List Char} (second : rest.head? = some '_')
    (other : ¬ m.boundary <+: '_' :: rest) :
    m.bodyUnits ('_' :: rest) = .error .brokenBoundary := by
  have missing := isPrefixOf?_eq_none_iff.2 other
  rw [bodyUnits.eq_def]
  simp only [second, if_true]
  split
  · next h => exact absurd (missing.symm.trans h) (by simp)
  · rfl

theorem bodyUnits_badEscape {rest : List Char} (single : rest.head? ≠ some '_')
    (bad : ∀ a b c d after, rest = a :: b :: c :: d :: after →
      wordOfHex? lowerHexValue? a b c d = none) :
    m.bodyUnits ('_' :: rest) = .error .badEscape := by
  rw [bodyUnits.eq_def]
  simp only [if_neg single]
  split
  · next a b c d after =>
    rw [bad a b c d after rfl]
  · rfl

theorem bodyUnits_slash_opening (rest : List Char) :
    m.bodyUnits ('/' :: (m.opening ++ rest)) = (separatorUnit :: ·) <$> m.bodyUnits rest := by
  have found : m.opening.isPrefixOf? (m.opening ++ rest) = some rest :=
    List.isPrefixOf?_eq_some_iff_append_eq.2 rfl
  rw [bodyUnits.eq_def]
  simp only
  split
  · next after h =>
    obtain rfl : rest = after := Option.some.inj (found.symm.trans h)
    cases m.bodyUnits rest <;> rfl
  · next h => exact absurd (found.symm.trans h) (by simp)

theorem bodyUnits_slash {rest : List Char} (alone : ¬ m.opening <+: rest) :
    m.bodyUnits ('/' :: rest) = (separatorUnit :: ·) <$> m.bodyUnits rest := by
  have missing := isPrefixOf?_eq_none_iff.2 alone
  rw [bodyUnits.eq_def]
  simp only
  split
  · next h => exact absurd (missing.symm.trans h) (by simp)
  · cases m.bodyUnits rest <;> rfl

/-! ### What the writer does with each character -/

theorem ne_slash_of_isAlphanum {c : Char} (h : c.isAlphanum = true) : c ≠ '/' := by
  rintro rfl
  exact absurd h (by decide)

/-- A character is written as itself, as the boundary, or as escapes. -/
theorem encodeChar_cases (isClass : Bool) (c : Char) :
    (c.isAlphanum = true ∧ m.encodeChar isClass c = [c]) ∨
      (c = '/' ∧ isClass = true ∧ m.encodeChar isClass c = m.boundary) ∨
        (m.encodeChar isClass c = (units c).flatMap escape) := by
  by_cases letter : c.isAlphanum = true
  · exact Or.inl ⟨letter, if_pos letter⟩
  · by_cases separator : (isClass && c == '/') = true
    · refine Or.inr (Or.inl ?_)
      rw [encodeChar, if_neg letter, if_pos separator]
      simp only [Bool.and_eq_true, beq_iff_eq] at separator
      exact ⟨separator.2, separator.1, rfl⟩
    · refine Or.inr (Or.inr ?_)
      rw [encodeChar, if_neg letter, if_neg separator]

theorem bodyUnits_flatMap_escape (us : List UInt16) (rest : List Char) :
    m.bodyUnits (us.flatMap escape ++ rest) = (us ++ ·) <$> m.bodyUnits rest := by
  induction us with
  | nil =>
    rw [List.flatMap_nil, List.nil_append]
    cases m.bodyUnits rest <;> rfl
  | cons u us ih =>
    have digit : hexDigit (u.toNat / 4096 % 16) ≠ '_' :=
      hexDigit_ne_underscore _ (Nat.mod_lt _ (by decide))
    rw [List.flatMap_cons, List.append_assoc]
    simp only [escape, hexWord, List.cons_append, List.nil_append]
    rw [m.bodyUnits_escape digit (wordOfHex?_hexWord lowerHexValue?_hexDigit u), ih]
    cases m.bodyUnits rest <;> rfl

/-- **The reader stops where the writer did.** -/
theorem bodyUnits_encodeChar (isClass : Bool) (c : Char) (rest : List Char) :
    m.bodyUnits (m.encodeChar isClass c ++ rest) = (units c ++ ·) <$> m.bodyUnits rest := by
  rcases m.encodeChar_cases isClass c with ⟨letter, written⟩ | ⟨rfl, _, written⟩ | written
  · rw [written, List.singleton_append]
    exact m.bodyUnits_cons (ne_underscore_of_isAlphanum letter) (ne_slash_of_isAlphanum letter) rest
  · rw [written, bodyUnits_boundary]
    rfl
  · rw [written, bodyUnits_flatMap_escape]

theorem bodyUnits_encode (isClass : Bool) (name : List Char) :
    m.bodyUnits (name.flatMap (m.encodeChar isClass)) = .ok (name.flatMap units) := by
  induction name with
  | nil => exact m.bodyUnits_nil
  | cons c name ih => rw [List.flatMap_cons, bodyUnits_encodeChar, ih]; rfl

theorem decodeBody_encode (isClass : Bool) (name : List Char) :
    m.decodeBody (name.flatMap (m.encodeChar isClass)) = .ok name := by
  rw [decodeBody, bodyUnits_encode]
  simp only [bind, Except.bind, ofUnits?_flatMap_units]

theorem decodeText_encodeText (isClass : Bool) (name : List Char) :
    m.decodeText (m.encodeText isClass name) = .ok name := by
  have opened : m.opening.isPrefixOf? (m.encodeText isClass name) =
      some (name.flatMap (m.encodeChar isClass) ++ m.closing) :=
    List.isPrefixOf?_eq_some_iff_append_eq.2 (by rw [encodeText, List.append_assoc])
  have closed : m.closing.isSuffixOf? (name.flatMap (m.encodeChar isClass) ++ m.closing) =
      some (name.flatMap (m.encodeChar isClass)) :=
    List.isSuffixOf?_eq_some_iff_append_eq.2 rfl
  rw [decodeText, opened]
  simp only [closed]
  exact m.decodeBody_encode isClass name

/-! ### What a token is made of -/

theorem isTokenChar_hexDigit (k : Nat) : isTokenChar (hexDigit (k % 16)) = true :=
  isTokenChar_of_isAlphanum (isAlphanum_hexDigit _ (Nat.mod_lt _ (by decide)))

theorem isTokenChar_of_mem_escape {u : UInt16} {c : Char} (h : c ∈ escape u) :
    isTokenChar c = true := by
  simp only [escape, hexWord, List.mem_cons, List.not_mem_nil, or_false] at h
  rcases h with rfl | rfl | rfl | rfl | rfl
  · decide
  · exact isTokenChar_hexDigit _
  · exact isTokenChar_hexDigit _
  · exact isTokenChar_hexDigit _
  · exact isTokenChar_hexDigit _

theorem mem_encodeChar {isClass : Bool} {c d : Char} (h : d ∈ m.encodeChar isClass c) :
    isTokenChar d = true ∨ isClass = true ∧ d = '/' := by
  rcases m.encodeChar_cases isClass c with ⟨letter, written⟩ | ⟨_, separates, written⟩ | written
  · rw [written, List.mem_singleton] at h
    exact Or.inl (h ▸ isTokenChar_of_isAlphanum letter)
  · rw [written, boundary, List.mem_append, List.mem_cons] at h
    rcases h with closing | slash | opening
    · exact Or.inl (m.wellFormed.closing_chars d closing)
    · exact Or.inr ⟨separates, slash⟩
    · exact Or.inl (m.wellFormed.opening_chars d opening)
  · rw [written] at h
    obtain ⟨u, _, hd⟩ := List.mem_flatMap.1 h
    exact Or.inl (isTokenChar_of_mem_escape hd)

theorem mem_encodeText {isClass : Bool} {name : List Char} {d : Char}
    (h : d ∈ m.encodeText isClass name) : isTokenChar d = true ∨ d = '/' := by
  rw [encodeText, List.mem_append, List.mem_append] at h
  rcases h with (opening | body) | closing
  · exact Or.inl (m.wellFormed.opening_chars d opening)
  · obtain ⟨c, _, hd⟩ := List.mem_flatMap.1 body
    exact (m.mem_encodeChar hd).imp_right And.right
  · exact Or.inl (m.wellFormed.closing_chars d closing)

/-! ### Tokens and names -/

variable {m}

/-- A name that gets a token carries no markers. -/
theorem encode_eq_ok_iff {name token : String} {isClass : Bool} :
    m.encode name isClass = .ok token ↔
      m.carries name = false ∧ token = String.ofList (m.encodeText isClass name.toList) := by
  unfold encode
  split
  · next h => simp [h]
  · next h => simp [h, eq_comm]

/-- What is neither a letter of tokens nor a slash is in no token. -/
theorem notMem_encode {name token : String} {isClass : Bool} {d : Char}
    (letter : isTokenChar d = false) (slash : d ≠ '/') (h : m.encode name isClass = .ok token) :
    d ∉ token.toList := by
  obtain ⟨_, rfl⟩ := encode_eq_ok_iff.1 h
  rw [String.toList_ofList]
  intro hm
  rcases m.mem_encodeText hm with found | found
  · exact absurd found (by simp [letter])
  · exact slash found

theorem decode_encodeText (m : Markers) (isClass : Bool) (name : String) :
    m.decode (String.ofList (m.encodeText isClass name.toList)) = .ok name := by
  rw [decode, String.toList_ofList, decodeText_encodeText]
  simp only [String.ofList_toList]

theorem decode_of_encode {name token : String} {isClass : Bool}
    (h : m.encode name isClass = .ok token) : m.decode token = .ok name := by
  obtain ⟨_, rfl⟩ := encode_eq_ok_iff.1 h
  exact decode_encodeText m isClass name

theorem isEncoded_of_encode {name token : String} {isClass : Bool}
    (h : m.encode name isClass = .ok token) : m.isEncoded token = true := by
  obtain ⟨_, rfl⟩ := encode_eq_ok_iff.1 h
  rw [isEncoded, String.toList_ofList, encodeText, List.append_assoc, List.isPrefixOf_iff_prefix]
  exact List.prefix_append _ _

/-- What can be decoded starts as a token does. -/
theorem isEncoded_of_decode {name token : String} (h : m.decode token = .ok name) :
    m.isEncoded token = true := by
  rw [isEncoded, List.isPrefixOf_iff_prefix]
  cases opened : m.opening.isPrefixOf? token.toList with
  | some framed => exact ⟨framed, List.append_eq_of_isPrefixOf?_eq_some opened⟩
  | none =>
    rw [decode, decodeText, opened] at h
    exact absurd h (by simp)

theorem carries_of_isEncoded {name : String} (h : m.isEncoded name = true) :
    m.carries name = true := by
  simp [carries, h]

/-- A token is never the name of something that gets a token. -/
theorem encode_of_isEncoded {name : String} (h : m.isEncoded name = true) (isClass : Bool) :
    m.encode name isClass = .error (.alreadyEncoded name) :=
  if_pos (carries_of_isEncoded h)

/-- The markers of one salt, for examples. -/
def sample : Markers :=
  salted ⟨"Ab3xY7q".toList, by decide, List.all_eq_true.1 (by decide)⟩
    ⟨"Zk2Pw".toList, by decide, List.all_eq_true.1 (by decide)⟩

/-- **A token stands for one name.**  Whatever the markers, the name and its kind are, the token is
read back as the name, so no other name has the same token, not even one of the other kind.  A token
itself gets no token. -/
theorem token_stands_for_one_name (m : Markers) {name token : String} {isClass : Bool}
    (h : m.encode name isClass = .ok token) :
    m.decode token = .ok name ∧
      (∀ other isClass', m.encode other isClass' = .ok token → other = name) ∧
      ∀ isClass', m.encode token isClass' = .error (.alreadyEncoded token) := by
  refine ⟨decode_of_encode h, ?_, encode_of_isEncoded (isEncoded_of_encode h)⟩
  intro other isClass' h'
  have same := (decode_of_encode h').symm.trans (decode_of_encode h)
  exact Except.ok.inj same

/-- A class whose name needs escapes beyond the basic plane. -/
theorem token_stands_for_one_name_smiley :
    let token := "veil_Ab3xY7q_a__Zk2Pw_mask/veil_Ab3xY7q__005f_d83d_de00__Zk2Pw_mask"
    sample.encode "a/_😀" true = .ok token ∧ sample.decode token = .ok "a/_😀" ∧
      (∀ other isClass', sample.encode other isClass' = .ok token → other = "a/_😀") ∧
      ∀ isClass', sample.encode token isClass' = .error (.alreadyEncoded token) := by
  intro token
  have h : sample.encode "a/_😀" true = .ok token :=
    encode_eq_ok_iff.2 ⟨by decide +kernel, by decide +kernel⟩
  exact ⟨h, token_stands_for_one_name sample h⟩

end Pseudonym.Markers
