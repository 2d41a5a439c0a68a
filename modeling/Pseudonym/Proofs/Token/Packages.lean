import Mathlib.Data.List.Forall2
import Mathlib.Data.List.Infix
import Pseudonym.Proofs.Signature.Descriptors
import Pseudonym.Proofs.Text.Words
import Pseudonym.Proofs.Token.Grammar

/-!
# Tokens of classes, package by package

In the token of a class every package segment is a token of its own,

    splitOn '/' (encodeText true name) = (splitOn '/' name).map (encodeText false),

where texts are cut at separators. So the body of each of them holds letters, digits and escapes
only, in which no two underscores meet (`not_delimiter_infix_encode`), and each separator of the name
shows in the token as one boundary: the token before it ends in a closing marker, and the one behind
it begins with an opening one. There is no other boundary, since a boundary holds a separator
(`occurrences_append_cons`).

Whether a token stands for a class or not, it is a name that a class can have in descriptors and
signatures.
-/

namespace Pseudonym

namespace Text

/-! ### Occurrences -/

/-- The number of places of a text at which a part begins. -/
def occurrences (part text : List Char) : Nat := text.tails.countP (part.isPrefixOf ·)

theorem occurrences_cons (part : List Char) (c : Char) (rest : List Char) :
    occurrences part (c :: rest) =
      occurrences part rest + if part <+: c :: rest then 1 else 0 := by
  simp only [occurrences, List.tails_cons, List.countP_cons, List.isPrefixOf_iff_prefix]

/-- A text around a separator begins with another one if both agree up to it. -/
theorem append_cons_prefix_iff {c : Char} {front back before after : List Char} (single : c ∉ front)
    (fresh : c ∉ before) :
    front ++ c :: back <+: before ++ c :: after ↔ front = before ∧ back <+: after := by
  have inj : ∀ rest, front ++ c :: (back ++ rest) = before ++ c :: after ↔
      front = before ∧ back ++ rest = after := fun rest =>
    append_cons_inj_of_notMem single fresh
  simp only [List.IsPrefix, List.append_assoc, List.cons_append, inj, exists_and_left]

/-- A part around a separator begins in front of a separator if both sides fit, and elsewhere only
behind it. -/
theorem occurrences_append_cons {c : Char} {front back before : List Char} (single : c ∉ front)
    (fresh : c ∉ before) (after : List Char) :
    occurrences (front ++ c :: back) (before ++ c :: after) =
      occurrences (front ++ c :: back) after +
        if front <:+ before ∧ back <+: after then 1 else 0 := by
  induction before with
  | nil =>
    have start : front ++ c :: back <+: c :: after ↔ front = [] ∧ back <+: after :=
      append_cons_prefix_iff single List.not_mem_nil
    rw [List.nil_append]
    simp only [occurrences_cons, start, List.suffix_nil]
  | cons d before ih =>
    have start : front ++ c :: back <+: d :: (before ++ c :: after) ↔
        front = d :: before ∧ back <+: after := append_cons_prefix_iff single fresh
    rw [List.cons_append, occurrences_cons, ih (fun h => fresh (List.mem_cons_of_mem d h)), Nat.add_assoc]
    congr 1
    simp only [start, List.suffix_cons_iff]
    by_cases whole : front = d :: before
    · have longer : ¬ d :: before <:+ before := fun h => by
        have := h.length_le
        rw [List.length_cons] at this
        omega
      simp [whole, longer]
    · simp [whole]

/-- A part with a separator occurs in no text without one. -/
theorem occurrences_of_notMem {c : Char} {part text : List Char} (inside : c ∈ part)
    (fresh : c ∉ text) : occurrences part text = 0 := by
  rw [occurrences, List.countP_eq_zero]
  intro rest hr begins
  have whole := (List.mem_tails _ _).1 hr
  exact fresh (whole.subset ((List.isPrefixOf_iff_prefix.1 begins).subset inside))

end Text

namespace Descriptor

/-- What spells the type of a class. -/
def objectType (name : String) : String := String.ofList ('L' :: name.toList ++ [';'])

theorem parse_objectType {name : String} (h : IsClassName name) :
    TypeDescriptor.parse (objectType name) = .ok (.value ⟨0, .object name⟩) := by
  have read := TypeDescriptor.parse_toText (t := .value ⟨0, .object name⟩)
    (by simpa [TypeDescriptor.elementName?, ElementType.name?] using h)
  exact read

/-- A signature that is the type of one class asks for this class. -/
theorem rename_objectType {ω : Type} (f : String → Traced ω String) {name : String}
    (h : IsClassName name) :
    Signature.rename f (objectType name) = objectType <$> f name := by
  have possible : ∀ n ∈ (TypeDescriptor.value ⟨0, .object name⟩).elementName?.toList,
      IsClassName n := by
    simpa [TypeDescriptor.elementName?, ElementType.name?] using h
  have stretch := Signature.stretch_typeDescriptor (s := .initial) possible fun c hc =>
    Signature.takes_initial (.inl (Option.some.inj hc).symm)
  have agrees := agrees_answers f
  exact (stretch.asks agrees rfl String.toList_ofList).unique ((Asks.ask agrees name).map objectType)

end Descriptor

namespace Markers

open Descriptor Text

variable {m : Markers}

/-- **The token of a class is cut into the tokens of its packages.** -/
theorem splitOn_encodeText (name : List Char) :
    (m.encodeText true name).splitOn '/' = (name.splitOn '/').map (m.encodeText false) := by
  induction name using package_induction with
  | simple name single =>
    rw [m.encodeText_true_of_notMem single, List.splitOn_eq_singleton (m.slash_notMem_encode name),
      List.splitOn_eq_singleton single, List.map_singleton]
  | packaged package name single ih =>
    rw [m.encodeText_true_append, List.splitOn_append_cons_self, List.splitOn_append_cons_self,
      List.map_append, ih, m.encodeText_true_of_notMem single,
      List.splitOn_eq_singleton (m.slash_notMem_encode package), List.splitOn_eq_singleton single,
      List.map_singleton]

theorem opening_prefix_encodeText (isClass : Bool) (name : List Char) :
    m.opening <+: m.encodeText isClass name :=
  ⟨_, (List.append_assoc ..).symm⟩

theorem closing_suffix_encodeText (isClass : Bool) (name : List Char) :
    m.closing <:+ m.encodeText isClass name :=
  ⟨_, rfl⟩

/-- **Each separator of a name shows as one boundary.** -/
theorem occurrences_boundary (name : List Char) :
    occurrences m.boundary (m.encodeText true name) = name.count '/' := by
  have slash : '/' ∉ m.closing := fun h => absurd (m.wellFormed.closing_chars _ h) (by decide)
  induction name using package_induction with
  | simple name single =>
    rw [m.encodeText_true_of_notMem single, List.count_eq_zero.2 single]
    exact occurrences_of_notMem (by simp [boundary]) (m.slash_notMem_encode name)
  | packaged package name single ih =>
    have meets : m.closing <:+ m.encodeText false package ∧ m.opening <+: m.encodeText true name :=
      ⟨closing_suffix_encodeText false package, opening_prefix_encodeText true name⟩
    rw [m.encodeText_true_append, m.encodeText_true_of_notMem single, boundary,
      occurrences_append_cons slash (m.slash_notMem_encode package), if_pos meets, ← boundary, ih,
      List.count_append, List.count_cons_self, List.count_eq_zero.2 single, Nat.zero_add]

/-! ### What a body is made of -/

theorem not_delimiter_infix_cons {c : Char} (h : c ≠ '_') {rest : List Char}
    (behind : ¬ delimiter <:+: rest) : ¬ delimiter <:+: c :: rest := by
  rw [List.infix_cons_iff, not_or]
  refine ⟨fun hp => h (List.cons_prefix_cons.1 hp).1.symm, behind⟩

theorem not_delimiter_infix_escape (u : UInt16) {rest : List Char}
    (behind : ¬ delimiter <:+: rest) : ¬ delimiter <:+: escape u ++ rest := by
  have digit : ∀ k, hexDigit (k % 16) ≠ '_' :=
    fun k => hexDigit_ne_underscore _ (Nat.mod_lt _ (by decide))
  simp only [escape, hexWord, List.cons_append, List.nil_append]
  rw [List.infix_cons_iff, not_or]
  refine ⟨fun hp => ?_, ?_⟩
  · exact digit _ (List.cons_prefix_cons.1 (List.cons_prefix_cons.1 hp).2).1.symm
  · iterate 4 refine not_delimiter_infix_cons (digit _) ?_
    exact behind

theorem not_delimiter_infix_flatMap_escape (us : List UInt16) {rest : List Char}
    (behind : ¬ delimiter <:+: rest) : ¬ delimiter <:+: us.flatMap escape ++ rest := by
  induction us with
  | nil => exact behind
  | cons u us ih =>
    rw [List.flatMap_cons, List.append_assoc]
    exact not_delimiter_infix_escape u ih

/-- **No two underscores meet in what is written for a name.** -/
theorem not_delimiter_infix_encode (name : List Char) :
    ¬ delimiter <:+: name.flatMap (m.encodeChar false) := by
  induction name with
  | nil => simp [delimiter]
  | cons c name ih =>
    rw [List.flatMap_cons]
    rcases m.encodeChar_false_cases c with ⟨letter, written⟩ | written
    · rw [written, List.singleton_append]
      exact not_delimiter_infix_cons (ne_underscore_of_isAlphanum letter) ih
    · rw [written]
      exact not_delimiter_infix_flatMap_escape _ ih

/-- The token of a segment: a framed body in which no two underscores meet. -/
structure IsSegment (m : Markers) (token name body : List Char) : Prop extends
    IsToken m body name where
  framed : token = m.opening ++ body ++ m.closing
  single : ¬ delimiter <:+: body

theorem isSegment_encodeText (m : Markers) (name : List Char) :
    m.IsSegment (m.encodeText false name) name (name.flatMap (m.encodeChar false)) where
  toIsToken := m.isToken_encode name
  framed := rfl
  single := not_delimiter_infix_encode name

/-! ### Tokens as names of classes -/

/-- The characters of tokens lie between `/` and `z`. -/
theorem toNat_of_isTokenChar {c : Char} (h : isTokenChar c = true ∨ c = '/') :
    47 ≤ c.toNat ∧ c.toNat ≤ 122 := by
  rcases h with letter | rfl
  · delta isTokenChar Char.isAlphanum Char.isAlpha Char.isUpper Char.isLower Char.isDigit at letter
    simp only [Bool.or_eq_true, Bool.and_eq_true, decide_eq_true_eq, beq_iff_eq, ge_iff_le,
      UInt32.le_iff_toNat_le] at letter
    rcases letter with ((⟨low, high⟩ | ⟨low, high⟩) | ⟨low, high⟩) | rfl
    · exact ⟨Nat.le_trans (by decide) low, Nat.le_trans high (by decide)⟩
    · exact ⟨Nat.le_trans (by decide) low, Nat.le_trans high (by decide)⟩
    · exact ⟨Nat.le_trans (by decide) low, Nat.le_trans high (by decide)⟩
    · decide
  · decide

theorem isBlank_of_isTokenChar {c : Char} (h : isTokenChar c = true ∨ c = '/') :
    isBlank c = false := by
  have range := toNat_of_isTokenChar h
  rw [← Bool.not_eq_true]
  intro blank
  simp only [isBlank, Bool.or_eq_true, Bool.and_eq_true, decide_eq_true_eq, beq_iff_eq] at blank
  omega

/-- What no token holds: what ends or opens something in descriptors and signatures. -/
def reservedLetters : List Char := ['(', ')', '[', '.', ';', '<', '>', ':', '$']

theorem reservedLetters_notMem {c : Char} (h : isTokenChar c = true ∨ c = '/') :
    c ∉ reservedLetters := by
  intro hc
  have other : reservedLetters.all (fun d => !isTokenChar d && d != '/') = true := by decide
  have fresh := List.all_eq_true.1 other c hc
  rcases h with letter | rfl
  · rw [letter] at fresh
    cases fresh
  · exact absurd fresh (by decide)

theorem isIllegalInName_of_notMem {c : Char} (h : c ∉ reservedLetters) :
    isIllegalInName c = false := by
  simp only [reservedLetters, List.mem_cons, List.not_mem_nil, or_false, not_or] at h
  simp [isIllegalInName, h]

variable {name token : String} {isClass : Bool}

theorem mem_encode (h : m.encode name isClass = .ok token) :
    ∀ c ∈ token.toList, isTokenChar c = true ∨ c = '/' := by
  obtain ⟨_, rfl⟩ := encode_eq_ok_iff.1 h
  rw [String.toList_ofList]
  exact fun c hc => m.mem_encodeText hc

/-- **A token is a name that a class can have.** -/
theorem isClassName_encode (h : m.encode name isClass = .ok token) : IsClassName token := by
  refine ⟨fun empty => ?_, fun c hc =>
    isIllegalInName_of_notMem (reservedLetters_notMem (mem_encode h c hc))⟩
  obtain ⟨_, rfl⟩ := encode_eq_ok_iff.1 h
  rw [String.toList_ofList] at empty
  have opens := opening_prefix_encodeText (m := m) isClass name.toList
  rw [empty, List.prefix_nil] at opens
  exact m.wellFormed.opening_ne_nil opens

/-- **The shape of tokens.**  The token of a class has as many segments between separators as its
name. Each segment is a framed body of letters, digits and underscores, of which no two meet, and is
read as the segment of the name. The boundary stands in the token as often as a separator in the
name, overlaps counted. Any other token has no separator. Every token is a possible name of a class:
it is not empty, holds nothing that descriptors or signatures reserve and no blank, and both read it
as one class. -/
theorem token_shape (m : Markers) (h : m.encode name isClass = .ok token) :
    (isClass = true →
      List.Forall₂ (fun segment package => ∃ body, m.IsSegment segment package body)
          (token.toList.splitOn '/') (name.toList.splitOn '/') ∧
        occurrences m.boundary token.toList = name.toList.count '/') ∧
      (isClass = false → '/' ∉ token.toList) ∧
      token ≠ "" ∧ (∀ c ∈ token.toList, c ∉ reservedLetters ∧ isBlank c = false) ∧
      TypeDescriptor.parse (objectType token) = .ok (.value ⟨0, .object token⟩) ∧
      ∀ f : String → Traced String String,
        Signature.rename f (objectType token) = objectType <$> f token := by
  have letters := mem_encode h
  have possible := isClassName_encode h
  refine ⟨?_, ?_, ?_, fun c hc => ⟨reservedLetters_notMem (letters c hc),
    isBlank_of_isTokenChar (letters c hc)⟩, parse_objectType possible,
    fun f => rename_objectType f possible⟩
  · rintro rfl
    obtain ⟨_, rfl⟩ := encode_eq_ok_iff.1 h
    rw [String.toList_ofList]
    refine ⟨?_, occurrences_boundary name.toList⟩
    rw [splitOn_encodeText, List.forall₂_map_left_iff]
    exact List.forall₂_same.2 fun package _ => ⟨_, m.isSegment_encodeText package⟩
  · rintro rfl
    obtain ⟨_, rfl⟩ := encode_eq_ok_iff.1 h
    rw [String.toList_ofList]
    exact m.slash_notMem_encode name.toList
  · rintro rfl
    exact possible.nonempty rfl

/-- A class with an empty package and one that looks like a marker, and markers that overlap with the
escapes. -/
theorem token_shape_overlapping :
    ∃ m : Markers, Markers.ofTexts "a_" "__b" = .ok m ∧
      let token := "a___b/a_a_005f__b/a__d83d_de00__b"
      m.encode "/a_/😀" true = .ok token ∧
        List.Forall₂ (fun segment package => ∃ body, m.IsSegment segment package body)
          (token.toList.splitOn '/') [[], ['a', '_'], ['😀']] ∧
        occurrences m.boundary token.toList = 2 ∧
        TypeDescriptor.parse (objectType token) = .ok (.value ⟨0, .object token⟩) ∧
        ∀ f : String → Traced String String,
          Signature.rename f (objectType token) = objectType <$> f token := by
  let m : Markers := ⟨['a', '_'], ['_', '_', 'b'], wellFormed_of_checks (by decide) (by decide)
    (by decide) (by decide)⟩
  refine ⟨m, toOption_eq_some_iff.1 (by decide +kernel), ?_⟩
  intro token
  have h : m.encode "/a_/😀" true = .ok token :=
    encode_eq_ok_iff.2 ⟨by decide +kernel, by decide +kernel⟩
  obtain ⟨cut, _, _, _, descriptor, signature⟩ := token_shape m h
  exact ⟨h, (cut rfl).1, (cut rfl).2, descriptor, signature⟩

end Markers

end Pseudonym
