import Pseudonym.Proofs.FileTree.Path
import Pseudonym.Proofs.Token

/-!
# Tokens as names of files

A token holds no point, and its slashes stand between markers. So a token with `.json` behind it is
a plain path whose parts all start with a character of tokens, no such path leads to another one,
and different names have different paths.
-/

namespace Pseudonym.Markers

open Text Pseudonym.Path

variable {m : Markers} {name name' token : String}

theorem slash_notMem {text : List Char} (chars : ∀ c ∈ text, isTokenChar c = true) :
    '/' ∉ text := fun slash => absurd (chars '/' slash) (by decide)

/-- Whether a text starts with a character of tokens. -/
def StartsToken (text : List Char) : Prop := text.head?.any isTokenChar = true

theorem startsToken_append {text : List Char} (nonempty : text ≠ [])
    (chars : ∀ c ∈ text, isTokenChar c = true) (rest : List Char) : StartsToken (text ++ rest) := by
  obtain ⟨c, text, rfl⟩ := List.exists_cons_of_ne_nil nonempty
  exact chars c List.mem_cons_self

/-- **Each part of a token starts like a token**, whatever stands before and behind the token. -/
theorem startsToken_of_mem_splitOn (name after : List Char) {before : List Char}
    (nonempty : before ≠ []) (chars : ∀ c ∈ before, isTokenChar c = true) (noSlash : '/' ∉ after) :
    ∀ piece ∈
        (before ++ (name.flatMap (m.encodeChar true) ++ m.closing ++ after)).splitOn '/',
      StartsToken piece := by
  have closing := m.wellFormed.closing_chars
  induction name generalizing before with
  | nil =>
    have whole : '/' ∉ before ++ (m.closing ++ after) := by
      simp [slash_notMem chars, slash_notMem closing, noSlash]
    rw [List.flatMap_nil, List.nil_append, List.splitOn_eq_singleton whole,
      List.forall_mem_singleton]
    exact startsToken_append nonempty chars _
  | cons c name ih =>
    rw [List.flatMap_cons, List.append_assoc (m.encodeChar true c)]
    -- Only a slash ends the part; whatever else is written belongs to what stands before.
    rcases m.encodeChar_cases true c with ⟨letter, written⟩ | ⟨_, _, written⟩ | written
    · rw [written, List.append_assoc, ← List.append_assoc before]
      refine ih (by simp) ?_
      simpa [or_imp, forall_and] using ⟨chars, isTokenChar_of_isAlphanum letter⟩
    · rw [written, boundary, List.append_assoc, List.append_assoc, List.cons_append,
        ← List.append_assoc before, List.splitOn_append_cons_self, List.splitOn_eq_singleton]
      · rw [List.singleton_append, List.forall_mem_cons]
        exact ⟨startsToken_append nonempty chars _,
          ih m.wellFormed.opening_ne_nil m.wellFormed.opening_chars⟩
      · simp [slash_notMem chars, slash_notMem closing]
    · rw [written, List.append_assoc, ← List.append_assoc before]
      refine ih (by simp [nonempty]) fun d hd => (List.mem_append.1 hd).elim (chars d) fun hd => ?_
      obtain ⟨u, _, hd⟩ := List.mem_flatMap.1 hd
      exact isTokenChar_of_mem_escape hd

/-- A token with `.json` behind it is a plain path. -/
theorem isPlain_of_encode (h : m.encode name true = .ok token) : IsPlain (token ++ ".json") := by
  obtain ⟨_, rfl⟩ := encode_eq_ok_iff.1 h
  intro part hpart
  obtain ⟨piece, hpiece, rfl⟩ := List.mem_map.1 hpart
  have starts : StartsToken piece := by
    refine startsToken_of_mem_splitOn (m := m) name.toList ".json".toList
      m.wellFormed.opening_ne_nil m.wellFormed.opening_chars (by decide) piece ?_
    simpa [encodeText] using hpiece
  constructor
  · rw [isIdle, Bool.or_eq_false_iff, beq_eq_false_iff_ne, beq_eq_false_iff_ne]
    constructor
    · intro empty
      rw [show piece = [] by simpa using congrArg String.toList empty] at starts
      cases starts
    · intro point
      rw [show piece = ['.'] by simpa using congrArg String.toList point] at starts
      exact absurd starts (by unfold StartsToken; decide)
  · intro points
    rw [show piece = ['.', '.'] by simpa using congrArg String.toList points] at starts
    exact absurd starts (by unfold StartsToken; decide)

theorem point_notMem_encode (h : m.encode name true = .ok token) : '.' ∉ token.toList :=
  notMem_encode (by decide) (by decide) h

/-- Nothing with `.json` behind it is on the way to the file of a token. -/
theorem not_leadsTo_of_encode (h : m.encode name true = .ok token) (other : String) :
    ¬LeadsTo (other ++ ".json") (token ++ ".json") := by
  rintro ⟨rest, written⟩
  have text : token.toList ++ '.' :: "json".toList =
      other.toList ++ '.' :: ("json".toList ++ '/' :: rest.toList) := by
    simpa using congrArg String.toList written
  have behind := ((List.append_cons_inj_of_notMem (point_notMem_encode h) (by decide)).1 text).2.2
  simp at behind

/-- **Different names have different files.** -/
theorem name_eq_of_encode (h : m.encode name true = .ok token)
    (h' : m.encode name' true = .ok token) : name = name' :=
  Except.ok.inj ((decode_of_encode h).symm.trans (decode_of_encode h'))

end Pseudonym.Markers
