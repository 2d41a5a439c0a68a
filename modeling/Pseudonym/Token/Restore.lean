import Pseudonym.Token

/-!
# Restoring names in text

Text that was written about renamed classes holds tokens between punctuation of any kind, and shows
package separators as points. Each framed token is therefore read on its own. `segments` cuts a text
into what is kept and what is a token; whatever does not decode is kept, and the search goes on
behind its opening marker.

Behind most opening markers that stand alone a look at a few characters shows that no token can be
there (`reachesClosing`). This saves time and changes nothing: the token behind an opening marker is
always what the first closing marker ends (`framed?_eq`).
-/

namespace Pseudonym.Markers

open Text

/-- A stretch of a text: kept as it is, or a token of which the body and the name are given. -/
inductive Segment where
  | kept (text : List Char)
  | token (body name : List Char)
deriving DecidableEq, Repr

/-- The text of a segment before tokens are restored. -/
def Segment.written (m : Markers) : Segment → List Char
  | kept text => text
  | token body _ => m.opening ++ body ++ m.closing

/-- The text of a segment after tokens are restored. -/
def Segment.restored : Segment → List Char
  | kept text => text
  | token _ name => name

/-- Whether a segment is a token. -/
def Segment.isToken : Segment → Bool
  | kept _ => false
  | token .. => true

/-- The name of a token in text by its body. No boundary counts there: the body of such a token
holds token characters only. -/
def name? (m : Markers) (body : List Char) : Option (List Char) :=
  if body.all isTokenChar then (m.decodeBody body).toOption else none

/-- Whether letters, digits and escapes lead up to a closing marker. The search ends at the first
character that is none of these. -/
def reachesClosing (m : Markers) : List Char → Bool
  | [] => false
  | '_' :: rest =>
    m.closing.isPrefixOf ('_' :: rest) ||
      match rest with
      | a :: b :: c :: d :: after =>
        (wordOfHex? lowerHexValue? a b c d).isSome && reachesClosing m after
      | _ => false
  | c :: rest => c.isAlphanum && reachesClosing m rest

/-- The body and the name of the token of which `framed` is what follows its opening marker, and
what follows the token. The body ends at the first closing marker. -/
def framed? (m : Markers) (framed : List Char) : Option (List Char × List Char × List Char) :=
  if m.reachesClosing framed then
    match cut? m.closing framed with
    | none => none
    | some (body, rest) => (m.name? body).map (body, ·, rest)
  else none

theorem eq_of_framed? {m : Markers} {framed body name rest : List Char}
    (h : m.framed? framed = some (body, name, rest)) :
    cut? m.closing framed = some (body, rest) ∧ m.name? body = some name := by
  unfold framed? at h
  split at h
  · split at h
    · cases h
    · rename_i halves
      obtain ⟨found, named, same⟩ := Option.map_eq_some_iff.1 h
      cases same
      exact ⟨halves, named⟩
  · cases h

/-- The segments of a text, in order. A token reaches from an opening marker to the first closing
marker behind it. -/
def segments (m : Markers) (text : List Char) : List Segment :=
  match _h : cut? m.opening text with
  | none => [.kept text]
  | some (before, framed) =>
    match _h' : m.framed? framed with
    | some (body, name, rest) => .kept before :: .token body name :: segments m rest
    | none => .kept (before ++ m.opening) :: segments m framed
termination_by text.length
decreasing_by
  · have := length_of_cut? _h
    have := length_of_cut? (eq_of_framed? _h').1
    have := List.length_pos_iff.2 m.wellFormed.opening_ne_nil
    omega
  · have := length_of_cut? _h
    have := List.length_pos_iff.2 m.wellFormed.opening_ne_nil
    omega

/-- The text with every token replaced by its name, or `none` if it holds no token. -/
def restore? (m : Markers) (text : String) : Option String :=
  let segments := m.segments text.toList
  if segments.any Segment.isToken then some (String.ofList (segments.flatMap Segment.restored))
  else none

/-- The text with every token replaced by its name. -/
def restore (m : Markers) (text : String) : String := (m.restore? text).getD text

/-- The segments of a text make it up. -/
theorem flatMap_written_segments (m : Markers) (text : List Char) :
    (m.segments text).flatMap (Segment.written m) = text := by
  fun_induction segments m text with
  | case1 text => simp [Segment.written]
  | case2 text before framed h body name rest h' ih =>
    simp [Segment.written, ih, append_of_cut? h, append_of_cut? (eq_of_framed? h').1]
  | case3 text before framed h h' ih =>
    simp [Segment.written, ih, append_of_cut? h]

/-! ### Where a token may be -/

theorem reachesClosing_underscore (m : Markers) (rest : List Char) :
    m.reachesClosing ('_' :: rest) = (m.closing.isPrefixOf ('_' :: rest) ||
      match rest with
      | a :: b :: c :: d :: after =>
        (wordOfHex? lowerHexValue? a b c d).isSome && m.reachesClosing after
      | _ => false) := by
  rw [reachesClosing.eq_def]
  rfl

theorem reachesClosing_of_ne (m : Markers) {c : Char} (h : c ≠ '_') (rest : List Char) :
    m.reachesClosing (c :: rest) = (c.isAlphanum && m.reachesClosing rest) := by
  rw [reachesClosing.eq_def]
  simp

theorem reachesClosing_closing (m : Markers) (rest : List Char) :
    m.reachesClosing (m.closing ++ rest) = true := by
  obtain ⟨tail, _, closes⟩ := m.wellFormed.delimiter_closing
  have same : m.closing ++ rest = '_' :: ('_' :: tail ++ rest) := by simp [closes, delimiter]
  have starts : m.closing.isPrefixOf ('_' :: ('_' :: tail ++ rest)) = true := by
    rw [← same]
    simp
  rw [same, reachesClosing_underscore, starts, Bool.true_or]

/-- What decodes as the body of a token reaches the closing marker behind it. -/
theorem reachesClosing_of_bodyUnits (m : Markers) {body : List Char} {units : List UInt16}
    (hc : ∀ c ∈ body, isTokenChar c = true) (h : m.bodyUnits body = .ok units) (rest : List Char) :
    m.reachesClosing (body ++ m.closing ++ rest) = true := by
  fun_induction bodyUnits m body generalizing units with
  | case1 => simpa using m.reachesClosing_closing rest
  | case2 behind _ after found =>
    have inside : '/' ∈ '_' :: behind := by
      simp [← append_of_isPrefixOf? found, boundary]
    exact absurd (hc _ inside) (by decide)
  | case3 | case5 | case6 => cases h
  | case4 a b c d after u word _ ih =>
    cases decoded : m.bodyUnits after with
    | error => simp [decoded, bind, Except.bind] at h
    | ok units =>
      have reached := ih (fun c hm => hc c (by simp [hm])) decoded
      rw [List.append_assoc] at reached
      simp [reachesClosing_underscore, word, reached]
  | case7 | case8 => exact absurd (hc '/' (by simp)) (by decide)
  | case9 c behind plain _ ih =>
    cases decoded : m.bodyUnits behind with
    | error => simp [decoded, bind, Except.bind] at h
    | ok units =>
      have reached := ih (fun c hm => hc c (by simp [hm])) decoded
      rw [List.append_assoc] at reached
      have letter : c.isAlphanum = true := by
        simpa [isTokenChar, show c ≠ '_' from plain] using hc c (by simp)
      simp [reachesClosing_of_ne m plain, letter, reached]

/-- The body of a token holds token characters, and units can be read from it. -/
theorem units_of_name? {m : Markers} {body name : List Char} (h : m.name? body = some name) :
    (∀ c ∈ body, isTokenChar c = true) ∧ ∃ units, m.bodyUnits body = .ok units := by
  unfold name? at h
  split at h
  · next chars =>
    refine ⟨List.all_eq_true.1 chars, ?_⟩
    cases decoded : m.bodyUnits body with
    | error => simp [decodeBody, decoded, bind, Except.bind, Except.toOption] at h
    | ok units => exact ⟨units, rfl⟩
  · cases h

/-- The token behind an opening marker is what the first closing marker ends, if that decodes. -/
theorem framed?_eq (m : Markers) (framed : List Char) :
    m.framed? framed =
      match cut? m.closing framed with
      | none => none
      | some (body, rest) => (m.name? body).map (body, ·, rest) := by
  unfold framed?
  split
  · rfl
  · next stops =>
    split
    · rfl
    · next body rest halves =>
      cases named : m.name? body with
      | none => rfl
      | some name =>
        obtain ⟨chars, units, decoded⟩ := units_of_name? named
        refine absurd ?_ stops
        rw [append_of_cut? halves]
        exact m.reachesClosing_of_bodyUnits chars decoded rest

end Pseudonym.Markers
