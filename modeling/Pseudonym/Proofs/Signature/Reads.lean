import Pseudonym.Proofs.Signature.Name
import Pseudonym.Proofs.Text

/-!
# Signatures that are read to the end

A signature without a fault is read in four kinds of steps: a character stays, a class type is
closed, a name in a class type goes by with the character behind it, or the text ends where it may.
`Reads s text pieces` says that from the state `s` on the text is read in such steps and gives the
pieces. It holds exactly if the reader finds no fault (`reads_scanFrom`, `Reads.scanFrom_eq`), and
offsets have no part in it, so that what is true of all accepted signatures is proved by induction
on it.

Accepted signatures are written in many ways: with old names, with new ones, with what restoring
makes of these. All of them are spellings of the same pieces (`spelled`), and differ in what they
show for the class that a class type starts with and for the suffix of a class that is nested in
another one (`links`),

    start name          for the first class of a type,
    suffix outer name   for a class behind a point.
-/

namespace Pseudonym.Signature

open Text

/-! ### Reading -/

/-- From a state between two characters or before a name, a text is read to its end without a fault,
and gives pieces. -/
inductive Reads : State → List Char → List Piece → Prop
  | done {s : State} (may : s.faultAtEnd = none) : Reads s [] []
  | char {s next : State} {c : Char} {rest : List Char} {pieces : List Piece}
      (outside : ∀ outer reversed, s.mode ≠ .segment outer reversed)
      (stepped : ∀ place, step s c place = .ok (next, [.char c]))
      (around : next.around = s.around) (behind : Reads next rest pieces) :
      Reads s (c :: rest) (.char c :: pieces)
  | close {s next : State} {name : String} {rest : List Char} {pieces : List Piece}
      (outside : ∀ outer reversed, s.mode ≠ .segment outer reversed)
      (stepped : ∀ place, step s ';' place = .ok (next, [.close]))
      (around : s.around = name :: next.around) (behind : Reads next rest pieces) :
      Reads s (';' :: rest) (.close :: pieces)
  | name {part : Part} {enclosing : List String} {outer : Option String} {simple : List Char}
      {stop : Char} {rest : List Char} {pieces : List Piece} (full : simple ≠ [])
      (letters : ∀ c ∈ simple, endsName c = false) (ends : endsName stop = true)
      (behind : Reads (behindName part enclosing (nestedName outer simple) stop) rest pieces) :
      Reads ⟨part, enclosing, .segment outer []⟩ (simple ++ stop :: rest)
        (segmentPiece outer simple :: stopPiece stop :: pieces)

/-- **What the reader accepts is read in these steps.** -/
theorem reads_scanFrom {s : State} {text : List Char} {place : Nat} (pending : s.mode.pending = [])
    (sound : (scanFrom place s text).fault = none) : Reads s text (scanFrom place s text).pieces := by
  obtain ⟨part, enclosing, mode⟩ := s
  by_cases segment : ∃ outer reversed, mode = .segment outer reversed
  · obtain ⟨outer, reversed, rfl⟩ := segment
    obtain rfl : reversed = [] := by simpa [Mode.pending] using pending
    obtain ⟨simple, stop, rest, rfl, letters, ends, full⟩ := exists_end_of_scanFrom sound
    replace full : simple ≠ [] := by simpa using full
    obtain ⟨place', read⟩ := scanFrom_name part enclosing outer ends full letters place rest
    rw [read] at sound ⊢
    exact .name full letters ends (reads_scanFrom (pending_behindName _ _) sound)
  · cases text with
    | nil => exact .done sound
    | cons c rest =>
      cases stepped : step ⟨part, enclosing, mode⟩ c place with
      | error fault => exact absurd sound (by simp [scanFrom, stepped])
      | ok result =>
        obtain ⟨next, pieces⟩ := result
        have outside : ∀ outer reversed, mode ≠ .segment outer reversed := by simpa using segment
        have everywhere := step_at outside stepped
        simp only [scanFrom, stepped] at sound ⊢
        rcases keeps_or_closes_of_step stepped outside with
          ⟨rfl, around, fresh⟩ | ⟨rfl, rfl, name, around, fresh⟩
        · exact .char outside everywhere around (reads_scanFrom fresh sound)
        · exact .close outside everywhere around (reads_scanFrom fresh sound)
termination_by text.length

theorem Reads.scanFrom_eq {s : State} {text : List Char} {pieces : List Piece}
    (h : Reads s text pieces) (place : Nat) : scanFrom place s text = ⟨pieces, none⟩ := by
  induction h generalizing place with
  | done may => rw [scanFrom, may]
  | char _ stepped _ _ ih | close _ stepped _ _ ih =>
    rw [scanFrom, stepped]
    dsimp only
    rw [ih]
    rfl
  | @name part enclosing outer simple stop rest pieces full letters ends _ ih =>
    obtain ⟨place', read⟩ := scanFrom_name part enclosing outer ends full letters place rest
    rw [read, ih]

theorem reads_scan {signature : List Char} (h : (scan signature).fault = none) :
    Reads .initial signature (scan signature).pieces :=
  reads_scanFrom rfl h

/-! ### Nested classes -/

/-- The classes that class types start with. -/
def starts : List Piece → List String
  | [] => []
  | .char _ :: pieces | .close :: pieces | .inner _ :: pieces => starts pieces
  | .outer name :: pieces => name :: starts pieces

/-- The classes behind a point, each with the class in front of it. `around` holds the classes of
the class types that are open, innermost first. -/
def links : (around : List String) → List Piece → List (String × String)
  | _, [] => []
  | around, .char _ :: pieces => links around pieces
  | around, .close :: pieces => links around.tail pieces
  | around, .outer name :: pieces => links (name :: around) pieces
  | around, .inner name :: pieces => (around.headD "", name) :: links (name :: around.tail) pieces

/-- Pieces with a spelling for the class that a class type starts with and for each suffix. -/
def spelled (start : String → List Char) (suffix : String → String → List Char) :
    (around : List String) → List Piece → List Char
  | _, [] => []
  | around, .char c :: pieces => c :: spelled start suffix around pieces
  | around, .close :: pieces => ';' :: spelled start suffix around.tail pieces
  | around, .outer name :: pieces => start name ++ spelled start suffix (name :: around) pieces
  | around, .inner name :: pieces =>
    suffix (around.headD "") name ++ spelled start suffix (name :: around.tail) pieces

/-- What a spelling shows for a name in a class type. -/
def segmentText (start : String → List Char) (suffix : String → String → List Char)
    (outer : Option String) (name : String) : List Char :=
  match outer with
  | none => start name
  | some outer => suffix outer name

section

variable {start : String → List Char} {suffix : String → String → List Char} {part : Part}
  {enclosing : List String} {outer : Option String} {simple : List Char} {stop : Char}
  {pieces : List Piece}

theorem spelled_name (part : Part) (ends : endsName stop = true) :
    spelled start suffix (State.around ⟨part, enclosing, .segment outer []⟩)
        (segmentPiece outer simple :: stopPiece stop :: pieces) =
      segmentText start suffix outer (nestedName outer simple) ++ stop ::
        spelled start suffix
          (behindName part enclosing (nestedName outer simple) stop).around pieces := by
  have behind : spelled start suffix (nestedName outer simple :: enclosing)
        (stopPiece stop :: pieces) =
      stop :: spelled start suffix
        (behindName part enclosing (nestedName outer simple) stop).around pieces := by
    rcases around_behindName part enclosing (nestedName outer simple) ends with
      ⟨stays, around⟩ | ⟨rfl, around⟩
    · rw [stays, around]
      rfl
    · rw [around]
      rfl
  rw [← behind, around_segment]
  cases outer with
  | none => rfl
  | some outer => rfl

theorem links_name (part : Part) (ends : endsName stop = true) :
    links (State.around ⟨part, enclosing, .segment outer []⟩)
        (segmentPiece outer simple :: stopPiece stop :: pieces) =
      (outer.map (·, nestedName outer simple)).toList ++
        links (behindName part enclosing (nestedName outer simple) stop).around pieces := by
  have behind : links (nestedName outer simple :: enclosing) (stopPiece stop :: pieces) =
      links (behindName part enclosing (nestedName outer simple) stop).around pieces := by
    rcases around_behindName part enclosing (nestedName outer simple) ends with
      ⟨stays, around⟩ | ⟨rfl, around⟩
    · rw [stays, around]
      rfl
    · rw [around]
      rfl
  rw [← behind, around_segment]
  cases outer with
  | none => rfl
  | some outer => rfl

theorem starts_name (outer : Option String) (simple : List Char) (stop : Char)
    (pieces : List Piece) :
    starts (segmentPiece outer simple :: stopPiece stop :: pieces) =
      (if outer.isNone then [nestedName outer simple] else []) ++ starts pieces := by
  have silent : starts (stopPiece stop :: pieces) = starts pieces := by
    unfold stopPiece
    split
    · rfl
    · rfl
  cases outer with
  | none => exact congrArg _ silent
  | some outer => exact silent

end

namespace Reads

variable {s : State} {text : List Char} {pieces : List Piece}

/-- The text is the spelling that shows every class as it is. -/
theorem spelled_eq (h : Reads s text pieces) :
    spelled String.toList simpleName s.around pieces = text := by
  induction h with
  | done => rfl
  | char _ _ around _ ih =>
    rw [around] at ih
    rw [spelled, ih]
  | close _ _ around _ ih =>
    rw [around, spelled, List.tail_cons, ih]
  | @name part enclosing outer simple stop rest pieces _ _ ends _ ih =>
    rw [spelled_name part ends, ih]
    cases outer with
    | none => rw [segmentText, nestedName, String.toList_ofList]
    | some outer => rw [segmentText, simpleName_nested]

/-- New names give a spelling of the pieces. -/
theorem renamedPieces_eq (h : Reads s text pieces) (g : String → String) :
    renamedPieces g (s.around.map g) pieces =
      spelled (fun name => (g name).toList) (fun outer name => simpleName (g outer) (g name))
        s.around pieces := by
  induction h with
  | done => rfl
  | char _ _ around _ ih =>
    rw [around] at ih
    rw [spelled, renamedPieces, ih]
  | close _ _ around _ ih =>
    rw [around, List.map_cons, spelled, renamedPieces, List.tail_cons, List.tail_cons, ih]
  | @name part enclosing outer simple stop rest pieces _ _ ends _ ih =>
    rw [← around_map, map_behindName] at ih
    rw [spelled_name part ends, ← ih, ← renamedPieces_stopPiece part _ _ ends, around_segment]
    cases outer with
    | none => rfl
    | some outer => rfl

/-- A class type can show every class that is named. -/
theorem isName (h : Reads s text pieces) (names : ∀ name ∈ s.around, IsName name) :
    ∀ name ∈ pieceNames pieces, IsName name := by
  induction h with
  | done => simp [pieceNames]
  | char _ _ around _ ih => exact ih (by rwa [around])
  | close _ _ around _ ih =>
    rw [around] at names
    exact ih (List.forall_mem_cons.1 names).2
  | @name part enclosing outer simple stop rest pieces full letters ends _ ih =>
    rw [around_segment, List.forall_mem_append] at names
    have named : IsName (nestedName outer simple) :=
      isName_nestedName (fun name hn => names.1 name (Option.mem_toList.2 hn)) full letters
    rw [pieceNames_segmentPiece, pieceNames_stopPiece, List.forall_mem_cons]
    exact ⟨named, ih (forall_around_behindName named names.2 ends)⟩

/-- **Two spellings that differ in their suffixes differ.** -/
theorem spelled_inj {start : String → List Char} {suffix suffix' : String → String → List Char}
    (h : Reads s text pieces)
    (letters : ∀ link ∈ links s.around pieces, (∀ c ∈ suffix link.1 link.2, endsName c = false) ∧
      ∀ c ∈ suffix' link.1 link.2, endsName c = false) :
    spelled start suffix s.around pieces = spelled start suffix' s.around pieces ↔
      ∀ link ∈ links s.around pieces, suffix link.1 link.2 = suffix' link.1 link.2 := by
  induction h with
  | done => simp [spelled, links]
  | @char s next c rest pieces _ _ around _ ih =>
    rw [around] at ih
    rw [spelled, spelled, List.cons_inj_right]
    exact ih letters
  | @close s next name rest pieces _ _ around _ ih =>
    rw [around, links, List.tail_cons] at letters
    rw [around, spelled, spelled, links, List.tail_cons, List.cons_inj_right]
    exact ih letters
  | @name part enclosing outer simple stop rest pieces _ _ ends _ ih =>
    rw [links_name part ends, List.forall_mem_append] at letters
    rw [spelled_name part ends, spelled_name part ends, links_name part ends,
      List.forall_mem_append]
    cases outer with
    | none => simpa [segmentText] using ih letters.2
    | some outer =>
      obtain ⟨here, here'⟩ := letters.1 _ List.mem_cons_self
      rw [segmentText, segmentText, append_cons_inj ends here here', ih letters.2]
      simp

theorem mem_starts (h : Reads s text pieces) {name : String} (hn : name ∈ starts pieces) :
    name ∈ pieceNames pieces ∧ name.toList <:+: text := by
  induction h with
  | done => cases hn
  | char _ _ _ _ ih | close _ _ _ _ ih =>
    obtain ⟨named, inside⟩ := ih hn
    exact ⟨named, inside.trans (List.suffix_cons _ _).isInfix⟩
  | @name part enclosing outer simple stop rest pieces _ _ _ _ ih =>
    rw [pieceNames_segmentPiece, pieceNames_stopPiece]
    rw [starts_name] at hn
    rcases List.mem_append.1 hn with here | there
    · cases outer with
      | none =>
        obtain rfl : name = nestedName none simple := by simpa using here
        refine ⟨List.mem_cons_self, ?_⟩
        rw [nestedName, String.toList_ofList]
        exact (List.prefix_append _ _).isInfix
      | some outer => cases here
    · obtain ⟨named, inside⟩ := ih there
      refine ⟨List.mem_cons_of_mem _ named, inside.trans ?_⟩
      exact ((List.suffix_cons _ _).trans (List.suffix_append _ _)).isInfix

/-- A class behind a point has the name of the class in front of it and a suffix from the text. -/
theorem mem_links (h : Reads s text pieces) {link : String × String}
    (hl : link ∈ links s.around pieces) :
    link.2 ∈ pieceNames pieces ∧ (link.1 ∈ s.around ∨ link.1 ∈ pieceNames pieces) ∧
      ∃ simple, link.2 = nestedName (some link.1) simple ∧ simple ≠ [] ∧
        (∀ c ∈ simple, endsName c = false) ∧ simple <:+: text := by
  induction h with
  | done => cases hl
  | @char s next c rest pieces _ _ around _ ih =>
    obtain ⟨inner, outer, simple, nested, full, letters, inside⟩ := ih (around ▸ hl)
    rw [around] at outer
    exact ⟨inner, outer, simple, nested, full, letters, inside.trans (List.suffix_cons _ _).isInfix⟩
  | @close s next name rest pieces _ _ around _ ih =>
    rw [around, links, List.tail_cons] at hl
    obtain ⟨inner, outer, simple, nested, full, letters, inside⟩ := ih hl
    refine ⟨inner, ?_, simple, nested, full, letters, inside.trans (List.suffix_cons _ _).isInfix⟩
    rw [around]
    exact outer.imp_left (List.mem_cons_of_mem name)
  | @name part enclosing outer simple stop rest pieces full letters ends _ ih =>
    rw [pieceNames_segmentPiece, pieceNames_stopPiece, around_segment]
    rw [links_name part ends] at hl
    rcases List.mem_append.1 hl with here | there
    · obtain ⟨name, rfl, rfl⟩ := Option.map_eq_some_iff.1 (Option.mem_toList.1 here)
      refine ⟨List.mem_cons_self, Or.inl List.mem_cons_self, simple, rfl, full, letters, ?_⟩
      exact (List.prefix_append _ _).isInfix
    · obtain ⟨inner, front, suffix⟩ := ih there
      obtain ⟨simple', nested, full', letters', inside⟩ := suffix
      refine ⟨List.mem_cons_of_mem _ inner, ?_, simple', nested, full', letters', inside.trans ?_⟩
      · rcases front with opened | named
        · rcases around_behindName part enclosing (nestedName outer simple) ends with
            ⟨-, around⟩ | ⟨-, around⟩
          · rw [around] at opened
            rcases List.mem_cons.1 opened with same | inside
            · exact Or.inr (same ▸ List.mem_cons_self)
            · exact Or.inl (List.mem_append_right _ inside)
          · rw [around] at opened
            exact Or.inl (List.mem_append_right _ opened)
        · exact Or.inr (List.mem_cons_of_mem _ named)
      · exact ((List.suffix_cons _ _).trans (List.suffix_append _ _)).isInfix

end Reads

end Pseudonym.Signature
